import Drunix.Lib.Like
import Drunix.Ledger.Validation.PvtBatch
import Drunix.Ledger.StateSql.Versions

namespace Drunix.Ledger.StateSql

open Lib Proto Validation Outcome List

structure TextOps where
  valid : Bytes → Bool
  lower : Bytes → Bytes

def octalDigits (c : UInt8) : Bytes :=
  [0x30 + c / 64, 0x30 + c / 8 % 8, 0x30 + c % 8]

/-- `encode(key, 'escape')`: zero bytes and bytes of more than seven bits in octal, backslashes doubled. -/
def encodeEscape (key : Bytes) : Bytes :=
  key.flatMap fun c => if c = 0x00 ∨ 0x80 ≤ c then 0x5c :: octalDigits c else if c = 0x5c then [0x5c, 0x5c] else [c]

/-- The pattern of a scan. A zero byte of the key becomes an escaped backslash and three digits; nothing
else of the key is escaped. -/
def scanPattern (key : Bytes) : Bytes :=
  ascii "%" ++ (key.flatMap fun c => if c = 0x00 then ascii "\\\\000" else [c]) ++ ascii "%"

def TextOps.matchesScan (text : TextOps) (key rowKey : Bytes) : Bool :=
  like (text.lower (scanPattern key)) (text.lower (encodeEscape rowKey))

def scanStart (startKey : Bytes) : Bytes :=
  if startKey = [0x01] then [] else startKey

namespace SqlSchema

section

variable (s : SqlSchema) (text : TextOps) (rows : AMap TableKey VersionedValue)

def scanMatches (key : Bytes) : List (Bytes × VersionedValue) :=
  (rows.entries.filter fun e => e.1.1 = (s.getTable key).table && text.matchesScan key e.1.2).map fun e => (e.1.2, e.2)

/-- `SqlScanner.Next` until it returns nil, with `remaining` rows of the page left. Each call is a query of
its own for the row at offset `cursor`; `order` is the order in which that query lists the rows. -/
def scanFrom (order : Nat → List (Bytes × VersionedValue)) : Nat → Nat → Outcome Unit (List (Bytes × VersionedValue))
  | 0, _ => .ok []
  | remaining + 1, cursor =>
    match (order cursor)[cursor]? with
    | none => .ok []
    | some row => do
        let (_, key) ← decodeDataKey row.1
        let rest ← scanFrom order remaining (cursor + 1)
        return (key, row.2) :: rest

/-- `GetStateRangeScanIteratorWithPagination`, iterated to the end. A pattern that is no text is refused
by the query. -/
def rangeScanWithPagination (order : Nat → List (Bytes × VersionedValue)) (ns startKey _endKey : Bytes) (pageSize : Int) :
    Outcome Unit (List (Bytes × VersionedValue)) :=
  let encodedDataKey := encodeDataKey ns (scanStart startKey)
  if 0 < pageSize ∧ !text.valid (scanPattern encodedDataKey) then .err () else scanFrom order pageSize.toNat 0

def rangeScan (order : Nat → List (Bytes × VersionedValue)) (ns startKey endKey : Bytes) :
    Outcome Unit (List (Bytes × VersionedValue)) :=
  rangeScanWithPagination text order ns startKey endKey 10

def committedRange (ns startKey endKey : Bytes) : List (Bytes × VersionedValue) :=
  sortByKey (rows.entries.filterMap fun e =>
    (keyIn ns e.1.2).bind fun key =>
      if e.1.1 = (s.getTable e.1.2).table ∧ InRange startKey endKey key then some (key, e.2) else none)

end

variable {l : List (Bytes × VersionedValue)}

section

variable {order : Nat → List (Bytes × VersionedValue)}

variable {remaining cursor : Nat}

theorem scanFrom_of_none (h : (order cursor)[cursor]? = none) : scanFrom order (remaining + 1) cursor = .ok [] := by
  rw [scanFrom, h]

theorem scanFrom_of_some (h : (order cursor)[cursor]? = some row) :
    scanFrom order (remaining + 1) cursor = do
      let (_, key) ← decodeDataKey row.1
      let rest ← scanFrom order remaining (cursor + 1)
      return (key, row.2) :: rest := by
  rw [scanFrom, h]

theorem scanFrom_eq_ok (hrw : (order cursor)[cursor]? = some row) (h : scanFrom order (remaining + 1) cursor = .ok l) :
    ∃ ns key rest, decodeDataKey row.1 = .ok (ns, key) ∧ scanFrom order remaining (cursor + 1) = .ok rest ∧
      l = (key, row.2) :: rest := by
  rw [scanFrom_of_some hrw, bind_eq_ok] at h
  obtain ⟨⟨ns, key⟩, hd, h⟩ := h
  obtain ⟨rest, hr, h⟩ := bind_eq_ok.mp h
  exact ⟨ns, key, rest, hd, hr, (ok.inj h).symm⟩

end

section

variable {s : SqlSchema} {rows : AMap TableKey VersionedValue} {ns startKey endKey : Bytes}

theorem keySorted_committedRange : KeySorted (s.committedRange rows ns startKey endKey) := by
  apply keySorted_sortByKey
  rw [nodup_iff_pairwise_ne, pairwise_map, pairwise_filterMap]
  refine (pairwise_map.mp rows.nodupKeys).imp ?_
  intro e e' hne a ha b hb hab
  obtain ⟨key, hk, hif⟩ := Option.bind_eq_some_iff.mp ha
  obtain ⟨key', hk', hif'⟩ := Option.bind_eq_some_iff.mp hb
  split_ifs at hif hif' with hp hp'
  cases hif
  cases hif'
  have hd : e.1.2 = e'.1.2 := by
    rw [keyIn_eq_some.mp hk, keyIn_eq_some.mp hk', show key = key' from hab]
  exact hne (Prod.ext (by rw [hp.1, hp'.1, hd]) hd)

end

def Listed (found : List (Bytes × VersionedValue)) (order : Nat → List (Bytes × VersionedValue)) : Prop :=
  ∀ cursor, (order cursor).Perm found

def ScansOne (found : List (Bytes × VersionedValue)) (pageSize : Nat) (range : List (Bytes × VersionedValue)) : Prop :=
  found = [] ∧ range = [] ∨
    found ≠ [] ∧ (found.length = 1 ∨ pageSize = 1) ∧
      ∀ row ∈ found, ∃ ns key, decodeDataKey row.1 = .ok (ns, key) ∧ range = [(key, row.2)]

section

variable {found range : List (Bytes × VersionedValue)} {order : Nat → List (Bytes × VersionedValue)} {pageSize : Nat}

theorem Listed.const (h : l.Perm found) : Listed found fun _ => l :=
  fun _ => h

theorem Listed.second_eq_none (h : Listed found order) (hln : found.length = 1) : (order 1)[1]? = none := by
  apply getElem?_eq_none
  rw [(h 1).length_eq, hln]

/-- A row can be listed first by the first query and second by the next one. -/
theorem exists_listed_twice (hrw : row ∈ found) (hln : 1 < found.length) :
    ∃ order, Listed found order ∧ (order 0)[0]? = some row ∧ (order 1)[1]? = some row := by
  have hp : found.Perm (row :: found.erase row) := perm_cons_erase hrw
  cases hr : found.erase row with
  | nil =>
    rw [hr] at hp
    rw [hp.length_eq] at hln
    exact absurd hln (by simp)
  | cons other rest =>
    rw [hr] at hp
    refine ⟨fun cursor => if cursor = 0 then row :: other :: rest else other :: row :: rest, ?_, rfl, rfl⟩
    intro cursor
    cases cursor with
    | zero => exact hp.symm
    | succ n => exact (List.Perm.swap row other rest).trans hp.symm

theorem scanFrom_of_scansOne (h : ScansOne found (pageSize + 1) range) (hls : Listed found order) :
    scanFrom order (pageSize + 1) 0 = .ok range := by
  rcases h with ⟨hnil, hrn⟩ | ⟨hne, ho, hr⟩
  · have hn : (order 0)[0]? = none := by
      apply getElem?_eq_none
      rw [(hls 0).length_eq, hnil]
      exact Nat.le_refl 0
    rw [scanFrom_of_none hn, hrn]
  · have hpos : 0 < (order 0).length := by
      rw [(hls 0).length_eq]
      exact length_pos_iff.mpr hne
    have hf := getElem?_eq_getElem hpos
    have hm : (order 0)[0] ∈ found := (hls 0).mem_iff.mp (getElem_mem hpos)
    obtain ⟨ns, key, hd, hrn⟩ := hr _ hm
    -- The page ends after the first row, or there is no second one.
    have he : scanFrom order pageSize 1 = .ok [] := by
      cases pageSize with
      | zero => rfl
      | succ n =>
        apply scanFrom_of_none
        apply hls.second_eq_none
        rcases ho with ho | ho
        · exact ho
        · omega
    rw [scanFrom_of_some hf, hd, he, hrn]
    rfl

theorem scansOne_of_scanFrom (hsr : KeySorted range)
    (h : ∀ order, Listed found order → scanFrom order (pageSize + 1) 0 = .ok range) : ScansOne found (pageSize + 1) range := by
  by_cases hnil : found = []
  · left
    have he := h (fun _ => found) (Listed.const (List.Perm.refl _))
    rw [scanFrom_of_none (by rw [hnil]; rfl)] at he
    exact ⟨hnil, (ok.inj he).symm⟩
  · right
    have ho : found.length = 1 ∨ pageSize + 1 = 1 := by
      by_contra hm
      have hpos := length_pos_iff.mpr hnil
      obtain ⟨n, rfl⟩ : ∃ n, pageSize = n + 1 := ⟨pageSize - 1, by omega⟩
      obtain ⟨row, hrw⟩ := exists_mem_of_ne_nil _ hnil
      -- The same row is delivered twice, which a range never does.
      obtain ⟨order, hls, hf, hsc⟩ := exists_listed_twice hrw (by omega)
      obtain ⟨ns, key, rest, hd, hr, rfl⟩ := scanFrom_eq_ok hf (h order hls)
      obtain ⟨ns', key', rest', hd', _, rfl⟩ := scanFrom_eq_ok hsc hr
      cases hd.symm.trans hd'
      exact Std.Irrefl.irrefl key ((keySorted_cons.mp hsr).1 (key, row.2) mem_cons_self)
    refine ⟨hnil, ho, ?_⟩
    intro row hrw
    have hls : Listed found fun _ => row :: found.erase row := Listed.const (perm_cons_erase hrw).symm
    obtain ⟨ns, key, rest, hd, hr, hrn⟩ := scanFrom_eq_ok rfl (h _ hls)
    refine ⟨ns, key, hd, ?_⟩
    have hen : rest = [] := by
      cases pageSize with
      | zero => exact (ok.inj hr).symm
      | succ n =>
        have hln : found.length = 1 := ho.resolve_right (by omega)
        rw [scanFrom_of_none (hls.second_eq_none hln)] at hr
        exact (ok.inj hr).symm
    rw [hrn, hen]

end

section

variable (s : SqlSchema) (text : TextOps) (rows : AMap TableKey VersionedValue) (ns startKey endKey : Bytes)

/-- When a page of a scan is the given part of the range, whatever the order of the rows: the database takes
the pattern as a text, and the rows it selects are that part and at most one. -/
def PageSafe (pageSize : Int) (range : List (Bytes × VersionedValue)) : Prop :=
  pageSize ≤ 0 ∧ range = [] ∨
    0 < pageSize ∧ text.valid (scanPattern (encodeDataKey ns (scanStart startKey))) ∧
      ScansOne (s.scanMatches text rows (encodeDataKey ns (scanStart startKey))) pageSize.toNat range

theorem rangeScanWithPagination_iff {range : List (Bytes × VersionedValue)} (hsr : KeySorted range) (pageSize : Int) :
    (∀ order, Listed (s.scanMatches text rows (encodeDataKey ns (scanStart startKey))) order →
        rangeScanWithPagination text order ns startKey endKey pageSize = .ok range) ↔
      s.PageSafe text rows ns startKey pageSize range := by
  by_cases hpos : 0 < pageSize
  · obtain ⟨n, hn⟩ : ∃ n, pageSize.toNat = n + 1 := ⟨pageSize.toNat - 1, by omega⟩
    by_cases hvl : text.valid (scanPattern (encodeDataKey ns (scanStart startKey)))
    · have hsc : ∀ order, rangeScanWithPagination text order ns startKey endKey pageSize = scanFrom order (n + 1) 0 := by
        intro order
        rw [rangeScanWithPagination, hn]
        simp [hvl]
      simp only [hsc]
      constructor
      · intro h
        refine .inr ⟨hpos, hvl, ?_⟩
        rw [hn]
        exact scansOne_of_scanFrom hsr h
      · rintro (⟨hle, _⟩ | ⟨_, _, ho⟩) order hls
        · omega
        · rw [hn] at ho
          exact scanFrom_of_scansOne ho hls
    · have he : ∀ order, rangeScanWithPagination text order ns startKey endKey pageSize = .err () := by
        intro order
        rw [rangeScanWithPagination]
        simp [hpos, hvl]
      constructor
      · intro h
        have hok := h _ (Listed.const (List.Perm.refl _))
        rw [he] at hok
        cases hok
      · rintro (⟨hle, _⟩ | ⟨_, hv', _⟩)
        · omega
        · exact absurd hv' hvl
  · have hz : ∀ order, rangeScanWithPagination text order ns startKey endKey pageSize = .ok [] := by
      intro order
      rw [rangeScanWithPagination, Int.toNat_of_nonpos (by omega)]
      simp [hpos, scanFrom]
    constructor
    · intro h
      have hok := h _ (Listed.const (List.Perm.refl _))
      rw [hz] at hok
      exact .inl ⟨by omega, (ok.inj hok).symm⟩
    · rintro (⟨_, hrn⟩ | ⟨hp', _⟩) order _
      · rw [hz, hrn]
      · exact absurd hp' hpos

/-- The scans of a namespace against the ranges of its keys. -/
theorem range_scan_exact_iff :
    ((∀ order, Listed (s.scanMatches text rows (encodeDataKey ns (scanStart startKey))) order →
        rangeScan text order ns startKey endKey = .ok (s.committedRange rows ns startKey endKey)) ↔
      s.PageSafe text rows ns startKey 10 (s.committedRange rows ns startKey endKey)) ∧
    ∀ pageSize : Int,
      ((∀ order, Listed (s.scanMatches text rows (encodeDataKey ns (scanStart startKey))) order →
          rangeScanWithPagination text order ns startKey endKey pageSize =
            .ok ((s.committedRange rows ns startKey endKey).take pageSize.toNat)) ↔
        s.PageSafe text rows ns startKey pageSize ((s.committedRange rows ns startKey endKey).take pageSize.toNat)) := by
  constructor
  · exact rangeScanWithPagination_iff s text rows ns startKey endKey keySorted_committedRange 10
  · intro pageSize
    apply rangeScanWithPagination_iff
    exact List.Pairwise.sublist (take_sublist _ _) keySorted_committedRange

end

def twoRows : AMap TableKey VersionedValue :=
  ((∅ : AMap TableKey VersionedValue).insert (channelSchema.location (encodeDataKey (ascii "pay") (ascii "a"))) definition).insert
    (channelSchema.location (encodeDataKey (ascii "pay") (ascii "b"))) definition

def asciiText : TextOps where
  valid text := text.all fun c => c < 0x80
  lower text := text.map fun c => if 0x41 ≤ c ∧ c ≤ 0x5a then c + 0x20 else c

/-- The rows come as the queries list them, and the end key is not looked at. -/
theorem scan_out_of_order :
    ∃ order, Listed (channelSchema.scanMatches asciiText twoRows (encodeDataKey (ascii "pay") (scanStart []))) order ∧
      rangeScan asciiText order (ascii "pay") [] (ascii "b") = .ok [(ascii "b", definition), (ascii "a", definition)] ∧
      channelSchema.committedRange twoRows (ascii "pay") [] (ascii "b") = [(ascii "a", definition)] := by
  refine ⟨fun _ => [(encodeDataKey (ascii "pay") (ascii "b"), definition), (encodeDataKey (ascii "pay") (ascii "a"), definition)],
    ?_, by decide, by decide⟩
  intro cursor
  have hf : channelSchema.scanMatches asciiText twoRows (encodeDataKey (ascii "pay") (scanStart [])) =
      [(encodeDataKey (ascii "pay") (ascii "b"), definition), (encodeDataKey (ascii "pay") (ascii "a"), definition)] := by
    decide
  rw [hf]

end SqlSchema

end Drunix.Ledger.StateSql
