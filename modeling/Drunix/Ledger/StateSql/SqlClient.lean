import Mathlib.Data.List.Infix
import Mathlib.Data.List.Dedup
import Drunix.Lib.Chunks
import Drunix.Ledger.TxOps

namespace Drunix.Ledger.StateSql

open Lib Proto Outcome List

def savePointKey : Bytes := ascii "s"

def configEnvBytes : Bytes := encodeDataKey [] (ascii "CHANNEL_CONFIG_ENV_BYTES")

def lastLifecycleBlockNumberKey : Bytes := encodeDataKey [] (ascii "LAST_LIFECYCLE_BLOCK_NUMBER")

/-- What a handle on a schema is made with. `jsonb` is the text that a JSONB column gives back for a
text it accepts. -/
structure SqlSchema where
  schema : Bytes
  peerid : Bytes
  batchsize : Nat
  jsonb : Bytes → Bytes

/-- A table as `GetTable` names it; `created` is the name under which the table is made on first use. -/
structure TableRef where
  table : Bytes
  cacheEnabled : Bool
  created : Option Bytes
  deriving DecidableEq

namespace SqlSchema

variable (s : SqlSchema)

def tableName (name : Bytes) : Bytes :=
  s.schema ++ ascii "." ++ name

def lifecycleTable : Bytes :=
  s.tableName (s.peerid ++ ascii "_lifecycle")

def dynamicTable (name : Bytes) : TableRef :=
  ⟨s.tableName name, false, some name⟩

def cutDataKeyPrefix : Bytes → Bytes
  | [] => []
  | c :: key => if c = 0x64 then key else c :: key

def beforeSep (key : Bytes) : Bytes :=
  key.takeWhile fun c => c ≠ 0x00

/-- Keys with the name of a lifecycle or system namespace, and the keys of the peer itself. -/
def isLifecycleKey (key : Bytes) : Bool :=
  (ascii "d_lifecycle").isPrefixOf key || (ascii "dlscc").isPrefixOf key ||
    key ∈ [configEnvBytes, savePointKey, lastLifecycleBlockNumberKey]

def getTable (key : Bytes) : TableRef :=
  if lastLifecycleBlockNumberKey = key then ⟨s.lifecycleTable, false, none⟩
  else if isLifecycleKey key then ⟨s.lifecycleTable, true, none⟩
  else s.dynamicTable (beforeSep (cutDataKeyPrefix key))

def getTableFromNamespace (ns : Bytes) : TableRef :=
  if (ascii "_lifecycle").isPrefixOf ns || ns = ascii "lscc" then ⟨s.lifecycleTable, false, none⟩
  else s.dynamicTable ns

/-- The tables for which `Set` leaves the value as it is. -/
def keepsBytes (table : Bytes) : Bool :=
  (ascii "_lifecycle").isSuffixOf table || decide (ascii "$$h" <:+: table)

/-- The tables whose value column holds bytes, as `NewSchema` and `CreateIfNotExists` make them; the column of any other
table is JSONB, also when the name of its chaincode ends in `_lifecycle`. -/
def byteColumn (t : TableRef) : Bool :=
  t.table = s.lifecycleTable || t.created.any fun name => decide (ascii "$$h" <:+: name)

/-- What the value column gives back for a value; `datatypes.JSON` makes an empty text NULL. -/
def dbValue (t : TableRef) (value : Option Bytes) : Option Bytes :=
  if s.byteColumn t then value
  else if keepsBytes t.table then value.map s.jsonb
  else value.bind fun text => if text.isEmpty then none else some (s.jsonb text)

end SqlSchema

def isJsonSpace (c : UInt8) : Bool :=
  c ∈ [0x20, 0x09, 0x0d, 0x0a]

/-- The JSON literal null, which `json.Unmarshal` turns into a nil map. -/
def isJsonNull (value : Option Bytes) : Bool :=
  ((value.getD []).dropWhile isJsonSpace).reverse.dropWhile isJsonSpace = (ascii "null").reverse

/-- How a statement ends; one that returns an error may have been applied all the same. -/
inductive Statement where
  | done
  | failed
  | unacknowledged
  deriving DecidableEq

def Statement.applied (st : Statement) : Bool := st ≠ .failed

/-- What the database answers during a call: to the queries that look for or make a table of some name,
to the query for the columns of a table, to a query for rows, and to the statement of each worker. -/
structure SqlAnswers where
  createIfNotExists : Bytes → Bool := fun _ => true
  columns : Bytes → Bool := fun _ => true
  rows : Bool := true
  statement : Nat → Statement := fun _ => .done

abbrev TableKey := Bytes × Bytes

abbrev Rows := TableKey → Option VersionedValue

def Rows.upsert (rows : Rows) (entries : List (TableKey × VersionedValue)) : Rows :=
  fun tk => (entries.lookup tk).or (rows tk)

def Rows.delete (rows : Rows) (keys : List TableKey) : Rows :=
  fun tk => if tk ∈ keys then none else rows tk

structure Handle where
  rows : Rows
  cache : Bytes → Option VersionedValue := fun _ => none

section

variable {α : Type}

/-- The statements of a call: the entries of each table, in batches. A batch size of zero never ends the
loop that cuts the batches. -/
def tableBatches (batchsize : Nat) (table : α → Bytes) (entries : List α) : Outcome Unit (List (List α)) :=
  if entries.isEmpty then .ok []
  else if batchsize = 0 then .panic
  else .ok ((entries.map table).dedup.flatMap fun t => chunks batchsize (entries.filter fun e => table e = t))

def appliedEntries (answers : SqlAnswers) (batches : List (List α)) : List α :=
  (batches.zipIdx.filter fun b => (answers.statement b.2).applied).flatMap Prod.fst

def workersResult (answers : SqlAnswers) (batches : List (List α)) : Outcome Unit Unit :=
  .require (batches.zipIdx.all fun b => answers.statement b.2 = .done) ()

end

namespace SqlSchema

variable (s : SqlSchema) (answers : SqlAnswers)

def useTable (t : TableRef) : Outcome Unit Unit :=
  .require (t.created.all answers.createIfNotExists) ()

/-- The name of a table must have one dot, that after the schema. -/
def filterKeys (table : Bytes) : Outcome Unit Unit := do
  require (table.count 0x2e = 1) ()
  require (answers.columns table) ()

def location (key : Bytes) : TableKey :=
  ((s.getTable key).table, key)

def stored (key : Bytes) (vv : VersionedValue) : VersionedValue :=
  { vv with value := s.dbValue (s.getTable key) vv.value }

def parseRow (key : Bytes) (vv : VersionedValue) : Outcome Unit (TableKey × VersionedValue) := do
  let t := s.getTable key
  useTable answers t
  if !keepsBytes t.table && isJsonNull vv.value then panic
  else do
    filterKeys answers t.table
    return (s.location key, s.stored key vv)

def setBatches (data : AMap Bytes VersionedValue) : Outcome Unit (List (List (TableKey × VersionedValue))) := do
  let parsedData ← data.entries.mapM fun e => s.parseRow answers e.1 e.2
  tableBatches s.batchsize (fun e => e.1.1) parsedData

def cacheAll (data : AMap Bytes VersionedValue) (cache : Bytes → Option VersionedValue) (key : Bytes) : Option VersionedValue :=
  if (s.getTable key).cacheEnabled then (data.lookup key).or (cache key) else cache key

def set (h : Handle) (data : AMap Bytes VersionedValue) : Handle × Outcome Unit Unit :=
  match s.setBatches answers data with
  | .panic => (h, .panic)
  | .err _ => (h, .err ())
  | .ok batches =>
    let rows := h.rows.upsert (appliedEntries answers batches)
    match workersResult answers batches with
    | .ok _ => (⟨rows, s.cacheAll data h.cache⟩, .ok ())
    | r => (⟨rows, h.cache⟩, r)

def deleteBatches (keys : List Bytes) : Outcome Unit (List (List TableKey)) := do
  let tableKeys ← keys.mapM fun key => do
    useTable answers (s.getTable key)
    return s.location key
  tableBatches s.batchsize Prod.fst tableKeys

def delete (h : Handle) (keys : List Bytes) : Handle × Outcome Unit Unit :=
  match s.deleteBatches answers keys with
  | .panic => (h, .panic)
  | .err _ => (h, .err ())
  | .ok batches => ({ h with rows := h.rows.delete (appliedEntries answers batches) }, workersResult answers batches)

def cached (h : Handle) (key : Bytes) : Option VersionedValue :=
  if (s.getTable key).cacheEnabled then h.cache key else none

def get (h : Handle) (key : Bytes) : Handle × Outcome Unit (Option VersionedValue) :=
  let t := s.getTable key
  match useTable answers t with
  | .panic => (h, .panic)
  | .err _ => (h, .err ())
  | .ok _ =>
    match s.cached h key with
    | some vv => (h, .ok (some vv))
    | none =>
      if answers.rows then
        match h.rows (s.location key) with
        | none => (h, .ok none)
        | some vv => ({ h with cache := if t.cacheEnabled then Function.update h.cache key (some vv) else h.cache }, .ok (some vv))
      else (h, .err ())

end SqlSchema

/-! ### What the statements of a call cover -/

section

variable {α : Type} {answers : SqlAnswers} {batchsize : Nat} {table : α → Bytes} {entries : List α}
  {batches : List (List α)} {e : α}

theorem mem_flatten_tableBatches (h : tableBatches batchsize table entries = .ok batches) :
    e ∈ batches.flatten ↔ e ∈ entries := by
  rw [tableBatches] at h
  by_cases hem : entries.isEmpty
  · rw [if_pos hem] at h
    cases h
    rw [List.isEmpty_iff] at hem
    rw [hem, List.flatten_nil]
  · rw [if_neg hem] at h
    by_cases hn : batchsize = 0
    · rw [if_pos hn] at h
      cases h
    · rw [if_neg hn] at h
      cases h
      have hc : ∀ t, e ∈ (chunks batchsize (entries.filter fun e => table e = t)).flatten ↔ e ∈ entries ∧ table e = t := by
        intro t
        rw [chunks_flatten (Nat.pos_of_ne_zero hn), mem_filter, decide_eq_true_iff]
      rw [mem_flatten]
      constructor
      · rintro ⟨batch, hb, he⟩
        obtain ⟨t, _, hb⟩ := mem_flatMap.mp hb
        exact ((hc t).mp (mem_flatten_of_mem hb he)).1
      · intro he
        obtain ⟨batch, hb, hm⟩ := mem_flatten.mp ((hc _).mpr ⟨he, rfl⟩)
        exact ⟨batch, mem_flatMap.mpr ⟨table e, mem_dedup.mpr (mem_map_of_mem he), hb⟩, hm⟩

theorem mem_of_mem_appliedEntries (h : e ∈ appliedEntries answers batches) : e ∈ batches.flatten := by
  obtain ⟨b, hb, he⟩ := mem_flatMap.mp h
  have hbt : b.1 ∈ batches := fst_mem_of_mem_zipIdx (mem_of_mem_filter hb)
  exact mem_flatten_of_mem hbt he

theorem tableBatches_of_same_table {t : Bytes} (hne : entries ≠ []) (ht : ∀ e ∈ entries, table e = t)
    (h : tableBatches batchsize table entries = .ok batches) : 0 < batchsize ∧ batches = chunks batchsize entries := by
  have hem : ¬ entries.isEmpty := by simpa using hne
  rw [tableBatches, if_neg hem] at h
  by_cases hn : batchsize = 0
  · rw [if_pos hn] at h
    cases h
  · rw [if_neg hn] at h
    cases h
    have hf : (entries.filter fun e => table e = t) = entries := by
      rw [filter_eq_self]
      intro e he
      rw [decide_eq_true_iff]
      exact ht e he
    have htb : (entries.map table).dedup = [t] := by
      have hm : entries.map table = List.replicate entries.length t :=
        eq_replicate_iff.mpr ⟨length_map _, fun u hu => by
          obtain ⟨e, he, rfl⟩ := mem_map.mp hu
          exact ht e he⟩
      rw [hm, replicate_dedup fun hlen => hne (length_eq_zero_iff.mp hlen)]
    refine ⟨Nat.pos_of_ne_zero hn, ?_⟩
    rw [htb, flatMap_singleton, hf]

theorem appliedEntries_all_or_none
    (h : ∀ i < batches.length, (answers.statement i).applied = (answers.statement 0).applied) :
    appliedEntries answers batches = [] ∨ appliedEntries answers batches = batches.flatten := by
  have hf : (batches.zipIdx.filter fun b => (answers.statement b.2).applied) =
      batches.zipIdx.filter fun _ => (answers.statement 0).applied := by
    apply filter_congr
    intro b hb
    have hlt := snd_lt_of_mem_zipIdx hb
    exact h b.2 (by omega)
  rw [appliedEntries, hf]
  cases (answers.statement 0).applied with
  | false =>
    left
    rw [filter_false, flatMap_nil]
  | true =>
    right
    rw [filter_true, flatMap_def, zipIdx_map_fst]

theorem appliedEntries_of_done (h : workersResult answers batches = .ok ()) :
    appliedEntries answers batches = batches.flatten := by
  rw [workersResult, require_eq_ok, all_eq_true] at h
  have ha : (batches.zipIdx.filter fun b => (answers.statement b.2).applied) = batches.zipIdx := by
    rw [filter_eq_self]
    intro b hb
    rw [of_decide_eq_true (h b hb)]
    rfl
  rw [appliedEntries, ha, flatMap_def, zipIdx_map_fst]

end

variable {vv : VersionedValue} {tk : TableKey} {rows : Rows}

variable {entries : List (TableKey × VersionedValue)}

theorem Rows.upsert_of_mem (h : (tk, vv) ∈ entries) (hu : ∀ vv', (tk, vv') ∈ entries → vv' = vv) :
    rows.upsert entries tk = some vv := by
  rw [Rows.upsert]
  cases hl : entries.lookup tk with
  | none =>
    have hne := lookup_eq_none_iff.mp hl _ h
    simp at hne
  | some vv' =>
    obtain ⟨l₁, l₂, rfl, _⟩ := lookup_eq_some_iff.mp hl
    rw [Option.some_or, hu vv' (by simp)]

theorem Rows.upsert_of_notMem (h : ∀ e ∈ entries, e.1 ≠ tk) : rows.upsert entries tk = rows tk := by
  have hl : entries.lookup tk = none := by
    rw [lookup_eq_none_iff]
    intro e he
    simpa using (h e he).symm
  rw [Rows.upsert, hl, Option.none_or]

namespace SqlSchema

variable {s : SqlSchema} {answers : SqlAnswers}

variable {key : Bytes} {row : TableKey × VersionedValue}

theorem parseRow_eq_ok (h : s.parseRow answers key vv = .ok row) : row = (s.location key, s.stored key vv) := by
  obtain ⟨_, _, h⟩ := bind_eq_ok.mp h
  split at h
  · cases h
  · obtain ⟨_, _, h⟩ := bind_eq_ok.mp h
    exact (ok.inj h).symm

variable {data : AMap Bytes VersionedValue} {batches : List (List (TableKey × VersionedValue))} {keys : List Bytes}

section

variable (h : s.setBatches answers data = .ok batches)
include h

theorem tableBatches_of_setBatches :
    tableBatches s.batchsize (fun e => e.1.1) (data.entries.map fun e => (s.location e.1, s.stored e.1 e.2)) = .ok batches := by
  obtain ⟨parsedData, hpr, h⟩ := bind_eq_ok.mp h
  rwa [eq_map_of_mapM (fun _ _ hr => parseRow_eq_ok hr) hpr] at h

theorem mem_flatten_setBatches :
    row ∈ batches.flatten ↔ ∃ key vv, data.lookup key = some vv ∧ row = (s.location key, s.stored key vv) := by
  rw [mem_flatten_tableBatches (tableBatches_of_setBatches h), mem_map]
  constructor
  · rintro ⟨e, he, rfl⟩
    exact ⟨e.1, e.2, AList.mem_lookup_iff.mpr he, rfl⟩
  · rintro ⟨key, vv, hl, rfl⟩
    exact ⟨⟨key, vv⟩, AList.mem_lookup_iff.mp hl, rfl⟩

theorem eq_of_mem_setBatches {vv' : VersionedValue} (h₁ : (tk, vv) ∈ batches.flatten) (h₂ : (tk, vv') ∈ batches.flatten) :
    vv = vv' := by
  obtain ⟨key, w, hw, he⟩ := (mem_flatten_setBatches h).mp h₁
  obtain ⟨key', w', hw', he'⟩ := (mem_flatten_setBatches h).mp h₂
  rw [Prod.mk.injEq] at he he'
  have hk : key = key' := congrArg Prod.snd (he.1.symm.trans he'.1)
  subst hk
  rw [hw, Option.some.injEq] at hw'
  rw [he.2, he'.2, hw']

theorem upsert_applied (hm : (tk, vv) ∈ appliedEntries answers batches) :
    rows.upsert (appliedEntries answers batches) tk = some vv := by
  apply Rows.upsert_of_mem hm
  intro vv' hvv'
  exact eq_of_mem_setBatches h (mem_of_mem_appliedEntries hvv') (mem_of_mem_appliedEntries hm)

end

theorem mem_flatten_deleteBatches {batches : List (List TableKey)} (h : s.deleteBatches answers keys = .ok batches) :
    tk ∈ batches.flatten ↔ ∃ key ∈ keys, tk = s.location key := by
  obtain ⟨tableKeys, ht, h⟩ := bind_eq_ok.mp h
  rw [mem_flatten_tableBatches h]
  have hk : tableKeys = keys.map s.location := by
    refine eq_map_of_mapM ?_ ht
    intro key tk htk
    obtain ⟨_, _, htk⟩ := bind_eq_ok.mp htk
    exact (ok.inj htk).symm
  rw [hk, mem_map]
  simp only [eq_comm]

theorem workersResult_cases {α : Type} (answers : SqlAnswers) (batches : List (List α)) :
    workersResult answers batches = .ok () ∨ workersResult answers batches = .err () := by
  rw [workersResult, require]
  split
  · exact .inl rfl
  · exact .inr rfl

section

variable (s : SqlSchema) (answers : SqlAnswers) (h : Handle)
include h

theorem set_cases (data : AMap Bytes VersionedValue) :
    (s.setBatches answers data = .panic ∧ s.set answers h data = (h, .panic)) ∨
      (s.setBatches answers data = .err () ∧ s.set answers h data = (h, .err ())) ∨
      ∃ batches, s.setBatches answers data = .ok batches ∧
        s.set answers h data = (⟨h.rows.upsert (appliedEntries answers batches),
          if workersResult answers batches = .ok () then s.cacheAll data h.cache else h.cache⟩,
          workersResult answers batches) := by
  rw [set]
  cases hb : s.setBatches answers data with
  | panic => exact .inl ⟨rfl, rfl⟩
  | err e => exact .inr (.inl ⟨rfl, rfl⟩)
  | ok batches =>
    refine .inr (.inr ⟨batches, rfl, ?_⟩)
    rcases workersResult_cases answers batches with hw | hw <;> simp [hw]

theorem delete_cases (keys : List Bytes) :
    (s.deleteBatches answers keys = .panic ∧ s.delete answers h keys = (h, .panic)) ∨
      (s.deleteBatches answers keys = .err () ∧ s.delete answers h keys = (h, .err ())) ∨
      ∃ batches, s.deleteBatches answers keys = .ok batches ∧
        s.delete answers h keys =
          ({ h with rows := h.rows.delete (appliedEntries answers batches) }, workersResult answers batches) := by
  rw [delete]
  cases hb : s.deleteBatches answers keys with
  | panic => exact .inl ⟨rfl, rfl⟩
  | err e => exact .inr (.inl ⟨rfl, rfl⟩)
  | ok batches => exact .inr (.inr ⟨batches, rfl, rfl⟩)

theorem set_row_cases (data : AMap Bytes VersionedValue) (tk : TableKey) :
    (s.set answers h data).1.rows tk = h.rows tk ∨
      ∃ key vv, data.lookup key = some vv ∧ tk = s.location key ∧
        (s.set answers h data).1.rows tk = some (s.stored key vv) := by
  rcases set_cases s answers h data with ⟨_, hst⟩ | ⟨_, hst⟩ | ⟨batches, hb, hst⟩ <;> simp only [hst]
  · exact .inl trivial
  · exact .inl trivial
  · by_cases hm : ∃ vv, (tk, vv) ∈ appliedEntries answers batches
    · obtain ⟨vv, hvv⟩ := hm
      obtain ⟨key, w, hw, he⟩ := (mem_flatten_setBatches hb).mp (mem_of_mem_appliedEntries hvv)
      rw [Prod.mk.injEq] at he
      refine .inr ⟨key, w, hw, he.1, ?_⟩
      rw [upsert_applied hb hvv, he.2]
    · left
      apply Rows.upsert_of_notMem
      intro e he htk
      exact hm ⟨e.2, htk ▸ he⟩

end

variable {h : Handle}

section

variable (hok : (s.set answers h data).2 = .ok ())
include hok

theorem set_of_ok : ∃ batches, s.setBatches answers data = .ok batches ∧ workersResult answers batches = .ok () ∧
    (s.set answers h data).1 = ⟨h.rows.upsert (appliedEntries answers batches), s.cacheAll data h.cache⟩ := by
  rcases set_cases s answers h data with ⟨_, hst⟩ | ⟨_, hst⟩ | ⟨batches, hb, hst⟩ <;> rw [hst] at hok ⊢
  · cases hok
  · cases hok
  · exact ⟨batches, hb, hok, by rw [if_pos hok]⟩

variable (hl : data.lookup key = some vv)
include hl

theorem set_row_of_ok : (s.set answers h data).1.rows (s.location key) = some (s.stored key vv) := by
  obtain ⟨batches, hb, hw, hst⟩ := set_of_ok hok
  rw [hst]
  apply upsert_applied hb
  rw [appliedEntries_of_done hw]
  exact (mem_flatten_setBatches hb).mpr ⟨key, vv, hl, rfl⟩

theorem set_cached_of_ok (he : (s.getTable key).cacheEnabled) :
    s.cached (s.set answers h data).1 key = some vv := by
  obtain ⟨_, _, _, hst⟩ := set_of_ok hok
  simp only [hst, cached, cacheAll, if_pos he, hl, Option.some_or]

end

theorem get_of_cached (hu : (s.getTable key).created = none) (hc : s.cached h key = some vv) :
    s.get answers h key = (h, .ok (some vv)) := by
  simp only [get, useTable, hu, hc]
  rfl

theorem delete_row_cases (s : SqlSchema) (answers : SqlAnswers) (h : Handle) (keys : List Bytes) (tk : TableKey) :
    (s.delete answers h keys).1.rows tk = h.rows tk ∨
      ∃ key ∈ keys, tk = s.location key ∧ (s.delete answers h keys).1.rows tk = none := by
  rcases delete_cases s answers h keys with ⟨_, hd⟩ | ⟨_, hd⟩ | ⟨batches, hb, hd⟩
  · rw [hd]
    exact .inl rfl
  · rw [hd]
    exact .inl rfl
  · rw [hd]
    by_cases hm : tk ∈ appliedEntries answers batches
    · obtain ⟨key, hk, htk⟩ := (mem_flatten_deleteBatches hb).mp (mem_of_mem_appliedEntries hm)
      exact .inr ⟨key, hk, htk, if_pos hm⟩
    · exact .inl (if_neg hm)

theorem delete_row_of_ok (hok : (s.delete answers h keys).2 = .ok ()) (hk : key ∈ keys) :
    (s.delete answers h keys).1.rows (s.location key) = none := by
  rcases delete_cases s answers h keys with ⟨_, hd⟩ | ⟨_, hd⟩ | ⟨batches, hb, hd⟩
  · rw [hd] at hok
    cases hok
  · rw [hd] at hok
    cases hok
  · rw [hd] at hok ⊢
    apply if_pos
    rw [appliedEntries_of_done hok]
    exact (mem_flatten_deleteBatches hb).mpr ⟨key, hk, rfl⟩

end SqlSchema

end Drunix.Ledger.StateSql
