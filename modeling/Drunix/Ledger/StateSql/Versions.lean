import Drunix.Ledger.StateSql.ValueCache
import Drunix.Ledger.StateSql.TableNames

namespace Drunix.Ledger.StateSql

open Lib Proto Outcome List

def decodeDataKey (encodedDataKey : Bytes) : Outcome Unit (Bytes × Bytes) :=
  match encodedDataKey.takeWhile (fun c => c ≠ 0x00), encodedDataKey.dropWhile fun c => c ≠ 0x00 with
  | _ :: ns, _ :: key => .ok (ns, key)
  | _, _ => .panic

structure VersionedDB where
  handle : Handle
  versionCache : AMap (Bytes × Bytes) (Option Version) := ∅

def Handle.foundVersions (h : Handle) (tableKeys : List TableKey) : Outcome Unit (List ((Bytes × Bytes) × Option Version)) :=
  (tableKeys.filter fun tk => (h.rows tk).isSome).mapM fun tk => do
    let k ← decodeDataKey tk.2
    return (k, (h.rows tk).map VersionedValue.version)

namespace SqlSchema

section

variable (s : SqlSchema) (answers : SqlAnswers)

def versionLocation (k : Bytes × Bytes) : TableKey :=
  ((s.getTableFromNamespace k.1).table, encodeDataKey k.1 k.2)

/-- The versions of the requested keys that are found. A worker whose query fails sends two responses,
which is more than the channel takes, and the call never returns. -/
def getVersions (h : Handle) (keys : List (Bytes × Bytes)) : Outcome Unit (AMap (Bytes × Bytes) (Option Version)) := do
  let tableKeys ← keys.mapM fun k => do
    useTable answers (s.getTableFromNamespace k.1)
    return s.versionLocation k
  let batches ← tableBatches s.batchsize Prod.fst tableKeys
  match workersResult answers batches with
  | .ok _ => do
      let found ← h.foundVersions batches.flatten
      return found.foldl (fun m e => m.insert e.1 e.2) (keys.foldl (fun m k => m.insert k none) ∅)
  | _ => panic

def loadCommittedVersions (db : VersionedDB) (keys : List (Bytes × Bytes)) : Outcome Unit VersionedDB := do
  let versions ← s.getVersions answers db.handle keys
  return { db with versionCache := versions }

def getState (db : VersionedDB) (ns key : Bytes) : Outcome Unit (Option VersionedValue) :=
  (s.get answers db.handle (encodeDataKey ns key)).2

def getVersion (db : VersionedDB) (ns key : Bytes) : Outcome Unit (Option Version) :=
  match db.versionCache.lookup (ns, key) with
  | some height => .ok height
  | none => do
      let versionedValue ← s.getState answers db ns key
      return versionedValue.map VersionedValue.version

/-- `validateKVRead` and `validateKVReadHash` for a read of a key, which an earlier transaction of the
block may have `updated`. -/
def validateRead (db : VersionedDB) (ns key : Bytes) (updated : Bool) (readVersion : Option Version) : Outcome Unit Bool :=
  if updated then .ok false
  else do
    let committedVersion ← s.getVersion answers db ns key
    return committedVersion = readVersion

end

variable {s : SqlSchema} {answers : SqlAnswers} {h : Handle}

variable {k : Bytes × Bytes}

theorem decodeDataKey_encodeDataKey (hns : 0x00 ∉ k.1) : decodeDataKey (encodeDataKey k.1 k.2) = .ok k := by
  have hz : 0x00 ∉ (0x64 :: k.1 : Bytes) := by
    rw [mem_cons, not_or]
    exact ⟨by decide, hns⟩
  have ha : ∀ c ∈ (0x64 :: k.1 : Bytes), decide (c ≠ 0x00) = true := by
    intro c hc
    rw [decide_eq_true_iff]
    rintro rfl
    exact hz hc
  have ht : (encodeDataKey k.1 k.2).takeWhile (fun c => c ≠ 0x00) = 0x64 :: k.1 := by
    rw [encodeDataKey, takeWhile_append_of_pos ha]
    simp
  have hd : (encodeDataKey k.1 k.2).dropWhile (fun c => c ≠ 0x00) = 0x00 :: k.2 := by
    rw [encodeDataKey, dropWhile_append_of_pos ha]
    simp
  rw [decodeDataKey, ht, hd]

variable {keys : List (Bytes × Bytes)} {tableKeys : List TableKey}

theorem mem_of_foundVersions {found : List ((Bytes × Bytes) × Option Version)} (hky : ∀ k ∈ keys, 0x00 ∉ k.1)
    (ht : ∀ tk, tk ∈ tableKeys ↔ ∃ k ∈ keys, tk = s.versionLocation k)
    (hf : h.foundVersions tableKeys = .ok found) {e : (Bytes × Bytes) × Option Version} :
    e ∈ found ↔ e.1 ∈ keys ∧ h.rows (s.versionLocation e.1) ≠ none ∧
      e.2 = (h.rows (s.versionLocation e.1)).map VersionedValue.version := by
  -- A location of a requested key is read back as that key.
  have hr : ∀ k ∈ keys, ∀ e, (decodeDataKey (s.versionLocation k).2 >>= fun k' =>
      (.ok (k', (h.rows (s.versionLocation k)).map VersionedValue.version) : Outcome Unit _)) = .ok e ↔
        e = (k, (h.rows (s.versionLocation k)).map VersionedValue.version) := by
    intro k hk e
    rw [versionLocation, decodeDataKey_encodeDataKey (hky k hk), ok_bind, ok.injEq, eq_comm]
  constructor
  · intro he
    obtain ⟨tk, htk, hd⟩ := exists_of_mem_mapM hf he
    rw [mem_filter, ht] at htk
    obtain ⟨⟨k, hk, rfl⟩, hsm⟩ := htk
    obtain rfl := (hr k hk e).mp hd
    exact ⟨hk, Option.isSome_iff_ne_none.mp hsm, rfl⟩
  · rintro ⟨hk, hsm, hvr⟩
    have htk : s.versionLocation e.1 ∈ tableKeys.filter fun tk => (h.rows tk).isSome :=
      mem_filter.mpr ⟨(ht _).mpr ⟨e.1, hk, rfl⟩, Option.isSome_iff_ne_none.mpr hsm⟩
    obtain ⟨e', he', hd⟩ := exists_mem_of_mapM hf htk
    rw [(hr e.1 hk e').mp hd, ← hvr] at he'
    exact he'

theorem mem_flatten_versionBatches {batches : List (List TableKey)} (ht : (keys.mapM fun k => do
      useTable answers (s.getTableFromNamespace k.1)
      return s.versionLocation k) = .ok tableKeys)
    (hb : tableBatches s.batchsize Prod.fst tableKeys = .ok batches) (tk : TableKey) :
    tk ∈ batches.flatten ↔ ∃ k ∈ keys, tk = s.versionLocation k := by
  have hm : tableKeys = keys.map s.versionLocation := by
    refine eq_map_of_mapM ?_ ht
    intro k tk' htk'
    obtain ⟨_, _, htk'⟩ := bind_eq_ok.mp htk'
    exact (ok.inj htk').symm
  rw [mem_flatten_tableBatches hb, hm, mem_map]
  simp only [eq_comm]

/-- The versions found are copied over the nil entries that the requested keys begin with. -/
def copyVersions (keys : List (Bytes × Bytes)) (found : List ((Bytes × Bytes) × Option Version)) :
    AMap (Bytes × Bytes) (Option Version) :=
  found.foldl (fun m e => m.insert e.1 e.2) (keys.foldl (fun m k => m.insert k none) ∅)

theorem lookup_copyVersions {found : List ((Bytes × Bytes) × Option Version)}
    (hm : ∀ e, e ∈ found ↔ e.1 ∈ keys ∧ h.rows (s.versionLocation e.1) ≠ none ∧
      e.2 = (h.rows (s.versionLocation e.1)).map VersionedValue.version) (k : Bytes × Bytes) :
    (copyVersions keys found).lookup k =
      if k ∈ keys then some ((h.rows (s.versionLocation k)).map VersionedValue.version) else none := by
  have ha : ∀ e ∈ found, e.1 = k → e.2 = (h.rows (s.versionLocation k)).map VersionedValue.version := by
    rintro e he rfl
    exact ((hm e).mp he).2.2
  rw [copyVersions, AMap.lookup_foldl_insert_of_agree ha, AMap.lookup_foldl_insert]
  by_cases hk : k ∈ keys
  · by_cases hf : k ∈ found.map Prod.fst
    · rw [if_pos hf, if_pos hk]
    · have hn : h.rows (s.versionLocation k) = none := by
        by_contra hsm
        have hin := (hm (k, (h.rows (s.versionLocation k)).map VersionedValue.version)).mpr ⟨hk, hsm, rfl⟩
        exact hf (mem_map.mpr ⟨_, hin, rfl⟩)
      rw [if_neg hf, if_pos hk, if_pos hk, hn, Option.map_none]
  · have hf : k ∉ found.map Prod.fst := by
      intro hf
      obtain ⟨e, he, rfl⟩ := mem_map.mp hf
      exact hk ((hm e).mp he).1
    rw [if_neg hf, if_neg hk, if_neg hk]
    rfl

theorem lookup_getVersions {versions : AMap (Bytes × Bytes) (Option Version)} (hk : ∀ k ∈ keys, 0x00 ∉ k.1)
    (hl : s.getVersions answers h keys = .ok versions) (k : Bytes × Bytes) :
    versions.lookup k = if k ∈ keys then some ((h.rows (s.versionLocation k)).map VersionedValue.version) else none := by
  obtain ⟨tableKeys, ht, hl⟩ := bind_eq_ok.mp hl
  obtain ⟨batches, hb, hl⟩ := bind_eq_ok.mp hl
  split at hl
  · obtain ⟨found, hf, hl⟩ := bind_eq_ok.mp hl
    cases hl
    exact lookup_copyVersions (fun e => mem_of_foundVersions hk (mem_flatten_versionBatches ht hb) hf) k
  · cases hl

def WellPlaced (s : SqlSchema) (rows : Rows) : Prop :=
  ∀ table key, rows (table, key) ≠ none → table = (s.getTable key).table

def BulkSafe (s : SqlSchema) (h : Handle) (k : Bytes × Bytes) : Prop :=
  (s.isOtherTable k.1 k.2 = true → h.rows (s.location (encodeDataKey k.1 k.2)) = none) ∧
    ∀ vv, s.cached h (encodeDataKey k.1 k.2) = some vv →
      (h.rows (s.location (encodeDataKey k.1 k.2))).map VersionedValue.version = some vv.version

/-- The loaded versions are those of `GetState`, nil for the absent keys, and no read is judged
differently with them than without. -/
structure VersionsAgree (s : SqlSchema) (h : Handle) (keys : List (Bytes × Bytes)) (loaded : VersionedDB) : Prop where
  version : ∀ k ∈ keys, ∃ height, loaded.versionCache.lookup k = some height ∧
    (∀ answers vv, s.getState answers { handle := h } k.1 k.2 = .ok vv → height = vv.map VersionedValue.version) ∧
      (height = none ↔ h.rows (s.location (encodeDataKey k.1 k.2)) = none)
  verdict : ∀ answers ns key updated readVersion verdict,
    s.validateRead answers { handle := h } ns key updated readVersion = .ok verdict →
      s.validateRead answers loaded ns key updated readVersion = .ok verdict

theorem rows_versionLocation (hpl : s.WellPlaced h.rows) (hns : 0x00 ∉ k.1) :
    h.rows (s.versionLocation k) =
      if s.isOtherTable k.1 k.2 then none else h.rows (s.location (encodeDataKey k.1 k.2)) := by
  have ht := @table_eq_iff s k.1 k.2 hns
  cases hot : s.isOtherTable k.1 k.2 with
  | false =>
    rw [hot] at ht
    rw [versionLocation, ht.mpr rfl, if_neg Bool.false_ne_true, location]
  | true =>
    by_contra hsm
    have := ht.mp (hpl _ _ hsm)
    rw [hot] at this
    cases this

theorem version_agrees_iff (hpl : s.WellPlaced h.rows) (hns : 0x00 ∉ k.1) :
    (h.rows (s.versionLocation k)).map VersionedValue.version =
          (s.view h (encodeDataKey k.1 k.2)).map VersionedValue.version ∧
        ((h.rows (s.versionLocation k)).map VersionedValue.version = none ↔
          h.rows (s.location (encodeDataKey k.1 k.2)) = none) ↔ s.BulkSafe h k := by
  rw [rows_versionLocation hpl hns, view, BulkSafe]
  cases s.isOtherTable k.1 k.2 with
  | true =>
    cases s.cached h (encodeDataKey k.1 k.2) with
    | none => cases h.rows (s.location (encodeDataKey k.1 k.2)) <;> simp
    | some vv => cases h.rows (s.location (encodeDataKey k.1 k.2)) <;> simp
  | false =>
    cases s.cached h (encodeDataKey k.1 k.2) with
    | none => simp
    | some vv => simp

theorem getState_agrees_iff {height : Option Version} :
    (∀ answers vv, s.getState answers { handle := h } k.1 k.2 = .ok vv → height = vv.map VersionedValue.version) ↔
      height = (s.view h (encodeDataKey k.1 k.2)).map VersionedValue.version := by
  constructor
  · intro hr
    exact hr {} _ (exists_get_ok s h _)
  · rintro rfl answers vv hr
    rw [get_ok_view hr]

theorem validateRead_of_agree {loaded : VersionedDB} (hh : loaded.handle = h)
    (ha : ∀ k height, loaded.versionCache.lookup k = some height →
      height = (s.view h (encodeDataKey k.1 k.2)).map VersionedValue.version)
    {ns key : Bytes} {updated : Bool} {readVersion : Option Version} {verdict : Bool}
    (hr : s.validateRead answers { handle := h } ns key updated readVersion = .ok verdict) :
    s.validateRead answers loaded ns key updated readVersion = .ok verdict := by
  rw [validateRead] at hr ⊢
  cases updated with
  | true => exact hr
  | false =>
    rw [if_neg Bool.false_ne_true, bind_eq_ok] at hr ⊢
    obtain ⟨committedVersion, hvr, hve⟩ := hr
    refine ⟨committedVersion, ?_, hve⟩
    obtain ⟨vv, hvv, hvr⟩ := bind_eq_ok.mp hvr
    cases hvr
    rw [getVersion]
    cases hl : loaded.versionCache.lookup (ns, key) with
    | some height =>
      rw [get_ok_view hvv]
      exact congrArg ok (ha (ns, key) height hl)
    | none =>
      rw [getState, hh]
      rw [getState] at hvv
      simp only [hvv]
      rfl

/-- The bulk query loads the versions that `GetState` returns, if and only if every requested key is safe. -/
theorem bulk_versions_agree_iff (s : SqlSchema) (h : Handle) (hplaced : s.WellPlaced h.rows) (keys : List (Bytes × Bytes))
    (hkeys : ∀ k ∈ keys, 0x00 ∉ k.1) (answers : SqlAnswers) (loaded : VersionedDB)
    (hload : s.loadCommittedVersions answers { handle := h } keys = .ok loaded) :
    s.VersionsAgree h keys loaded ↔ ∀ k ∈ keys, s.BulkSafe h k := by
  obtain ⟨versions, hvr, hload⟩ := bind_eq_ok.mp hload
  cases hload
  have hlk := lookup_getVersions hkeys hvr
  constructor
  · intro ha k hk
    obtain ⟨height, hh, hst, hab⟩ := ha.version k hk
    rw [getState_agrees_iff] at hst
    have hld : versions.lookup k = some height := hh
    rw [hlk k, if_pos hk, Option.some.injEq] at hld
    rw [← version_agrees_iff hplaced (hkeys k hk), hld]
    exact ⟨hst, hab⟩
  · intro hsf
    have ha : ∀ k ∈ keys, _ := fun k hk => (version_agrees_iff hplaced (hkeys k hk)).mpr (hsf k hk)
    refine ⟨?_, ?_⟩
    · intro k hk
      refine ⟨_, (hlk k).trans (if_pos hk), ?_, (ha k hk).2⟩
      rw [getState_agrees_iff]
      exact (ha k hk).1
    · intro answers ns key updated readVersion verdict hr
      refine validateRead_of_agree rfl ?_ hr
      intro k height hl
      have hld : versions.lookup k = some height := hl
      rw [hlk k] at hld
      by_cases hk : k ∈ keys
      · rw [if_pos hk, Option.some.injEq] at hld
        rw [← hld]
        exact (ha k hk).1
      · rw [if_neg hk] at hld
        cases hld

def oneRow (s : SqlSchema) (ns key : Bytes) : Handle where
  rows tk := if tk = s.location (encodeDataKey ns key) then some definition else none

theorem wellPlaced_oneRow (s : SqlSchema) (ns key : Bytes) : s.WellPlaced (s.oneRow ns key).rows := by
  intro table dataKey hr
  have htk : (table, dataKey) = s.location (encodeDataKey ns key) := by
    by_contra hne
    exact hr (if_neg hne)
  rw [location, Prod.mk.injEq] at htk
  rw [htk.1, htk.2]

theorem bulk_versions_agree_payments :
    ∃ loaded, channelSchema.loadCommittedVersions {} { handle := channelSchema.oneRow (ascii "pay") (ascii "k") }
        [(ascii "pay", ascii "k")] = .ok loaded ∧
      channelSchema.VersionsAgree (channelSchema.oneRow (ascii "pay") (ascii "k")) [(ascii "pay", ascii "k")] loaded := by
  refine ⟨_, rfl, (bulk_versions_agree_iff channelSchema _ (wellPlaced_oneRow _ _ _) _ (by decide) {} _ rfl).mpr ?_⟩
  intro k hk
  obtain rfl := mem_singleton.mp hk
  refine ⟨fun hot => absurd hot (by decide), fun vv hc => ?_⟩
  have hn : channelSchema.cached (channelSchema.oneRow (ascii "pay") (ascii "k"))
      (encodeDataKey (ascii "pay") (ascii "k")) = none := rfl
  cases hn.symm.trans hc

/-- A chaincode whose name only starts like that of the system chaincode. -/
theorem bulk_version_missing :
    ∃ loaded, channelSchema.loadCommittedVersions {} { handle := channelSchema.oneRow (ascii "lsccx") (ascii "k") }
        [(ascii "lsccx", ascii "k")] = .ok loaded ∧
      ¬ channelSchema.VersionsAgree (channelSchema.oneRow (ascii "lsccx") (ascii "k")) [(ascii "lsccx", ascii "k")] loaded := by
  refine ⟨_, rfl, ?_⟩
  intro ha
  obtain ⟨height, hld, hst, _⟩ := ha.version (ascii "lsccx", ascii "k") (by decide)
  have hn : some height = some none := hld.symm.trans (by decide)
  have hsm : height = some ⟨1, 0⟩ := hst {} (some definition) (by decide)
  rw [hsm] at hn
  cases hn

end SqlSchema

end Drunix.Ledger.StateSql
