import Drunix.Lib.AMap
import Drunix.Lib.Wire
import Drunix.Proto.PrivateData
import Drunix.Transient.CompositeKeys

namespace Drunix.Transient

open Lib Proto Outcome List

/-- A collection config; one of another kind than static is refused. -/
inductive CollectionConfig
  | static (name settings : Bytes)
  | unset
  deriving DecidableEq

structure TxPvtReadWriteSetWithConfigInfo where
  endorsedAt : UInt64 := 0
  pvtRwset : Option TxPvtReadWriteSet
  collectionConfigs : AMap Bytes (List CollectionConfig) := ∅
  deriving DecidableEq

structure EndorserPvtSimulationResults where
  receivedAtBlockHeight : UInt64
  pvtSimulationResultsWithConfig : TxPvtReadWriteSetWithConfigInfo
  deriving DecidableEq

structure TransientCodec where
  withConfigInfo : Wire Bytes TxPvtReadWriteSetWithConfigInfo
  txPvtReadWriteSet : Wire Bytes TxPvtReadWriteSet

/-- The collections to keep; a nil filter keeps everything. -/
abbrev PvtNsCollFilter := Option (Bytes → Bytes → Bool)

def trimNs (has : Bytes → Bytes → Bool) (ns : NsPvtReadWriteSet) : Option NsPvtReadWriteSet :=
  match ns.collectionPvtRwset.filter fun coll => has ns.nameSpace coll.collectionName with
  | [] => none
  | colls => some ⟨ns.nameSpace, colls⟩

def trimPvtWSet (pvtWSet : Option TxPvtReadWriteSet) (filter : PvtNsCollFilter) :
    Outcome ReadError (Option TxPvtReadWriteSet) :=
  match filter with
  | none => .ok pvtWSet
  | some has => do
      let writeSet ← .deref pvtWSet
      match writeSet.nsPvtRwset.filterMap (trimNs has) with
      | [] => return none
      | filteredNsRwSet => return some ⟨filteredNsRwSet⟩

def CollectionConfig.isStatic : CollectionConfig → Bool
  | .static _ _ => true
  | .unset => false

def CollectionConfig.kept (has : Bytes → Bytes → Bool) (ns : Bytes) : CollectionConfig → Bool
  | .static name _ => has ns name
  | .unset => false

def trimPvtCollectionConfigs (configs : AMap Bytes (List CollectionConfig)) (filter : PvtNsCollFilter) :
    Outcome ReadError (AMap Bytes (List CollectionConfig)) :=
  match filter with
  | none => .ok configs
  | some has =>
    if configs.entries.all fun e => e.2.all CollectionConfig.isStatic then
      .ok (configs.filterMap fun ns pkg => some (pkg.filter (CollectionConfig.kept has ns)))
    else .err .unexpectedCollectionType

def nilByte : UInt8 := 0x00

section

variable (codec : TransientCodec)

/-- `RwsetScanner.Next` and `ProcessPrivateData`, which are the same text: a value with a leading nil byte has the
collection configs with the write set, one without is in the old format. -/
def processPrivateData (filter : PvtNsCollFilter) (dbKey dbVal : Bytes) :
    Outcome ReadError EndorserPvtSimulationResults := do
  let (_, blockHeight) ← splitCompositeKeyOfPvtRWSet dbKey
  match dbVal with
  | [] => .panic
  | b :: rest =>
    if b = nilByte then do
      let txPvtRWSetWithConfig ← .orErr .proto (codec.withConfigInfo.unmarshal rest)
      let filteredTxPvtRWSet ← trimPvtWSet txPvtRWSetWithConfig.pvtRwset filter
      let configs ← trimPvtCollectionConfigs txPvtRWSetWithConfig.collectionConfigs filter
      return ⟨blockHeight,
        { txPvtRWSetWithConfig with pvtRwset := filteredTxPvtRWSet, collectionConfigs := configs }⟩
    else do
      let txPvtRWSet ← .orErr .proto (codec.txPvtReadWriteSet.unmarshal dbVal)
      let filteredTxPvtRWSet ← trimPvtWSet (some txPvtRWSet) filter
      return ⟨blockHeight, { pvtRwset := filteredTxPvtRWSet }⟩

/-- A call of `Persist` with the id that keeps the data of several endorsers apart. -/
structure PersistCall where
  txid : Bytes
  uuid : Uuid
  blockHeight : UInt64
  results : TxPvtReadWriteSetWithConfigInfo

namespace PersistCall

variable (c : PersistCall)

def key : Bytes :=
  createCompositeKeyForPvtRWSet c.txid c.uuid c.blockHeight

def heightKey : Bytes :=
  createCompositeKeyForPurgeIndexByHeight c.blockHeight c.txid c.uuid

def txidKey : Bytes :=
  createCompositeKeyForPurgeIndexByTxid c.txid c.uuid c.blockHeight

def value : Bytes :=
  nilByte :: codec.withConfigInfo.marshal c.results

def putAll (m : AMap Bytes Bytes) : AMap Bytes Bytes :=
  ((m.insert c.key (c.value codec)).insert c.heightKey []).insert c.txidKey []

end PersistCall

abbrev KVStore := Bytes → AMap Bytes Bytes

abbrev LevelDB := AMap Bytes Bytes

def kvPersist (store : KVStore) (c : PersistCall) : KVStore :=
  Function.update store c.txid (c.putAll codec (store c.txid))

def persist (db : LevelDB) (c : PersistCall) : LevelDB :=
  c.putAll codec db

def kvPersistAll (calls : List PersistCall) : KVStore :=
  calls.foldl (kvPersist codec) fun _ => ∅

def persistAll (calls : List PersistCall) : LevelDB :=
  calls.foldl (persist codec) ∅

/-- What `GetTxPvtRWSetByTxidV2` puts into its map for one field; nil for a field without a value. -/
def fieldResults (filters : List PvtNsCollFilter) (field : Bytes × Bytes) :
    Outcome ReadError (Bytes × Option (List EndorserPvtSimulationResults)) :=
  if field.2 = [] then .ok (field.1, none)
  else do
    let results ← filters.mapM fun filter => processPrivateData codec filter field.1 field.2
    return (field.1, some results)

/-- The fields of a hash that contain the start of the keys of its transaction. Without a filter a field with a value
gets no results. -/
def scannedFields (fields : AMap Bytes Bytes) (txid : Bytes) (filters : List PvtNsCollFilter) : List (Bytes × Bytes) :=
  fields.toPairs.filter fun field =>
    decide (createTxidRangeStartKey txid <:+: field.1) && (field.2.isEmpty || !filters.isEmpty)

def txResults (store : KVStore) (txid : Bytes) (filters : List PvtNsCollFilter) :
    Outcome ReadError (List (Bytes × Option (List EndorserPvtSimulationResults))) :=
  (scannedFields (store txid) txid filters).mapM (fieldResults codec filters)

def getTxPvtRWSetByTxidV2 (store : KVStore) (rwsetKeysMap : AMap Bytes (List PvtNsCollFilter)) :
    Outcome ReadError (List (Bytes × List (Bytes × Option (List EndorserPvtSimulationResults)))) :=
  rwsetKeysMap.toPairs.mapM fun e => do
    let results ← txResults codec store e.1 e.2
    return (e.1, results)

def getIterator (db : LevelDB) (txid : Bytes) : List (Bytes × Bytes) :=
  (db.toPairs.filter fun e => decide (InTxidRange txid e.1)).mergeSort fun a b => decide (a.1 ≤ b.1)

def getTxPvtRWSetByTxid (db : LevelDB) (txid : Bytes) (filter : PvtNsCollFilter) :
    Outcome ReadError (List EndorserPvtSimulationResults) :=
  (getIterator db txid).mapM fun e => processPrivateData codec filter e.1 e.2

end

variable {k txid : Bytes}

section

variable {codec : TransientCodec} {c c' : PersistCall} {m : AMap Bytes Bytes}

theorem PersistCall.key_inTxidRange (c : PersistCall) : InTxidRange c.txid c.key :=
  inTxidRange_iff.mpr ⟨compositeKeySep, _, by decide, rfl⟩

theorem PersistCall.isInfix_key (c : PersistCall) : createTxidRangeStartKey c.txid <:+: c.key :=
  createTxidRangeStartKey_isInfix c.txid c.uuid c.blockHeight

theorem PersistCall.txid_eq_of_key_eq (h : c.key = c'.key) : c.txid = c'.txid :=
  createCompositeKeyForPvtRWSet_txid_inj h

theorem PersistCall.value_ne_nil : c.value codec ≠ [] :=
  cons_ne_nil _ _

namespace PersistCall

def IsIndexKey (c : PersistCall) (k : Bytes) : Prop :=
  k = c.heightKey ∨ k = c.txidKey

instance instDecidableIsIndexKey (c : PersistCall) (k : Bytes) : Decidable (c.IsIndexKey k) :=
  inferInstanceAs (Decidable (_ ∨ _))

theorem IsIndexKey.head_ne (h : c.IsIndexKey k) : k.head? ≠ some prwsetPrefix := by
  rcases h with rfl | rfl
  · exact (by decide : some purgeIndexByHeightPrefix ≠ some prwsetPrefix)
  · exact (by decide : some purgeIndexByTxidPrefix ≠ some prwsetPrefix)

theorem not_isIndexKey_key : ¬ c.IsIndexKey c'.key :=
  fun h => h.head_ne rfl

theorem IsIndexKey.not_inTxidRange (h : c.IsIndexKey k) : ¬ InTxidRange txid k := by
  intro hrn
  obtain ⟨b, rest, -, rfl⟩ := inTxidRange_iff.mp hrn
  exact h.head_ne rfl

theorem lookup_putAll (k : Bytes) :
    (c.putAll codec m).lookup k =
      if c.IsIndexKey k then some [] else if k = c.key then some (c.value codec) else m.lookup k := by
  simp only [putAll, AMap.lookup_insert_eq, IsIndexKey]
  by_cases ht : k = c.txidKey
  · simp [ht]
  · by_cases hh : k = c.heightKey <;> simp [ht, hh]

theorem lookup_putAll_key : (c.putAll codec m).lookup c.key = some (c.value codec) := by
  rw [lookup_putAll, if_neg not_isIndexKey_key, if_pos rfl]

theorem lookup_putAll_of_ne (h : c'.key ≠ c.key) : (c.putAll codec m).lookup c'.key = m.lookup c'.key := by
  rw [lookup_putAll, if_neg not_isIndexKey_key, if_neg h]

end PersistCall

end

structure StoredBy (calls : List PersistCall) (store : KVStore) (db : LevelDB) : Prop where
  value : ∀ txid k v, v ≠ [] →
    ((store txid).lookup k = some v ↔ db.lookup k = some v ∧ ∃ c ∈ calls, c.txid = txid ∧ k = c.key)
  index : ∀ txid k, (store txid).lookup k = some [] ↔ ∃ c ∈ calls, c.txid = txid ∧ c.IsIndexKey k
  origin : ∀ k v, db.lookup k = some v → ∃ c ∈ calls, c.IsIndexKey k ∨ k = c.key ∧ v ≠ []
  present : ∀ c ∈ calls, ∃ v, db.lookup c.key = some v

variable {fields : List (Bytes × Option (List EndorserPvtSimulationResults))} {field e : Bytes × Bytes}
  {c : PersistCall} {filter : PvtNsCollFilter}

section

variable {codec : TransientCodec} {calls : List PersistCall} {store : KVStore} {db : LevelDB}

theorem StoredBy.empty : StoredBy [] (fun _ => ∅) ∅ := by
  refine ⟨?_, ?_, ?_, ?_⟩ <;> simp

theorem kvPersist_self (c : PersistCall) : kvPersist codec store c c.txid = c.putAll codec (store c.txid) :=
  Function.update_self ..

theorem kvPersist_of_ne (h : txid ≠ c.txid) : kvPersist codec store c txid = store txid :=
  Function.update_of_ne h ..

theorem StoredBy.persist (h : StoredBy calls store db) (c : PersistCall) :
    StoredBy (calls ++ [c]) (kvPersist codec store c) (persist codec db c) where
  value := by
    intro txid k v hv
    by_cases ht : txid = c.txid
    · subst ht
      rw [kvPersist_self, Transient.persist, PersistCall.lookup_putAll, PersistCall.lookup_putAll]
      by_cases hi : c.IsIndexKey k
      · simp [hi, hv.symm]
      · by_cases hk : k = c.key
        · simp [hk]
        · simp [hi, hk, h.value _ k v hv, or_and_right, exists_or]
    · rw [kvPersist_of_ne ht, h.value _ k v hv]
      simp only [mem_append, mem_singleton, or_and_right, exists_or, exists_eq_left, Ne.symm ht, false_and, or_false]
      refine and_congr_left ?_
      rintro ⟨c', -, rfl, rfl⟩
      rw [Transient.persist, PersistCall.lookup_putAll_of_ne fun he => ht (PersistCall.txid_eq_of_key_eq he)]
  index := by
    intro txid k
    by_cases ht : txid = c.txid
    · subst ht
      rw [kvPersist_self, PersistCall.lookup_putAll]
      by_cases hi : c.IsIndexKey k
      · simp only [hi, if_true, true_iff]
        exact ⟨c, by simp, rfl, hi⟩
      · by_cases hk : k = c.key
        · subst hk
          simp [PersistCall.not_isIndexKey_key, PersistCall.value_ne_nil]
        · simp [hi, hk, h.index, or_and_right, exists_or]
    · rw [kvPersist_of_ne ht, h.index]
      simp [or_and_right, exists_or, Ne.symm ht]
  origin := by
    intro k v hk
    rw [Transient.persist, PersistCall.lookup_putAll] at hk
    split_ifs at hk with hi hky
    · exact ⟨c, by simp, Or.inl hi⟩
    · cases hk
      exact ⟨c, by simp, Or.inr ⟨hky, PersistCall.value_ne_nil⟩⟩
    · obtain ⟨c', hc', hor⟩ := h.origin k v hk
      exact ⟨c', by simp [hc'], hor⟩
  present := by
    intro c' hc'
    by_cases hk : c'.key = c.key
    · exact ⟨c.value codec, by rw [hk, Transient.persist, PersistCall.lookup_putAll_key]⟩
    · rcases mem_append.mp hc' with hc' | hc'
      · obtain ⟨v, hv⟩ := h.present c' hc'
        exact ⟨v, (PersistCall.lookup_putAll_of_ne hk).trans hv⟩
      · exact absurd (congrArg PersistCall.key (mem_singleton.mp hc')) hk

theorem storedBy_persistAll (codec : TransientCodec) (calls : List PersistCall) :
    StoredBy calls (kvPersistAll codec calls) (persistAll codec calls) := by
  induction calls using List.reverseRecOn with
  | nil => exact StoredBy.empty
  | append_singleton calls c ih =>
    rw [kvPersistAll, persistAll, foldl_concat, foldl_concat]
    exact ih.persist c

theorem mem_scannedFields {filters : List PvtNsCollFilter} (hf : filters ≠ []) {fields : AMap Bytes Bytes} :
    field ∈ scannedFields fields txid filters ↔
      fields.lookup field.1 = some field.2 ∧ createTxidRangeStartKey txid <:+: field.1 := by
  simp [scannedFields, AMap.mem_toPairs, hf]

theorem mem_getIterator : e ∈ getIterator db txid ↔ db.lookup e.1 = some e.2 ∧ InTxidRange txid e.1 := by
  simp [getIterator, AMap.mem_toPairs]

theorem nodup_getIterator (db : LevelDB) (txid : Bytes) : (getIterator db txid).Nodup :=
  (mergeSort_perm _ _).nodup_iff.mpr ((AMap.nodup_toPairs db).filter _)

theorem fieldResults_nil (filters : List PvtNsCollFilter) (k : Bytes) :
    fieldResults codec filters (k, []) = .ok (k, none) :=
  rfl

theorem fieldResults_single (hv : field.2 ≠ []) :
    fieldResults codec [filter] field =
      (processPrivateData codec filter field.1 field.2 >>= fun r => .ok (field.1, some [r])) := by
  rw [fieldResults, if_neg hv, mapM_cons]
  cases processPrivateData codec filter field.1 field.2 <;> rfl

theorem mapM_fieldResults {l : List (Bytes × Bytes)} (hv : ∀ field ∈ l, field.2 ≠ [])
    (h : l.mapM (fieldResults codec [filter]) = .ok fields) :
    (l.mapM fun field => processPrivateData codec filter field.1 field.2) =
      .ok (fields.flatMap fun field => field.2.getD []) := by
  induction l generalizing fields with
  | nil =>
    cases h
    rfl
  | cons field l ih =>
    rw [forall_mem_cons] at hv
    rw [mapM_cons, fieldResults_single hv.1, bind_eq_ok] at h
    obtain ⟨entry, he, h⟩ := h
    obtain ⟨r, hr, he⟩ := bind_eq_ok.mp he
    cases he
    obtain ⟨rest, hrs, h⟩ := bind_eq_ok.mp h
    cases h
    rw [mapM_cons, hr, ih hv.2 hrs]
    rfl

end

def readTx (codec : TransientCodec) (store : KVStore) (txid : Bytes) (filter : PvtNsCollFilter) :
    Outcome ReadError (List (Bytes × List (Bytes × Option (List EndorserPvtSimulationResults)))) :=
  getTxPvtRWSetByTxidV2 codec store (AList.singleton txid [filter])

theorem readTx_eq_ok_iff {codec : TransientCodec} {store : KVStore} :
    readTx codec store txid filter = .ok [(txid, fields)] ↔ txResults codec store txid [filter] = .ok fields := by
  have hpr : AMap.toPairs (AList.singleton txid [filter]) = [(txid, [filter])] := rfl
  rw [readTx, getTxPvtRWSetByTxidV2, hpr, mapM_cons]
  cases txResults codec store txid [filter] <;> simp

/-- Reading a transaction gives the same results in the two stores, none nil and none of another transaction. -/
structure StoresAgree (codec : TransientCodec) (calls : List PersistCall) (txid : Bytes) (filter : PvtNsCollFilter) :
    Prop where
  returns : (∃ fields, readTx codec (kvPersistAll codec calls) txid filter = .ok [(txid, fields)]) ↔
    ∃ results, getTxPvtRWSetByTxid codec (persistAll codec calls) txid filter = .ok results
  same : ∀ fields results, readTx codec (kvPersistAll codec calls) txid filter = .ok [(txid, fields)] →
    getTxPvtRWSetByTxid codec (persistAll codec calls) txid filter = .ok results →
    (fields.flatMap fun field => field.2.getD []).Perm results
  kvEntries : ∀ fields, readTx codec (kvPersistAll codec calls) txid filter = .ok [(txid, fields)] →
    ∀ field ∈ fields, field.2 ≠ none ∧ ∃ c ∈ calls, c.txid = txid ∧ field.1 = c.key
  dbEntries : ∀ e ∈ getIterator (persistAll codec calls) txid, ∃ c ∈ calls, c.txid = txid ∧ e.1 = c.key

def IndexKeysApart (calls : List PersistCall) (txid : Bytes) : Prop :=
  ∀ c ∈ calls, c.txid = txid → ∀ k, c.IsIndexKey k → ¬ createTxidRangeStartKey txid <:+: k

def OthersOutside (calls : List PersistCall) (txid : Bytes) : Prop :=
  ∀ c ∈ calls, c.txid ≠ txid → ¬ InTxidRange txid c.key

def HasUnreadable (codec : TransientCodec) (calls : List PersistCall) (txid : Bytes) (filter : PvtNsCollFilter) :
    Prop :=
  ∃ k v, (kvPersistAll codec calls txid).lookup k = some v ∧ v ≠ [] ∧ ∀ r, processPrivateData codec filter k v ≠ .ok r

section

variable {codec : TransientCodec} {calls : List PersistCall} {store : KVStore} {db : LevelDB} {txid : Bytes}
  {filter : PvtNsCollFilter}

namespace StoredBy

variable (h : StoredBy calls store db)

include h

theorem isInfix_of_value {v : Bytes} (hv : v ≠ []) (hk : (store txid).lookup k = some v) :
    createTxidRangeStartKey txid <:+: k := by
  obtain ⟨-, c, -, rfl, rfl⟩ := (h.value txid k v hv).mp hk
  exact c.isInfix_key

theorem dbEntries_iff : (∀ e ∈ getIterator db txid, ∃ c ∈ calls, c.txid = txid ∧ e.1 = c.key) ↔
    OthersOutside calls txid := by
  constructor
  · intro ho c hc hne hrn
    obtain ⟨v, hv⟩ := h.present c hc
    obtain ⟨c', -, hc', hk⟩ := ho (c.key, v) (mem_getIterator.mpr ⟨hv, hrn⟩)
    exact hne ((PersistCall.txid_eq_of_key_eq hk).trans hc')
  · intro hot e he
    obtain ⟨hdb, hrn⟩ := mem_getIterator.mp he
    obtain ⟨c, hc, hi | ⟨hk, -⟩⟩ := h.origin e.1 e.2 hdb
    · exact absurd hrn hi.not_inTxidRange
    · refine ⟨c, hc, ?_, hk⟩
      by_contra hne
      exact hot c hc hne (hk ▸ hrn)

theorem mem_getIterator_iff (ho : OthersOutside calls txid) :
    e ∈ getIterator db txid ↔ (store txid).lookup e.1 = some e.2 ∧ e.2 ≠ [] := by
  constructor
  · intro he
    obtain ⟨c, hc, ht, hk⟩ := h.dbEntries_iff.mpr ho e he
    obtain ⟨hdb, -⟩ := mem_getIterator.mp he
    have hv : e.2 ≠ [] := by
      obtain ⟨c', -, hi | ⟨-, hv⟩⟩ := h.origin e.1 e.2 hdb
      · exact absurd (hk ▸ hi) PersistCall.not_isIndexKey_key
      · exact hv
    exact ⟨(h.value txid e.1 e.2 hv).mpr ⟨hdb, c, hc, ht, hk⟩, hv⟩
  · rintro ⟨hkv, hv⟩
    obtain ⟨hdb, c, -, rfl, hk⟩ := (h.value txid e.1 e.2 hv).mp hkv
    exact mem_getIterator.mpr ⟨hdb, hk ▸ c.key_inTxidRange⟩

theorem kv_returns_iff :
    (∃ fields, txResults codec store txid [filter] = .ok fields) ↔
      ∀ k v, (store txid).lookup k = some v → v ≠ [] → ∃ r, processPrivateData codec filter k v = .ok r := by
  rw [txResults, exists_mapM_eq_ok_iff]
  constructor
  · intro ha k v hk hv
    obtain ⟨entry, he⟩ := ha (k, v) ((mem_scannedFields (cons_ne_nil _ _)).mpr ⟨hk, h.isInfix_of_value hv hk⟩)
    rw [fieldResults_single hv, bind_eq_ok] at he
    obtain ⟨r, hr, -⟩ := he
    exact ⟨r, hr⟩
  · rintro ha ⟨k, v⟩ hm
    obtain ⟨hk, -⟩ := (mem_scannedFields (cons_ne_nil _ _)).mp hm
    by_cases hv : v = []
    · exact ⟨(k, none), hv ▸ fieldResults_nil _ k⟩
    · obtain ⟨r, hr⟩ := ha k v hk hv
      exact ⟨(k, some [r]), by rw [fieldResults_single hv, hr, ok_bind]⟩

theorem db_returns_iff (ho : OthersOutside calls txid) :
    (∃ results, getTxPvtRWSetByTxid codec db txid filter = .ok results) ↔
      ∀ k v, (store txid).lookup k = some v → v ≠ [] → ∃ r, processPrivateData codec filter k v = .ok r := by
  rw [getTxPvtRWSetByTxid, exists_mapM_eq_ok_iff]
  constructor
  · intro ha k v hk hv
    exact ha (k, v) ((h.mem_getIterator_iff ho).mpr ⟨hk, hv⟩)
  · intro ha e he
    obtain ⟨hk, hv⟩ := (h.mem_getIterator_iff ho).mp he
    exact ha e.1 e.2 hk hv

theorem nil_mem_of_isInfix (hc : c ∈ calls) (hk : c.IsIndexKey k) (hsc : createTxidRangeStartKey c.txid <:+: k)
    (hf : txResults codec store c.txid [filter] = .ok fields) : (k, none) ∈ fields := by
  have hm : (k, []) ∈ scannedFields (store c.txid) c.txid [filter] :=
    (mem_scannedFields (cons_ne_nil _ _)).mpr ⟨(h.index c.txid k).mpr ⟨c, hc, rfl, hk⟩, hsc⟩
  obtain ⟨entry, he, hok⟩ := exists_mem_of_mapM hf hm
  cases (fieldResults_nil _ k).symm.trans hok
  exact he

section

variable (hapart : IndexKeysApart calls txid)
include hapart

theorem value_of_indexKeysApart (hf : field ∈ scannedFields (store txid) txid [filter]) : field.2 ≠ [] := by
  obtain ⟨hk, hsc⟩ := (mem_scannedFields (cons_ne_nil _ _)).mp hf
  intro hnil
  rw [hnil, h.index] at hk
  obtain ⟨c, hc, ht, hi⟩ := hk
  exact hapart c hc ht field.1 hi hsc

theorem scannedFields_perm (ho : OthersOutside calls txid) :
    (scannedFields (store txid) txid [filter]).Perm (getIterator db txid) := by
  refine (perm_ext_iff_of_nodup ((AMap.nodup_toPairs _).filter _) (nodup_getIterator db txid)).mpr ?_
  intro field
  rw [h.mem_getIterator_iff ho]
  constructor
  · intro hf
    exact ⟨((mem_scannedFields (cons_ne_nil _ _)).mp hf).1, h.value_of_indexKeysApart hapart hf⟩
  · rintro ⟨hk, hv⟩
    exact (mem_scannedFields (cons_ne_nil _ _)).mpr ⟨hk, h.isInfix_of_value hv hk⟩

theorem flatMap_perm (ho : OthersOutside calls txid) {results : List EndorserPvtSimulationResults}
    (hf : txResults codec store txid [filter] = .ok fields)
    (hrs : getTxPvtRWSetByTxid codec db txid filter = .ok results) :
    (fields.flatMap fun field => field.2.getD []).Perm results := by
  have hsn := mapM_fieldResults (fun _ hfl => h.value_of_indexKeysApart hapart hfl) hf
  obtain ⟨results', hok, hp⟩ := mapM_perm (h.scannedFields_perm hapart ho) hsn
  cases hrs.symm.trans hok
  exact hp

theorem own_of_indexKeysApart (hf : txResults codec store txid [filter] = .ok fields)
    {entry : Bytes × Option (List EndorserPvtSimulationResults)} (he : entry ∈ fields) :
    entry.2 ≠ none ∧ ∃ c ∈ calls, c.txid = txid ∧ entry.1 = c.key := by
  obtain ⟨field, hfl, hok⟩ := exists_of_mem_mapM hf he
  have hv := h.value_of_indexKeysApart hapart hfl
  rw [fieldResults_single hv, bind_eq_ok] at hok
  obtain ⟨r, -, hok⟩ := hok
  cases hok
  obtain ⟨-, ho⟩ := (h.value txid field.1 field.2 hv).mp ((mem_scannedFields (cons_ne_nil _ _)).mp hfl).1
  exact ⟨Option.some_ne_none _, ho⟩

end

end StoredBy

/-- The stores agree on a transaction exactly if no other key is in its range and no index key of it is taken for a key
of private data, or if they both fail to read a write set of it. -/
theorem stores_agree_iff (codec : TransientCodec) (calls : List PersistCall) (txid : Bytes) (filter : PvtNsCollFilter) :
    StoresAgree codec calls txid filter ↔
      OthersOutside calls txid ∧ (IndexKeysApart calls txid ∨ HasUnreadable codec calls txid filter) := by
  have h := storedBy_persistAll codec calls
  constructor
  · intro ha
    refine ⟨h.dbEntries_iff.mp ha.dbEntries, or_iff_not_imp_right.mpr ?_⟩
    rintro hrd c hc rfl k hk hsc
    have hal : ∀ k v, (kvPersistAll codec calls c.txid).lookup k = some v → v ≠ [] →
        ∃ r, processPrivateData codec filter k v = .ok r := by
      intro k v hkv hv
      by_contra hn
      exact hrd ⟨k, v, hkv, hv, fun r hr => hn ⟨r, hr⟩⟩
    obtain ⟨fields, hf⟩ := h.kv_returns_iff.mpr hal
    exact (ha.kvEntries fields (readTx_eq_ok_iff.mpr hf) _ (h.nil_mem_of_isInfix hc hk hsc hf)).1 rfl
  · rintro ⟨ho, hcs⟩
    have hapart : ∀ fields, txResults codec (kvPersistAll codec calls) txid [filter] = .ok fields →
        IndexKeysApart calls txid := by
      intro fields hf
      rcases hcs with hapart | ⟨k, v, hk, hv, hr⟩
      · exact hapart
      · obtain ⟨r, hok⟩ := h.kv_returns_iff.mp ⟨fields, hf⟩ k v hk hv
        exact absurd hok (hr r)
    refine ⟨?_, ?_, ?_, h.dbEntries_iff.mpr ho⟩
    · simp only [readTx_eq_ok_iff]
      exact h.kv_returns_iff.trans (h.db_returns_iff ho).symm
    · intro fields results hf hrs
      rw [readTx_eq_ok_iff] at hf
      exact h.flatMap_perm (hapart fields hf) ho hf hrs
    · intro fields hf field hfl
      rw [readTx_eq_ok_iff] at hf
      exact h.own_of_indexKeysApart (hapart fields hf) hf hfl

end

section

private def plainCodec : TransientCodec where
  withConfigInfo := ⟨fun r => [r.endorsedAt.toUInt8], fun b => if b = [0x00] then some { pvtRwset := some ⟨[]⟩ } else none⟩
  txPvtReadWriteSet := .ofTable [] []

private def callAtHeight80 : PersistCall :=
  ⟨ascii "t1", Uuid.zero, 80, { pvtRwset := some ⟨[]⟩ }⟩

/-- The low byte of height 80 is the letter with which the keys of private data start. -/
theorem height_index_read_as_private_data :
    ¬ StoresAgree plainCodec [callAtHeight80] callAtHeight80.txid none := by
  intro ha
  have hr : ∃ fields, txResults plainCodec (kvPersistAll plainCodec [callAtHeight80]) callAtHeight80.txid [none] =
      .ok fields := ⟨_, rfl⟩
  obtain ⟨fields, hf⟩ := hr
  have hnil := (storedBy_persistAll plainCodec [callAtHeight80]).nil_mem_of_isInfix mem_cons_self (.inl rfl)
    (createTxidRangeStartKey_isInfix_heightKey _ _ rfl) hf
  exact (ha.kvEntries fields (readTx_eq_ok_iff.mpr hf) _ hnil).1 rfl

end

end Drunix.Transient
