import Drunix.Lib.LastMax
import Drunix.Lib.Lists
import Drunix.Transient.Stores

namespace Drunix.Gossip

open Lib Proto Transient Outcome List

structure DigKey where
  txId : Bytes
  nameSpace : Bytes
  collection : Bytes
  blockSeq : UInt64
  seqInBlock : UInt64
  deriving DecidableEq

structure PrivateRWSetWithConfig where
  rwset : List Bytes := []
  collectionConfig : Option CollectionConfig := none
  deriving DecidableEq

abbrev Dig2PvtRWSetWithConfig := AMap DigKey PrivateRWSetWithConfig

inductive RetrieveError
  | ledgerHeight
  | transientStore (e : ReadError)
  | pvtDataByNum (blockNum : UInt64)
  | configHistoryRetriever (dig : DigKey)
  | recentConfig (dig : DigKey)
  | noConfigInfo (dig : DigKey)
  | noCollectionConfig (dig : DigKey)
  deriving DecidableEq

/-- What the retriever asks the committer for. A missing height, list of private data, history or config is an error of
the ledger; a config info may also be nil. -/
structure Committer where
  ledgerHeight : Option UInt64
  getPvtDataByNum : UInt64 → (Bytes → Bytes → Bool) → Option (List (UInt64 × TxPvtData))
  mostRecentCollectionConfigBelow : Option (UInt64 → Bytes → Option (Option (List CollectionConfig)))

def extractCollectionConfig (collectionName : Bytes) : List CollectionConfig → Option CollectionConfig
  | [] => none
  | .unset :: _ => none
  | .static name settings :: rest =>
    if name = collectionName then some (.static name settings) else extractCollectionConfig collectionName rest

def extractPvtRWsets (pvtRWSets : List NsPvtReadWriteSet) (ns collectionName : Bytes) : List Bytes :=
  (pvtRWSets.filter fun nsws => nsws.nameSpace = ns).flatMap fun nsws =>
    (nsws.collectionPvtRwset.filter fun col => col.collectionName = collectionName).map fun col => col.rwset

def hasCollection (writeSet : TxPvtReadWriteSet) (ns coll : Bytes) : Bool :=
  writeSet.nsPvtRwset.any fun nsdata =>
    nsdata.nameSpace = ns && nsdata.collectionPvtRwset.any fun colldata => colldata.collectionName = coll

section

variable (committer : Committer)

def ledgerEntry (pvtData : List (UInt64 × TxPvtData)) (dig : DigKey) : Outcome RetrieveError PrivateRWSetWithConfig := do
  let writeSets := pvtData.filterMap fun data => if data.1 = dig.seqInBlock then data.2.writeSet else none
  let rwset := (writeSets.filter fun ws => hasCollection ws dig.nameSpace dig.collection).flatMap fun ws =>
    extractPvtRWsets ws.nsPvtRwset dig.nameSpace dig.collection
  let history ← .orErr (.configHistoryRetriever dig) committer.mostRecentCollectionConfigBelow
  let configInfo ← .orErr (.recentConfig dig) (history dig.blockSeq dig.nameSpace)
  let config ← .orErr (.noConfigInfo dig) configInfo
  let configs ← .orErr (.noCollectionConfig dig) (extractCollectionConfig dig.collection config)
  return ⟨rwset, some configs⟩

def fromLedger (digests : List DigKey) (blockNum : UInt64) : Outcome RetrieveError Dig2PvtRWSetWithConfig := do
  let filter := fun ns coll => digests.any fun dig => dig.nameSpace = ns && dig.collection = coll
  let pvtData ← .orErr (.pvtDataByNum blockNum) (committer.getPvtDataByNum blockNum filter)
  let entries ← digests.mapM fun dig => do
    let entry ← ledgerEntry committer pvtData dig
    return (dig, entry)
  return entries.foldl (fun results e => results.insert e.1 e.2) ∅

end

def digFilter (dig : DigKey) : PvtNsCollFilter :=
  some fun ns coll => ns = dig.nameSpace && coll = dig.collection

structure Contribution where
  endorsedAt : UInt64
  configs : CollectionConfig
  pvtRWSet : List Bytes

def contribution (dig : DigKey) (res : EndorserPvtSimulationResults) : Option Contribution := do
  let rws := res.pvtSimulationResultsWithConfig
  let txPvtRWSet ← rws.pvtRwset
  let colConfigs ← rws.collectionConfigs.lookup dig.nameSpace
  let configs ← extractCollectionConfig dig.collection colConfigs
  return ⟨rws.endorsedAt, configs, extractPvtRWsets txPvtRWSet.nsPvtRwset dig.nameSpace dig.collection⟩

structure Gathered where
  entry : PrivateRWSetWithConfig := {}
  maxEndorsedAt : UInt64 := 0

def Gathered.take (g : Gathered) (c : Contribution) : Gathered :=
  if g.maxEndorsedAt ≤ c.endorsedAt then ⟨⟨g.entry.rwset ++ c.pvtRWSet, some c.configs⟩, c.endorsedAt⟩
  else ⟨⟨g.entry.rwset ++ c.pvtRWSet, g.entry.collectionConfig⟩, g.maxEndorsedAt⟩

def Gathered.add (dig : DigKey) (g : Gathered) (res : EndorserPvtSimulationResults) : Gathered :=
  (contribution dig res).elim g g.take

def gather (dig : DigKey) (results : List EndorserPvtSimulationResults) : PrivateRWSetWithConfig :=
  (results.foldl (Gathered.add dig) {}).entry

section

variable (codec : TransientCodec) (committer : Committer) (store : KVStore) (db : LevelDB)

def fromTransientStore (dig : DigKey) : Outcome ReadError PrivateRWSetWithConfig := do
  let results ← getTxPvtRWSetByTxid codec db dig.txId (digFilter dig)
  return gather dig results

def retrieveDigest (results : Dig2PvtRWSetWithConfig) (dig : DigKey) : Outcome RetrieveError Dig2PvtRWSetWithConfig :=
  if dig.txId = [] then .ok results
  else match fromTransientStore codec db dig with
    | .ok pvtRWSet => .ok (results.insert dig pvtRWSet)
    | .err _ => .ok results
    | .panic => .panic

/-- The path of `CollectionRWSet` with the leveldb transient store. -/
def collectionRWSet (digests : List DigKey) (blockNum : UInt64) :
    Outcome RetrieveError (Dig2PvtRWSetWithConfig × Bool) := do
  let height ← .orErr .ledgerHeight committer.ledgerHeight
  if height ≤ blockNum then do
    let results ← digests.foldlM (retrieveDigest codec db) ∅
    return (results, false)
  else do
    let results ← fromLedger committer digests blockNum
    return (results, true)

def withTxId (digests : List DigKey) : List DigKey :=
  digests.filter fun dig => dig.txId ≠ []

def iterMap (digests : List DigKey) : AMap Bytes DigKey :=
  ((withTxId digests).map fun dig => (dig.txId, dig)).foldl (fun m e => m.insert e.1 e.2) ∅

def rwsetKeysMap (digests : List DigKey) : AMap Bytes (List PvtNsCollFilter) :=
  ((withTxId digests).map fun dig => (dig.txId, digFilter dig)).foldl
    (fun m e => m.modify e.1 fun filters => filters.getD [] ++ [e.2]) ∅

abbrev FieldResults := Bytes × Option (List EndorserPvtSimulationResults)

def txEntry (order : Bytes → List FieldResults → List FieldResults)
    (transientstoreData : List (Bytes × List FieldResults)) (dig : DigKey) : Option PrivateRWSetWithConfig :=
  match (transientstoreData.lookup dig.txId).getD [] with
  | [] => none
  | fields => some (gather dig ((order dig.txId fields).flatMap fun field => field.2.getD []))

def addEntries (entry : DigKey → Option PrivateRWSetWithConfig) (digs : List DigKey) : Dig2PvtRWSetWithConfig :=
  digs.foldl (fun results dig => (entry dig).elim results fun pvtRWSet => results.insert dig pvtRWSet) ∅

def collectionRWSetFromKVStore (order : Bytes → List FieldResults → List FieldResults) (digests : List DigKey)
    (blockNum : UInt64) : Outcome RetrieveError (Dig2PvtRWSetWithConfig × Bool) := do
  let height ← .orErr .ledgerHeight committer.ledgerHeight
  if height ≤ blockNum then do
    let transientstoreData ← (getTxPvtRWSetByTxidV2 codec store (rwsetKeysMap digests)).mapErr .transientStore
    return (addEntries (txEntry order transientstoreData) ((iterMap digests).toPairs.map Prod.snd), false)
  else do
    let results ← fromLedger committer digests blockNum
    return (results, true)

end

/-- The two stores have the same entries for a transaction; the hash may have index fields besides them. -/
structure EqualContents (store : KVStore) (db : LevelDB) (txid : Bytes) : Prop where
  entries : ∀ e, e ∈ getIterator db txid ↔
    (store txid).lookup e.1 = some e.2 ∧ e.2 ≠ [] ∧ createTxidRangeStartKey txid <:+: e.1
  index : ∀ k, (store txid).lookup k = some [] → createTxidRangeStartKey txid <:+: k → getIterator db txid ≠ []

theorem equalContents_persistAll (codec : TransientCodec) {calls : List PersistCall} {txid : Bytes}
    (ho : OthersOutside calls txid) : EqualContents (kvPersistAll codec calls) (persistAll codec calls) txid := by
  have h := storedBy_persistAll codec calls
  constructor
  · intro e
    rw [h.mem_getIterator_iff ho]
    constructor
    · rintro ⟨hk, hv⟩
      exact ⟨hk, hv, h.isInfix_of_value hv hk⟩
    · rintro ⟨hk, hv, -⟩
      exact ⟨hk, hv⟩
  · intro k hk _
    obtain ⟨c, hc, rfl, -⟩ := (h.index txid k).mp hk
    obtain ⟨v, hv⟩ := h.present c hc
    have hmem : (c.key, v) ∈ getIterator (persistAll codec calls) c.txid :=
      mem_getIterator.mpr ⟨hv, c.key_inTxidRange⟩
    exact ne_nil_of_mem hmem

def SameEntry (a b : PrivateRWSetWithConfig) : Prop :=
  a.rwset.Perm b.rwset ∧ a.collectionConfig = b.collectionConfig

/-- The calls return maps with the same entries, up to the order of the write sets, or the same error. -/
def SameRetrieval (kv ldb : Outcome RetrieveError (Dig2PvtRWSetWithConfig × Bool)) : Prop :=
  (∃ e, kv = .err e ∧ ldb = .err e) ∨
    ∃ m m' fromLedger, kv = .ok (m, fromLedger) ∧ ldb = .ok (m', fromLedger) ∧
      ∀ dig, Option.Rel SameEntry (m.lookup dig) (m'.lookup dig)

def Contributes (codec : TransientCodec) (db : LevelDB) (dig : DigKey) (c : Contribution) : Prop :=
  ∃ e ∈ getIterator db dig.txId, ∃ res, processPrivateData codec (digFilter dig) e.1 e.2 = .ok res ∧
    contribution dig res = some c

def LatestContribution (codec : TransientCodec) (db : LevelDB) (dig : DigKey) (c : Contribution) : Prop :=
  Contributes codec db dig c ∧ ∀ c', Contributes codec db dig c' → c'.endorsedAt ≤ c.endorsedAt

structure Retrievable (codec : TransientCodec) (db : LevelDB) (digests : List DigKey) (dig : DigKey) : Prop where
  stored : getIterator db dig.txId ≠ []
  readable : ∀ e ∈ getIterator db dig.txId, ∃ res, processPrivateData codec (digFilter dig) e.1 e.2 = .ok res
  only : ∀ dig' ∈ digests, dig'.txId = dig.txId → dig' = dig
  once : digests.count dig = 1 ∨ ∀ c, Contributes codec db dig c → c.pvtRWSet = []
  sameConfig : ∀ c c', LatestContribution codec db dig c → LatestContribution codec db dig c' → c.configs = c'.configs

variable {c : Contribution} {filters : List PvtNsCollFilter} {e : Bytes × Bytes}

section Gathering

def entryOf (l : List Contribution) : PrivateRWSetWithConfig :=
  ⟨l.flatMap fun c => c.pvtRWSet, (lastMax (fun c => c.endorsedAt.toNat) l).map fun c => c.configs⟩

theorem foldl_add (dig : DigKey) (results : List EndorserPvtSimulationResults) (g : Gathered) :
    results.foldl (Gathered.add dig) g = (results.filterMap (contribution dig)).foldl Gathered.take g := by
  induction results generalizing g with
  | nil => rfl
  | cons res results ih =>
    rw [foldl_cons, ih, Gathered.add, filterMap_cons]
    cases contribution dig res <;> rfl

theorem foldl_take (l : List Contribution) :
    l.foldl Gathered.take {} =
      ⟨entryOf l, ((lastMax (fun c => c.endorsedAt.toNat) l).map fun c => c.endorsedAt).getD 0⟩ := by
  induction l using List.reverseRecOn with
  | nil => rfl
  | append_singleton l c ih =>
    have hle : ((lastMax (fun c => c.endorsedAt.toNat) l).map fun c => c.endorsedAt).getD 0 ≤ c.endorsedAt ↔
        (lastMax (fun c => c.endorsedAt.toNat) l).all fun b => b.endorsedAt.toNat ≤ c.endorsedAt.toNat := by
      cases lastMax (fun c => c.endorsedAt.toNat) l with
      | none => simp
      | some b => simp [UInt64.le_iff_toNat_le]
    rw [foldl_concat, ih, Gathered.take, entryOf, entryOf, lastMax_concat, flatMap_append]
    simp only [hle, flatMap_singleton]
    split_ifs <;> rfl

theorem gather_eq (dig : DigKey) (results : List EndorserPvtSimulationResults) :
    gather dig results = entryOf (results.filterMap (contribution dig)) := by
  rw [gather, foldl_add, foldl_take]

variable {kv ldb : List Contribution}

theorem sameEntry_of_perm {n : Nat} (hn : n ≠ 0) (hp : kv.Perm (ldb.flatMap (List.replicate n)))
    (ho : n = 1 ∨ ∀ c ∈ ldb, c.pvtRWSet = [])
    (hcn : ∀ a ∈ ldb, ∀ b ∈ ldb, (∀ c ∈ ldb, c.endorsedAt.toNat ≤ a.endorsedAt.toNat) →
      (∀ c ∈ ldb, c.endorsedAt.toNat ≤ b.endorsedAt.toNat) → a.configs = b.configs) :
    SameEntry (entryOf kv) (entryOf ldb) := by
  have hmem : ∀ c, c ∈ ldb ↔ c ∈ kv := by
    intro c
    rw [hp.mem_iff]
    simp [mem_replicate, hn]
  refine ⟨?_, (map_lastMax_congr hmem hcn).symm⟩
  rcases ho with rfl | hnil
  · have hon : ldb.flatMap (List.replicate 1) = ldb := flatMap_singleton' ldb
    rw [hon] at hp
    exact hp.flatMap_right fun c => c.pvtRWSet
  · have he : ∀ l : List Contribution, (∀ c ∈ l, c.pvtRWSet = []) → (entryOf l).rwset = [] := by
      intro l hl
      exact flatMap_eq_nil_iff.mpr hl
    rw [he ldb hnil, he kv fun c hc => hnil c ((hmem c).mpr hc)]

/-- A digest that is asked for several times gets its write sets as many times. -/
theorem once_of_sameEntry {n : Nat} (hp : kv.Perm (ldb.flatMap (List.replicate n)))
    (hsm : SameEntry (entryOf kv) (entryOf ldb)) : n = 1 ∨ ∀ c ∈ ldb, c.pvtRWSet = [] := by
  have hlen : n * (entryOf ldb).rwset.length = (entryOf ldb).rwset.length := by
    calc n * (entryOf ldb).rwset.length
        = ((ldb.flatMap (List.replicate n)).flatMap fun c => c.pvtRWSet).length := (length_flatMap_replicate _ n ldb).symm
      _ = (entryOf kv).rwset.length := (hp.flatMap_right _).length_eq.symm
      _ = (entryOf ldb).rwset.length := hsm.1.length_eq
  by_cases hz : (entryOf ldb).rwset.length = 0
  · exact Or.inr (flatMap_eq_nil_iff.mp (length_eq_zero_iff.mp hz))
  · exact Or.inl (Nat.eq_of_mul_eq_mul_right (Nat.pos_of_ne_zero hz) (by rw [hlen, Nat.one_mul]))

theorem collectionConfig_of_last {before after : List Contribution} (ha : after ≠ []) (heq : ∀ c' ∈ after, c' = c)
    (hmax : ∀ c' ∈ before, c'.endorsedAt ≤ c.endorsedAt) :
    (entryOf (before ++ after)).collectionConfig = some c.configs := by
  obtain ⟨front, last, rfl⟩ := eq_nil_or_concat after |>.resolve_left ha
  rw [concat_eq_append] at heq ⊢
  have hl : last = c := heq last (by simp)
  subst hl
  rw [entryOf, ← append_assoc, lastMax_concat_of_max, Option.map_some]
  intro c' hc'
  rcases mem_append.mp hc' with hc' | hc'
  · exact UInt64.le_iff_toNat_le.mp (hmax c' hc')
  · rw [heq c' (by simp [hc'])]

end Gathering

section Digests

variable {digests : List DigKey} {dig : DigKey} {txid : Bytes}

def filtersOf (digests : List DigKey) (txid : Bytes) : List PvtNsCollFilter :=
  ((withTxId digests).filter fun dig => dig.txId = txid).map digFilter

theorem mem_withTxId : dig ∈ withTxId digests ↔ dig ∈ digests ∧ dig.txId ≠ [] := by
  simp [withTxId]

theorem lookup_rwsetKeysMap (digests : List DigKey) (txid : Bytes) :
    (rwsetKeysMap digests).lookup txid =
      if filtersOf digests txid = [] then none else some (filtersOf digests txid) := by
  have hf : ∀ l : List (Bytes × PvtNsCollFilter),
      l.foldl (fun (v : Option (List PvtNsCollFilter)) e => some (v.getD [] ++ [e.2])) none =
        if l.map Prod.snd = [] then none else some (l.map Prod.snd) := by
    intro l
    induction l using List.reverseRecOn with
    | nil => rfl
    | append_singleton l e ih =>
      rw [foldl_concat, ih]
      by_cases hl : l = [] <;> simp [hl]
  rw [rwsetKeysMap, AMap.lookup_foldl_modify (fun v e => v.getD [] ++ [e])]
  refine (hf _).trans ?_
  rw [filter_map, map_map]
  rfl

theorem mem_rwsetKeysMap :
    (txid, filters) ∈ (rwsetKeysMap digests).toPairs ↔ filters = filtersOf digests txid ∧ filters ≠ [] := by
  rw [AMap.mem_toPairs, lookup_rwsetKeysMap]
  split_ifs with hnil
  · simp [hnil]
  · rw [Option.some.injEq, eq_comm]
    exact iff_self_and.mpr fun h : filters = _ => h ▸ hnil

theorem count_ne_zero (h : dig ∈ withTxId digests) : digests.count dig ≠ 0 :=
  (count_pos_iff.mpr (mem_withTxId.mp h).1).ne'

theorem filtersOf_ne_nil (h : dig ∈ withTxId digests) : filtersOf digests dig.txId ≠ [] := by
  have hmem : digFilter dig ∈ filtersOf digests dig.txId := mem_map.mpr ⟨dig, by simp [h], rfl⟩
  exact ne_nil_of_mem hmem

theorem filtersOf_eq_replicate (ht : dig.txId ≠ []) (honly : ∀ dig' ∈ digests, dig'.txId = dig.txId → dig' = dig) :
    filtersOf digests dig.txId = List.replicate (digests.count dig) (digFilter dig) := by
  have hf : (withTxId digests).filter (fun dig' => dig'.txId = dig.txId) = digests.filter (· == dig) := by
    rw [withTxId, filter_filter]
    refine filter_congr ?_
    intro dig' hd'
    by_cases h : dig' = dig
    · subst h
      simp [ht]
    · have hne : dig'.txId ≠ dig.txId := fun he => h (honly dig' hd' he)
      simp [h, hne]
  rw [filtersOf, hf, filter_beq, map_replicate]

theorem mem_iterMap_digests :
    dig ∈ (iterMap digests).toPairs.map Prod.snd ↔ (iterMap digests).lookup dig.txId = some dig := by
  constructor
  · intro h
    obtain ⟨e, he, rfl⟩ := mem_map.mp h
    rw [AMap.mem_toPairs] at he
    obtain ⟨dig, -, heq⟩ := mem_map.mp (AMap.mem_of_lookup_foldl_insert he)
    obtain ⟨ht, rfl⟩ := Prod.mk.inj heq
    rw [ht]
    exact he
  · intro h
    exact mem_map.mpr ⟨(dig.txId, dig), AMap.mem_toPairs.mpr h, rfl⟩

theorem lookup_iterMap_of_only (hmem : dig ∈ withTxId digests)
    (honly : ∀ dig' ∈ digests, dig'.txId = dig.txId → dig' = dig) : (iterMap digests).lookup dig.txId = some dig := by
  have hp : (dig.txId, dig) ∈ (withTxId digests).map fun dig => (dig.txId, dig) := mem_map.mpr ⟨dig, hmem, rfl⟩
  obtain ⟨dig', hd'⟩ := AMap.exists_lookup_foldl_insert hp ∅
  obtain ⟨dig'', hm', heq⟩ := mem_map.mp (AMap.mem_of_lookup_foldl_insert hd')
  obtain ⟨ht, rfl⟩ := Prod.mk.inj heq
  exact hd'.trans (congrArg some (honly dig'' (mem_withTxId.mp hm').1 ht))

end Digests

section Reading

variable {codec : TransientCodec} {store : KVStore} {db : LevelDB} {digests : List DigKey} {dig : DigKey}
  {field : Bytes × Bytes}

theorem exists_fieldResults_iff (hv : field.2 ≠ []) :
    (∃ entry, fieldResults codec filters field = .ok entry) ↔
      ∀ filter ∈ filters, ∃ res, processPrivateData codec filter field.1 field.2 = .ok res := by
  rw [← exists_mapM_eq_ok_iff, fieldResults, if_neg hv]
  constructor
  · rintro ⟨entry, h⟩
    obtain ⟨results, hrs, -⟩ := bind_eq_ok.mp h
    exact ⟨results, hrs⟩
  · rintro ⟨results, hrs⟩
    exact ⟨(field.1, some results), by rw [hrs]; rfl⟩

theorem getTxPvtRWSetByTxidV2_returns_iff (heq : ∀ dig ∈ digests, dig.txId ≠ [] → EqualContents store db dig.txId) :
    (∃ data, getTxPvtRWSetByTxidV2 codec store (rwsetKeysMap digests) = .ok data) ↔
      ∀ dig ∈ digests, dig.txId ≠ [] → ∀ e ∈ getIterator db dig.txId,
        ∃ res, processPrivateData codec (digFilter dig) e.1 e.2 = .ok res := by
  rw [getTxPvtRWSetByTxidV2, exists_mapM_eq_ok_iff]
  constructor
  · intro ha dig hd ht e he
    have hmem := mem_withTxId.mpr ⟨hd, ht⟩
    have hf := filtersOf_ne_nil hmem
    obtain ⟨_, h⟩ := ha (dig.txId, filtersOf digests dig.txId) (mem_rwsetKeysMap.mpr ⟨rfl, hf⟩)
    obtain ⟨fields, hfl, -⟩ := bind_eq_ok.mp h
    obtain ⟨hlk, hv, hsc⟩ := ((heq dig hd ht).entries e).mp he
    obtain ⟨entry, -, hen⟩ := exists_mem_of_mapM hfl ((mem_scannedFields hf).mpr ⟨hlk, hsc⟩)
    exact (exists_fieldResults_iff hv).mp ⟨entry, hen⟩ (digFilter dig)
      (mem_map.mpr ⟨dig, by simp [hmem], rfl⟩)
  · rintro ha ⟨txid, filters⟩ he
    obtain ⟨rfl, hf⟩ := mem_rwsetKeysMap.mp he
    have hr : ∃ fields, txResults codec store txid (filtersOf digests txid) = .ok fields := by
      refine exists_mapM_eq_ok ?_
      rintro ⟨k, v⟩ hfi
      obtain ⟨hlk, hsc⟩ := (mem_scannedFields hf).mp hfi
      by_cases hv : v = []
      · exact ⟨(k, none), hv ▸ fieldResults_nil _ k⟩
      · refine (exists_fieldResults_iff hv).mpr ?_
        intro filter hfil
        obtain ⟨dig, hd, rfl⟩ := mem_map.mp hfil
        obtain ⟨hmem, ht⟩ := mem_filter.mp hd
        obtain rfl : dig.txId = txid := of_decide_eq_true ht
        obtain ⟨hd, hne⟩ := mem_withTxId.mp hmem
        exact ha dig hd hne (k, v) (((heq dig hd hne).entries (k, v)).mpr ⟨hlk, hv, hsc⟩)
    obtain ⟨fields, hfl⟩ := hr
    exact ⟨(txid, fields), by rw [hfl]; rfl⟩

def ReadsAs (codec : TransientCodec) (db : LevelDB) (dig : DigKey)
    (res : Bytes × Bytes → EndorserPvtSimulationResults) : Prop :=
  ∀ e ∈ getIterator db dig.txId, processPrivateData codec (digFilter dig) e.1 e.2 = .ok (res e)

def fieldOf (res : Bytes × Bytes → EndorserPvtSimulationResults) (n : Nat) (field : Bytes × Bytes) : FieldResults :=
  (field.1, if field.2 = [] then none else some (List.replicate n (res field)))

variable {res : Bytes × Bytes → EndorserPvtSimulationResults} {n : Nat}

def fieldsFor (store : KVStore) (dig : DigKey) (n : Nat) : List (Bytes × Bytes) :=
  scannedFields (store dig.txId) dig.txId (List.replicate n (digFilter dig))

theorem mem_fieldsFor (hn : n ≠ 0) :
    field ∈ fieldsFor store dig n ↔
      (store dig.txId).lookup field.1 = some field.2 ∧ createTxidRangeStartKey dig.txId <:+: field.1 :=
  mem_scannedFields (by simpa using hn)

section

variable (heq : EqualContents store db dig.txId) (hn : n ≠ 0)
include heq hn

theorem txResults_replicate (hres : ReadsAs codec db dig res) :
    txResults codec store dig.txId (List.replicate n (digFilter dig)) = .ok ((fieldsFor store dig n).map (fieldOf res n)) := by
  have hf : ∀ field ∈ fieldsFor store dig n,
      fieldResults codec (List.replicate n (digFilter dig)) field = .ok (fieldOf res n field) := by
    intro field hf
    obtain ⟨hlk, hsc⟩ := (mem_fieldsFor hn).mp hf
    rw [fieldResults, fieldOf]
    split_ifs with hv
    · rfl
    · have he := (heq.entries field).mpr ⟨hlk, hv, hsc⟩
      have hr : (List.replicate n (digFilter dig)).mapM (fun filter => processPrivateData codec filter field.1 field.2) =
          .ok ((List.replicate n (digFilter dig)).map fun _ => res field) := by
        refine mapM_eq_ok_map ?_
        intro filter hfl
        rw [(mem_replicate.mp hfl).2, hres field he]
      rw [hr, map_replicate]
      rfl
  exact mapM_eq_ok_map hf

theorem fieldsFor_perm : ((fieldsFor store dig n).filter fun e => ¬ e.2 = []).Perm (getIterator db dig.txId) := by
  have hnd : (fieldsFor store dig n).Nodup := (AMap.nodup_toPairs _).filter _
  refine (perm_ext_iff_of_nodup (hnd.filter _) (nodup_getIterator _ _)).mpr ?_
  intro e
  rw [heq.entries, mem_filter, mem_fieldsFor hn, decide_eq_true_iff]
  tauto

theorem visited_perm {fields : List FieldResults} (hf : fields.Perm ((fieldsFor store dig n).map (fieldOf res n))) :
    ((fields.flatMap fun field => field.2.getD []).filterMap (contribution dig)).Perm
      ((((getIterator db dig.txId).map res).filterMap (contribution dig)).flatMap (List.replicate n)) := by
  have hgd : ∀ e : Bytes × Bytes, (fieldOf res n e).2.getD [] = if e.2 = [] then [] else List.replicate n (res e) := by
    intro e
    rw [fieldOf]
    split_ifs <;> rfl
  have ha : ((fieldsFor store dig n).map (fieldOf res n)).flatMap (fun field => field.2.getD []) =
      ((fieldsFor store dig n).filter fun e => ¬ e.2 = []).flatMap fun e => List.replicate n (res e) := by
    rw [flatMap_map, ← flatMap_ite_nil]
    simp only [hgd]
  rw [← filterMap_flatMap_replicate, flatMap_map]
  refine List.Perm.filterMap _ ((hf.flatMap_right _).trans ?_)
  rw [ha]
  exact (fieldsFor_perm heq hn).flatMap_right _

end

def ldbEntry (codec : TransientCodec) (db : LevelDB) (dig : DigKey) : Option PrivateRWSetWithConfig :=
  if dig.txId = [] then none
  else match fromTransientStore codec db dig with
    | .ok pvtRWSet => some pvtRWSet
    | _ => none

theorem retrieveDigest_eq (results : Dig2PvtRWSetWithConfig) (dig : DigKey) :
    retrieveDigest codec db results dig =
      if dig.txId = [] ∨ fromTransientStore codec db dig ≠ .panic then
        .ok ((ldbEntry codec db dig).elim results fun pvtRWSet => results.insert dig pvtRWSet)
      else .panic := by
  rw [retrieveDigest, ldbEntry]
  by_cases ht : dig.txId = []
  · simp [ht]
  · cases h : fromTransientStore codec db dig <;> simp [ht]

theorem foldlM_retrieveDigest_iff {m : Dig2PvtRWSetWithConfig} :
    digests.foldlM (retrieveDigest codec db) ∅ = .ok m ↔
      (∀ dig ∈ digests, dig.txId = [] ∨ fromTransientStore codec db dig ≠ .panic) ∧
        m = addEntries (ldbEntry codec db) digests :=
  foldlM_eq_ok_iff retrieveDigest_eq

theorem lookup_addEntries (entry : DigKey → Option PrivateRWSetWithConfig) (digs : List DigKey) (dig : DigKey) :
    (addEntries entry digs).lookup dig = if dig ∈ digs then entry dig else none := by
  rw [addEntries, AMap.lookup_foldl_elim_insert, AList.lookup_empty, Option.or_none]

def ldbContributions (db : LevelDB) (dig : DigKey) (res : Bytes × Bytes → EndorserPvtSimulationResults) :
    List Contribution :=
  ((getIterator db dig.txId).map res).filterMap (contribution dig)

section

variable (hres : ReadsAs codec db dig res)

include hres

theorem fromTransientStore_eq : fromTransientStore codec db dig = .ok (entryOf (ldbContributions db dig res)) := by
  rw [fromTransientStore, getTxPvtRWSetByTxid, mapM_eq_ok_map hres, ok_bind, gather_eq]
  rfl

theorem ldbEntry_eq (ht : dig.txId ≠ []) : ldbEntry codec db dig = some (entryOf (ldbContributions db dig res)) := by
  rw [ldbEntry, if_neg ht, fromTransientStore_eq hres]

theorem mem_ldbContributions : c ∈ ldbContributions db dig res ↔ Contributes codec db dig c := by
  simp only [ldbContributions, mem_filterMap, mem_map, Contributes]
  constructor
  · rintro ⟨_, ⟨e, he, rfl⟩, hc⟩
    exact ⟨e, he, res e, hres e he, hc⟩
  · rintro ⟨e, he, r, hr, hc⟩
    cases (hres e he).symm.trans hr
    exact ⟨res e, ⟨e, he, rfl⟩, hc⟩

variable {data : List (Bytes × List FieldResults)} {order : Bytes → List FieldResults → List FieldResults}
  (heq : EqualContents store db dig.txId) (hdata : getTxPvtRWSetByTxidV2 codec store (rwsetKeysMap digests) = .ok data)
  (hmem : dig ∈ withTxId digests) (honly : ∀ dig' ∈ digests, dig'.txId = dig.txId → dig' = dig)

include heq hdata hmem honly

theorem lookup_data :
    data.lookup dig.txId = some ((fieldsFor store dig (digests.count dig)).map (fieldOf res (digests.count dig))) := by
  obtain ⟨-, ht⟩ := mem_withTxId.mp hmem
  obtain ⟨fields, hf, hlk⟩ := lookup_of_mapM (AMap.nodup_keys_toPairs _) hdata
    (mem_rwsetKeysMap.mpr ⟨rfl, filtersOf_ne_nil hmem⟩)
  rw [filtersOf_eq_replicate ht honly, txResults_replicate heq (count_ne_zero hmem) hres] at hf
  cases hf
  exact hlk

theorem txEntry_eq (hst : getIterator db dig.txId ≠ []) :
    txEntry order data dig = some (entryOf (((order dig.txId
      ((fieldsFor store dig (digests.count dig)).map (fieldOf res (digests.count dig)))).flatMap
        fun field => field.2.getD []).filterMap (contribution dig))) := by
  have hn : digests.count dig ≠ 0 := count_ne_zero hmem
  obtain ⟨e, he⟩ := exists_mem_of_ne_nil _ hst
  obtain ⟨hlk, -, hsc⟩ := (heq.entries e).mp he
  have hne : (fieldsFor store dig (digests.count dig)).map (fieldOf res (digests.count dig)) ≠ [] :=
    ne_nil_of_mem (mem_map.mpr ⟨e, (mem_fieldsFor hn).mpr ⟨hlk, hsc⟩, rfl⟩)
  rw [txEntry, lookup_data hres heq hdata hmem honly, Option.getD_some]
  split
  · exact absurd ‹_› hne
  · rw [gather_eq]

end

end Reading

section Agreement

variable {codec : TransientCodec} {store : KVStore} {db : LevelDB} {digests : List DigKey} {dig : DigKey}
  {order : Bytes → List FieldResults → List FieldResults}

def SameEntries (codec : TransientCodec) (store : KVStore) (db : LevelDB) (digests : List DigKey)
    (order : Bytes → List FieldResults → List FieldResults) : Prop :=
  ∃ data m, getTxPvtRWSetByTxidV2 codec store (rwsetKeysMap digests) = .ok data ∧
    digests.foldlM (retrieveDigest codec db) ∅ = .ok m ∧
      ∀ dig, Option.Rel SameEntry
        ((addEntries (txEntry order data) ((iterMap digests).toPairs.map Prod.snd)).lookup dig) (m.lookup dig)

theorem exists_results
    (h : ∀ e ∈ getIterator db dig.txId, ∃ r, processPrivateData codec (digFilter dig) e.1 e.2 = .ok r) :
    ∃ res, ReadsAs codec db dig res := by
  have : Nonempty EndorserPvtSimulationResults := ⟨⟨0, { pvtRwset := none }⟩⟩
  choose! res hres using h
  exact ⟨res, hres⟩

theorem sameRetrieval_of_retrievable (heq : ∀ dig ∈ digests, dig.txId ≠ [] → EqualContents store db dig.txId)
    (hor : ∀ txid l, (order txid l).Perm l) (h : ∀ dig ∈ digests, dig.txId ≠ [] → Retrievable codec db digests dig) :
    SameEntries codec store db digests order := by
  obtain ⟨data, hdata⟩ := (getTxPvtRWSetByTxidV2_returns_iff heq).mpr fun dig hd ht => (h dig hd ht).readable
  refine ⟨data, _, hdata, foldlM_retrieveDigest_iff.mpr ⟨?_, rfl⟩, ?_⟩
  · intro dig hd
    refine or_iff_not_imp_left.mpr ?_
    intro ht
    obtain ⟨res, hres⟩ := exists_results (h dig hd ht).readable
    rw [fromTransientStore_eq hres]
    simp
  · intro dig
    rw [lookup_addEntries, lookup_addEntries]
    by_cases hmem : dig ∈ withTxId digests
    · obtain ⟨hd, ht⟩ := mem_withTxId.mp hmem
      have hr := h dig hd ht
      obtain ⟨res, hres⟩ := exists_results hr.readable
      rw [if_pos (mem_iterMap_digests.mpr (lookup_iterMap_of_only hmem hr.only)), if_pos hd, ldbEntry_eq hres ht,
        txEntry_eq hres (heq dig hd ht) hdata hmem hr.only hr.stored]
      have hn : digests.count dig ≠ 0 := count_ne_zero hmem
      refine .some (sameEntry_of_perm hn (visited_perm (heq dig hd ht) hn (hor _ _)) ?_ ?_)
      · simpa only [← mem_ldbContributions hres] using hr.once
      · intro c hc c' hc' hmax hm'
        have hlt : ∀ c ∈ ldbContributions db dig res,
            (∀ c' ∈ ldbContributions db dig res, c'.endorsedAt.toNat ≤ c.endorsedAt.toNat) →
              LatestContribution codec db dig c := by
          intro c hc hmax
          refine ⟨(mem_ldbContributions hres).mp hc, ?_⟩
          intro c' hc'
          exact UInt64.le_iff_toNat_le.mpr (hmax c' ((mem_ldbContributions hres).mpr hc'))
        exact hr.sameConfig c c' (hlt c hc hmax) (hlt c' hc' hm')
    · have hkv : dig ∉ (iterMap digests).toPairs.map Prod.snd := by
        intro hm
        obtain ⟨dig', hd', he⟩ := mem_map.mp (AMap.mem_of_lookup_foldl_insert (mem_iterMap_digests.mp hm))
        exact hmem ((Prod.mk.inj he).2 ▸ hd')
      have hl : (if dig ∈ digests then ldbEntry codec db dig else none) = none := by
        split_ifs with hd
        · have ht : dig.txId = [] := by
            by_contra ht
            exact hmem (mem_withTxId.mpr ⟨hd, ht⟩)
          rw [ldbEntry, if_pos ht]
        · rfl
      rw [if_neg hkv, hl]
      exact .none

variable {res : Bytes × Bytes → EndorserPvtSimulationResults} {committer : Committer} {blockNum : UInt64}

section

variable {data : List (Bytes × List FieldResults)} {m : Dig2PvtRWSetWithConfig}

theorem entry_of_sameRetrieval (hm : digests.foldlM (retrieveDigest codec db) ∅ = .ok m)
    (hr : ∀ dig, Option.Rel SameEntry
      ((addEntries (txEntry order data) ((iterMap digests).toPairs.map Prod.snd)).lookup dig) (m.lookup dig))
    (hmem : dig ∈ withTxId digests)
    (hres : ReadsAs codec db dig res) :
    (iterMap digests).lookup dig.txId = some dig ∧
      ∃ entry, txEntry order data dig = some entry ∧ SameEntry entry (entryOf (ldbContributions db dig res)) := by
  obtain ⟨hd, ht⟩ := mem_withTxId.mp hmem
  have h := hr dig
  rw [(foldlM_retrieveDigest_iff.mp hm).2, lookup_addEntries, lookup_addEntries, ldbEntry_eq hres ht] at h
  split_ifs at h with hmp
  · generalize he : txEntry order data dig = entry at h
    cases h with
    | some hsm => exact ⟨mem_iterMap_digests.mp hmp, _, rfl, hsm⟩
  · cases h

theorem stored_of_txEntry (heq : EqualContents store db dig.txId)
    (hdata : getTxPvtRWSetByTxidV2 codec store (rwsetKeysMap digests) = .ok data) (hmem : dig ∈ withTxId digests)
    (honly : ∀ dig' ∈ digests, dig'.txId = dig.txId → dig' = dig)
    (hres : ReadsAs codec db dig res)
    {entry : PrivateRWSetWithConfig} (h : txEntry order data dig = some entry) : getIterator db dig.txId ≠ [] := by
  intro hem
  have hf : fieldsFor store dig (digests.count dig) = [] := by
    refine eq_nil_iff_forall_not_mem.mpr ?_
    rintro ⟨k, v⟩ hfl
    obtain ⟨hlk, hsc⟩ := (mem_fieldsFor (count_ne_zero hmem)).mp hfl
    by_cases hv : v = []
    · exact heq.index k (hv ▸ hlk) hsc hem
    · have he := (heq.entries (k, v)).mpr ⟨hlk, hv, hsc⟩
      rw [hem] at he
      cases he
  rw [txEntry, lookup_data hres heq hdata hmem honly, hf] at h
  cases h

end

def visitLast (k : Bytes) (_ : Bytes) (fields : List FieldResults) : List FieldResults :=
  (fields.filter fun field => ¬ field.1 = k) ++ fields.filter fun field => field.1 = k

theorem visitLast_perm (k txid : Bytes) (fields : List FieldResults) : (visitLast k txid fields).Perm fields := by
  have h := filter_append_perm (fun field : FieldResults => ¬ field.1 = k) fields
  simpa [visitLast] using h

theorem collectionConfig_visitLast (heq : EqualContents store db dig.txId) {n : Nat} (hn : n ≠ 0)
    (he : e ∈ getIterator db dig.txId) (hc : contribution dig (res e) = some c)
    (hmax : ∀ c' ∈ ldbContributions db dig res, c'.endorsedAt ≤ c.endorsedAt) :
    (entryOf (((visitLast e.1 dig.txId ((fieldsFor store dig n).map (fieldOf res n))).flatMap
      fun field => field.2.getD []).filterMap (contribution dig))).collectionConfig = some c.configs := by
  obtain ⟨hlk, hv, hsc⟩ := (heq.entries e).mp he
  have hp := visited_perm heq hn (visitLast_perm e.1 dig.txId ((fieldsFor store dig n).map (fieldOf res n)))
  rw [visitLast, flatMap_append, filterMap_append] at hp ⊢
  refine collectionConfig_of_last ?_ ?_ ?_
  · have hf : fieldOf res n e ∈ ((fieldsFor store dig n).map (fieldOf res n)).filter fun field => field.1 = e.1 :=
      mem_filter.mpr ⟨mem_map.mpr ⟨e, (mem_fieldsFor hn).mpr ⟨hlk, hsc⟩, rfl⟩, decide_eq_true rfl⟩
    have hmem : res e ∈ (fieldOf res n e).2.getD [] := by
      simp [fieldOf, hv, hn]
    exact ne_nil_of_mem (mem_filterMap.mpr ⟨res e, mem_flatMap.mpr ⟨_, hf, hmem⟩, hc⟩)
  · intro c' hc'
    obtain ⟨r, hr, hcr⟩ := mem_filterMap.mp hc'
    obtain ⟨field, hf, hrf⟩ := mem_flatMap.mp hr
    obtain ⟨hf, hk⟩ := mem_filter.mp hf
    obtain ⟨e', he', rfl⟩ := mem_map.mp hf
    have hk : e'.1 = e.1 := of_decide_eq_true hk
    have hvl : e'.2 = e.2 := by
      have hl' := ((mem_fieldsFor hn).mp he').1
      rw [hk, hlk] at hl'
      exact (Option.some.inj hl').symm
    rw [Prod.ext hk hvl] at hrf
    have hrp : r ∈ List.replicate n (res e) := by simpa [fieldOf, hv] using hrf
    rw [(mem_replicate.mp hrp).2, hc] at hcr
    exact (Option.some.inj hcr).symm
  · intro c' hc'
    have hmem := hp.mem_iff.mp (mem_append_left _ hc')
    obtain ⟨c'', hc'', hrp⟩ := mem_flatMap.mp hmem
    rw [(mem_replicate.mp hrp).2]
    exact hmax c'' hc''

theorem retrievable_of_sameRetrieval (heq : ∀ dig ∈ digests, dig.txId ≠ [] → EqualContents store db dig.txId)
    (h : ∀ order : Bytes → List FieldResults → List FieldResults, (∀ txid l, (order txid l).Perm l) →
      SameEntries codec store db digests order)
    (hd : dig ∈ digests) (ht : dig.txId ≠ []) : Retrievable codec db digests dig := by
  have hmem := mem_withTxId.mpr ⟨hd, ht⟩
  obtain ⟨data, m, hdata, hm, hrl⟩ := h (fun _ l => l) fun _ l => .refl l
  have hrd := (getTxPvtRWSetByTxidV2_returns_iff heq).mp ⟨data, hdata⟩
  replace heq := heq dig hd ht
  obtain ⟨res, hres⟩ := exists_results (hrd dig hd ht)
  obtain ⟨hl, entry, hen, hsm⟩ := entry_of_sameRetrieval hm hrl hmem hres
  have honly : ∀ dig' ∈ digests, dig'.txId = dig.txId → dig' = dig := by
    intro dig' hdg' het
    have ht' : dig'.txId ≠ [] := het ▸ ht
    obtain ⟨res', hr'⟩ := exists_results (hrd dig' hdg' ht')
    obtain ⟨hl', -⟩ := entry_of_sameRetrieval hm hrl (mem_withTxId.mpr ⟨hdg', ht'⟩) hr'
    rw [het, hl] at hl'
    exact (Option.some.inj hl').symm
  have hst := stored_of_txEntry heq hdata hmem honly hres hen
  have hn := count_ne_zero hmem
  refine ⟨hst, hrd dig hd ht, honly, ?_, ?_⟩
  · rw [txEntry_eq hres heq hdata hmem honly hst, Option.some.injEq] at hen
    subst hen
    have ho : digests.count dig = 1 ∨ ∀ c ∈ ldbContributions db dig res, c.pvtRWSet = [] :=
      once_of_sameEntry (visited_perm heq hn (.refl _)) hsm
    simpa only [← mem_ldbContributions hres] using ho
  · have hcn : ∀ c, LatestContribution codec db dig c →
        (entryOf (ldbContributions db dig res)).collectionConfig = some c.configs := by
      rintro c ⟨⟨e, he, r, hr, hc⟩, hmax⟩
      cases (hres e he).symm.trans hr
      obtain ⟨data', m', hd', hm', hrl'⟩ := h (visitLast e.1) (visitLast_perm e.1)
      obtain ⟨-, entry', he', hs'⟩ := entry_of_sameRetrieval hm' hrl' hmem hres
      rw [txEntry_eq hres heq hd' hmem honly hst, Option.some.injEq] at he'
      subst he'
      rw [← hs'.2]
      exact collectionConfig_visitLast heq hn he hc fun c' hc' => hmax c' ((mem_ldbContributions hres).mp hc')
    intro c c' hc hc'
    exact Option.some.inj ((hcn c hc).symm.trans (hcn c' hc'))

theorem retrieveDigest_ne_err (results : Dig2PvtRWSetWithConfig) (dig : DigKey) (e : RetrieveError) :
    retrieveDigest codec db results dig ≠ .err e := by
  rw [retrieveDigest_eq]
  split_ifs <;> simp

theorem sameRetrieval_transient_iff {height : UInt64} (hh : committer.ledgerHeight = some height)
    (hle : height ≤ blockNum) :
    SameRetrieval (collectionRWSetFromKVStore codec committer store order digests blockNum)
        (collectionRWSet codec committer db digests blockNum) ↔
      SameEntries codec store db digests order := by
  have hkv : collectionRWSetFromKVStore codec committer store order digests blockNum =
      ((getTxPvtRWSetByTxidV2 codec store (rwsetKeysMap digests)).mapErr .transientStore >>= fun data =>
        .ok (addEntries (txEntry order data) ((iterMap digests).toPairs.map Prod.snd), false)) := by
    simp [collectionRWSetFromKVStore, hh, hle, orErr]
  have hl : collectionRWSet codec committer db digests blockNum =
      (digests.foldlM (retrieveDigest codec db) ∅ >>= fun m => .ok (m, false)) := by
    simp [collectionRWSet, hh, hle, orErr]
  rw [hkv, hl]
  constructor
  · rintro (⟨e, -, he⟩ | ⟨m, m', fromLedger, hm, hm', hr⟩)
    · cases h : digests.foldlM (retrieveDigest codec db) ∅ with
      | ok m => simp [h] at he
      | err e' => exact absurd h (noError_foldlM retrieveDigest_ne_err _ _ e')
      | panic => simp [h] at he
    · obtain ⟨data, hdata, hm⟩ := bind_eq_ok.mp hm
      obtain ⟨m'', hm'', hm'⟩ := bind_eq_ok.mp hm'
      cases hm
      cases hm'
      exact ⟨data, m', mapErr_eq_ok.mp hdata, hm'', hr⟩
  · rintro ⟨data, m, hdata, hm, hr⟩
    exact Or.inr ⟨_, m, false, by rw [hdata]; rfl, by rw [hm]; rfl, hr⟩

theorem fromLedger_ne_panic (committer : Committer) (digests : List DigKey) (blockNum : UInt64) :
    fromLedger committer digests blockNum ≠ .panic := by
  refine bind_ne_panic (orErr_ne_panic _ _) ?_
  intro pvtData _
  refine bind_ne_panic (mapM_ne_panic ?_) (by simp)
  intro dig _
  refine bind_ne_panic ?_ (by simp)
  refine bind_ne_panic (orErr_ne_panic _ _) fun _ _ => ?_
  refine bind_ne_panic (orErr_ne_panic _ _) fun _ _ => ?_
  refine bind_ne_panic (orErr_ne_panic _ _) fun _ _ => ?_
  exact bind_ne_panic (orErr_ne_panic _ _) (by simp)

theorem SameEntry.refl (a : PrivateRWSetWithConfig) : SameEntry a a :=
  ⟨.refl _, rfl⟩

theorem sameRetrieval_refl {r : Outcome RetrieveError (Dig2PvtRWSetWithConfig × Bool)} (h : r ≠ .panic) :
    SameRetrieval r r := by
  cases r with
  | ok p =>
    refine Or.inr ⟨p.1, p.1, p.2, rfl, rfl, ?_⟩
    intro dig
    cases p.1.lookup dig with
    | none => exact .none
    | some a => exact .some (.refl a)
  | err e => exact Or.inl ⟨e, rfl, rfl⟩
  | panic => exact absurd rfl h

theorem sameRetrieval_ledger (h : ∀ height, committer.ledgerHeight = some height → ¬ height ≤ blockNum) :
    SameRetrieval (collectionRWSetFromKVStore codec committer store order digests blockNum)
      (collectionRWSet codec committer db digests blockNum) := by
  cases hh : committer.ledgerHeight with
  | none =>
    refine Or.inl ⟨.ledgerHeight, ?_, ?_⟩
    · simp [collectionRWSetFromKVStore, hh, orErr]
    · simp [collectionRWSet, hh, orErr]
  | some height =>
    simp only [collectionRWSetFromKVStore, collectionRWSet, hh, h height hh, orErr, ok_bind, if_false]
    exact sameRetrieval_refl (bind_ne_panic (fromLedger_ne_panic _ _ _) (by simp))

/-- On equal contents the retrieval from the key-value store agrees with that from leveldb, in whatever order the
fields are visited, exactly if each digest that is looked up in the transient store is retrievable. -/
theorem kvstore_retrieval_iff (codec : TransientCodec) (store : KVStore) (db : LevelDB) (committer : Committer)
    (digests : List DigKey) (blockNum : UInt64)
    (heq : ∀ dig ∈ digests, dig.txId ≠ [] → EqualContents store db dig.txId) :
    (∀ order : Bytes → List FieldResults → List FieldResults, (∀ txid l, (order txid l).Perm l) →
      SameRetrieval (collectionRWSetFromKVStore codec committer store order digests blockNum)
        (collectionRWSet codec committer db digests blockNum)) ↔
      ∀ height, committer.ledgerHeight = some height → height ≤ blockNum →
        ∀ dig ∈ digests, dig.txId ≠ [] → Retrievable codec db digests dig := by
  constructor
  · intro h height hh hle dig hd htx
    refine retrievable_of_sameRetrieval heq ?_ hd htx
    intro order hor
    exact (sameRetrieval_transient_iff hh hle).mp (h order hor)
  · intro h order hor
    by_cases ht : ∃ height, committer.ledgerHeight = some height ∧ height ≤ blockNum
    · obtain ⟨height, hh, hle⟩ := ht
      exact (sameRetrieval_transient_iff hh hle).mpr (sameRetrieval_of_retrievable heq hor (h height hh hle))
    · refine sameRetrieval_ledger ?_
      intro height hh hle
      exact ht ⟨height, hh, hle⟩

end Agreement

section

private def twoCollections : TxPvtReadWriteSetWithConfigInfo where
  endorsedAt := 1
  pvtRwset := some ⟨[⟨ascii "ns", [⟨ascii "a", [1]⟩, ⟨ascii "b", [2]⟩]⟩]⟩
  collectionConfigs := AList.singleton (ascii "ns") [.static (ascii "a") [], .static (ascii "b") []]

private def twoCollectionsCodec : TransientCodec where
  withConfigInfo := ⟨fun r => [r.endorsedAt.toUInt8], fun b => if b = [0x01] then some twoCollections else none⟩
  txPvtReadWriteSet := .ofTable [] []

private def persisted : PersistCall :=
  ⟨ascii "t1", Uuid.zero, 7, twoCollections⟩

private def digestOf (collection : Bytes) : DigKey :=
  ⟨ascii "t1", ascii "ns", collection, 7, 0⟩

private def committerAt (height : UInt64) : Committer :=
  ⟨some height, fun _ _ => none, none⟩

private theorem equalContents_persisted : EqualContents (kvPersistAll twoCollectionsCodec [persisted])
    (persistAll twoCollectionsCodec [persisted]) (ascii "t1") := by
  refine equalContents_persistAll _ ?_
  intro c hc hne
  exact absurd (mem_singleton.mp hc ▸ rfl) hne

private theorem mem_getIterator_persisted :
    e ∈ getIterator (persistAll twoCollectionsCodec [persisted]) (ascii "t1") ↔ e = (persisted.key, [nilByte, 0x01]) := by
  have hlk : (persistAll twoCollectionsCodec [persisted]).lookup persisted.key = some [nilByte, 0x01] :=
    PersistCall.lookup_putAll_key
  rw [mem_getIterator]
  constructor
  · rintro ⟨hdb, hrn⟩
    obtain ⟨c, hc, hi | ⟨hk, -⟩⟩ := (storedBy_persistAll twoCollectionsCodec [persisted]).origin e.1 e.2 hdb
    · exact absurd hrn hi.not_inTxidRange
    · rw [mem_singleton.mp hc] at hk
      rw [hk, hlk] at hdb
      exact Prod.ext hk (Option.some.inj hdb).symm
  · rintro rfl
    exact ⟨hlk, persisted.key_inTxidRange⟩

private def collectionAResult : EndorserPvtSimulationResults where
  receivedAtBlockHeight := 7
  pvtSimulationResultsWithConfig :=
    { endorsedAt := 1
      pvtRwset := some ⟨[⟨ascii "ns", [⟨ascii "a", [1]⟩]⟩]⟩
      collectionConfigs := AList.singleton (ascii "ns") [.static (ascii "a") []] }

private theorem read_collectionA : processPrivateData twoCollectionsCodec (digFilter (digestOf (ascii "a"))) persisted.key
    [nilByte, 0x01] = .ok collectionAResult :=
  rfl

theorem kvstore_retrieval_one_digest :
    EqualContents (kvPersistAll twoCollectionsCodec [persisted]) (persistAll twoCollectionsCodec [persisted]) (ascii "t1") ∧
      ∀ order : Bytes → List FieldResults → List FieldResults, (∀ txid l, (order txid l).Perm l) →
        SameRetrieval
          (collectionRWSetFromKVStore twoCollectionsCodec (committerAt 7) (kvPersistAll twoCollectionsCodec [persisted]) order
            [digestOf (ascii "a")] 7)
          (collectionRWSet twoCollectionsCodec (committerAt 7) (persistAll twoCollectionsCodec [persisted])
            [digestOf (ascii "a")] 7) := by
  refine ⟨equalContents_persisted, (kvstore_retrieval_iff _ _ _ _ _ _ ?_).mpr ?_⟩
  · intro dig hd _
    rw [mem_singleton.mp hd]
    exact equalContents_persisted
  · intro height _ _ dig hd _
    rw [mem_singleton.mp hd]
    have hu : ∀ c, Contributes twoCollectionsCodec (persistAll twoCollectionsCodec [persisted])
        (digestOf (ascii "a")) c → contribution (digestOf (ascii "a")) collectionAResult = some c := by
      rintro c ⟨e, he, r, hr, hc⟩
      rw [mem_getIterator_persisted.mp he] at hr
      cases hr
      exact hc
    refine ⟨ne_nil_of_mem (mem_getIterator_persisted.mpr rfl), ?_, ?_, Or.inl rfl, ?_⟩
    · intro e he
      rw [mem_getIterator_persisted.mp he]
      exact ⟨collectionAResult, read_collectionA⟩
    · intro dig' hd' _
      exact mem_singleton.mp hd'
    · intro c c' hc hc'
      exact congrArg Contribution.configs (Option.some.inj ((hu c hc.1).symm.trans (hu c' hc'.1)))

/-- Of two collections of a transaction only the last one is retrieved. -/
theorem first_collection_not_retrieved :
    EqualContents (kvPersistAll twoCollectionsCodec [persisted]) (persistAll twoCollectionsCodec [persisted]) (ascii "t1") ∧
      ¬ SameRetrieval
        (collectionRWSetFromKVStore twoCollectionsCodec (committerAt 7) (kvPersistAll twoCollectionsCodec [persisted])
          (fun _ fields => fields) [digestOf (ascii "a"), digestOf (ascii "b")] 7)
        (collectionRWSet twoCollectionsCodec (committerAt 7) (persistAll twoCollectionsCodec [persisted])
          [digestOf (ascii "a"), digestOf (ascii "b")] 7) := by
  refine ⟨equalContents_persisted, ?_⟩
  intro hsm
  obtain ⟨data, m, -, hm, hrl⟩ := (sameRetrieval_transient_iff rfl (by decide)).mp hsm
  have hr : ∀ e ∈ getIterator (persistAll twoCollectionsCodec [persisted]) (ascii "t1"),
      processPrivateData twoCollectionsCodec (digFilter (digestOf (ascii "a"))) e.1 e.2 = .ok collectionAResult := by
    intro e he
    rw [mem_getIterator_persisted.mp he]
    exact read_collectionA
  have hmem : digestOf (ascii "a") ∈ withTxId [digestOf (ascii "a"), digestOf (ascii "b")] := by decide
  obtain ⟨hl, -⟩ := entry_of_sameRetrieval hm hrl hmem hr
  revert hl
  decide

end

end Drunix.Gossip
