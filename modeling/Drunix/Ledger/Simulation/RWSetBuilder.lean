import Drunix.Ledger.Validation.Validator

namespace Drunix.Ledger.Simulation

open Lib Proto Vanilla Validation List

structure CollHashRwBuilder where
  readMap : AMap Bytes KVReadHash := ∅
  writeMap : AMap Bytes Vanilla.KVWriteHash := ∅
  metadataWriteMap : AMap Bytes KVMetadataWriteHash := ∅

def CollHashRwBuilder.addRead (sha256 : Bytes → Bytes) (key : Bytes) (version : Option Version) (cb : CollHashRwBuilder) :
    CollHashRwBuilder :=
  { cb with readMap := cb.readMap.insert key ⟨sha256 key, version⟩ }

/-- `nsPubRwBuilder`; the range queries are in the order of `rangeQueriesKeys`. -/
structure NsPubRwBuilder where
  readMap : AMap Bytes KVRead := ∅
  writeMap : AMap Bytes KVWrite := ∅
  metadataWriteMap : AMap Bytes KVMetadataWrite := ∅
  rangeQueries : List RangeQueryInfo := []
  collHashRwBuilder : AMap Bytes CollHashRwBuilder := ∅

abbrev RWSetBuilder := AMap Bytes NsPubRwBuilder

def newKVWrite (key value : Bytes) : KVWrite where
  key := key
  isDelete := value.isEmpty
  value := value

def entriesBySortedKeys {V : Type} (m : AMap Bytes V) : List (Bytes × V) :=
  sortByKey (m.entries.map fun e => (e.1, e.2))

def metadataEntries (metadata : AMap Bytes Bytes) : List KVMetadataEntry :=
  (entriesBySortedKeys metadata).map fun e => ⟨e.1, e.2⟩

def rangeQueryKey (rqi : RangeQueryInfo) : Bytes × Bytes × Bool :=
  (rqi.startKey, rqi.endKey, rqi.itrExhausted)

def addRangeQuery (rangeQueries : List RangeQueryInfo) (rqi : RangeQueryInfo) : List RangeQueryInfo :=
  if rangeQueryKey rqi ∈ rangeQueries.map rangeQueryKey then rangeQueries else rangeQueries ++ [rqi]

namespace RWSetBuilder

def updateNs (b : RWSetBuilder) (ns : Bytes) (f : NsPubRwBuilder → NsPubRwBuilder) : RWSetBuilder :=
  b.modify ns fun o => f (o.getD {})

def updateColl (b : RWSetBuilder) (ns coll : Bytes) (f : CollHashRwBuilder → CollHashRwBuilder) : RWSetBuilder :=
  b.updateNs ns fun nb => { nb with collHashRwBuilder := nb.collHashRwBuilder.modify coll fun o => f (o.getD {}) }

section

variable (sha256 : Bytes → Bytes) (b : RWSetBuilder)

def addToReadSet (ns key : Bytes) (version : Option Version) : RWSetBuilder :=
  b.updateNs ns fun nb => { nb with readMap := nb.readMap.insert key ⟨key, version⟩ }

def addToWriteSet (ns key value : Bytes) : RWSetBuilder :=
  b.updateNs ns fun nb => { nb with writeMap := nb.writeMap.insert key (newKVWrite key value) }

def addToMetadataWriteSet (ns key : Bytes) (metadata : AMap Bytes Bytes) : RWSetBuilder :=
  b.updateNs ns fun nb =>
    { nb with metadataWriteMap := nb.metadataWriteMap.insert key ⟨key, metadataEntries metadata⟩ }

def addToRangeQuerySet (ns : Bytes) (rqi : RangeQueryInfo) : RWSetBuilder :=
  b.updateNs ns fun nb => { nb with rangeQueries := addRangeQuery nb.rangeQueries rqi }

def addToHashedReadSet (ns coll key : Bytes) (version : Option Version) : RWSetBuilder :=
  b.updateColl ns coll (CollHashRwBuilder.addRead sha256 key version)

def addToHashedWriteSet (isPurge : Bool) (ns coll key value : Bytes) : RWSetBuilder :=
  b.updateColl ns coll fun cb =>
    { cb with
      writeMap := cb.writeMap.insert key
        { keyHash := sha256 key
          isDelete := value.isEmpty
          valueHash := if value.isEmpty then [] else sha256 value
          isPurge := isPurge } }

def addToPvtAndHashedWriteSet (ns coll key value : Bytes) : RWSetBuilder :=
  b.addToHashedWriteSet sha256 false ns coll key value

def addToPvtAndHashedWriteSetForPurge (ns coll key : Bytes) : RWSetBuilder :=
  b.addToHashedWriteSet sha256 true ns coll key []

def addToHashedMetadataWriteSet (ns coll key : Bytes) (metadata : AMap Bytes Bytes) : RWSetBuilder :=
  b.updateColl ns coll fun cb =>
    { cb with metadataWriteMap := cb.metadataWriteMap.insert key ⟨sha256 key, metadataEntries metadata⟩ }

end

end RWSetBuilder

def getValuesBySortedKeys {V : Type} (m : AMap Bytes V) : List V :=
  (entriesBySortedKeys m).map Prod.snd

def CollHashRwBuilder.build (coll : Bytes) (cb : CollHashRwBuilder) : CollHashedRwSet where
  collectionName := coll
  hashedRwSet :=
    { hashedReads := getValuesBySortedKeys cb.readMap
      hashedWrites := getValuesBySortedKeys cb.writeMap
      metadataWrites := getValuesBySortedKeys cb.metadataWriteMap }

def NsPubRwBuilder.build (ns : Bytes) (nb : NsPubRwBuilder) : NsRwSet where
  nameSpace := ns
  kvRwSet :=
    { reads := getValuesBySortedKeys nb.readMap
      writes := getValuesBySortedKeys nb.writeMap
      metadataWrites := getValuesBySortedKeys nb.metadataWriteMap
      rangeQueriesInfo := nb.rangeQueries }
  collHashedRwSets := (entriesBySortedKeys nb.collHashRwBuilder).map fun e => e.2.build e.1

def RWSetBuilder.getTxReadWriteSet (b : RWSetBuilder) : TxRwSet where
  nsRwSets := (entriesBySortedKeys b).map fun e => e.2.build e.1

@[ext]
structure Recorded where
  read : Bytes → Bytes → Option KVRead
  hashedRead : Bytes → Bytes → Bytes → Option KVReadHash
  ranges : Bytes → List RangeQueryInfo

namespace NsPubRwBuilder

def hashedRead (nb : NsPubRwBuilder) (coll key : Bytes) : Option KVReadHash :=
  (nb.collHashRwBuilder.lookup coll).bind fun cb => cb.readMap.lookup key

end NsPubRwBuilder

namespace RWSetBuilder

def ns (b : RWSetBuilder) (ns : Bytes) : NsPubRwBuilder :=
  (b.lookup ns).getD {}

def recorded (b : RWSetBuilder) : Recorded where
  read ns key := (b.ns ns).readMap.lookup key
  hashedRead ns coll key := (b.ns ns).hashedRead coll key
  ranges ns := (b.ns ns).rangeQueries

section

variable (sha256 : Bytes → Bytes) (b : RWSetBuilder)

theorem ns_updateNs (ns ns' : Bytes) (f : NsPubRwBuilder → NsPubRwBuilder) :
    (b.updateNs ns f).ns ns' = if ns' = ns then f (b.ns ns) else b.ns ns' := by
  rw [RWSetBuilder.ns, updateNs, AMap.lookup_modify]
  split
  · rfl
  · rfl

theorem ns_updateNs_frame {α : Type} {ns : Bytes} {f : NsPubRwBuilder → NsPubRwBuilder} {p : NsPubRwBuilder → α}
    (hp : p (f (b.ns ns)) = p (b.ns ns)) (ns' : Bytes) : p ((b.updateNs ns f).ns ns') = p (b.ns ns') := by
  rw [ns_updateNs]
  split
  · next h => rw [hp, h]
  · rfl

theorem recorded_updateNs_of_eq {ns : Bytes} {f : NsPubRwBuilder → NsPubRwBuilder}
    (hr : ∀ nb, (f nb).readMap = nb.readMap) (hh : ∀ nb, (f nb).hashedRead = nb.hashedRead)
    (hrn : ∀ nb, (f nb).rangeQueries = nb.rangeQueries) : (b.updateNs ns f).recorded = b.recorded := by
  apply Recorded.ext
  · funext ns'
    exact b.ns_updateNs_frame (p := fun nb key => nb.readMap.lookup key) (by rw [hr]) ns'
  · exact funext (b.ns_updateNs_frame (hh _))
  · exact funext (b.ns_updateNs_frame (hrn _))

theorem hashedRead_modify (nb : NsPubRwBuilder) (coll coll' key : Bytes) (f : CollHashRwBuilder → CollHashRwBuilder) :
    ({ nb with collHashRwBuilder := nb.collHashRwBuilder.modify coll fun o => f (o.getD {}) } : NsPubRwBuilder).hashedRead
        coll' key =
      if coll' = coll then (f ((nb.collHashRwBuilder.lookup coll).getD {})).readMap.lookup key
      else nb.hashedRead coll' key := by
  rw [NsPubRwBuilder.hashedRead, AMap.lookup_modify]
  split
  · rfl
  · rfl

theorem hashedRead_eq_getD (nb : NsPubRwBuilder) (coll key : Bytes) :
    nb.hashedRead coll key = ((nb.collHashRwBuilder.lookup coll).getD {}).readMap.lookup key := by
  rw [NsPubRwBuilder.hashedRead]
  cases nb.collHashRwBuilder.lookup coll with
  | none => rfl
  | some cb => rfl

theorem recorded_updateColl_of_eq {ns coll : Bytes} {f : CollHashRwBuilder → CollHashRwBuilder}
    (hr : ∀ cb, (f cb).readMap = cb.readMap) : (b.updateColl ns coll f).recorded = b.recorded := by
  apply recorded_updateNs_of_eq
  · exact fun _ => rfl
  · intro nb
    funext coll' key
    rw [hashedRead_modify]
    split
    · next h => rw [hr, h, ← hashedRead_eq_getD]
    · rfl
  · exact fun _ => rfl

theorem recorded_addToWriteSet (ns key value : Bytes) : (b.addToWriteSet ns key value).recorded = b.recorded :=
  b.recorded_updateNs_of_eq (fun _ => rfl) (fun _ => rfl) fun _ => rfl

theorem recorded_addToHashedWriteSet (isPurge : Bool) (ns coll key value : Bytes) :
    (b.addToHashedWriteSet sha256 isPurge ns coll key value).recorded = b.recorded :=
  b.recorded_updateColl_of_eq fun _ => rfl

theorem recorded_addToReadSet (ns key : Bytes) (version : Option Version) :
    (b.addToReadSet ns key version).recorded =
      { b.recorded with
        read := fun ns' key' => if ns' = ns ∧ key' = key then some ⟨key, version⟩ else b.recorded.read ns' key' } := by
  apply Recorded.ext
  · funext ns' key'
    simp only [recorded, addToReadSet, ns_updateNs]
    by_cases hns : ns' = ns <;> simp [hns, AMap.lookup_insert_eq]
  · exact funext (b.ns_updateNs_frame (p := NsPubRwBuilder.hashedRead) rfl)
  · exact funext (b.ns_updateNs_frame (p := NsPubRwBuilder.rangeQueries) rfl)

theorem recorded_addToHashedReadSet (ns coll key : Bytes) (version : Option Version) :
    (b.addToHashedReadSet sha256 ns coll key version).recorded =
      { b.recorded with
        hashedRead := fun ns' coll' key' =>
          if (ns', coll', key') = (ns, coll, key) then some ⟨sha256 key, version⟩ else b.recorded.hashedRead ns' coll' key' } := by
  apply Recorded.ext
  · exact funext (b.ns_updateNs_frame (p := fun nb key => nb.readMap.lookup key) rfl)
  · funext ns' coll' key'
    simp only [recorded, addToHashedReadSet, updateColl, ns_updateNs, Prod.mk.injEq]
    by_cases hns : ns' = ns
    · subst hns
      rw [if_pos rfl, hashedRead_modify]
      by_cases hc : coll' = coll
      · subst hc
        rw [CollHashRwBuilder.addRead, AMap.lookup_insert_eq, ← hashedRead_eq_getD]
        simp
      · rw [if_neg hc, if_neg fun h => hc h.2.1]
    · rw [if_neg hns, if_neg fun h => hns h.1]
  · exact funext (b.ns_updateNs_frame (p := NsPubRwBuilder.rangeQueries) rfl)

theorem recorded_addToRangeQuerySet (ns : Bytes) (rqi : RangeQueryInfo) :
    (b.addToRangeQuerySet ns rqi).recorded =
      { b.recorded with
        ranges := fun ns' => if ns' = ns then addRangeQuery (b.recorded.ranges ns') rqi else b.recorded.ranges ns' } := by
  apply Recorded.ext
  · exact funext (b.ns_updateNs_frame (p := fun nb key => nb.readMap.lookup key) rfl)
  · exact funext (b.ns_updateNs_frame (p := NsPubRwBuilder.hashedRead) rfl)
  · funext ns'
    simp only [recorded, addToRangeQuerySet, ns_updateNs]
    split
    · next h => rw [h]
    · rfl

end

end RWSetBuilder

variable {V : Type} {m : AMap Bytes V} {v : V}

theorem mem_entriesBySortedKeys {k : Bytes} : (k, v) ∈ entriesBySortedKeys m ↔ m.lookup k = some v := by
  rw [entriesBySortedKeys, mem_sortByKey, mem_map]
  constructor
  · rintro ⟨e, he, heq⟩
    cases heq
    exact AList.mem_lookup_iff.mpr he
  · intro h
    exact ⟨⟨k, v⟩, AList.mem_lookup_iff.mp h, rfl⟩

theorem mem_getValuesBySortedKeys : v ∈ getValuesBySortedKeys m ↔ ∃ k, m.lookup k = some v := by
  rw [getValuesBySortedKeys, mem_map]
  constructor
  · rintro ⟨⟨k, _⟩, he, rfl⟩
    exact ⟨k, mem_entriesBySortedKeys.mp he⟩
  · rintro ⟨k, hk⟩
    exact ⟨(k, v), mem_entriesBySortedKeys.mpr hk, rfl⟩

section

variable {hashFunc : Bytes → Bytes} {serializeKVReads : List KVRead → Bytes} {store : StateStore} {u : PublicAndHashUpdates}

theorem validateNsHashedReadSets_build {ns : Bytes} {nb : NsPubRwBuilder} :
    validateNsHashedReadSets store.db u ns (nb.build ns).collHashedRwSets = true ↔
      ∀ coll key r, nb.hashedRead coll key = some r → validateKVReadHash store.db u ns coll r = true := by
  rw [validateNsHashedReadSets, all_eq_true]
  constructor
  · intro h coll key r hr
    obtain ⟨cb, hcb, hr⟩ := Option.bind_eq_some_iff.mp hr
    have hc := h (cb.build coll) (mem_map.mpr ⟨(coll, cb), mem_entriesBySortedKeys.mpr hcb, rfl⟩)
    exact all_eq_true.mp hc r (mem_getValuesBySortedKeys.mpr ⟨key, hr⟩)
  · intro h collSet hcs
    obtain ⟨⟨coll, cb⟩, hcb, rfl⟩ := mem_map.mp hcs
    rw [all_eq_true]
    intro r hr
    obtain ⟨key, hk⟩ := mem_getValuesBySortedKeys.mp hr
    exact h coll key r (Option.bind_eq_some_iff.mpr ⟨cb, mem_entriesBySortedKeys.mp hcb, hk⟩)

theorem validateTx_getTxReadWriteSet {b : RWSetBuilder} :
    validateTx hashFunc serializeKVReads store u b.getTxReadWriteSet.nsRwSets = .ok .valid ↔
      (∀ ns key r, b.recorded.read ns key = some r → validateKVRead store.db u ns r = true) ∧
        (∀ ns, ∀ rqi ∈ b.recorded.ranges ns, validateRangeQuery hashFunc serializeKVReads store u ns rqi = .ok true) ∧
        ∀ ns coll key r, b.recorded.hashedRead ns coll key = some r → validateKVReadHash store.db u ns coll r = true := by
  have hb : validateTx hashFunc serializeKVReads store u b.getTxReadWriteSet.nsRwSets = .ok .valid ↔
      ∀ ns nb, b.lookup ns = some nb → validateNs hashFunc serializeKVReads store u (nb.build ns) = .ok .valid := by
    rw [validateTx_eq_valid_iff]
    constructor
    · intro h ns nb hnb
      exact h _ (mem_map.mpr ⟨(ns, nb), mem_entriesBySortedKeys.mpr hnb, rfl⟩)
    · intro h nsSet hn
      obtain ⟨⟨ns, nb⟩, hnb, rfl⟩ := mem_map.mp hn
      exact h ns nb (mem_entriesBySortedKeys.mp hnb)
  -- A namespace without a builder has nothing recorded.
  have ha : (∀ ns nb, b.lookup ns = some nb → validateNs hashFunc serializeKVReads store u (nb.build ns) = .ok .valid) ↔
      ∀ ns, validateNs hashFunc serializeKVReads store u ((b.ns ns).build ns) = .ok .valid := by
    constructor
    · intro h ns
      rw [RWSetBuilder.ns]
      cases hnb : b.lookup ns with
      | none => rfl
      | some nb => exact h ns nb hnb
    · intro h ns nb hnb
      have hns := h ns
      rwa [RWSetBuilder.ns, hnb] at hns
  rw [hb, ha, ← forall_and, ← forall_and]
  apply forall_congr'
  intro ns
  rw [validateNs_eq_valid_iff, all_eq_true]
  refine and_congr ?_ (and_congr Iff.rfl validateNsHashedReadSets_build)
  constructor
  · intro h key r hr
    exact h r (mem_getValuesBySortedKeys.mpr ⟨key, hr⟩)
  · intro h r hr
    obtain ⟨key, hk⟩ := mem_getValuesBySortedKeys.mp hr
    exact h key r hk

end

end Drunix.Ledger.Simulation
