import Drunix.Ledger.Validation.LiteAgreement

namespace Drunix.Ledger.Validation

open Lib Proto Vanilla Outcome

def getKvRwSetFromLtx (rwset : Option KVRWSet) : Outcome Unit KVRWSet := do
  let rwset ← .deref rwset
  return { reads := rwset.reads, writes := rwset.writes }

def getHashRWSetFromLtx (hrwset : Option Proto.HashedRWSet) : Outcome Unit Vanilla.HashedRWSet := do
  let hrwset ← .deref hrwset
  return {
    hashedReads := hrwset.hashedReads
    hashedWrites := hrwset.hashedWrites.map fun wr => { wr with isPurge := false } }

def getCollHashRwSetFromLtx (hrwset : CollectionHashedReadWriteSet) : Outcome Unit CollHashedRwSet := do
  let hashedRwSet ← getHashRWSetFromLtx hrwset.hashedRwset
  return { collectionName := hrwset.collectionName, hashedRwSet, pvtRwSetHash := hrwset.pvtRwsetHash }

def getNsFromLtx (ns : NsReadWriteSet) : Outcome Unit NsRwSet := do
  let kvRwSet ← getKvRwSetFromLtx ns.rwset
  let collHashedRwSets ← ns.collectionHashedRwset.mapM getCollHashRwSetFromLtx
  return { nameSpace := ns.nameSpace, kvRwSet, collHashedRwSets }

def getNsRwSetFromLtx (ns : List NsReadWriteSet) : Outcome Unit (List NsRwSet) :=
  ns.mapM getNsFromLtx

structure CollCarried (coll : CollHashedRwSet) : Prop where
  metadataWrites : coll.hashedRwSet.metadataWrites = []
  isPurge : ∀ w ∈ coll.hashedRwSet.hashedWrites, w.isPurge = false

structure NsCarried (ns : NsRwSet) : Prop where
  rangeQueriesInfo : ns.kvRwSet.rangeQueriesInfo = []
  metadataWrites : ns.kvRwSet.metadataWrites = []
  collections : ∀ coll ∈ ns.collHashedRwSets, CollCarried coll

def Carried (rwset : TxRwSet) : Prop :=
  ∀ ns ∈ rwset.nsRwSets, NsCarried ns

def restoredColl (coll : CollHashedRwSet) : CollHashedRwSet :=
  { coll with
    hashedRwSet :=
      { hashedReads := coll.hashedRwSet.hashedReads
        hashedWrites := coll.hashedRwSet.hashedWrites.map fun w => { w with isPurge := false } } }

def restoredNs (ns : NsRwSet) : NsRwSet where
  nameSpace := ns.nameSpace
  kvRwSet := { reads := ns.kvRwSet.reads, writes := ns.kvRwSet.writes }
  collHashedRwSets := ns.collHashedRwSets.map restoredColl

theorem restoredColl_eq_self_iff {coll : CollHashedRwSet} : restoredColl coll = coll ↔ CollCarried coll := by
  obtain ⟨name, ⟨hashedReads, hashedWrites, metadataWrites⟩, hash⟩ := coll
  have hw : hashedWrites.map (fun w : Vanilla.KVWriteHash => { w with isPurge := false }) = hashedWrites ↔
      ∀ w ∈ hashedWrites, w.isPurge = false := by
    rw [map_eq_self_iff]
    refine forall₂_congr fun w _ => ?_
    obtain ⟨w, isPurge⟩ := w
    simp [eq_comm]
  constructor
  · intro h
    simp only [restoredColl, CollHashedRwSet.mk.injEq, Vanilla.HashedRWSet.mk.injEq, true_and, and_true] at h
    exact ⟨h.2.symm, hw.mp h.1⟩
  · rintro ⟨hm, hpr⟩
    simp only at hm hpr
    rw [restoredColl, hw.mpr hpr, hm]

theorem restoredNs_eq_self_iff {ns : NsRwSet} : restoredNs ns = ns ↔ NsCarried ns := by
  obtain ⟨name, ⟨reads, rangeQueriesInfo, writes, metadataWrites⟩, colls⟩ := ns
  have hc : colls.map restoredColl = colls ↔ ∀ coll ∈ colls, CollCarried coll := by
    rw [map_eq_self_iff]
    exact forall₂_congr fun coll _ => restoredColl_eq_self_iff
  constructor
  · intro h
    simp only [restoredNs, NsRwSet.mk.injEq, KVRWSet.mk.injEq, true_and] at h
    exact ⟨h.1.1.symm, h.1.2.symm, hc.mp h.2⟩
  · rintro ⟨hrn, hm, hcr⟩
    simp only at hrn hm hcr
    rw [restoredNs, hc.mpr hcr, hrn, hm]

theorem getNsRwSetFromLtx_convert (rwset : TxRwSet) :
    getNsRwSetFromLtx (getTxRWSetForLightTxn rwset).nsRwset = .ok (rwset.nsRwSets.map restoredNs) := by
  apply mapM_map_eq_ok
  intro ns _
  have hc : (ns.collHashedRwSets.map getCollHRWSet).mapM getCollHashRwSetFromLtx =
      .ok (ns.collHashedRwSets.map restoredColl) := by
    apply mapM_map_eq_ok
    intro coll _
    simp only [getCollHashRwSetFromLtx, getHashRWSetFromLtx, getCollHRWSet, getHRWSet, Outcome.deref,
      ok_bind, pure_eq, List.map_map, restoredColl]
    rfl
  rw [getNsFromLtx, getNSForLT, hc]
  rfl

theorem getNsRwSetFromLtx_inverts_iff (rwset : TxRwSet) :
    getNsRwSetFromLtx (getTxRWSetForLightTxn rwset).nsRwset = .ok rwset.nsRwSets ↔ Carried rwset := by
  rw [getNsRwSetFromLtx_convert, Outcome.ok.injEq, map_eq_self_iff]
  exact forall₂_congr fun ns _ => restoredNs_eq_self_iff

theorem Carried.sameRwset {rwset : TxRwSet} (h : Carried rwset) : SameRwset rwset (getTxRWSetForLightTxn rwset) := by
  apply List.forall₂_map_right_iff.mpr
  apply List.forall₂_same.mpr
  intro ns hns
  refine ⟨rfl, rfl, (h ns hns).rangeQueriesInfo, (h ns hns).metadataWrites, ?_⟩
  apply List.forall₂_map_right_iff.mpr
  apply List.forall₂_same.mpr
  intro coll hcl
  have hc := (h ns hns).collections coll hcl
  exact ⟨rfl, rfl, hc.metadataWrites, hc.isPurge⟩

section

variable (validateLtxRangeQuery : RangeQueryValidator) (hashFunc : Bytes → Bytes)
  (serializeKVReads : List KVRead → Bytes) (sha256 : Bytes → Bytes) (serialize : List KVMetadataEntry → Bytes)

/-- On top of any state and any updates of the block so far, the converted transaction gets the code
of the original, leads to the same updates and purges the same keys; and the conversion can be undone. -/
structure LosesNothing (rwset : TxRwSet) : Prop where
  commit : ∀ store u tracker num filter doMVCCValidation indexInBlock validationCode,
    prepareTx hashFunc serializeKVReads store sha256 serialize ⟨num, [], filter⟩ doMVCCValidation u tracker
        ⟨indexInBlock, rwset, validationCode⟩ =
      validateAndPrepareTx validateLtxRangeQuery store.db sha256 serialize ⟨num, [], filter⟩ doMVCCValidation u
          ⟨indexInBlock, getTxRWSetForLightTxn rwset, validationCode⟩ >>=
        fun r => .ok (r.1, r.2, tracker)
  inverse : getNsRwSetFromLtx (getTxRWSetForLightTxn rwset).nsRwset = .ok rwset.nsRwSets

/-- The conversion to the lite format is faithful for exactly the read-write sets without range
queries, metadata writes and purges. -/
theorem losesNothing_iff_carried (rwset : TxRwSet) :
    LosesNothing validateLtxRangeQuery hashFunc serializeKVReads sha256 serialize rwset ↔ Carried rwset := by
  constructor
  · intro h
    exact (getNsRwSetFromLtx_inverts_iff rwset).mp h.inverse
  · intro h
    refine ⟨?_, (getNsRwSetFromLtx_inverts_iff rwset).mpr h⟩
    intro store u tracker num filter doMVCCValidation indexInBlock validationCode
    exact SameTx.prepareTx_eq validateLtxRangeQuery hashFunc serializeKVReads store u sha256 serialize doMVCCValidation
      ⟨rfl, (committingTxHeight_eq_ltx rfl rfl _).symm, h.sameRwset⟩ tracker

end

def rangeQueryRwset : TxRwSet where
  nsRwSets := [{
    nameSpace := ascii "cc"
    kvRwSet := { rangeQueriesInfo := [⟨[], [], true, .rawReads [⟨ascii "k", some ⟨1, 0⟩⟩]⟩] } }]

/-- On the empty state the key of the query has vanished: the vanilla path reports a phantom read, the
lite path accepts the transaction. -/
theorem rangeQueryRwset_loses :
    validateTx id (fun _ => []) StateStore.empty newPubAndHashUpdates rangeQueryRwset.nsRwSets = .ok .phantomReadConflict ∧
      validateLtx (fun _ _ _ _ => false) StateStore.empty.db newPubAndHashUpdates
        (getTxRWSetForLightTxn rangeQueryRwset).nsRwset = .ok .valid ∧
      ¬ LosesNothing (fun _ _ _ _ => false) id (fun _ => []) id (fun _ => []) rangeQueryRwset := by
  have hvn : validateTx id (fun _ => []) StateStore.empty newPubAndHashUpdates rangeQueryRwset.nsRwSets =
      .ok .phantomReadConflict := by
    simp [validateTx, validateNs, rangeQueryRwset, Outcome.all, validateRangeQuery, combinedIterator, unionRight,
      StateStore.empty, getRangeScan, nsUpdates, newPubAndHashUpdates, sortByKey, compareResults, validateResults]
  refine ⟨hvn, rfl, ?_⟩
  intro h
  have hc := (getNsRwSetFromLtx_inverts_iff _).mp h.inverse
  have hrn := (hc _ (List.mem_singleton.mpr rfl)).rangeQueriesInfo
  cases hrn

end Drunix.Ledger.Validation
