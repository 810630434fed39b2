import Drunix.Proto.LiteUtils
import Drunix.Ledger.Validation.Validator

namespace Drunix.Ledger.Validation

open Lib Proto Vanilla Outcome

structure SameColl (v : CollHashedRwSet) (l : CollectionHashedReadWriteSet) : Prop where
  collectionName : l.collectionName = v.collectionName
  hashedRwset : l.hashedRwset = some
    { hashedReads := v.hashedRwSet.hashedReads
      hashedWrites := v.hashedRwSet.hashedWrites.map KVWriteHash.toKVWriteHash }
  metadataWrites : v.hashedRwSet.metadataWrites = []
  isPurge : ∀ w ∈ v.hashedRwSet.hashedWrites, w.isPurge = false

structure SameNs (v : NsRwSet) (l : NsReadWriteSet) : Prop where
  nameSpace : l.nameSpace = v.nameSpace
  rwset : l.rwset = some { reads := v.kvRwSet.reads, writes := v.kvRwSet.writes }
  rangeQueriesInfo : v.kvRwSet.rangeQueriesInfo = []
  metadataWrites : v.kvRwSet.metadataWrites = []
  collections : List.Forall₂ SameColl v.collHashedRwSets l.collectionHashedRwset

def SameRwset (v : TxRwSet) (l : TxReadWriteSet) : Prop :=
  List.Forall₂ SameNs v.nsRwSets l.nsRwset

structure SameTx (vblk : Block) (lblk : LtxBlock) (v : Transaction) (l : LtxTransaction) : Prop where
  validationCode : l.validationCode = v.validationCode
  height : lblk.committingTxHeight l.indexInBlock = vblk.committingTxHeight v.indexInBlock
  rwset : SameRwset v.rwset l.rwset

section

variable (sha256 : Bytes → Bytes) (serialize : List KVMetadataEntry → Bytes)

theorem SameNs.ltxNsOps_eq {v : NsRwSet} {l : NsReadWriteSet} (h : SameNs v l) :
    ltxNsOps sha256 serialize l = .ok (nsOps sha256 serialize v) := by
  have hcl : l.collectionHashedRwset.mapM (ltxCollOps sha256 serialize v.nameSpace) =
      .ok (v.collHashedRwSets.map (collOps sha256 serialize v.nameSpace)) :=
    mapM_eq_ok_of_forall₂ (h.collections.imp fun _ _ hc => by
      rw [ltxCollOps, hc.hashedRwset, hc.collectionName, collOps, hc.metadataWrites]
      rfl)
  have hpb : publicOps serialize v.nameSpace v.kvRwSet =
      publicOps serialize v.nameSpace { reads := v.kvRwSet.reads, writes := v.kvRwSet.writes } := by
    simp only [publicOps, h.metadataWrites]
  rw [ltxNsOps, h.rwset, h.nameSpace, hcl, nsOps, hpb]
  rfl

theorem SameRwset.ltxOps_eq {v : TxRwSet} {l : TxReadWriteSet} (h : SameRwset v l) :
    ltxOps sha256 serialize l = .ok (txOps sha256 serialize v) := by
  have hns : l.nsRwset.mapM (ltxNsOps sha256 serialize) = .ok (v.nsRwSets.map (nsOps sha256 serialize)) :=
    mapM_eq_ok_of_forall₂ (h.imp fun _ _ hns => hns.ltxNsOps_eq sha256 serialize)
  rw [ltxOps, hns, txOps]
  rfl

end

theorem SameColl.purged_eq_nil {v : CollHashedRwSet} {l : CollectionHashedReadWriteSet} (h : SameColl v l) :
    v.hashedRwSet.hashedWrites.filter KVWriteHash.isPurge = [] := by
  rw [List.filter_eq_nil_iff]
  intro w hw
  rw [h.isPurge w hw]
  simp

theorem SameRwset.purgedKeys_eq_nil {v : TxRwSet} {l : TxReadWriteSet} (h : SameRwset v l) : purgedKeys v = [] := by
  have hns : ∀ ns ∈ v.nsRwSets, ∀ coll ∈ ns.collHashedRwSets,
      coll.hashedRwSet.hashedWrites.filter KVWriteHash.isPurge = [] := by
    refine ((List.forall₂_and_left _ _).mp (h.imp fun ns _ hns => ⟨?_, hns⟩)).1
    exact ((List.forall₂_and_left _ _).mp (hns.collections.imp fun _ _ hc => ⟨hc.purged_eq_nil, hc⟩)).1
  rw [purgedKeys, List.flatMap_eq_nil_iff]
  intro ns hm
  rw [List.flatMap_eq_nil_iff]
  intro coll hc
  rw [hns ns hm coll hc]
  rfl

section

variable (validateLtxRangeQuery : RangeQueryValidator) (hashFunc : Bytes → Bytes)
  (serializeKVReads : List KVRead → Bytes) (store : StateStore) (u : PublicAndHashUpdates)

theorem SameNs.validateLtxNs_eq {v : NsRwSet} {l : NsReadWriteSet} (h : SameNs v l) :
    validateLtxNs validateLtxRangeQuery store.db u l = validateNs hashFunc serializeKVReads store u v := by
  have hh : validateNsLtxHashedReadSets store.db u v.nameSpace l.collectionHashedRwset =
      .ok (validateNsHashedReadSets store.db u v.nameSpace v.collHashedRwSets) := by
    apply all_eq_ok_of_forall₂
    apply h.collections.imp
    intro vcoll lcoll hc
    rw [hc.hashedRwset, hc.collectionName, funext (validateKVReadHash_eq_ltx store.db u v.nameSpace _)]
    rfl
  have hrd : v.kvRwSet.reads.all (validateLtxKVRead store.db u v.nameSpace) =
      v.kvRwSet.reads.all (validateKVRead store.db u v.nameSpace) := by
    rw [funext (validateKVRead_eq_ltx store.db u v.nameSpace)]
  rw [validateLtxNs, h.rwset, validateNs, h.nameSpace, hh, h.rangeQueriesInfo]
  simp only [Outcome.deref, ok_bind, hrd]
  cases v.kvRwSet.reads.all (validateKVRead store.db u v.nameSpace) with
  | false => rfl
  | true => rfl

theorem validateLtx_eq_validateTx {v : List NsRwSet} {l : List NsReadWriteSet} (h : List.Forall₂ SameNs v l) :
    validateLtx validateLtxRangeQuery store.db u l = validateTx hashFunc serializeKVReads store u v := by
  induction h with
  | nil => rfl
  | cons hns _ ih => rw [validateLtx, validateTx, hns.validateLtxNs_eq _ hashFunc serializeKVReads, ih]

variable (sha256 : Bytes → Bytes) (serialize : List KVMetadataEntry → Bytes) (doMVCCValidation : Bool) {vblk : Block}
  {lblk : LtxBlock}

theorem SameTx.prepareTx_eq {v : Transaction} {l : LtxTransaction} (h : SameTx vblk lblk v l) (tracker : PurgeTracker) :
    prepareTx hashFunc serializeKVReads store sha256 serialize vblk doMVCCValidation u tracker v =
      validateAndPrepareTx validateLtxRangeQuery store.db sha256 serialize lblk doMVCCValidation u l >>=
        fun r => .ok (r.1, r.2, tracker) := by
  have hc : validateEndorserLtX validateLtxRangeQuery store.db doMVCCValidation l.rwset u =
      validateEndorserTX hashFunc serializeKVReads store doMVCCValidation v.rwset u := by
    rw [validateEndorserLtX, validateEndorserTX,
      validateLtx_eq_validateTx validateLtxRangeQuery hashFunc serializeKVReads store u h.rwset]
  have ht (txHeight : Version) : tracker.update v.rwset txHeight = tracker := by
    rw [PurgeTracker.update, h.rwset.purgedKeys_eq_nil]
    rfl
  rw [prepareTx, validateAndPrepareTx, mvccCode, ltxMvccCode, h.validationCode, hc, h.height, h.rwset.ltxOps_eq, bind_assoc]
  congr 1
  funext code
  by_cases hvl : code = .valid
  · rw [if_pos hvl, if_pos hvl, bind_assoc]
    congr 1
    funext txHeight
    rw [ht, ok_bind, bind_assoc, applyWriteSet_eq_ltx]
    rfl
  · rw [if_neg hvl, if_neg hvl]
    rfl

theorem prepareTxs_eq_ltx {v : List Transaction} {l : List LtxTransaction} (h : List.Forall₂ (SameTx vblk lblk) v l)
    (tracker : PurgeTracker) :
    prepareTxs hashFunc serializeKVReads store sha256 serialize vblk doMVCCValidation u tracker v =
      validateAndPrepareLtxBatch validateLtxRangeQuery store.db sha256 serialize lblk doMVCCValidation u l >>=
        fun r => .ok (r.1, r.2, tracker) := by
  induction h generalizing u with
  | nil => rfl
  | cons htx _ ih =>
    simp only [prepareTxs, validateAndPrepareLtxBatch] at ih ⊢
    rw [mapAccumM, mapAccumM,
      htx.prepareTx_eq validateLtxRangeQuery hashFunc serializeKVReads store u sha256 serialize, bind_assoc, bind_assoc]
    congr 1
    funext r
    rw [ok_bind]
    simp only [ih, bind_assoc]
    rfl

/-- Blocks with the same reads and writes get the same codes and the same update batch on the two
paths, and nothing is purged. -/
theorem validateAndPrepareBatch_eq_ltx {vblk : Block} {lblk : LtxBlock}
    (h : List.Forall₂ (SameTx vblk lblk) vblk.txs lblk.txs) :
    validateAndPrepareBatch hashFunc serializeKVReads store sha256 serialize vblk doMVCCValidation =
      validateAndPrepareLtxBatch validateLtxRangeQuery store.db sha256 serialize lblk doMVCCValidation
          newPubAndHashUpdates lblk.txs >>=
        fun r => .ok (r.1, r.2, ∅) :=
  prepareTxs_eq_ltx validateLtxRangeQuery hashFunc serializeKVReads store newPubAndHashUpdates sha256 serialize
    doMVCCValidation h ∅

end

def exampleBlock : Block where
  num := 5
  sparseblockchainFilter := none
  txs := [{
    indexInBlock := 0
    validationCode := .valid
    rwset := ⟨[{
      nameSpace := ascii "cc"
      kvRwSet := { reads := [⟨ascii "k", none⟩], writes := [⟨ascii "k", false, ascii "v"⟩] }
      collHashedRwSets := [{
        collectionName := ascii "c"
        hashedRwSet := {
          hashedReads := [⟨ascii "h", none⟩]
          hashedWrites := [⟨⟨ascii "h", false, ascii "vh"⟩, false⟩] } }] }]⟩ }]

def exampleLtxBlock : LtxBlock where
  num := 5
  sparseblockchainFilter := none
  txs := [{
    indexInBlock := 0
    validationCode := .valid
    rwset := ⟨[{
      nameSpace := ascii "cc"
      rwset := some { reads := [⟨ascii "k", none⟩], writes := [⟨ascii "k", false, ascii "v"⟩] }
      collectionHashedRwset := [{
        collectionName := ascii "c"
        hashedRwset := some {
          hashedReads := [⟨ascii "h", none⟩]
          hashedWrites := [⟨ascii "h", false, ascii "vh"⟩] } }] }]⟩ }]

theorem exampleBlock_same :
    List.Forall₂ (SameTx exampleBlock exampleLtxBlock) exampleBlock.txs exampleLtxBlock.txs :=
  .cons ⟨rfl, rfl, .cons ⟨rfl, rfl, rfl, rfl, .cons ⟨rfl, rfl, rfl, by decide⟩ .nil⟩ .nil⟩ .nil

theorem validateAndPrepareBatch_eq_ltx_exampleBlock :
    List.Forall₂ (SameTx exampleBlock exampleLtxBlock) exampleBlock.txs exampleLtxBlock.txs ∧
      validateAndPrepareBatch id (fun _ => []) StateStore.empty id (fun _ => []) exampleBlock true =
        validateAndPrepareLtxBatch (fun _ _ _ _ => false) StateStore.empty.db id (fun _ => []) exampleLtxBlock true
            newPubAndHashUpdates exampleLtxBlock.txs >>=
          fun r => .ok (r.1, r.2, ∅) :=
  ⟨exampleBlock_same,
    validateAndPrepareBatch_eq_ltx _ _ _ _ _ _ _ exampleBlock_same⟩

end Drunix.Ledger.Validation
