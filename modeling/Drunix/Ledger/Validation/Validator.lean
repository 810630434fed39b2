import Drunix.Proto.Vanilla
import Drunix.Ledger.Validation.RangeQuery

namespace Drunix.Ledger.Validation

open Lib Proto Vanilla Outcome

structure Transaction where
  indexInBlock : Nat
  rwset : TxRwSet
  validationCode : TxValidationCode
  deriving DecidableEq

/-- `block`; the sparse filter is absent when it could not be extracted. -/
structure Block where
  num : UInt64
  txs : List Transaction
  sparseblockchainFilter : Option SparseTxnFilter
  deriving DecidableEq

def Block.committingTxHeight (blk : Block) (indexInBlock : Nat) : Outcome Unit Version :=
  if blk.num = 0 then .ok ⟨blk.num, UInt64.ofNat indexInBlock⟩
  else
    match blk.sparseblockchainFilter with
    | none => .ok ⟨blk.num, UInt64.ofNat indexInBlock⟩
    | some filter => do
      let info ← .deref filter.txnInfoList[indexInBlock]?
      return ⟨filter.fatBlockNumber, info.indexInFatBlock⟩

section

variable (db : StateDB) (u : PublicAndHashUpdates)

def validateKVRead (ns : Bytes) (kvRead : KVRead) : Bool :=
  match u.publicUpdates.lookup (ns, kvRead.key) with
  | some _ => false
  | none => getVersion db ns kvRead.key = kvRead.version

def validateKVReadHash (ns coll : Bytes) (kvReadHash : KVReadHash) : Bool :=
  match u.hashUpdates.lookup ⟨ns, coll, kvReadHash.keyHash⟩ with
  | some _ => false
  | none => getKeyHashVersion db ns coll kvReadHash.keyHash = kvReadHash.version

def validateNsHashedReadSets (ns : Bytes) (collHashedRWSets : List CollHashedRwSet) : Bool :=
  collHashedRWSets.all fun collHashedRWSet =>
    collHashedRWSet.hashedRwSet.hashedReads.all (validateKVReadHash db u ns collHashedRWSet.collectionName)

end

def isKVWriteDelete (kvWrite : KVWrite) : Bool :=
  kvWrite.isDelete || kvWrite.value.length = 0

def applyKVWrite (txops : TxOps) (ns coll : Bytes) (kvWrite : KVWrite) : TxOps :=
  if isKVWriteDelete kvWrite then txops.apply ⟨ns, coll, kvWrite.key⟩ .delete
  else txops.apply ⟨ns, coll, kvWrite.key⟩ (.upsert kvWrite.value)

section

variable (sha256 : Bytes → Bytes) (serialize : List KVMetadataEntry → Bytes)

def isKVWriteHashDelete (kvWriteHash : Vanilla.KVWriteHash) : Bool :=
  kvWriteHash.isDelete || kvWriteHash.valueHash.length = 0 || sha256 [] = kvWriteHash.valueHash

def applyMetadata (txops : TxOps) (ns coll : Bytes) (metadataWrite : KVMetadataWrite) : TxOps :=
  match metadataWrite.entries with
  | [] => txops.apply ⟨ns, coll, metadataWrite.key⟩ .metadataDelete
  | e :: entries => txops.apply ⟨ns, coll, metadataWrite.key⟩ (.metadataUpdate (serialize (e :: entries)))

def applyCollRwset (ns : Bytes) (txops : TxOps) (coll : CollHashedRwSet) : TxOps :=
  let txops := coll.hashedRwSet.hashedWrites.foldl (fun txops w =>
    applyKVWrite txops ns coll.collectionName ⟨w.keyHash, isKVWriteHashDelete sha256 w, w.valueHash⟩) txops
  coll.hashedRwSet.metadataWrites.foldl (fun txops w =>
    applyMetadata serialize txops ns coll.collectionName ⟨w.keyHash, w.entries⟩) txops

def applyNsRwset (txops : TxOps) (nsRWSet : NsRwSet) : TxOps :=
  let txops := nsRWSet.kvRwSet.writes.foldl (fun txops w => applyKVWrite txops nsRWSet.nameSpace [] w) txops
  let txops := nsRWSet.kvRwSet.metadataWrites.foldl (fun txops w =>
    applyMetadata serialize txops nsRWSet.nameSpace [] w) txops
  nsRWSet.collHashedRwSets.foldl (applyCollRwset sha256 serialize nsRWSet.nameSpace) txops

def applyTxRwset (rwset : TxRwSet) : TxOps :=
  rwset.nsRwSets.foldl (applyNsRwset sha256 serialize) ∅

def prepareTxOps (rwset : TxRwSet) (u : PublicAndHashUpdates) (db : StateDB) : TxOps :=
  (applyTxRwset sha256 serialize rwset).filterMap fun ck keyop =>
    if keyop.isDelete || keyop.isUpsertAndMetadataUpdate then some keyop
    else if keyop.isOnlyUpsert then some { keyop with metadata := retrieveLatestMetadata u db ck }
    else
      match retrieveLatestState u db ck with
      | some latestVal => some { keyop with value := latestVal.value }
      | none => none

def applyWriteSet (u : PublicAndHashUpdates) (rwset : TxRwSet) (txHeight : Version) (db : StateDB) :
    Outcome Unit PublicAndHashUpdates :=
  (prepareTxOps sha256 serialize rwset u db).entries.foldlM (fun u e => do
    let vv ← e.2.batchValue txHeight
    return u.set e.1 vv) u

/-- The operations of a write set in the order of the loops of `applyTxRwset`. -/
def collOps (ns : Bytes) (coll : CollHashedRwSet) : List (CompositeKey × KeyOp) :=
  collectionOps sha256 serialize ns coll.collectionName
    { hashedReads := coll.hashedRwSet.hashedReads
      hashedWrites := coll.hashedRwSet.hashedWrites.map KVWriteHash.toKVWriteHash
      metadataWrites := coll.hashedRwSet.metadataWrites }

def nsOps (nsRWSet : NsRwSet) : List (CompositeKey × KeyOp) :=
  publicOps serialize nsRWSet.nameSpace nsRWSet.kvRwSet ++
    nsRWSet.collHashedRwSets.flatMap (collOps sha256 serialize nsRWSet.nameSpace)

def txOps (rwset : TxRwSet) : List (CompositeKey × KeyOp) :=
  rwset.nsRwSets.flatMap (nsOps sha256 serialize)

end

section

variable {sha256 : Bytes → Bytes} {serialize : List KVMetadataEntry → Bytes}

theorem committingTxHeight_eq_ltx {vblk : Block} {lblk : LtxBlock} (hn : lblk.num = vblk.num)
    (hf : lblk.sparseblockchainFilter = vblk.sparseblockchainFilter) (i : Nat) :
    vblk.committingTxHeight i = lblk.committingTxHeight i := by
  rw [Block.committingTxHeight, LtxBlock.committingTxHeight, hn, hf]
  cases vblk.sparseblockchainFilter with
  | none => rw [ite_self]
  | some filter => rfl

theorem validateKVRead_eq_ltx (db : StateDB) (u : PublicAndHashUpdates) (ns : Bytes) (kvRead : KVRead) :
    validateKVRead db u ns kvRead = validateLtxKVRead db u ns kvRead := by
  rw [validateKVRead, validateLtxKVRead]
  cases u.publicUpdates.lookup (ns, kvRead.key) <;> rfl

theorem validateKVReadHash_eq_ltx (db : StateDB) (u : PublicAndHashUpdates) (ns coll : Bytes) (kvReadHash : KVReadHash) :
    validateKVReadHash db u ns coll kvReadHash = validateLtxKVReadHash db u ns coll kvReadHash := by
  rw [validateKVReadHash, validateLtxKVReadHash]
  cases u.hashUpdates.lookup ⟨ns, coll, kvReadHash.keyHash⟩ <;> rfl

theorem applyKVWrite_eq_ltx (txops : TxOps) (ns coll : Bytes) (w : KVWrite) :
    applyKVWrite txops ns coll w = txops.apply ⟨ns, coll, w.key⟩ (ltxKVWriteOp w) := by
  have hd : isKVWriteDelete w = isLtxKVWriteDelete w := by
    simp [isKVWriteDelete, isLtxKVWriteDelete, List.length_eq_zero_iff]
  rw [applyKVWrite, ltxKVWriteOp, hd]
  split <;> rfl

theorem applyMetadata_eq_ltx (txops : TxOps) (ns coll : Bytes) (w : KVMetadataWrite) :
    applyMetadata serialize txops ns coll w = txops.apply ⟨ns, coll, w.key⟩ (ltxMetadataOp serialize w.entries) := by
  rw [applyMetadata, ltxMetadataOp]
  cases w.entries <;> rfl

theorem applyCollRwset_eq_ltx (ns : Bytes) (txops : TxOps) (coll : CollHashedRwSet) :
    applyCollRwset sha256 serialize ns txops coll =
      (collOps sha256 serialize ns coll).foldl (fun txops op => txops.apply op.1 op.2) txops := by
  have hd (w : Vanilla.KVWriteHash) : isKVWriteHashDelete sha256 w = isLtxKVWriteHashDelete sha256 w.toKVWriteHash := by
    simp [isKVWriteHashDelete, isLtxKVWriteHashDelete, List.length_eq_zero_iff]
  simp only [applyCollRwset, collOps, collectionOps, List.foldl_append, List.foldl_map, applyKVWrite_eq_ltx,
    applyMetadata_eq_ltx, hd, hashedWriteOp]

theorem applyNsRwset_eq_ltx (txops : TxOps) (nsRWSet : NsRwSet) :
    applyNsRwset sha256 serialize txops nsRWSet =
      (nsOps sha256 serialize nsRWSet).foldl (fun txops op => txops.apply op.1 op.2) txops := by
  simp only [applyNsRwset, nsOps, publicOps, List.foldl_append, List.foldl_map, List.foldl_flatMap, applyKVWrite_eq_ltx,
    applyMetadata_eq_ltx, ← applyCollRwset_eq_ltx]

theorem applyTxRwset_eq_ltx (rwset : TxRwSet) :
    applyTxRwset sha256 serialize rwset = applyLtxRwset (txOps sha256 serialize rwset) := by
  simp only [applyTxRwset, applyLtxRwset, txOps, List.foldl_flatMap, ← applyNsRwset_eq_ltx]

theorem prepareTxOps_eq_ltx (rwset : TxRwSet) (u : PublicAndHashUpdates) (db : StateDB) :
    prepareTxOps sha256 serialize rwset u db = prepareLtxOps u db (applyLtxRwset (txOps sha256 serialize rwset)) := by
  rw [prepareTxOps, applyTxRwset_eq_ltx, prepareLtxOps]
  congr 1
  funext ck keyop
  rw [prepareKeyOps]
  cases retrieveLatestState u db ck <;> rfl

theorem applyWriteSet_eq_ltx (u : PublicAndHashUpdates) (rwset : TxRwSet) (txHeight : Version) (db : StateDB) :
    applyWriteSet sha256 serialize u rwset txHeight db =
      applyLtxWriteSet u (txOps sha256 serialize rwset) txHeight db := by
  rw [applyWriteSet, prepareTxOps_eq_ltx, applyLtxWriteSet]

end

/-- `pvtdataPurgeTracker`: the key hashes to purge, with the height of the purging transaction. -/
abbrev PurgeTracker := AMap CompositeKey Version

def purgedKeys (rwset : TxRwSet) : List CompositeKey :=
  rwset.nsRwSets.flatMap fun ns => ns.collHashedRwSets.flatMap fun coll =>
    (coll.hashedRwSet.hashedWrites.filter KVWriteHash.isPurge).map fun w => ⟨ns.nameSpace, coll.collectionName, w.keyHash⟩

def PurgeTracker.update (tracker : PurgeTracker) (rwset : TxRwSet) (version : Version) : PurgeTracker :=
  (purgedKeys rwset).foldl (fun tracker ck => tracker.insert ck version) tracker

section

variable (hashFunc : Bytes → Bytes) (serializeKVReads : List KVRead → Bytes) (store : StateStore)

def validateNs (u : PublicAndHashUpdates) (nsRWSet : NsRwSet) : Outcome Unit TxValidationCode :=
  if !nsRWSet.kvRwSet.reads.all (validateKVRead store.db u nsRWSet.nameSpace) then .ok .mvccReadConflict
  else do
    let noPhantoms ← Outcome.all (validateRangeQuery hashFunc serializeKVReads store u nsRWSet.nameSpace)
      nsRWSet.kvRwSet.rangeQueriesInfo
    if !noPhantoms then return .phantomReadConflict
    else if validateNsHashedReadSets store.db u nsRWSet.nameSpace nsRWSet.collHashedRwSets then return .valid
    else return .mvccReadConflict

def validateTx (u : PublicAndHashUpdates) : List NsRwSet → Outcome Unit TxValidationCode
  | [] => .ok .valid
  | nsRWSet :: rest => do
      let code ← validateNs hashFunc serializeKVReads store u nsRWSet
      if code = .valid then validateTx u rest else return code

def validateEndorserTX (doMVCCValidation : Bool) (txRWSet : TxRwSet) (u : PublicAndHashUpdates) :
    Outcome Unit TxValidationCode :=
  if doMVCCValidation then validateTx hashFunc serializeKVReads store u txRWSet.nsRwSets else .ok .valid

def mvccCode (doMVCCValidation : Bool) (u : PublicAndHashUpdates) (tx : Transaction) : Outcome Unit TxValidationCode :=
  if tx.validationCode = .valid then validateEndorserTX hashFunc serializeKVReads store doMVCCValidation tx.rwset u
  else .ok tx.validationCode

variable (sha256 : Bytes → Bytes) (serialize : List KVMetadataEntry → Bytes) (blk : Block) (doMVCCValidation : Bool)

def prepareTx (u : PublicAndHashUpdates) (tracker : PurgeTracker) (tx : Transaction) :
    Outcome Unit (TxValidationCode × PublicAndHashUpdates × PurgeTracker) := do
  let code ← mvccCode hashFunc serializeKVReads store doMVCCValidation u tx
  if code = .valid then
    let committingTxHeight ← blk.committingTxHeight tx.indexInBlock
    let u ← applyWriteSet sha256 serialize u tx.rwset committingTxHeight store.db
    return (code, u, tracker.update tx.rwset committingTxHeight)
  else return (code, u, tracker)

def prepareTxs (u : PublicAndHashUpdates) (tracker : PurgeTracker) (txs : List Transaction) :
    Outcome Unit (List TxValidationCode × PublicAndHashUpdates × PurgeTracker) :=
  mapAccumM (fun r tx => prepareTx hashFunc serializeKVReads store sha256 serialize blk doMVCCValidation r.1 r.2 tx)
    (u, tracker) txs

def validateAndPrepareBatch : Outcome Unit (List TxValidationCode × PublicAndHashUpdates × PurgeTracker) :=
  prepareTxs hashFunc serializeKVReads store sha256 serialize blk doMVCCValidation newPubAndHashUpdates ∅ blk.txs

end

section

variable {hashFunc : Bytes → Bytes} {serializeKVReads : List KVRead → Bytes} {store : StateStore}
  {sha256 : Bytes → Bytes} {serialize : List KVMetadataEntry → Bytes} {blk : Block} {doMVCCValidation : Bool}
  {u u' : PublicAndHashUpdates} {tracker tracker' : PurgeTracker} {tx : Transaction}

theorem validateNs_eq_valid_iff {nsRWSet : NsRwSet} :
    validateNs hashFunc serializeKVReads store u nsRWSet = .ok .valid ↔
      nsRWSet.kvRwSet.reads.all (validateKVRead store.db u nsRWSet.nameSpace) = true ∧
        (∀ rqi ∈ nsRWSet.kvRwSet.rangeQueriesInfo,
          validateRangeQuery hashFunc serializeKVReads store u nsRWSet.nameSpace rqi = .ok true) ∧
        validateNsHashedReadSets store.db u nsRWSet.nameSpace nsRWSet.collHashedRwSets = true := by
  rw [validateNs, ← all_eq_true_iff]
  cases hrd : nsRWSet.kvRwSet.reads.all (validateKVRead store.db u nsRWSet.nameSpace) with
  | false => simp
  | true =>
    rw [Bool.not_true, if_neg Bool.false_ne_true, bind_eq_ok, and_iff_right rfl]
    constructor
    · rintro ⟨noPhantoms, ha, h⟩
      cases noPhantoms with
      | false => cases h
      | true =>
        cases hh : validateNsHashedReadSets store.db u nsRWSet.nameSpace nsRWSet.collHashedRwSets with
        | false => simp [hh] at h
        | true => exact ⟨ha, rfl⟩
    · rintro ⟨ha, hh⟩
      refine ⟨true, ha, ?_⟩
      rw [hh]
      rfl

theorem validateTx_eq_valid_iff {nsRWSets : List NsRwSet} :
    validateTx hashFunc serializeKVReads store u nsRWSets = .ok .valid ↔
      ∀ nsRWSet ∈ nsRWSets, validateNs hashFunc serializeKVReads store u nsRWSet = .ok .valid := by
  induction nsRWSets with
  | nil => exact iff_of_true rfl (by simp)
  | cons nsRWSet nsRWSets ih =>
    rw [validateTx, bind_eq_ok, List.forall_mem_cons]
    constructor
    · rintro ⟨code, hc, h⟩
      by_cases hvl : code = .valid
      · rw [if_pos hvl] at h
        exact ⟨hvl ▸ hc, ih.mp h⟩
      · rw [if_neg hvl] at h
        exact absurd (Outcome.ok.inj h) hvl
    · rintro ⟨hns, hr⟩
      refine ⟨.valid, hns, ?_⟩
      exact ih.mpr hr

/-- What one round can do: a valid transaction adds its write set at its height, another one nothing. -/
theorem prepareTx_eq_ok_iff {code : TxValidationCode} :
    prepareTx hashFunc serializeKVReads store sha256 serialize blk doMVCCValidation u tracker tx =
        .ok (code, u', tracker') ↔
      mvccCode hashFunc serializeKVReads store doMVCCValidation u tx = .ok code ∧
        ((code = .valid ∧ ∃ txHeight, blk.committingTxHeight tx.indexInBlock = .ok txHeight ∧
            applyWriteSet sha256 serialize u tx.rwset txHeight store.db = .ok u' ∧
            tracker' = tracker.update tx.rwset txHeight) ∨
          (code ≠ .valid ∧ u' = u ∧ tracker' = tracker)) := by
  rw [prepareTx, bind_eq_ok]
  constructor
  · rintro ⟨code', hc, h⟩
    by_cases hvl : code' = .valid
    · rw [if_pos hvl] at h
      simp only [bind_eq_ok, pure_eq, Outcome.ok.injEq, Prod.mk.injEq] at h
      obtain ⟨txHeight, hh, u₁, ha, rfl, rfl, rfl⟩ := h
      exact ⟨hc, .inl ⟨hvl, txHeight, hh, ha, rfl⟩⟩
    · rw [if_neg hvl] at h
      cases h
      exact ⟨hc, .inr ⟨hvl, rfl, rfl⟩⟩
  · rintro ⟨hc, ⟨hvl, txHeight, hh, ha, rfl⟩ | ⟨hi, rfl, rfl⟩⟩
    · refine ⟨code, hc, ?_⟩
      rw [if_pos hvl, hh, ok_bind, ha]
      rfl
    · refine ⟨code, hc, ?_⟩
      rw [if_neg hi]
      rfl

end

end Drunix.Ledger.Validation
