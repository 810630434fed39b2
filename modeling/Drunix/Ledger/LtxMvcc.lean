import Drunix.Ledger.TxOps

namespace Drunix.Ledger

open Lib Proto Outcome

structure LtxTransaction where
  indexInBlock : Nat
  rwset : TxReadWriteSet
  validationCode : TxValidationCode
  deriving DecidableEq

/-- `ltxBlock`; the sparse filter is absent when it could not be extracted. -/
structure LtxBlock where
  num : UInt64
  txs : List LtxTransaction
  sparseblockchainFilter : Option SparseTxnFilter
  deriving DecidableEq

def LtxBlock.committingTxHeight (blk : LtxBlock) (indexInBlock : Nat) : Outcome Unit Version :=
  match blk.sparseblockchainFilter with
  | none => .ok ⟨blk.num, UInt64.ofNat indexInBlock⟩
  | some filter =>
    if blk.num = 0 then .ok ⟨blk.num, UInt64.ofNat indexInBlock⟩
    else do
      let info ← .deref filter.txnInfoList[indexInBlock]?
      return ⟨filter.fatBlockNumber, info.indexInFatBlock⟩

section

variable (db : StateDB) (u : PublicAndHashUpdates)

def getVersion (ns key : Bytes) : Option Version :=
  (db (encodeDataKey ns key)).map VersionedValue.version

def getKeyHashVersion (ns coll keyHash : Bytes) : Option Version :=
  getVersion db (deriveHashedDataNs ns coll) keyHash

def validateLtxKVRead (ns : Bytes) (kvRead : KVRead) : Bool :=
  if (u.publicUpdates.lookup (ns, kvRead.key)).isSome then false
  else getVersion db ns kvRead.key = kvRead.version

def validateLtxKVReadHash (ns coll : Bytes) (kvReadHash : KVReadHash) : Bool :=
  if (u.hashUpdates.lookup ⟨ns, coll, kvReadHash.keyHash⟩).isSome then false
  else getKeyHashVersion db ns coll kvReadHash.keyHash = kvReadHash.version

def validateNsLtxHashedReadSets (ns : Bytes) (collHashedRWSets : List CollectionHashedReadWriteSet) :
    Outcome Unit Bool :=
  Outcome.all (fun collHashedRWSet => do
    let hashedRwset ← .deref collHashedRWSet.hashedRwset
    return hashedRwset.hashedReads.all (validateLtxKVReadHash db u ns collHashedRWSet.collectionName))
    collHashedRWSets

end

/-- Re-execution of a range query over the database and the updates of the block so far. -/
abbrev RangeQueryValidator := StateDB → PublicAndHashUpdates → Bytes → RangeQueryInfo → Bool

section

variable (validateLtxRangeQuery : RangeQueryValidator) (db : StateDB)

def validateLtxNs (u : PublicAndHashUpdates) (nsRWSet : NsReadWriteSet) : Outcome Unit TxValidationCode := do
  let rwset ← .deref nsRWSet.rwset
  if !rwset.reads.all (validateLtxKVRead db u nsRWSet.nameSpace) then return .mvccReadConflict
  else if !rwset.rangeQueriesInfo.all (validateLtxRangeQuery db u nsRWSet.nameSpace) then
    return .phantomReadConflict
  else if ← validateNsLtxHashedReadSets db u nsRWSet.nameSpace nsRWSet.collectionHashedRwset then
    return .valid
  else return .mvccReadConflict

def validateLtx (u : PublicAndHashUpdates) : List NsReadWriteSet → Outcome Unit TxValidationCode
  | [] => .ok .valid
  | nsRWSet :: rest => do
      let code ← validateLtxNs validateLtxRangeQuery db u nsRWSet
      if code = .valid then validateLtx u rest else return code

def validateEndorserLtX (doMVCCValidation : Bool) (txRWSet : TxReadWriteSet) (u : PublicAndHashUpdates) :
    Outcome Unit TxValidationCode :=
  if doMVCCValidation then validateLtx validateLtxRangeQuery db u txRWSet.nsRwset else .ok .valid

def ltxMvccCode (doMVCCValidation : Bool) (u : PublicAndHashUpdates) (tx : LtxTransaction) :
    Outcome Unit TxValidationCode :=
  if tx.validationCode = .valid then validateEndorserLtX validateLtxRangeQuery db doMVCCValidation tx.rwset u
  else .ok tx.validationCode

variable (sha256 : Bytes → Bytes) (serialize : List KVMetadataEntry → Bytes) (blk : LtxBlock) (doMVCCValidation : Bool)

def validateAndPrepareTx (u : PublicAndHashUpdates) (tx : LtxTransaction) :
    Outcome Unit (TxValidationCode × PublicAndHashUpdates) := do
  let code ← ltxMvccCode validateLtxRangeQuery db doMVCCValidation u tx
  if code = .valid then
    let committingTxHeight ← blk.committingTxHeight tx.indexInBlock
    let ops ← ltxOps sha256 serialize tx.rwset
    let u ← applyLtxWriteSet u ops committingTxHeight db
    return (code, u)
  else return (code, u)

def validateAndPrepareLtxBatch (u : PublicAndHashUpdates) (txs : List LtxTransaction) :
    Outcome Unit (List TxValidationCode × PublicAndHashUpdates) :=
  mapAccumM (validateAndPrepareTx validateLtxRangeQuery db sha256 serialize blk doMVCCValidation) u txs

end

theorem validateAndPrepareTx_eq_ok_iff {validateLtxRangeQuery : RangeQueryValidator} {db : StateDB}
    {sha256 : Bytes → Bytes} {serialize : List KVMetadataEntry → Bytes} {blk : LtxBlock} {doMVCCValidation : Bool}
    {u u' : PublicAndHashUpdates} {tx : LtxTransaction} {code : TxValidationCode} :
    validateAndPrepareTx validateLtxRangeQuery db sha256 serialize blk doMVCCValidation u tx = .ok (code, u') ↔
      ltxMvccCode validateLtxRangeQuery db doMVCCValidation u tx = .ok code ∧
      ((code = .valid ∧ ∃ txHeight ops, blk.committingTxHeight tx.indexInBlock = .ok txHeight ∧
          ltxOps sha256 serialize tx.rwset = .ok ops ∧ applyLtxWriteSet u ops txHeight db = .ok u') ∨
        (code ≠ .valid ∧ u' = u)) := by
  rw [validateAndPrepareTx, bind_eq_ok]
  constructor
  · rintro ⟨code', hc, h⟩
    by_cases hvl : code' = .valid
    · rw [if_pos hvl] at h
      simp only [bind_eq_ok, pure_eq, Outcome.ok.injEq, Prod.mk.injEq] at h
      obtain ⟨txHeight, hh, ops, ho, u₁, ha, rfl, rfl⟩ := h
      exact ⟨hc, .inl ⟨hvl, txHeight, ops, hh, ho, ha⟩⟩
    · rw [if_neg hvl] at h
      cases h
      exact ⟨hc, .inr ⟨hvl, rfl⟩⟩
  · rintro ⟨hc, ⟨hvl, txHeight, ops, hh, ho, ha⟩ | ⟨hi, rfl⟩⟩
    · refine ⟨code, hc, ?_⟩
      rw [if_pos hvl, hh, ok_bind, ho, ok_bind, ha]
      rfl
    · exact ⟨code, hc, if_neg hi⟩

def VersionedValue.stored (vv : VersionedValue) : Option VersionedValue :=
  if vv.value = none then none else some vv

section

variable {u : PublicAndHashUpdates} (hu : ∀ c, u.get c ≠ none → c.WellNamed)
include hu

theorem wellNamed_of_mem_publicUpdates {p : Bytes × Bytes} (hp : p ∈ u.publicUpdates) :
    (⟨p.1, [], p.2⟩ : CompositeKey).WellNamed := by
  apply hu
  exact fun hn => AList.lookup_eq_none.mp hn hp

theorem wellNamed_of_mem_hashUpdates {k : CompositeKey} (hk : k ∈ u.hashUpdates) : k.WellNamed := by
  apply hu
  rw [u.get_hashed (u.coll_ne_nil k hk)]
  exact fun hn => AList.lookup_eq_none.mp hn hk

theorem overlay_publicUpdates {c : CompositeKey} (hc : c.WellNamed) (db : StateDB) :
    u.publicUpdates.overlay (fun k => encodeDataKey k.1 k.2) VersionedValue.stored db c.dataKey =
      if c.coll = [] then (u.get c).elim (db c.dataKey) VersionedValue.stored else db c.dataKey := by
  have hinj : ∀ p ∈ u.publicUpdates, encodeDataKey p.1 p.2 = c.dataKey → ⟨p.1, [], p.2⟩ = c := fun p hp he =>
    CompositeKey.dataKey_inj (wellNamed_of_mem_publicUpdates hu hp) hc ((CompositeKey.dataKey_public _ _).trans he)
  split_ifs with hcl
  · obtain ⟨ns, coll, key⟩ := c
    subst hcl
    refine AMap.overlay_apply (fun k : Bytes × Bytes => encodeDataKey k.1 k.2) _ u.publicUpdates db (ns, key) ?_
    intro p hp he
    cases hinj p hp (he.trans (CompositeKey.dataKey_public _ _).symm)
    rfl
  · apply AMap.overlay_of_notMem
    exact fun p hp he => hcl (hinj p hp he ▸ rfl)

theorem overlay_hashUpdates {c : CompositeKey} (hc : c.WellNamed) (db : StateDB) :
    u.hashUpdates.overlay (fun k => encodeDataKey (deriveHashedDataNs k.ns k.coll) k.key) VersionedValue.stored db
        c.dataKey =
      if c.coll = [] then db c.dataKey else (u.get c).elim (db c.dataKey) VersionedValue.stored := by
  have hinj : ∀ k ∈ u.hashUpdates, encodeDataKey (deriveHashedDataNs k.ns k.coll) k.key = c.dataKey → k = c :=
    fun k hk he => CompositeKey.dataKey_inj (wellNamed_of_mem_hashUpdates hu hk) hc
      ((CompositeKey.dataKey_hashed (u.coll_ne_nil k hk)).trans he)
  split_ifs with hcl
  · apply AMap.overlay_of_notMem
    exact fun k hk he => u.coll_ne_nil k hk (hinj k hk he ▸ hcl)
  · rw [u.get_hashed hcl, CompositeKey.dataKey_hashed hcl]
    apply AMap.overlay_apply (fun k : CompositeKey => encodeDataKey (deriveHashedDataNs k.ns k.coll) k.key)
    exact fun k hk he => hinj k hk (he.trans (CompositeKey.dataKey_hashed hcl).symm)

theorem overlay_publicUpdates_frame {k : Bytes} (hk : ∀ c : CompositeKey, c.WellNamed → c.dataKey ≠ k)
    (db : StateDB) :
    u.publicUpdates.overlay (fun k => encodeDataKey k.1 k.2) VersionedValue.stored db k = db k := by
  apply AMap.overlay_of_notMem
  intro p hp
  exact hk _ (wellNamed_of_mem_publicUpdates hu hp)

theorem overlay_hashUpdates_frame {k : Bytes} (hk : ∀ c : CompositeKey, c.WellNamed → c.dataKey ≠ k)
    (db : StateDB) :
    u.hashUpdates.overlay (fun k => encodeDataKey (deriveHashedDataNs k.ns k.coll) k.key) VersionedValue.stored db
      k = db k := by
  apply AMap.overlay_of_notMem
  intro c hc
  rw [← CompositeKey.dataKey_hashed (u.coll_ne_nil c hc)]
  exact hk c (wellNamed_of_mem_hashUpdates hu hc)

end

end Drunix.Ledger
