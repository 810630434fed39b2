import Drunix.Proto.PrivateData
import Drunix.Ledger.Validation.Validator

namespace Drunix.Ledger.Validation

open Lib Proto Vanilla Option

def derivePvtDataNs (ns coll : Bytes) : Bytes :=
  ns ++ ascii "$$p" ++ coll

abbrev PvtUpdates := AMap CompositeKey VersionedValue

structure PvtTx where
  indexInBlock : Nat
  collHashes : List CollHash
  deriving DecidableEq

def collHashes (rwset : TxRwSet) : List CollHash :=
  rwset.nsRwSets.flatMap fun ns => ns.collHashedRwSets.map fun coll => ⟨ns.nameSpace, coll.collectionName, coll.pvtRwSetHash⟩

def ltxCollHashes (rwset : TxReadWriteSet) : List CollHash :=
  rwset.nsRwset.flatMap fun ns =>
    ns.collectionHashedRwset.map fun coll => ⟨ns.nameSpace, coll.collectionName, coll.pvtRwsetHash⟩

def containsPvtWrites (tx : PvtTx) : Bool :=
  tx.collHashes.any fun coll => coll.hash ≠ []

def retrieveHash (hashes : List CollHash) (ns coll : Bytes) : Bytes :=
  ((hashes.find? fun c => c.ns = ns ∧ c.coll = coll).map CollHash.hash).getD []

structure CollPvtRwSet where
  ns : Bytes
  coll : Bytes
  kvRwSet : KVRWSet
  deriving DecidableEq

section

variable (sha256 : Bytes → Bytes) (unmarshalKVRWSet : Bytes → Option KVRWSet)

/-- The private data of each collection must have the hash that the public part carries for it. -/
def validatePvtdata (hashes : List CollHash) (pvtdata : TxPvtData) : Outcome Unit Unit :=
  match pvtdata.writeSet with
  | none => .ok ()
  | some writeSet => writeSet.collections.forM fun c => .require (sha256 c.rwset = retrieveHash hashes c.ns c.coll) ()

def txPvtRwSetFromProtoMsg (writeSet : Option TxPvtReadWriteSet) : Outcome Unit (List CollPvtRwSet) := do
  let writeSet ← .deref writeSet
  writeSet.collections.mapM fun c => do
    let kvRwSet ← .orErr () (unmarshalKVRWSet c.rwset)
    return ⟨c.ns, c.coll, kvRwSet⟩

def pvtWriteEntry (w : KVWrite) (ver : Version) : VersionedValue :=
  if isLtxKVWriteDelete w then ⟨none, [], ver⟩ else ⟨some w.value, [], ver⟩

def pvtWrites (pvtRWSet : List CollPvtRwSet) : List (CompositeKey × KVWrite) :=
  pvtRWSet.flatMap fun c => c.kvRwSet.writes.map fun w => (⟨c.ns, c.coll, w.key⟩, w)

def addPvtRWSetToPvtUpdateBatch (pvtRWSet : List CollPvtRwSet) (pvtUpdates : PvtUpdates) (ver : Version) : PvtUpdates :=
  (pvtWrites pvtRWSet).foldl (fun p e => p.insert e.1 (pvtWriteEntry e.2 ver)) pvtUpdates

def metadataKeys (pvtRWSet : List CollPvtRwSet) : List CompositeKey :=
  pvtRWSet.flatMap fun c => c.kvRwSet.metadataWrites.map fun w => ⟨c.ns, c.coll, w.key⟩

def usedPvtData (pvtdata : UInt64 → Option TxPvtData) (tx : PvtTx) : Option TxPvtData :=
  if containsPvtWrites tx then pvtdata (UInt64.ofNat tx.indexInBlock) else none

/-- One valid transaction; the version of its private writes is the number of the block and the index
in the block, whether or not the block has a sparse filter. -/
def addTxPvtData (num : UInt64) (pvtdata : UInt64 → Option TxPvtData) (acc : PvtUpdates × List CompositeKey)
    (tx : PvtTx) : Outcome Unit (PvtUpdates × List CompositeKey) :=
  match usedPvtData pvtdata tx with
  | none => .ok acc
  | some txPvtdata => do
      validatePvtdata sha256 tx.collHashes txPvtdata
      let pvtRWSet ← txPvtRwSetFromProtoMsg unmarshalKVRWSet txPvtdata.writeSet
      return (addPvtRWSetToPvtUpdateBatch pvtRWSet acc.1 ⟨num, UInt64.ofNat tx.indexInBlock⟩,
        acc.2 ++ metadataKeys pvtRWSet)

variable (u : PublicAndHashUpdates) (db : StateDB)

def pvtDataKey (k : CompositeKey) : Bytes :=
  encodeDataKey (derivePvtDataNs k.ns k.coll) k.key

def hashedKey (k : CompositeKey) : CompositeKey :=
  { k with key := sha256 k.key }

def retrieveLatestVal (pvtUpdates : PvtUpdates) (k : CompositeKey) : Option VersionedValue :=
  (pvtUpdates.lookup k).or (db (pvtDataKey k))

/-- `incrementPvtdataVersionIfNeeded` for one key. -/
def incrementVersion (pvtUpdates : PvtUpdates) (k : CompositeKey) : Outcome Unit PvtUpdates :=
  match u.hashUpdates.lookup (hashedKey sha256 k), retrieveLatestVal db pvtUpdates k with
  | some hashedVal, some latestVal =>
    if latestVal.version = hashedVal.version then .ok pvtUpdates
    else if sha256 (latestVal.value.getD []) = hashedVal.value.getD [] then do
      let value ← .deref latestVal.value
      return pvtUpdates.insert k ⟨some value, [], hashedVal.version⟩
    else .ok pvtUpdates
  | _, _ => .ok pvtUpdates

def preparePvtBatch (num : UInt64) (txs : List PvtTx) (pvtdata : UInt64 → Option TxPvtData) :
    Outcome Unit PvtUpdates := do
  let (pvtUpdates, metadataUpdates) ← txs.foldlM (addTxPvtData sha256 unmarshalKVRWSet num pvtdata) (∅, [])
  metadataUpdates.dedup.foldlM (incrementVersion sha256 u db) pvtUpdates

def valid {α : Type} (txs : List α) (codes : List TxValidationCode) : List α :=
  ((txs.zip codes).filter fun e => e.2 = .valid).map Prod.fst

def validateAndPreparePvtBatch (blk : Block) (codes : List TxValidationCode) (pvtdata : UInt64 → Option TxPvtData) :
    Outcome Unit PvtUpdates :=
  preparePvtBatch sha256 unmarshalKVRWSet u db blk.num
    ((valid blk.txs codes).map fun tx => ⟨tx.indexInBlock, collHashes tx.rwset⟩) pvtdata

def validateAndPrepareLtxPvtBatch (blk : LtxBlock) (codes : List TxValidationCode)
    (pvtdata : UInt64 → Option TxPvtData) : Outcome Unit PvtUpdates :=
  preparePvtBatch sha256 unmarshalKVRWSet u db blk.num
    ((valid blk.txs codes).map fun tx => ⟨tx.indexInBlock, ltxCollHashes tx.rwset⟩) pvtdata

end

def keyIn (ns dataKey : Bytes) : Option Bytes :=
  if (encodeDataKey ns []).isPrefixOf dataKey then some (dataKey.drop (encodeDataKey ns []).length) else none

theorem encodeDataKey_eq_append (ns key : Bytes) : encodeDataKey ns key = encodeDataKey ns [] ++ key := by
  simp [encodeDataKey]

theorem keyIn_eq_some {ns dataKey key : Bytes} : keyIn ns dataKey = some key ↔ dataKey = encodeDataKey ns key := by
  rw [keyIn, encodeDataKey_eq_append ns key]
  constructor
  · intro h
    by_cases hp : (encodeDataKey ns []).isPrefixOf dataKey
    · rw [if_pos hp, Option.some.injEq] at h
      obtain ⟨rest, rfl⟩ := List.isPrefixOf_iff_prefix.mp hp
      rw [List.drop_left] at h
      rw [h]
    · rw [if_neg hp] at h
      cases h
  · rintro rfl
    rw [if_pos (List.isPrefixOf_iff_prefix.mpr (List.prefix_append _ _)), List.drop_left]

def StateStore.put (store : StateStore) (dataKey : Bytes) (vv : VersionedValue) : StateStore where
  db := Function.update store.db dataKey vv.stored
  getStateRangeScan ns startKey endKey :=
    (unionRight (store.getStateRangeScan ns startKey endKey)
      (((keyIn ns dataKey).filter fun key => InRange startKey endKey key).map fun key => (key, vv)).toList).filter
        fun e => !isDelete e.2
  scan_enumerates := by
    intro ns startKey endKey
    have hupd : Enumerates
        (((keyIn ns dataKey).filter fun key => InRange startKey endKey key).map fun key => (key, vv)).toList
        (fun key => if encodeDataKey ns key = dataKey then some vv else none) (InRange startKey endKey) := by
      refine ⟨?_, ?_⟩
      · cases (keyIn ns dataKey).filter fun key => InRange startKey endKey key with
        | none => exact List.Pairwise.nil
        | some key => exact List.pairwise_singleton _ _
      · intro key v
        rw [mem_toList, map_eq_some_iff]
        constructor
        · rintro ⟨key', hkey', heq⟩
          cases heq
          rw [filter_eq_some_iff, keyIn_eq_some, decide_eq_true_iff] at hkey'
          exact ⟨hkey'.2, if_pos hkey'.1.symm⟩
        · rintro ⟨hrange, hv⟩
          by_cases hkey : encodeDataKey ns key = dataKey
          · rw [if_pos hkey, Option.some.injEq] at hv
            refine ⟨key, ?_, by rw [hv]⟩
            rw [filter_eq_some_iff, keyIn_eq_some, decide_eq_true_iff]
            exact ⟨hkey.symm, hrange⟩
          · rw [if_neg hkey] at hv
            cases hv
    have hfun : (fun key => Function.update store.db dataKey vv.stored (encodeDataKey ns key)) =
        fun key => ((if encodeDataKey ns key = dataKey then some vv else none).or (store.db (encodeDataKey ns key))).filter
          fun v => !isDelete v := by
      funext key
      rw [← elim_stored_eq_filter]
      by_cases hkey : encodeDataKey ns key = dataKey
      · rw [if_pos hkey, hkey, Function.update_self, elim_some]
      · rw [if_neg hkey, Function.update_of_ne hkey, elim_none]
    rw [hfun]
    exact ((store.scan_enumerates ns startKey endKey).unionRight hupd).filter fun v => !isDelete v
  value_ne_none := by
    intro key v hv
    by_cases hkey : key = dataKey
    · rw [hkey, Function.update_self, VersionedValue.stored] at hv
      by_cases hvalue : vv.value = none
      · rw [if_pos hvalue] at hv
        cases hv
      · rw [if_neg hvalue] at hv
        cases hv
        exact hvalue
    · rw [Function.update_of_ne hkey] at hv
      exact store.value_ne_none key v hv

section

variable {K : Type} [DecidableEq K]

def StateStore.putAll (store : StateStore) (enc : K → Bytes) (m : AMap K VersionedValue) : StateStore :=
  m.entries.foldl (fun store e => store.put (enc e.1) e.2) store

omit [DecidableEq K] in
theorem StateStore.putAll_db (store : StateStore) (enc : K → Bytes) (m : AMap K VersionedValue) :
    (store.putAll enc m).db = m.overlay enc VersionedValue.stored store.db := by
  rw [putAll, AMap.overlay, AList.foldl]
  generalize m.entries = entries
  induction entries generalizing store with
  | nil => rfl
  | cons e entries ih => exact ih (store.put (enc e.1) e.2)

end

/-- `ApplyPrivacyAwareUpdates`: public, private and hashed updates, in their own namespaces. -/
def StateStore.applyUpdates (store : StateStore) (u : PublicAndHashUpdates) (pvtUpdates : PvtUpdates) : StateStore :=
  ((store.putAll (fun k => encodeDataKey k.1 k.2) u.publicUpdates).putAll pvtDataKey pvtUpdates).putAll
    (fun k => encodeDataKey (deriveHashedDataNs k.ns k.coll) k.key) u.hashUpdates

inductive LedgerBlock where
  | vanilla (blk : Block)
  | lite (blk : LtxBlock)

section

variable (hashFunc : Bytes → Bytes) (serializeKVReads : List KVRead → Bytes)
  (validateLtxRangeQuery : RangeQueryValidator) (sha256 : Bytes → Bytes) (serialize : List KVMetadataEntry → Bytes)
  (unmarshalKVRWSet : Bytes → Option KVRWSet) (store : StateStore)

/-- `ValidateAndPrepareBatch` and `ValidateAndPrepareBatchLtx`. The purges of lite transactions are not tracked. -/
def validateAndPrepare (doMVCCValidation : Bool) (pvtdata : UInt64 → Option TxPvtData) :
    LedgerBlock → Outcome Unit (List TxValidationCode × PublicAndHashUpdates × PurgeTracker × PvtUpdates)
  | .vanilla blk => do
      let (codes, u, purges) ← validateAndPrepareBatch hashFunc serializeKVReads store sha256 serialize blk doMVCCValidation
      let pvtUpdates ← validateAndPreparePvtBatch sha256 unmarshalKVRWSet u store.db blk codes pvtdata
      return (codes, u, purges, pvtUpdates)
  | .lite blk => do
      let (codes, u) ← validateAndPrepareLtxBatch validateLtxRangeQuery store.db sha256 serialize blk doMVCCValidation
        newPubAndHashUpdates blk.txs
      let pvtUpdates ← validateAndPrepareLtxPvtBatch sha256 unmarshalKVRWSet u store.db blk codes pvtdata
      return (codes, u, ∅, pvtUpdates)

/-- `queryExecutor.GetPrivateData`: the private value is only returned if its version is that of the
key hash. -/
def getPrivateData (db : StateDB) (k : CompositeKey) : Outcome Unit (Option Bytes) :=
  let versionedValue := db (pvtDataKey k)
  if getKeyHashVersion db k.ns k.coll (sha256 k.key) = versionedValue.map VersionedValue.version then
    .ok (versionedValue.bind VersionedValue.value)
  else .err ()

end

end Drunix.Ledger.Validation
