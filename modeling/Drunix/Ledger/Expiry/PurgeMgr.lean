import Drunix.Ledger.Validation.KeyEffects
import Drunix.Ledger.Validation.PrivateVersions

namespace Drunix.Ledger.Expiry

open Lib Proto Validation

/-- `GetBTL`: the block-to-live of a collection, the largest number for one that never expires. There is no collection
without a name. -/
structure BTLPolicy where
  getBTL : Bytes → Bytes → Option UInt64
  unnamed : ∀ ns, getBTL ns [] = none

def maxUint64 : UInt64 := 0xffffffffffffffff

def computeExpiringBlock (committingBlock btl : UInt64) : UInt64 :=
  if committingBlock + btl + 1 ≤ committingBlock then maxUint64 else committingBlock + btl + 1

structure ExpiryInfoKey where
  committingBlk : UInt64
  expiryBlk : UInt64
  deriving DecidableEq

/-- A key hash with the key, or with the empty key if the peer does not have it. -/
structure KeyAndHash where
  hashed : CompositeKey
  key : Bytes
  deriving DecidableEq

abbrev ExpirySchedule := AMap ExpiryInfoKey (List KeyAndHash)

section

variable (policy : BTLPolicy)

def addToSchedule (schedule : ExpirySchedule) (e : KeyAndHash × VersionedValue) : Outcome Unit ExpirySchedule := do
  let committingBlk := e.2.version.blockNum
  let btl ← .orErr () (policy.getBTL e.1.hashed.ns e.1.hashed.coll)
  let expiryBlk := computeExpiringBlock committingBlk btl
  if e.2.value = none ∨ expiryBlk = maxUint64 then return schedule
  else return schedule.modify ⟨committingBlk, expiryBlk⟩ fun keys => keys.getD [] ++ [e.1]

variable (sha256 : Bytes → Bytes)

def scheduled (pvtUpdates : PvtUpdates) (hashUpdates : AMap CompositeKey VersionedValue) :
    List (KeyAndHash × VersionedValue) :=
  (pvtUpdates.toPairs.map fun e => (⟨hashedKey sha256 e.1, e.1.key⟩, e.2)) ++
    (hashUpdates.toPairs.filter fun e => e.1 ∉ pvtUpdates.toPairs.map fun p => hashedKey sha256 p.1).map
      fun e => (⟨e.1, []⟩, e.2)

def buildExpirySchedule (pvtUpdates : PvtUpdates) (hashUpdates : AMap CompositeKey VersionedValue) :
    Outcome Unit ExpirySchedule :=
  (scheduled sha256 pvtUpdates hashUpdates).foldlM (addToSchedule policy) ∅

end

def updateKeeper (keeper toTrack : ExpirySchedule) (toClear : List ExpiryInfoKey) : ExpirySchedule :=
  toClear.foldl (fun m k => m.erase k) (toTrack.toPairs.foldl (fun m e => m.insert e.1 e.2) keeper)

/-- The keys of a collection that expire with one block have one committing block, so the order of the entries does
not matter. -/
def retrieve (keeper : ExpirySchedule) (expiringAtBlk : UInt64) : List (ExpiryInfoKey × List KeyAndHash) :=
  keeper.toPairs.filter fun e => e.1.expiryBlk = expiringAtBlk

structure KeyAndVersion where
  key : Bytes
  committingBlock : UInt64
  purgeKeyOnly : Bool := false
  deriving DecidableEq

def transformToExpiryInfoMap (expiryInfo : List (ExpiryInfoKey × List KeyAndHash)) : AMap CompositeKey KeyAndVersion :=
  (expiryInfo.flatMap fun e => e.2.map fun k => (k.hashed, (⟨k.key, e.1.committingBlk, false⟩ : KeyAndVersion))).foldl
    (fun m e => m.insert e.1 e.2) ∅

structure Workingset where
  toPurge : AMap CompositeKey KeyAndVersion
  toClearFromSchedule : List ExpiryInfoKey
  expiringBlk : UInt64

/-- Whether an expiring key is still in the state as it was scheduled: with its hash, only the key, or neither. -/
def stillCommitted (db : StateDB) (c : CompositeKey) (kv : KeyAndVersion) : Option KeyAndVersion :=
  if (getKeyHashVersion db c.ns c.coll c.key).map Version.blockNum = some kv.committingBlock then some kv
  else if kv.key ≠ [] ∧ (db (pvtDataKey ⟨c.ns, c.coll, kv.key⟩)).map (fun vv => vv.version.blockNum) =
      some kv.committingBlock then
    some { kv with purgeKeyOnly := true }
  else none

def prepareWorkingsetFor (db : StateDB) (keeper : ExpirySchedule) (expiringAtBlk : UInt64) : Workingset where
  toPurge := (transformToExpiryInfoMap (retrieve keeper expiringAtBlk)).filterMap (stillCommitted db)
  toClearFromSchedule := (transformToExpiryInfoMap (retrieve keeper expiringAtBlk)).toPairs.map
    fun e => ⟨e.2.committingBlock, expiringAtBlk⟩
  expiringBlk := expiringAtBlk

abbrev Batches := PublicAndHashUpdates × PvtUpdates

def addExpiredEntry (expiringBlk : UInt64) (b : Batches) (e : CompositeKey × KeyAndVersion) : Batches :=
  let expired : VersionedValue := ⟨none, [], ⟨expiringBlk, maxUint64⟩⟩
  (if (b.1.get e.1).isNone ∧ e.2.purgeKeyOnly = false then b.1.set e.1 expired else b.1,
    if e.2.key ≠ [] ∧ (b.2.lookup ⟨e.1.ns, e.1.coll, e.2.key⟩).isNone then
      b.2.insert ⟨e.1.ns, e.1.coll, e.2.key⟩ expired
    else b.2)

def addExpiredEntriesToUpdateBatch (ws : Workingset) (b : Batches) : Batches :=
  ws.toPurge.toPairs.foldl (addExpiredEntry ws.expiringBlk) b

def versionLt (v w : Version) : Bool :=
  v.blockNum < w.blockNum || (v.blockNum = w.blockNum && v.txNum < w.txNum)

/-- `FetchPrivateDataRawKey`: the key that the private data store has for a key hash, or the empty key. -/
structure RawKeys (sha256 : Bytes → Bytes) where
  fetchPrivateDataRawKey : CompositeKey → Bytes
  hash_fetch : ∀ c, fetchPrivateDataRawKey c ≠ [] → sha256 (fetchPrivateDataRawKey c) = c.key

def RawKeys.unknown (sha256 : Bytes → Bytes) : RawKeys sha256 where
  fetchPrivateDataRawKey _ := []
  hash_fetch _ h := absurd rfl h

/-- Whether a key hash has no purge marker at or above the height. -/
def unpurged (markers : AMap CompositeKey Version) (ns coll : Bytes) (keyHt : Version) (keyHash : Bytes) : Bool :=
  (markers.lookup ⟨ns, coll, keyHash⟩).all fun purgeMarkerHt => versionLt purgeMarkerHt keyHt

section

variable {sha256 : Bytes → Bytes}

def purgeAppInitiatedPvtKey (rawKeys : RawKeys sha256) (p : PvtUpdates) (e : CompositeKey × Version) : PvtUpdates :=
  let ck : CompositeKey := ⟨e.1.ns, e.1.coll, rawKeys.fetchPrivateDataRawKey e.1⟩
  if ck.key = [] then p
  else if (p.lookup ck).all fun vv => versionLt vv.version e.2 then p.insert ck ⟨none, [], e.2⟩ else p

/-- The private keys of the purged hashes are deleted, except those with a later private write. -/
def purgeAppInitiatedPvtKeys (rawKeys : RawKeys sha256) (purges : PurgeTracker) (pvtUpdates : PvtUpdates) : PvtUpdates :=
  purges.toPairs.foldl (purgeAppInitiatedPvtKey rawKeys) pvtUpdates

end

/-- The state database and the purge manager, which has no working set when the peer has just started. -/
structure TxMgr where
  store : StateStore
  expKeeper : ExpirySchedule
  workingset : Option Workingset

def TxMgr.init : TxMgr where
  store := StateStore.empty
  expKeeper := ∅
  workingset := none

def TxMgr.workingsetFor (m : TxMgr) (blockNum : UInt64) : Workingset :=
  m.workingset.getD (prepareWorkingsetFor m.store.db m.expKeeper blockNum)

def TxMgr.updateExpiryInfo (policy : BTLPolicy) (sha256 : Bytes → Bytes) (m : TxMgr) (u : PublicAndHashUpdates)
    (p : PvtUpdates) : Outcome Unit TxMgr := do
  let expiryInfoUpdates ← buildExpirySchedule policy sha256 p u.hashUpdates
  return { m with expKeeper := updateKeeper m.expKeeper expiryInfoUpdates [] }

/-- `LockBasedTxMgr.Commit`, with the working set for the next block that `PrepareForExpiringKeys` makes at its end. -/
def TxMgr.commit (policy : BTLPolicy) (sha256 : Bytes → Bytes) (m : TxMgr) (blockNum : UInt64) (u : PublicAndHashUpdates)
    (p : PvtUpdates) : Outcome Unit TxMgr := do
  let ws := m.workingsetFor blockNum
  let m ← m.updateExpiryInfo policy sha256 u p
  let b := addExpiredEntriesToUpdateBatch ws (u, p)
  let store := m.store.applyUpdates b.1 b.2
  let expKeeper := updateKeeper m.expKeeper ∅ ws.toClearFromSchedule
  return { store, expKeeper, workingset := some (prepareWorkingsetFor store.db expKeeper (blockNum + 1)) }

/-- The state of a peer, with the number of the next block. The last two fields are for the statements: the block that
last wrote a key hash or a private key, if it was not deleted since. -/
structure PeerState extends TxMgr where
  height : UInt64
  hashWritten : CompositeKey → Option UInt64
  pvtWritten : CompositeKey → Option UInt64

def PeerState.init : PeerState where
  toTxMgr := TxMgr.init
  height := 0
  hashWritten _ := none
  pvtWritten _ := none

def writtenBy (blockNum : UInt64) (update : Option VersionedValue) (before : Option UInt64) : Option UInt64 :=
  update.elim before fun vv => vv.value.map fun _ => blockNum

def commit (policy : BTLPolicy) (sha256 : Bytes → Bytes) (s : PeerState) (blockNum : UInt64) (u : PublicAndHashUpdates)
    (p : PvtUpdates) : Outcome Unit PeerState := do
  let m ← s.toTxMgr.commit policy sha256 blockNum u p
  return {
    toTxMgr := m
    height := blockNum + 1
    hashWritten c := writtenBy blockNum (u.get c) (s.hashWritten c)
    pvtWritten k := writtenBy blockNum (p.lookup k) (s.pvtWritten k) }

section

variable (hashFunc : Bytes → Bytes) (serializeKVReads : List KVRead → Bytes)
  (validateLtxRangeQuery : RangeQueryValidator) (sha256 : Bytes → Bytes) (serialize : List KVMetadataEntry → Bytes)
  (unmarshalKVRWSet : Bytes → Option KVRWSet)

def commitToState (policy : BTLPolicy) (rawKeys : RawKeys sha256) (s : PeerState) (blk : LedgerBlock)
    (pvtdata : UInt64 → Option TxPvtData) : Outcome Unit (List TxValidationCode × PeerState) := do
  let (codes, u, purges, p) ← validateAndPrepare hashFunc serializeKVReads validateLtxRangeQuery sha256 serialize
    unmarshalKVRWSet s.store true pvtdata blk
  let t ← commit policy sha256 s blk.num u (purgeAppInitiatedPvtKeys rawKeys purges p)
  return (codes, t)

end

end Drunix.Ledger.Expiry
