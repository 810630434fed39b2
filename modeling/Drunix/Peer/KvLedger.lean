import Mathlib.Data.Finset.Basic
import Drunix.Ledger.Expiry.PurgeMgr
import Drunix.Peer.CommitHeights
import Drunix.Peer.CommitSet

namespace Drunix.Peer

open Lib Proto Ledger Ledger.Validation Ledger.Expiry

structure FlaggedBlock where
  block : Proto.Block
  flags : List TxValidationCode

inductive CommitPath where
  | vanilla
  | lite
  deriving DecidableEq

/-- The private data of the blocks below `height`, and for the key hashes that transactions purged the heights of their
last purges. -/
structure PvtdataStore where
  height : Nat := 0
  data : Nat → UInt64 → Option TxPvtData := fun _ _ => none
  purgeMarkers : AMap CompositeKey Version := ∅

structure CommitSupport where
  codec : Codec
  sha256 : Bytes → Bytes
  hashFunc : Bytes → Bytes
  serializeKVReads : List KVRead → Bytes
  serialize : List KVMetadataEntry → Bytes
  validateLtxRangeQuery : RangeQueryValidator
  unmarshalKVRWSet : Bytes → Option KVRWSet
  marshalKVRWSet : KVRWSet → Bytes
  policy : BTLPolicy
  /-- The index of the private data store from key hashes to keys. -/
  rawKeys : PvtdataStore → RawKeys sha256
  /-- The check that the state database makes of keys and values. -/
  validateWriteset : Vanilla.TxRwSet → Bool
  /-- `txValidationCode` with its length before it. -/
  filterBytes : List TxValidationCode → Bytes
  updateBatchBytes : PublicAndHashUpdates → Bytes

def channelConfigKey : Bytes := ascii "CHANNEL_CONFIG_ENV_BYTES"

/-- `processNonEndorserTx`: the only custom processor is that of config transactions. -/
def processNonEndorserTx (payload : Payload) (txType : HeaderType) : Outcome Unit (Option Vanilla.TxRwSet) :=
  if txType = .config then do
    let data ← .orErr () payload.data
    return some ⟨[{ nameSpace := [], kvRwSet := { writes := [⟨channelConfigKey, false, data⟩] } }]⟩
  else .ok none

section

variable {τ : Type}

/-- The loop over the envelopes of a block: for each its flag, and the transaction if there is one. -/
def preprocessTxs (preprocessTx : Nat → TxValidationCode → Bytes → Outcome Unit (TxValidationCode × Option τ)) :
    Nat → List Bytes → List TxValidationCode → Outcome Unit (List (TxValidationCode × Option τ))
  | _, [], _ => .ok []
  | txIndex, envBytes :: data, flag :: flags => do
      let e ← preprocessTx txIndex flag envBytes
      let es ← preprocessTxs preprocessTx (txIndex + 1) data flags
      return e :: es
  | _, _ :: _, [] => .panic

/-- `postprocessProtoBlock`: the transactions that were validated take their codes. -/
def postprocessFlags : List (TxValidationCode × Option τ) → List TxValidationCode → List TxValidationCode
  | [], _ => []
  | (flag, none) :: es, codes => flag :: postprocessFlags es codes
  | (_, some _) :: es, code :: codes => code :: postprocessFlags es codes
  | (flag, some _) :: es, [] => flag :: postprocessFlags es []

end

section

variable (s : CommitSupport)

/-- An envelope in `preprocessProtoBlock`, which looks at it whatever its flag. -/
def preprocessTx (txIndex : Nat) (flag : TxValidationCode) (envBytes : Bytes) :
    Outcome Unit (TxValidationCode × Option Transaction) := do
  let env ← .orErr () (getEnvelopeFromBlock s.codec envBytes)
  let payload ← .orErr () (unmarshalPayload s.codec env.payload)
  let header ← .deref payload.header
  let chdr ← .orErr () (unmarshalChannelHeader s.codec header.channelHeader)
  if chdr.type = .endorserTransaction then
    match getActionFromEnvelopeMsg s.codec env with
    | .err _ => .ok (.nilTxaction, none)
    | .panic => .panic
    | .ok respPayload =>
      match s.codec.txRwSet.unmarshal respPayload.results with
      | none => .ok (.invalidOtherReason, none)
      | some rwset => checked flag rwset
  else
    match ← processNonEndorserTx payload chdr.type with
    | none => .ok (flag, none)
    | some rwset => checked flag rwset
where
  checked (flag : TxValidationCode) (rwset : Vanilla.TxRwSet) : Outcome Unit (TxValidationCode × Option Transaction) :=
    if s.validateWriteset rwset then .ok (flag, some ⟨txIndex, rwset, flag⟩) else .ok (.invalidWriteset, none)

/-- An envelope in `preprocessLtxProtoBlock`. -/
def preprocessLtxTx (txIndex : Nat) (flag : TxValidationCode) (envBytes : Bytes) :
    Outcome Unit (TxValidationCode × Option LtxTransaction) := do
  let env ← .orErr () (getEnvelopeFromBlock s.codec envBytes)
  let results ← (preprocessLtx s.codec env).mapErr fun _ => ()
  return (flag, results.map fun rwset => ⟨txIndex, rwset, flag⟩)

def FlaggedBlock.number (blk : FlaggedBlock) : UInt64 :=
  blk.block.header.number

def FlaggedBlock.sparseFilter (blk : FlaggedBlock) : Option SparseTxnFilter :=
  extractSparseFilter s.codec blk.number blk.block.metadata

/-- The block as its transactions, and the flags it gets from their codes. On the lite path an envelope without results
leaves a nil transaction in the block. -/
def FlaggedBlock.preprocess (blk : FlaggedBlock) :
    CommitPath → Outcome Unit (LedgerBlock × (List TxValidationCode → List TxValidationCode))
  | .vanilla => do
      let es ← preprocessTxs (preprocessTx s) 0 blk.block.data blk.flags
      return (.vanilla ⟨blk.number, es.filterMap Prod.snd, blk.sparseFilter s⟩, postprocessFlags es)
  | .lite => do
      let es ← preprocessTxs (preprocessLtxTx s) 0 blk.block.data blk.flags
      let txs ← es.mapM fun e => .deref e.2
      return (.lite ⟨blk.number, txs, blk.sparseFilter s⟩, postprocessFlags es)

def CommitSupport.validateAndPrepare (doMVCCValidation : Bool) (store : StateStore) (pvtdata : UInt64 → Option TxPvtData)
    (blk : LedgerBlock) : Outcome Unit (List TxValidationCode × PublicAndHashUpdates × PurgeTracker × PvtUpdates) :=
  Validation.validateAndPrepare s.hashFunc s.serializeKVReads s.validateLtxRangeQuery s.sha256 s.serialize
    s.unmarshalKVRWSet store doMVCCValidation pvtdata blk

def prepare (path : CommitPath) (doMVCCValidation : Bool) (store : StateStore) (blk : FlaggedBlock)
    (pvtdata : UInt64 → Option TxPvtData) :
    Outcome Unit (List TxValidationCode × PublicAndHashUpdates × PurgeTracker × PvtUpdates) := do
  let (b, postprocess) ← blk.preprocess s path
  let (codes, r) ← s.validateAndPrepare doMVCCValidation store pvtdata b
  return (postprocess codes, r)

/-- `CommitLostBlock` and `CommitLostLiteBlock`, which know of no purged keys. -/
def CommitSupport.commitLost (m : TxMgr) (pvtdata : UInt64 → Option TxPvtData) (blk : LedgerBlock) :
    Outcome Unit TxMgr := do
  let (_, u, _, pvtUpdates) ← s.validateAndPrepare false m.store pvtdata blk
  m.commit s.policy s.sha256 blk.num u pvtUpdates

end

/-! ### The private data store -/

def PvtdataStore.commit (st : PvtdataStore) (blockNum : UInt64) (pvtdata : UInt64 → Option TxPvtData)
    (purges : PurgeTracker) : Outcome Unit PvtdataStore := do
  Outcome.require (blockNum.toNat = st.height) ()
  return {
    height := st.height + 1
    data := Function.update st.data st.height pvtdata
    purgeMarkers := purges.toPairs.foldl (fun m e => m.insert e.1 ⟨blockNum, e.2.txNum⟩) st.purgeMarkers }

section

variable (s : CommitSupport) (st : PvtdataStore)

def CommitSupport.isExpired (ns coll : Bytes) (blkNum : UInt64) : Bool :=
  (s.policy.getBTL ns coll).any fun btl => (computeExpiringBlock blkNum btl).toNat < st.height

def PvtdataStore.keyPotentiallyPurged (ns coll : Bytes) (keyHt : Version) : Bool :=
  st.purgeMarkers.toPairs.any fun e => e.1.ns = ns ∧ e.1.coll = coll ∧ versionLt e.2 keyHt = false

/-- What is stored was unmarshalled when it was stored, for the index of its keys. -/
def CommitSupport.removePurgedDataFromCollPvtRWset (keyHt : Version) (ns : Bytes) (coll : CollectionPvtReadWriteSet) :
    CollectionPvtReadWriteSet :=
  if st.keyPotentiallyPurged ns coll.collectionName keyHt then
    (s.unmarshalKVRWSet coll.rwset).elim coll fun kvRwSet => { coll with
      rwset := s.marshalKVRWSet { kvRwSet with
        writes := kvRwSet.writes.filter fun w => unpurged st.purgeMarkers ns coll.collectionName keyHt (s.sha256 w.key) } }
  else coll

def CommitSupport.retrieved (blkNum txNum : UInt64) (ns : NsPvtReadWriteSet) : NsPvtReadWriteSet :=
  let kept := ns.collectionPvtRwset.filter fun coll => !s.isExpired st ns.nameSpace coll.collectionName blkNum
  { ns with
    collectionPvtRwset := kept.map (s.removePurgedDataFromCollPvtRWset st ⟨blkNum, txNum⟩ ns.nameSpace) }

/-- The private data of a block without what has expired or was purged since. -/
def CommitSupport.getPvtDataByBlockNum (blkNum : UInt64) (txNum : UInt64) : Option TxPvtData :=
  (st.data blkNum.toNat txNum).map fun txPvtdata =>
    ⟨txPvtdata.writeSet.map fun writeSet => ⟨writeSet.nsPvtRwset.map (s.retrieved st blkNum txNum)⟩⟩

end

structure HistoryKey where
  ns : Bytes
  key : Bytes
  blockNo : UInt64
  tranNo : UInt64
  deriving DecidableEq

structure HistoryDB where
  entries : Finset HistoryKey := ∅
  savepoint : Option Nat := none

section

variable (codec : Codec)

def txHistory (blockNo : UInt64) (tranNo : Nat) (envBytes : Bytes) : Outcome Unit (List HistoryKey) := do
  let env ← .orErr () (getEnvelopeFromBlock codec envBytes)
  let payload ← .orErr () (unmarshalPayload codec env.payload)
  let header ← .deref payload.header
  let chdr ← .orErr () (unmarshalChannelHeader codec header.channelHeader)
  if chdr.type = .endorserTransaction then
    let respPayload ← getActionFromEnvelopeMsg codec env
    let txRWSet ← .orErr () (codec.txRwSet.unmarshal respPayload.results)
    return txRWSet.nsRwSets.flatMap fun ns =>
      ns.kvRwSet.writes.map fun w => ⟨ns.nameSpace, w.key, blockNo, UInt64.ofNat tranNo⟩
  else return []

/-- Invalid transactions are skipped before they are looked at. -/
def flaggedHistory (blockNo : UInt64) (tranNo : Nat) (flag : TxValidationCode) (envBytes : Bytes) :
    Outcome Unit (List HistoryKey) :=
  if flag = .valid then txHistory codec blockNo tranNo envBytes else .ok []

def blockHistory (blockNo : UInt64) : Nat → List Bytes → List TxValidationCode → Outcome Unit (List HistoryKey)
  | _, [], _ => .ok []
  | tranNo, envBytes :: data, flag :: flags => do
      let keys ← flaggedHistory codec blockNo tranNo flag envBytes
      let rest ← blockHistory blockNo (tranNo + 1) data flags
      return keys ++ rest
  | _, _ :: _, [] => .panic

def HistoryDB.commit (d : HistoryDB) (blk : FlaggedBlock) : Outcome Unit HistoryDB := do
  let keys ← blockHistory codec blk.number 0 blk.block.data blk.flags
  return { entries := d.entries ∪ keys.toFinset, savepoint := some blk.number.toNat }

end

structure StateDatabase where
  txmgr : TxMgr
  savepoint : Option Nat := none

/-- The stores of a channel; `historyDB` is absent when the history is not enabled. -/
structure KvLedger where
  blockStore : List FlaggedBlock := []
  pvtdataStore : PvtdataStore := {}
  stateDB : StateDatabase
  historyDB : Option HistoryDB := none
  commitHash : Bytes := []

def KvLedger.height (l : KvLedger) : Nat :=
  l.blockStore.length

def KvLedger.withState (l : KvLedger) (txmgr : TxMgr) : KvLedger :=
  { l with stateDB := { l.stateDB with txmgr } }

def KvLedger.restart (l : KvLedger) : KvLedger :=
  l.withState { l.stateDB.txmgr with workingset := none }

inductive CommitStage where
  | pvtdataStored
  | blockStored
  | stateCommitted
  | committed
  deriving DecidableEq

section

variable (s : CommitSupport)

def KvLedger.addBlockCommitHash (l : KvLedger) (blk : FlaggedBlock) (u : PublicAndHashUpdates) : Bytes :=
  if blk.number = 1 ∨ l.commitHash ≠ [] then
    s.sha256 (s.filterBytes blk.flags ++ s.updateBatchBytes u ++ l.commitHash)
  else l.commitHash

/-- A private data store that is ahead of the block store already has the data of the block. -/
def KvLedger.storePvtdata (l : KvLedger) (blockNum : UInt64) (pvtdata : UInt64 → Option TxPvtData)
    (purges : PurgeTracker) : Outcome Unit KvLedger :=
  if l.height < l.pvtdataStore.height then .ok l
  else do
    let pvtdataStore ← l.pvtdataStore.commit blockNum pvtdata purges
    return { l with pvtdataStore }

/-- The block store refuses a block that is not the next one. -/
def KvLedger.addBlock (l : KvLedger) (blk : FlaggedBlock) (commitHash : Bytes) : Outcome Unit KvLedger := do
  Outcome.require (blk.number.toNat = l.height) ()
  return { l with blockStore := l.blockStore ++ [blk], commitHash }

def KvLedger.stateCommitted (l : KvLedger) (blk : FlaggedBlock) (txmgr : TxMgr) : KvLedger :=
  { l with stateDB := { txmgr, savepoint := some blk.number.toNat } }

/-- The lite path leaves the history alone. -/
def KvLedger.commitHistory (l : KvLedger) (path : CommitPath) (blk : FlaggedBlock) : Outcome Unit KvLedger :=
  match path, l.historyDB with
  | .vanilla, some d => do
      let d ← d.commit s.codec blk
      return { l with historyDB := some d }
  | _, _ => .ok l

/-- `commit` and `commitLtx`, cut off after a stage. The keys behind purged hashes are looked up before the purge markers
are stored; an error of the state or the history database is turned into a panic. -/
def KvLedger.commitUpTo (stage : CommitStage) (path : CommitPath) (l : KvLedger) (blk : FlaggedBlock)
    (pvtdata : UInt64 → Option TxPvtData) : Outcome Unit KvLedger := do
  let (flags, u, purges, pvtUpdates) ← prepare s path true l.stateDB.txmgr.store blk pvtdata
  let blk := { blk with flags }
  let commitHash := l.addBlockCommitHash s blk u
  let pvtUpdates := purgeAppInitiatedPvtKeys (s.rawKeys l.pvtdataStore) purges pvtUpdates
  let l ← l.storePvtdata blk.number pvtdata purges
  if stage = .pvtdataStored then return l
  let l ← l.addBlock blk commitHash
  if stage = .blockStored then return l
  let txmgr ← (l.stateDB.txmgr.commit s.policy s.sha256 blk.number u pvtUpdates).orPanic
  let l := l.stateCommitted blk txmgr
  if stage = .stateCommitted then return l
  (l.commitHistory s path blk).orPanic

def KvLedger.commit (path : CommitPath) (l : KvLedger) (blk : FlaggedBlock) (pvtdata : UInt64 → Option TxPvtData) :
    Outcome Unit KvLedger :=
  l.commitUpTo s .committed path blk pvtdata

/-- `IsLiteBlock` looks at the first envelope only, and there must be one. -/
def isLiteBlock (codec : Codec) (data : List Bytes) : Outcome Unit Bool :=
  match data with
  | [] => .panic
  | marshaledEnvelope :: _ =>
    match getEnvelopeFromBlock codec marshaledEnvelope with
    | none => .ok false
    | some envelope => .ok envelope.leanEnv.isSome

/-- The choice of `StoreBlock` for a block whose private data is not in the ledger yet. -/
def storeBlockPath (codec : Codec) (leanFormatEnabled : Bool) (data : List Bytes) : CommitPath :=
  if leanFormatEnabled ∧ !isConfigBlock codec data then .lite else .vanilla

/-- The choice of `StoreBlock` for a block whose private data is in the ledger already. -/
def replayPath : CommitPath := .vanilla

/-- `StoreBlock`, for a block the validator has flagged: with the private data store ahead of the block
store, the block is committed with the private data found there. -/
def KvLedger.storeBlock (leanFormatEnabled : Bool) (retrievePvtdata : CommitPath → Outcome Unit (UInt64 → Option TxPvtData))
    (l : KvLedger) (blk : FlaggedBlock) : Outcome Unit KvLedger :=
  if blk.number.toNat < l.pvtdataStore.height then
    l.commit s replayPath blk (s.getPvtDataByBlockNum l.pvtdataStore blk.number)
  else do
    let path := storeBlockPath s.codec leanFormatEnabled blk.block.data
    let pvtdata ← retrievePvtdata path
    l.commit s path blk pvtdata

inductive Recoverable where
  | state
  | history
  deriving DecidableEq

/-- The choice of `recommitLostBlocks`. -/
def recommitPath (codec : Codec) (data : List Bytes) : Outcome Unit CommitPath :=
  if isConfigBlock codec data then .ok .vanilla
  else do
    if ← isLiteBlock codec data then return .lite else return .vanilla

def KvLedger.commitLost (path : CommitPath) (blk : FlaggedBlock) (l : KvLedger) : Recoverable → Outcome Unit KvLedger
  | .state => do
      let (b, _) ← blk.preprocess s path
      let txmgr ← s.commitLost l.stateDB.txmgr (s.getPvtDataByBlockNum l.pvtdataStore blk.number) b
      return l.stateCommitted blk txmgr
  | .history => l.commitHistory s path blk

def KvLedger.recommit (l : KvLedger) (lost : FlaggedBlock × Recoverable) : Outcome Unit KvLedger := do
  let path ← recommitPath s.codec lost.1.block.data
  l.commitLost s path lost.1 lost.2

def KvLedger.lostBlocks (l : KvLedger) (firstBlockNum limit : Nat) (rs : List Recoverable) :
    List (FlaggedBlock × Recoverable) :=
  ((l.blockStore.take limit).drop firstBlockNum).flatMap fun blk => rs.map (blk, ·)

def KvLedger.recommitLostBlocks (l : KvLedger) (lost : List (FlaggedBlock × Recoverable)) : Outcome Unit KvLedger :=
  lost.foldlM (KvLedger.recommit s) l

def shouldRecover (savepoint : Option Nat) (lastAvailableBlock : Nat) : Bool × Nat :=
  match savepoint with
  | none => (true, 0)
  | some n => (n ≠ lastAvailableBlock, n + 1)

def KvLedger.savepoint (l : KvLedger) : Recoverable → Option Nat
  | .state => l.stateDB.savepoint
  | .history => l.historyDB.bind HistoryDB.savepoint

def KvLedger.recoverers (l : KvLedger) (lastBlock : Nat) : List Recoverable → Outcome Unit (List (Recoverable × Nat))
  | [] => .ok []
  | r :: rs => do
      let (recoverFlag, nextRequiredBlock) := shouldRecover (l.savepoint r) lastBlock
      Outcome.require (nextRequiredBlock ≤ lastBlock + 1) ()
      let rest ← l.recoverers lastBlock rs
      return if recoverFlag then (r, nextRequiredBlock) :: rest else rest

def KvLedger.recoverables (l : KvLedger) : List Recoverable :=
  if l.historyDB.isSome then [.state, .history] else [.state]

/-- What is recommitted: of two databases the lagging one is brought level first. -/
def KvLedger.lostTo (l : KvLedger) : List (Recoverable × Nat) → List (FlaggedBlock × Recoverable)
  | [] => []
  | [(r, next)] => l.lostBlocks next l.height [r]
  | (r₀, next₀) :: (r₁, next₁) :: _ =>
    if next₁ < next₀ then l.lostBlocks next₁ next₀ [r₁] ++ l.lostBlocks next₀ l.height [r₁, r₀]
    else l.lostBlocks next₀ next₁ [r₀] ++ l.lostBlocks next₁ l.height [r₀, r₁]

def KvLedger.syncStateAndHistoryDBWithBlockstore (l : KvLedger) : Outcome Unit KvLedger :=
  if l.height = 0 then .ok l
  else do
    let recoverers ← l.recoverers (l.height - 1) l.recoverables
    l.recommitLostBlocks s (l.lostTo recoverers)

end

end Drunix.Peer
