import Drunix.Ledger.Validation.PvtBatch
import Drunix.Transient.Stores

namespace Drunix.Gossip

open Lib Proto

structure HashedCollection where
  ns : Bytes
  coll : Bytes
  pvtRwSetHash : Bytes
  containsWrites : Bool
  deriving DecidableEq

structure BlockTx where
  channelID : Bytes
  txID : Bytes
  collections : List HashedCollection
  deriving DecidableEq

def BlockTx.collHashes (tx : BlockTx) : List CollHash :=
  tx.collections.map fun c => ⟨c.ns, c.coll, c.pvtRwSetHash⟩

structure CollectionPvtdataInfo (Config : Type) where
  ns : Bytes
  coll : Bytes
  expectedHash : Bytes
  collectionConfig : Config

structure TxPvtdataInfo (Config : Type) where
  txID : Bytes
  invalid : Bool
  seqInBlock : UInt64
  collectionPvtdataInfo : List (CollectionPvtdataInfo Config)

section

variable {Config : Type} (retrieveCollectionConfig : Bytes → Bytes → Bytes → Option Config)

def collectionInfo (channelID : Bytes) (c : HashedCollection) : Outcome Unit (CollectionPvtdataInfo Config) := do
  let collectionConfig ← .orErr () (retrieveCollectionConfig channelID c.ns c.coll)
  return ⟨c.ns, c.coll, c.pvtRwSetHash, collectionConfig⟩

/-- The loop over the block from the index `seqInBlock` on; an envelope that cannot be decoded is skipped. -/
def pvtdataInfos (seqInBlock : Nat) : List (Option BlockTx × TxValidationCode) → Outcome Unit (List (TxPvtdataInfo Config))
  | [] => .ok []
  | (none, _) :: rest => pvtdataInfos (seqInBlock + 1) rest
  | (some tx, flag) :: rest => do
      let infos ← (tx.collections.filter HashedCollection.containsWrites).mapM
        (collectionInfo retrieveCollectionConfig tx.channelID)
      let rest ← pvtdataInfos (seqInBlock + 1) rest
      return ⟨tx.txID, flag ≠ .valid, UInt64.ofNat seqInBlock, infos⟩ :: rest

/-- `getTxPvtdataInfoFromBlock` and `getLtxPvtdataInfoFromBlock`; the filter is absent when the block has
no metadata for it. -/
def getTxPvtdataInfoFromBlock (txs : List (Option BlockTx)) (txsFilter : Option (List TxValidationCode)) :
    Outcome Unit (List (TxPvtdataInfo Config)) := do
  let txsFilter ← .orErr () txsFilter
  .require (txsFilter.length = txs.length) ()
  pvtdataInfos retrieveCollectionConfig 0 (txs.zip txsFilter)

end

structure RwSetKey where
  txID : Bytes
  seqInBlock : UInt64
  ns : Bytes
  coll : Bytes
  deriving DecidableEq

/-- The private data found so far with the bookkeeping of `pvtdataRetrievalInfo`; the flag of a missing
key is set for an invalid transaction. -/
structure Retrieval where
  pvtdata : AMap RwSetKey Bytes := ∅
  expectedHashes : AMap RwSetKey Bytes := ∅
  remainingEligibleMissingKeys : AMap RwSetKey Bool := ∅
  resolvedAsToReconcileLater : AMap RwSetKey Bool := ∅
  ineligibleMissingKeys : AMap RwSetKey Bool := ∅

def Retrieval.expectedHash (r : Retrieval) (key : RwSetKey) : Bytes :=
  (r.expectedHashes.lookup key).getD []

def Retrieval.missing (r : Retrieval) (key : RwSetKey) : Bool :=
  (r.remainingEligibleMissingKeys.lookup key).isSome

structure Policy where
  memberOrgs : List Bytes
  accessFilter : Bool

section

variable {Config : Type} (newSimpleCollection : Config → Option Policy) (mspID : Bytes) (storePvtdataOfInvalidTx : Bool)

def computeKey (txID : Bytes) (seqInBlock : UInt64) (invalid : Bool) (r : Retrieval)
    (colInfo : CollectionPvtdataInfo Config) : Outcome Unit Retrieval := do
  let policy ← .orErr () (newSimpleCollection colInfo.collectionConfig)
  let key : RwSetKey := ⟨txID, seqInBlock, colInfo.ns, colInfo.coll⟩
  if !policy.memberOrgs.contains mspID && !policy.accessFilter then
    return { r with ineligibleMissingKeys := r.ineligibleMissingKeys.insert key false }
  else
    return { r with
      remainingEligibleMissingKeys := r.remainingEligibleMissingKeys.insert key invalid
      expectedHashes := r.expectedHashes.insert key colInfo.expectedHash }

/-- `computeEligibility` and `computeLtxEligibility`. -/
def computeEligibility (pvtdataToRetrieve : List (TxPvtdataInfo Config)) : Outcome Unit Retrieval :=
  pvtdataToRetrieve.foldlM (fun r txPvtdata =>
    if txPvtdata.invalid && !storePvtdataOfInvalidTx then .ok r
    else txPvtdata.collectionPvtdataInfo.foldlM
      (computeKey newSimpleCollection mspID txPvtdata.txID txPvtdata.seqInBlock txPvtdata.invalid) r) {}

end

def Retrieval.take (r : Retrieval) (key : RwSetKey) (rws : Bytes) : Retrieval :=
  { r with
    pvtdata := r.pvtdata.insert key rws
    remainingEligibleMissingKeys := r.remainingEligibleMissingKeys.erase key }

section

variable (sha256 : Bytes → Bytes)

/-- Data of the cache or of a remote peer: with a wrong hash the key is left to the reconciliation. -/
def Retrieval.takeOrReconcile (r : Retrieval) (e : RwSetKey × Bytes) : Retrieval :=
  match r.remainingEligibleMissingKeys.lookup e.1 with
  | none => r
  | some invalid =>
    if r.expectedHash e.1 = sha256 e.2 then r.take e.1 e.2
    else
      { r with
        resolvedAsToReconcileLater := r.resolvedAsToReconcileLater.insert e.1 invalid
        remainingEligibleMissingKeys := r.remainingEligibleMissingKeys.erase e.1 }

def Retrieval.takeOrSkip (r : Retrieval) (e : RwSetKey × Bytes) : Retrieval :=
  if r.missing e.1 && r.expectedHash e.1 = sha256 e.2 then r.take e.1 e.2 else r

def getTxIDBySeqInBlock {Config : Type} (seqInBlock : UInt64) (pvtdataToRetrieve : List (TxPvtdataInfo Config)) : Bytes :=
  ((pvtdataToRetrieve.find? fun info => info.seqInBlock = seqInBlock).map TxPvtdataInfo.txID).getD []

def populateFromCache {Config : Type} (pvtdataToRetrieve : List (TxPvtdataInfo Config))
    (prefetchedPvtdata : List (UInt64 × TxPvtData)) (r : Retrieval) : Outcome Unit Retrieval :=
  prefetchedPvtdata.foldlM (fun r txPvtdata =>
    let txID := getTxIDBySeqInBlock txPvtdata.1 pvtdataToRetrieve
    if txID = [] then .ok r
    else do
      let writeSet ← .deref txPvtdata.2.writeSet
      return (writeSet.collections.map fun c => (⟨txID, txPvtdata.1, c.ns, c.coll⟩, c.rwset)).foldl
        (Retrieval.takeOrReconcile sha256) r) r

inductive ScanResult where
  | failed
  | nothing
  | pvtRwset (writeSet : TxPvtReadWriteSet)

/-- The transient store as the provider sees it: what a call for a transaction gives. -/
inductive TransientStore where
  | levelDB (getTxPvtRWSetByTxid : Bytes → Option (List ScanResult))
  | kvStore (getTxPvtRWSetByTxidV2 : Option (Bytes → List CollData))

/-- The iterator of one key, with a filter for its collection; the flag is false when it fails. -/
def scanKey (k : RwSetKey) : Retrieval → List ScanResult → Retrieval × Bool
  | r, [] => (r, true)
  | r, .failed :: _ => (r, false)
  | r, .nothing :: results => scanKey k r results
  | r, .pvtRwset writeSet :: results =>
    let trimmed : TxPvtReadWriteSet :=
      ⟨writeSet.nsPvtRwset.filterMap (Transient.trimNs fun ns coll => ns = k.ns ∧ coll = k.coll)⟩
    scanKey k ((trimmed.collections.map fun c => (⟨k.txID, k.seqInBlock, c.ns, c.coll⟩, c.rwset)).foldl
      (Retrieval.takeOrSkip sha256) r) results

/-- The keys come in the order in which the loop over the map happens to visit them. -/
def populateFromTransientStore (getTxPvtRWSetByTxid : Bytes → Option (List ScanResult)) :
    List RwSetKey → Retrieval → Retrieval
  | [], r => r
  | k :: order, r =>
    if r.missing k then
      match getTxPvtRWSetByTxid k.txID with
      | none => r
      | some results =>
        match scanKey sha256 k r results with
        | (r, true) => populateFromTransientStore getTxPvtRWSetByTxid order r
        | (r, false) => r
    else populateFromTransientStore getTxPvtRWSetByTxid order r

/-- No hash is compared. -/
def Retrieval.takeVisited (visit : RwSetKey → List CollData) (r : Retrieval) (k : RwSetKey) : Retrieval :=
  match (visit k).find? fun c => c.ns = k.ns ∧ c.coll = k.coll with
  | none => r
  | some c => r.take k c.rwset

/-- The goroutines come across the entries of a transaction in any order; `visit k` has the entry first
that decides `k`. -/
def populateFromKVTransientStore (visit : RwSetKey → List CollData) (r : Retrieval) : Retrieval :=
  r.remainingEligibleMissingKeys.keys.foldl (Retrieval.takeVisited visit) r

structure FetchedData where
  availableElements : List (RwSetKey × List Bytes)
  purgedElements : List RwSetKey

def processFetched (fetchedData : FetchedData) (r : Retrieval) : Retrieval :=
  let r := (fetchedData.availableElements.flatMap fun element => element.2.map fun rws => (element.1, rws)).foldl
    (Retrieval.takeOrReconcile sha256) r
  { r with
    remainingEligibleMissingKeys :=
      fetchedData.purgedElements.foldl (fun m k => m.erase k) r.remainingEligibleMissingKeys }

/-- The reply of the fetcher is absent when it reports an error; the flag asks for another round. -/
def populateFromRemotePeers (skipPullingInvalidTransactions : Bool) (reply : Option FetchedData) (r : Retrieval) :
    Retrieval × Bool :=
  let skipped := (r.remainingEligibleMissingKeys.entries.filter fun e => e.2 && skipPullingInvalidTransactions).length
  if r.remainingEligibleMissingKeys.entries.length = skipped then (r, false)
  else
    match reply with
    | none => (r, true)
    | some fetchedData =>
      let r := processFetched sha256 fetchedData r
      (r, skipped < r.remainingEligibleMissingKeys.entries.length)

def pullRounds (skipPullingInvalidTransactions : Bool) : List (Option FetchedData) → Retrieval → Retrieval
  | [], r => r
  | reply :: replies, r =>
    if r.remainingEligibleMissingKeys.entries = [] then r
    else
      match populateFromRemotePeers sha256 skipPullingInvalidTransactions reply r with
      | (r, true) => pullRounds skipPullingInvalidTransactions replies r
      | (r, false) => r

end

structure BlockPvtdata where
  pvtData : UInt64 → Option TxPvtData
  missingPvtData : List (UInt64 × Bytes × Bytes × Bool)

def namespaces (s : List (RwSetKey × Bytes)) : AMap Bytes (List CollectionPvtReadWriteSet) :=
  s.foldl (fun m e => m.modify e.1.ns fun colls => colls.getD [] ++ [⟨e.1.coll, e.2⟩]) ∅

def toRWSet (s : List (RwSetKey × Bytes)) : TxPvtReadWriteSet :=
  ⟨(namespaces s).entries.map fun e => ⟨e.1, e.2⟩⟩

def bySeqInBlock (pvtdata : AMap RwSetKey Bytes) (seqInBlock : UInt64) : List (RwSetKey × Bytes) :=
  (pvtdata.entries.filter fun e => e.1.seqInBlock = seqInBlock).map fun e => (e.1, e.2)

def prepareBlockPvtdata (r : Retrieval) : BlockPvtdata where
  pvtData seqInBlock :=
    if bySeqInBlock r.pvtdata seqInBlock = [] then none
    else some ⟨some (toRWSet (bySeqInBlock r.pvtdata seqInBlock))⟩
  missingPvtData :=
    (r.resolvedAsToReconcileLater.keys ++ r.remainingEligibleMissingKeys.keys).map
        (fun key => (key.seqInBlock, key.ns, key.coll, true)) ++
      r.ineligibleMissingKeys.keys.map fun key => (key.seqInBlock, key.ns, key.coll, false)

structure Environment where
  order : List RwSetKey
  visit : RwSetKey → List CollData
  replies : List (Option FetchedData)

def Environment.Serves (env : Environment) : TransientStore → Prop
  | .levelDB _ => True
  | .kvStore none => True
  | .kvStore (some content) => ∀ k, (env.visit k).Perm (content k.txID)

section

variable {Config : Type} (sha256 : Bytes → Bytes) (newSimpleCollection : Config → Option Policy) (mspID : Bytes)
  (storePvtdataOfInvalidTx skipPullingInvalidTransactions : Bool) (transientStore : TransientStore)

def populateFromStore (env : Environment) (r : Retrieval) : Retrieval :=
  match transientStore with
  | .levelDB getTxPvtRWSetByTxid => populateFromTransientStore sha256 getTxPvtRWSetByTxid env.order r
  | .kvStore none => r
  | .kvStore (some _) => populateFromKVTransientStore env.visit r

/-- Every stage is left out once nothing is missing. -/
def retrievePvtdata (pvtdataToRetrieve : List (TxPvtdataInfo Config)) (prefetchedPvtdata : List (UInt64 × TxPvtData))
    (env : Environment) : Outcome Unit BlockPvtdata := do
  let r ← computeEligibility newSimpleCollection mspID storePvtdataOfInvalidTx pvtdataToRetrieve
  if r.remainingEligibleMissingKeys.entries = [] then return prepareBlockPvtdata r
  let r ← populateFromCache sha256 pvtdataToRetrieve prefetchedPvtdata r
  if r.remainingEligibleMissingKeys.entries = [] then return prepareBlockPvtdata r
  let r := populateFromStore sha256 transientStore env r
  if r.remainingEligibleMissingKeys.entries = [] then return prepareBlockPvtdata r
  return prepareBlockPvtdata (pullRounds sha256 skipPullingInvalidTransactions env.replies r)

variable (retrieveCollectionConfig : Bytes → Bytes → Bytes → Option Config)

def retrieveBlockPvtdata (txs : List (Option BlockTx)) (txsFilter : Option (List TxValidationCode))
    (prefetchedPvtdata : List (UInt64 × TxPvtData)) (env : Environment) : Outcome Unit BlockPvtdata := do
  let pvtdataToRetrieve ← getTxPvtdataInfoFromBlock retrieveCollectionConfig txs txsFilter
  retrievePvtdata sha256 newSimpleCollection mspID storePvtdataOfInvalidTx skipPullingInvalidTransactions transientStore
    pvtdataToRetrieve prefetchedPvtdata env

/-- The lite path does not look at the prefetched data. -/
def retrieveLtxBlockPvtdata (txs : List (Option BlockTx)) (txsFilter : Option (List TxValidationCode))
    (env : Environment) : Outcome Unit BlockPvtdata :=
  retrieveBlockPvtdata sha256 newSimpleCollection mspID storePvtdataOfInvalidTx skipPullingInvalidTransactions transientStore
    retrieveCollectionConfig txs txsFilter [] env

end

end Drunix.Gossip
