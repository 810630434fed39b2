import Drunix.Gossip.PvtdataProvider

namespace Drunix.Gossip

open Lib Proto Outcome

inductive PurgeRequest where
  | kvByTxids (txids : List Bytes)
  | kvByHeight (height : UInt64)
  | byTxids (txids : List Bytes)
  | belowHeight (height : UInt64)
  deriving DecidableEq

/-- The fields that a purge reads. Of the retrieval info it needs the transaction ids; the info is nil unless it was set. -/
structure RetrievedPvtdata where
  pvtdata : AMap RwSetKey Bytes
  txns : Option (List Bytes) := none
  kvStore : Bool
  blockNum : UInt64
  transientBlockRetention : UInt64

structure RetrievedLtxPvtdata extends RetrievedPvtdata where
  ltxTxns : Option (List Bytes)

def TransientStore.hasKVStore : TransientStore → Bool
  | .levelDB _ => false
  | .kvStore _ => true

/-- If the block has private data, its transactions are purged by the ids of a retrieval info. -/
def RetrievedPvtdata.purgeByTxids (r : RetrievedPvtdata) (txns : Option (List Bytes))
    (request : List Bytes → PurgeRequest) : Outcome Unit (List PurgeRequest) :=
  if r.pvtdata.entries = [] then .ok []
  else do
    let txns ← .deref txns
    return [request txns]

def RetrievedPvtdata.purgeKVStore (r : RetrievedPvtdata) : Outcome Unit (List PurgeRequest) := do
  let requests ← r.purgeByTxids r.txns .kvByTxids
  return requests ++
    if r.transientBlockRetention < r.blockNum then [.kvByHeight (r.blockNum - r.transientBlockRetention)] else []

/-- The key-value store is purged by the method of the embedded record; a remainder by zero panics. -/
def RetrievedLtxPvtdata.purge (r : RetrievedLtxPvtdata) : Outcome Unit (List PurgeRequest) := do
  let kvRequests ← (if r.kvStore then r.purgeKVStore else .ok [] : Outcome Unit _)
  let requests ← r.purgeByTxids r.ltxTxns .byTxids
  if r.transientBlockRetention = 0 then .panic
  else
    return kvRequests ++ requests ++
      if r.blockNum % r.transientBlockRetention = 0 ∧ r.transientBlockRetention < r.blockNum then
        [.belowHeight (r.blockNum - r.transientBlockRetention)]
      else []

def RetrievedLtxPvtdata.PurgesBlock (r : RetrievedLtxPvtdata) (txns : List Bytes) : Prop :=
  ∃ requests, r.purge = .ok requests ∧ (r.pvtdata.entries ≠ [] →
    (∀ txids, .byTxids txids ∈ requests ↔ txids = txns) ∧
      (r.kvStore = true → ∀ txids, .kvByTxids txids ∈ requests ↔ txids = txns))

section

variable {Config : Type} (sha256 : Bytes → Bytes) (newSimpleCollection : Config → Option Policy) (mspID : Bytes)
  (storePvtdataOfInvalidTx skipPullingInvalidTransactions : Bool) (transientStore : TransientStore)
  (blockNum transientBlockRetention : UInt64)

def retrieveLtxPvtdata (pvtdataToRetrieve : List (TxPvtdataInfo Config)) (env : Environment) :
    Outcome Unit RetrievedLtxPvtdata := do
  let r ← computeEligibility newSimpleCollection mspID storePvtdataOfInvalidTx pvtdataToRetrieve
  let r :=
    if r.remainingEligibleMissingKeys.entries = [] then r
    else pullRounds sha256 skipPullingInvalidTransactions env.replies (populateFromStore sha256 transientStore env r)
  return ⟨⟨r.pvtdata, none, transientStore.hasKVStore, blockNum, transientBlockRetention⟩,
    some (pvtdataToRetrieve.map TxPvtdataInfo.txID)⟩

theorem ltx_purge_iff (infos : List (TxPvtdataInfo Config)) (env : Environment) (r : RetrievedLtxPvtdata)
    (h : retrieveLtxPvtdata sha256 newSimpleCollection mspID storePvtdataOfInvalidTx skipPullingInvalidTransactions
      transientStore blockNum transientBlockRetention infos env = .ok r) :
    r.PurgesBlock (infos.map TxPvtdataInfo.txID) ↔
      transientBlockRetention ≠ 0 ∧ (transientStore.hasKVStore = true → r.pvtdata.entries = []) := by
  obtain ⟨r₀, _, h⟩ := bind_eq_ok.mp h
  cases h
  dsimp only [RetrievedLtxPvtdata.PurgesBlock, RetrievedLtxPvtdata.purge, RetrievedPvtdata.purgeKVStore,
    RetrievedPvtdata.purgeByTxids]
  generalize Retrieval.pvtdata _ = pvtdata
  by_cases hrt : transientBlockRetention = 0
  · simp [hrt, bind_eq_ok]
  · by_cases he : pvtdata.entries = []
    · cases transientStore.hasKVStore <;> simp [hrt, he]
    · cases transientStore.hasKVStore <;> simp [hrt, he, deref]

end

def purgedInfos : List (TxPvtdataInfo Unit) := [⟨ascii "tx", false, 0, [⟨ascii "cc", ascii "c", ascii "rws", ()⟩]⟩]

def retrievedFrom (transientStore : TransientStore) : Outcome Unit RetrievedLtxPvtdata :=
  retrieveLtxPvtdata id (fun _ => some ⟨[ascii "org"], false⟩) (ascii "org") false false transientStore 7 10 purgedInfos
    ⟨[⟨ascii "tx", 0, ascii "cc", ascii "c"⟩], fun _ => [⟨ascii "cc", ascii "c", ascii "rws"⟩], []⟩

def levelStore : TransientStore := .levelDB fun _ => some [.pvtRwset ⟨[⟨ascii "cc", [⟨ascii "c", ascii "rws"⟩]⟩]⟩]

theorem ltx_purge_levelDB : ∃ r, retrievedFrom levelStore = .ok r ∧ r.pvtdata.entries ≠ [] ∧
    r.PurgesBlock (purgedInfos.map TxPvtdataInfo.txID) := by
  obtain ⟨r, hr, hf⟩ : ∃ r, retrievedFrom levelStore = .ok r ∧ r.pvtdata.entries ≠ [] := ⟨_, rfl, by decide⟩
  exact ⟨r, hr, hf, (ltx_purge_iff _ _ _ _ _ _ _ _ _ _ _ hr).mpr ⟨by decide, fun h => by cases h⟩⟩

theorem ltx_purge_kvStore_panics : ∃ r, retrievedFrom (.kvStore (some fun _ =>
      [⟨ascii "cc", ascii "c", ascii "rws"⟩])) = .ok r ∧ r.purge = .panic :=
  ⟨_, rfl, by decide⟩

end Drunix.Gossip
