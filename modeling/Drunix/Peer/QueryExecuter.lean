import Drunix.Ledger.TxOps
import Drunix.Peer.Dispatcher

namespace Drunix.Peer

open Lib Proto Ledger Outcome

/-- The contents of the state database behind a query executor; lookups that fail are left out. -/
abbrev StateReader := Bytes → Bytes → Option VersionedValue

abbrev SimpleQueryExecutor := Bytes → Bytes → Outcome Unit (Option Bytes)

section

variable (db : StateReader) (ns : Bytes) (keys : List Bytes)

/-- `GetState` of the query executer of the service. -/
def customGetState : SimpleQueryExecutor := fun ns key => do
  let versionedValue ← .deref (db ns key)
  return versionedValue.value

def customGetStateMultipleKeys : Outcome Unit (List (Option Bytes)) :=
  (keys.map (db ns)).mapM fun versionedValue => do
    let versionedValue ← .deref versionedValue
    return versionedValue.value

/-- `GetState` of a query executor of the ledger. -/
def ledgerGetState : SimpleQueryExecutor := fun ns key => .ok ((db ns key).bind VersionedValue.value)

def ledgerGetStateMultipleKeys : Outcome Unit (List (Option Bytes)) :=
  .ok ((keys.map (db ns)).map fun versionedValue => versionedValue.bind VersionedValue.value)

end

/-- The lookups of the two lifecycles that come after the first one: for the lifecycle itself, for a chaincode whose
metadata was found, and for one whose legacy data was found. -/
structure Lifecycle where
  endorsementPolicy : Bytes → Outcome ValidationInfoError Bytes
  definition : SimpleQueryExecutor → Bytes → Bytes → Outcome ValidationInfoError (Bytes × Bytes)
  legacyInfo : Bytes → Outcome ValidationInfoError (Bytes × Bytes)

namespace Lifecycle

variable (lifecycle : Lifecycle) (getState : SimpleQueryExecutor)

def newInfo (channelID ccid : Bytes) : Outcome ValidationInfoError (Bytes × Bytes) :=
  if ccid = ascii "_lifecycle" then do
    let policy ← lifecycle.endorsementPolicy channelID
    return (ascii "vscc", policy)
  else do
    let metadataBin ← (getState (ascii "_lifecycle") (ascii "namespaces/metadata/" ++ ccid)).mapErr fun _ => .unexpected
    metadataBin.elim (.ok ([], [])) (lifecycle.definition getState ccid)

def validationInfo : LifecycleResources := fun channelID ccid => do
  let (plugin, args) ← lifecycle.newInfo getState channelID ccid
  if plugin ≠ [] ∨ args ≠ [] then return (plugin, args)
  else do
    let chaincodeDataBytes ← (getState (ascii "lscc") ccid).mapErr fun _ => .unexpected
    chaincodeDataBytes.elim (.err .validation) lifecycle.legacyInfo

end Lifecycle

structure StateReader.Undefined (db : StateReader) (ccid : Bytes) : Prop where
  ne_lifecycle : ccid ≠ ascii "_lifecycle"
  metadata : db (ascii "_lifecycle") (ascii "namespaces/metadata/" ++ ccid) = none
  legacy : db (ascii "lscc") ccid = none

theorem customGetState_eq_iff {db : StateReader} {ns key : Bytes} :
    customGetState db ns key = ledgerGetState db ns key ↔ db ns key ≠ none := by
  rw [customGetState, ledgerGetState]
  cases db ns key <;> simp [deref]

/-- The executers agree on the keys just when none is absent. A chaincode that is not defined makes the transaction invalid
with the ledger's executor, and the service panics. -/
theorem query_executers_agree_iff (db : StateReader) (ns : Bytes) (keys : List Bytes) :
    ((∀ key ∈ keys, customGetState db ns key = ledgerGetState db ns key) ∧
        customGetStateMultipleKeys db ns keys = ledgerGetStateMultipleKeys db ns keys ↔ ∀ key ∈ keys, db ns key ≠ none) ∧
    ∀ (lifecycle : Lifecycle) (channelID ccid : Bytes), db.Undefined ccid →
      getCDataForCC (lifecycle.validationInfo (ledgerGetState db)) channelID ccid = .err (.invalid .invalidChaincode) ∧
        getCDataForCC (lifecycle.validationInfo (customGetState db)) channelID ccid = .panic := by
  simp only [customGetState_eq_iff]
  refine ⟨⟨fun h => h.1, fun h => ⟨h, ?_⟩⟩, ?_⟩
  · rw [ledgerGetStateMultipleKeys, List.map_map]
    exact mapM_map_eq_ok fun key hk => customGetState_eq_iff.mpr (h key hk)
  · intro lifecycle channelID ccid h
    simp [getCDataForCC, Lifecycle.validationInfo, Lifecycle.newInfo, h.ne_lifecycle, ledgerGetState, customGetState,
      h.metadata, h.legacy, deref, mapErr]

theorem absent_key_panics : customGetState (fun _ _ => none) (ascii "cc") (ascii "key") = .panic ∧
    ledgerGetState (fun _ _ => none) (ascii "cc") (ascii "key") = .ok none := by
  decide

end Drunix.Peer
