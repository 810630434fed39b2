import Drunix.Peer.MsgValidation
import Drunix.Peer.Plugin

namespace Drunix.Peer

open Lib Proto Outcome

/-- How the validation of a transaction ends when it does not pass: with a code for the transaction, or
with an error that stops the validation of the block. -/
inductive TxFailure where
  | invalid (code : TxValidationCode)
  | halt
  deriving DecidableEq

inductive ValidationInfoError where
  | unexpected
  | validation
  deriving DecidableEq

abbrev LifecycleResources := Bytes → Bytes → Outcome ValidationInfoError (Bytes × Bytes)

def getCDataForCC (lcr : LifecycleResources) (channelID ccid : Bytes) : Outcome TxFailure Bytes :=
  match lcr channelID ccid with
  | .ok (plugin, args) => if plugin = [] ∨ args = [] then .err (.invalid .invalidChaincode) else .ok args
  | .err .unexpected => .err .halt
  | .err .validation => .err (.invalid .invalidChaincode)
  | .panic => .panic

/-- The errors of the loop over the namespaces, with the code that is returned beside each. -/
inductive NsFailure where
  | infoLookupFailure
  | infoInvalid
  | endorsementPolicy
  | executionFailure
  deriving DecidableEq

def NsFailure.code : NsFailure → TxValidationCode
  | infoLookupFailure | infoInvalid => .invalidChaincode
  | endorsementPolicy => .endorsementPolicyFailure
  | executionFailure => .invalidOtherReason

def NsFailure.failure : NsFailure → TxFailure
  | infoLookupFailure | executionFailure => .halt
  | infoInvalid => .invalid .invalidChaincode
  | endorsementPolicy => .invalid .endorsementPolicyFailure

def invokeValidationPlugin (verdict : Outcome TxValidationError Unit) : Outcome NsFailure Unit :=
  verdict.mapErr fun
    | .endorsementPolicy => .endorsementPolicy
    | .executionFailure => .executionFailure

def checkNamespace (lcr : LifecycleResources) (channelId : Bytes)
    (verdict : Bytes → Bytes → Outcome TxValidationError Unit) (ns : Bytes) : Outcome NsFailure Unit := do
  let policy ← (getCDataForCC lcr channelId ns).mapErr fun
    | .halt => .infoLookupFailure
    | .invalid _ => .infoInvalid
  invokeValidationPlugin (verdict ns policy)

def txWritesToNamespace (ns : Vanilla.NsRwSet) : Bool :=
  ns.kvRwSet.writes ≠ [] ||
    ns.collHashedRwSets.any (fun c => c.hashedRwSet.hashedWrites ≠ [] || c.hashedRwSet.metadataWrites ≠ []) ||
    ns.kvRwSet.metadataWrites ≠ []

def txWritesToNamespaceLtx (ns : NsReadWriteSet) : Bool :=
  ns.rwset.any (fun rwset => rwset.writes ≠ []) ||
    ns.collectionHashedRwset.any (fun c => c.hashedRwset.any fun h => h.hashedWrites ≠ [] || h.metadataWrites ≠ []) ||
    ns.rwset.any fun rwset => rwset.metadataWrites ≠ []

/-- The namespaces whose policy has to hold: that of the invoked chaincode, and those written to. -/
def wrNamespaces (ccID : Bytes) (nss : List (Bytes × Bool)) : Outcome TxFailure (List Bytes) :=
  if (nss.map Prod.fst).Nodup then .ok (ccID :: (nss.filter fun ns => ns.2 && ns.1 ≠ ccID).map Prod.fst)
  else .err (.invalid .illegalWriteset)

section

variable (codec : Codec)

def getActionFromEnvelopeMsg (env : Envelope) : Outcome Unit Vanilla.ChaincodeAction := do
  let payl ← .orErr () (unmarshalPayload codec env.payload)
  let tx ← .orErr () (codec.transaction.unmarshal (payl.data.getD []))
  let first ← .orErr () tx.actions.head?
  let ccPayload ← .orErr () (codec.chaincodeActionPayload.unmarshal first.payload)
  let action ← .orErr () ccPayload.action
  require (action.proposalResponsePayload ≠ []) ()
  let pRespPayload ← .orErr () (codec.vanillaResponsePayload.unmarshal action.proposalResponsePayload)
  require (pRespPayload.extension ≠ []) ()
  .orErr () (codec.vanillaChaincodeAction.unmarshal pRespPayload.extension)

def checkCCEvent (respPayload : Vanilla.ChaincodeAction) (ccID : Bytes) : Outcome TxFailure Unit :=
  if respPayload.events = [] then .ok ()
  else do
    let ccEvent ← .orErr (.invalid .invalidOtherReason) (codec.ccEvent.unmarshal respPayload.events)
    require (ccEvent.chaincodeId = ccID) (.invalid .invalidOtherReason)

structure LtxTarget where
  chaincodeId : ChaincodeID
  channelId : Bytes := []
  txRWSet : Option TxReadWriteSet
  deriving DecidableEq

/-- The chaincode and the event of a lite endorser envelope. Without `Meta` they are read from the payload. -/
def ltxChaincode (env : Envelope) (leanEnv : LeanEnvelope) : Outcome TxFailure (ChaincodeID × Option ChaincodeEvent) :=
  match leanEnv.envMeta with
  | some envMeta => do
      let ccID ← .deref envMeta.chaincodeID
      return (ccID, envMeta.events)
  | none => do
      let respPayload ← (getActionFromEnvelopeMsg codec env).mapErr fun _ => .invalid .badResponsePayload
      let ccEvent ← .orErr (.invalid .invalidOtherReason) (codec.ccEvent.unmarshal respPayload.events)
      let ccID ← .deref respPayload.chaincodeId
      return (ccID, some ccEvent)

/-- An event that names no chaincode is let through. -/
def eventMatches (ccEvent : Option ChaincodeEvent) (ccID : Bytes) : Bool :=
  ccEvent.all fun e => e.chaincodeId = [] || e.chaincodeId = ccID

def ltxTarget (env : Envelope) : Outcome TxFailure LtxTarget :=
  if env.type = .endorserTransaction then do
    let leanEnv ← .deref env.leanEnv
    let (ccID, ccEvent) ← ltxChaincode codec env leanEnv
    require (eventMatches ccEvent ccID.name) (.invalid .invalidOtherReason)
    return { chaincodeId := ccID, channelId := leanEnv.channelId, txRWSet := leanEnv.results }
  else do
    let respPayload ← (getActionFromEnvelopeMsg codec env).mapErr fun _ => .invalid .badResponsePayload
    let ccID ← .deref respPayload.chaincodeId
    let rTxRWSet ← .orErr (.invalid .badRwset) (codec.txRwSet.unmarshal respPayload.results)
    let ccEvent ← .orErr (.invalid .invalidOtherReason) (codec.ccEvent.unmarshal respPayload.events)
    require (eventMatches (some ccEvent) ccID.name) (.invalid .invalidOtherReason)
    return { chaincodeId := ccID, txRWSet := some (getTxRWSetForLightTxn rTxRWSet) }

def dispatchNamespaces (payload : Payload) (env : Envelope) : Outcome TxFailure (Bytes × List Bytes) := do
  let header ← .deref payload.header
  let chdr ← .orErr (.invalid .badChannelHeader) (unmarshalChannelHeader codec header.channelHeader)
  let hdrExt ← .orErr (.invalid .badHeaderExtension) (codec.chaincodeHeaderExtension.unmarshal chdr.extension)
  let respPayload ← (getActionFromEnvelopeMsg codec env).mapErr fun _ => .invalid .badResponsePayload
  let txRWSet ← .orErr (.invalid .badRwset) (codec.txRwSet.unmarshal respPayload.results)
  let hdrCC ← .orErr (.invalid .invalidOtherReason) hdrExt
  let respCC ← .orErr (.invalid .invalidOtherReason) respPayload.chaincodeId
  require (hdrCC.name ≠ [] && hdrCC.name = respCC.name && respCC.version ≠ []) (.invalid .invalidChaincode)
  checkCCEvent codec respPayload hdrCC.name
  let nss ← wrNamespaces hdrCC.name (txRWSet.nsRwSets.map fun ns => (ns.nameSpace, txWritesToNamespace ns))
  return (chdr.channelId, nss)

def dispatchNamespacesLtx (env : Envelope) : Outcome TxFailure (Bytes × List Bytes) := do
  let target ← ltxTarget codec env
  require (target.chaincodeId.name ≠ [] && target.chaincodeId.version ≠ []) (.invalid .invalidChaincode)
  let txRWSet ← .deref target.txRWSet
  let nss ← wrNamespaces target.chaincodeId.name
    (txRWSet.nsRwset.map fun ns => (ns.nameSpace, txWritesToNamespaceLtx ns))
  return (target.channelId, nss)

end

/-- The order in which one iteration visits the keys of a Go map. -/
structure MapOrder where
  visit : List Bytes → List Bytes
  perm : ∀ l, (visit l).Perm l

def MapOrder.listed : MapOrder where
  visit := id
  perm := .refl

section

variable (codec : Codec) (lcr : LifecycleResources)

section

variable (order : MapOrder) (plugin : Bytes → Bytes → Envelope → Outcome TxValidationError Unit)

def dispatchIn (payload : Payload) (env : Envelope) : Outcome TxFailure Unit := do
  let (channelId, nss) ← dispatchNamespaces codec payload env
  ((order.visit nss).forM (checkNamespace lcr channelId fun ns policy => plugin ns policy env)).mapErr NsFailure.failure

def dispatchLtxIn (env : Envelope) : Outcome TxFailure Unit := do
  let (channelId, nss) ← dispatchNamespacesLtx codec env
  ((order.visit nss).forM (checkNamespace lcr channelId fun ns policy => plugin ns policy env)).mapErr NsFailure.failure

end

variable (policies : Policies) (check : WriteCheck)

/-- `Dispatch` of the peer and of the service, which differ in the check their plugins make. -/
def dispatch (payload : Payload) (env : Envelope) : Outcome TxFailure Unit :=
  dispatchIn codec lcr .listed (pluginValidate codec policies check) payload env

def dispatchLtx (env : Envelope) : Outcome TxFailure Unit :=
  dispatchLtxIn codec lcr .listed (pluginValidateLtx codec policies check) env

end

end Drunix.Peer
