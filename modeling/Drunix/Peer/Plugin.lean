import Drunix.Peer.KeyLevel

namespace Drunix.Peer

open Lib Proto

abbrev WriteCheck :=
  Bytes → List SignedData → Bytes → Bytes → Bytes → PolicyChecker → Outcome TxValidationError PolicyChecker

def baseCheck (policies : Policies) (vpmgr : VpManager) (txNum : UInt64) : WriteCheck :=
  fun ccEP sd cc coll key => checkSBAndCCEP policies ccEP sd vpmgr txNum cc coll key

def adapterCheck (policies : Policies) : WriteCheck :=
  fun ccEP sd cc coll _ => checkSBAndCCEPAdapter policies ccEP sd cc coll

structure ValidationArtifacts where
  rwset : Bytes
  prp : Bytes
  endorsements : List Vanilla.Endorsement
  deriving DecidableEq

structure ValidationArtifactsLtx where
  rwset : Option TxReadWriteSet
  prp : ProposalResponsePayload
  endorsements : List Endorsement
  deriving DecidableEq

section

variable (codec : Codec)

def endorsedAction (env : Envelope) : Outcome Unit Vanilla.ChaincodeEndorsedAction := do
  let payl ← .orErr () (unmarshalPayload codec env.payload)
  let header ← .deref payl.header
  let chdr ← .orErr () (unmarshalChannelHeader codec header.channelHeader)
  Outcome.require (chdr.type = .endorserTransaction) ()
  let tx ← .orErr () (codec.transaction.unmarshal (payl.data.getD []))
  let first ← .deref tx.actions.head?
  let cap ← .orErr () (codec.chaincodeActionPayload.unmarshal first.payload)
  .deref cap.action

def extractValidationArtifacts (env : Envelope) : Outcome Unit ValidationArtifacts := do
  let action ← endorsedAction codec env
  let pRespPayload ← .orErr () (codec.vanillaResponsePayload.unmarshal action.proposalResponsePayload)
  Outcome.require (pRespPayload.extension ≠ []) ()
  let respPayload ← .orErr () (codec.vanillaChaincodeAction.unmarshal pRespPayload.extension)
  return {
    rwset := respPayload.results
    prp := action.proposalResponsePayload
    endorsements := action.endorsements }

/-- The payload an endorser of a lite transaction signs: the events are left out of it. -/
def liteResponsePayload (leanEnv : LeanEnvelope) (envMeta : EnvMeta) : ProposalResponsePayload where
  proposalHash := envMeta.proposalHash
  extension := { results := leanEnv.results, events := some {}, chaincodeId := envMeta.chaincodeID }

def extractValidationArtifactsLtx (env : Envelope) : Outcome Unit ValidationArtifactsLtx := do
  let leanEnv ← .deref env.leanEnv
  let envMeta ← .deref leanEnv.envMeta
  if env.type = .endorserTransaction then
    return { rwset := leanEnv.results, prp := liteResponsePayload leanEnv envMeta, endorsements := envMeta.endorsements }
  else do
    let action ← endorsedAction codec env
    match getChaincodeEndorsedAction codec action.endorsements action.proposalResponsePayload with
    | .ok ccAction =>
      return { rwset := leanEnv.results, prp := ccAction.proposalResponsePayload, endorsements := envMeta.endorsements }
    | .err _ => .err ()
    | .panic => .panic

def signedData (prp : Bytes) (endorsement : Vanilla.Endorsement) : SignedData where
  data := prp ++ endorsement.endorser
  identity := endorsement.endorser
  signature := endorsement.signature

def endorsementAsSignedDataForLightEnv (prpBytes : Bytes) (endorsement : Endorsement) :
    Outcome TxValidationError SignedData := do
  let endorser ← .orErr .endorsementPolicy endorsement.endorser
  let inEndBytes := codec.serializedIdentity.marshal endorser
  return { data := prpBytes ++ inEndBytes, identity := inEndBytes, signature := endorsement.signature }

variable (policies : Policies) (check : WriteCheck) (cc ccEP : Bytes)

def keyLevelValidate (va : ValidationArtifacts) : Outcome TxValidationError Unit := do
  let sd := va.endorsements.map (signedData va.prp)
  let rwset ← .orErr .endorsementPolicy (codec.txRwSet.unmarshal va.rwset)
  evaluate policies ccEP sd (check ccEP sd cc) (writesTo rwset.nsRwSets cc)

def keyLevelValidateLtx (va : ValidationArtifactsLtx) : Outcome TxValidationError Unit := do
  let sd ← va.endorsements.mapM (endorsementAsSignedDataForLightEnv codec (codec.responsePayload.marshal va.prp))
  let rwset ← .deref va.rwset
  evaluate policies ccEP sd (check ccEP sd cc) (writesToLtx rwset.nsRwset cc)

def orPolicyErr {α : Type} (va : Outcome Unit α) : Outcome TxValidationError α :=
  va.mapErr fun _ => .endorsementPolicy

def pluginValidate (env : Envelope) : Outcome TxValidationError Unit := do
  let va ← orPolicyErr (extractValidationArtifacts codec env)
  keyLevelValidate codec policies check cc ccEP va

def pluginValidateLtx (env : Envelope) : Outcome TxValidationError Unit := do
  let va ← orPolicyErr (extractValidationArtifactsLtx codec env)
  keyLevelValidateLtx codec policies check cc ccEP va

end

end Drunix.Peer
