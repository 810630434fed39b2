import Drunix.Proto.BlockUtils

namespace Drunix.Proto

open Lib

inductive LiteError where
  | malformedSignatureHeader
  | malformedChannelHeader
  | malformedTransaction
  | malformedActionPayload
  | malformedResponsePayload
  | malformedChaincodeAction
  | malformedResults
  deriving DecidableEq

/-- Range queries and metadata writes are not carried over. -/
def getKVRWSet (rwset : KVRWSet) : KVRWSet where
  reads := rwset.reads
  writes := rwset.writes

/-- Metadata writes and purge markers are not carried over. -/
def getHRWSet (hrwset : Vanilla.HashedRWSet) : HashedRWSet where
  hashedReads := hrwset.hashedReads
  hashedWrites := hrwset.hashedWrites.map Vanilla.KVWriteHash.toKVWriteHash

def getCollHRWSet (hrwset : Vanilla.CollHashedRwSet) : CollectionHashedReadWriteSet where
  collectionName := hrwset.collectionName
  hashedRwset := some (getHRWSet hrwset.hashedRwSet)
  pvtRwsetHash := hrwset.pvtRwSetHash

def getNSForLT (ns : Vanilla.NsRwSet) : NsReadWriteSet where
  nameSpace := ns.nameSpace
  rwset := some (getKVRWSet ns.kvRwSet)
  collectionHashedRwset := ns.collHashedRwSets.map getCollHRWSet

def getTxRWSetForLightTxn (txRWSet : Vanilla.TxRwSet) : TxReadWriteSet where
  nsRwset := txRWSet.nsRwSets.map getNSForLT

section

variable (codec : Codec)

def getChaincodeActionForLightTxn (ca : Vanilla.ChaincodeAction) : Outcome LiteError ChaincodeAction := do
  let txRWSet ← .orErr .malformedResults (codec.txRwSet.unmarshal ca.results)
  let chaincodeId ← .deref ca.chaincodeId
  return {
    results := some (getTxRWSetForLightTxn txRWSet)
    events := some (codec.chaincodeEvent ca.events)
    chaincodeId := some chaincodeId }

def getProposalResponsePayloadForLightTxn (prp : Vanilla.ProposalResponsePayload) :
    Outcome LiteError ProposalResponsePayload := do
  let peerCcodeAction ← .orErr .malformedChaincodeAction (codec.vanillaChaincodeAction.unmarshal prp.extension)
  let chaincodeAction ← getChaincodeActionForLightTxn codec peerCcodeAction
  return { proposalHash := prp.proposalHash, extension := chaincodeAction }

def getCommonEndorsement (pEnd : Vanilla.Endorsement) : Endorsement where
  endorser := some (codec.endorserIdentity pEnd.endorser)
  signature := pEnd.signature

def getChaincodeEndorsedAction (endorsements : List Vanilla.Endorsement) (prpBytes : Bytes) :
    Outcome LiteError ChaincodeEndorsedAction := do
  let pRespPayload ← .orErr .malformedResponsePayload (codec.vanillaResponsePayload.unmarshal prpBytes)
  let lPrp ← getProposalResponsePayloadForLightTxn codec pRespPayload
  return { proposalResponsePayload := lPrp, endorsements := endorsements.map (getCommonEndorsement codec) }

def unmarshalLightTransaction (txBytes : Bytes) : Outcome LiteError ChaincodeEndorsedAction := do
  let tx ← .orErr .malformedTransaction (codec.transaction.unmarshal txBytes)
  let first ← .deref tx.actions.head?
  let tx1 ← .orErr .malformedActionPayload (codec.chaincodeActionPayload.unmarshal first.payload)
  let action ← .deref tx1.action
  getChaincodeEndorsedAction codec action.endorsements action.proposalResponsePayload

def getLiteHeader (hdr : Header) : Outcome LiteError LightHeader := do
  let shdr ← .orErr .malformedSignatureHeader (codec.signatureHeader.unmarshal hdr.signatureHeader)
  let chdr ← .orErr .malformedChannelHeader (unmarshalChannelHeader codec hdr.channelHeader)
  return { channelHeader := chdr, signatureHeader := shdr }

/-- With an undecodable payload the header stays nil: the conversion fails, and so do its callers,
be it by the error of the transaction or by the nil header. -/
def getLightEnvFromCommonEnv (txnEnv : Envelope) : Outcome LiteError LightEnvelope := do
  let payload ← .deref (unmarshalPayload codec txnEnv.payload)
  let hdr ← .deref payload.header
  let txnHdr ← getLiteHeader codec hdr
  let txn ← unmarshalLightTransaction codec (payload.data.getD [])
  return { header := txnHdr, data := txn }

def getLeanEnvFromCommonEnv (txnEnv : Envelope) : Outcome LiteError LeanEnvelope := do
  let lightEnv ← getLightEnvFromCommonEnv codec txnEnv
  let chdr := lightEnv.header.channelHeader
  let prp := lightEnv.data.proposalResponsePayload
  return {
    channelId := chdr.channelId
    txId := chdr.txId
    shardId := chdr.shardId
    orgsInvolved := chdr.orgsInvolved
    nonce := lightEnv.header.signatureHeader.nonce
    tlsCertHash := chdr.tlsCertHash
    results := prp.extension.results
    envMeta := some {
      signatureHeader := some lightEnv.header.signatureHeader
      chaincodeID := prp.extension.chaincodeId
      endorsements := lightEnv.data.endorsements
      proposalHash := prp.proposalHash
      events := prp.extension.events } }

end

end Drunix.Proto
