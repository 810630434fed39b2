import Drunix.Proto.Messages

namespace Drunix.Proto

structure SignatureHeader where
  creator : Bytes := []
  nonce : Bytes := []
  deriving DecidableEq

structure ChannelHeader where
  type : HeaderType := .message
  channelId : Bytes := []
  txId : Bytes := []
  epoch : UInt64 := 0
  extension : Bytes := []
  tlsCertHash : Bytes := []
  shardId : Int := 0
  orgsInvolved : List Bytes := []
  deriving DecidableEq

/-- `common.Header`; `channelHeader` distinguishes an unset field, which the orderer tests for. -/
structure Header where
  channelHeader : Option Bytes := none
  signatureHeader : Bytes := []
  deriving DecidableEq

structure Payload where
  header : Option Header := none
  data : Option Bytes := none
  deriving DecidableEq

structure ChaincodeID where
  path : Bytes := []
  name : Bytes := []
  version : Bytes := []
  deriving DecidableEq

structure ChaincodeEvent where
  chaincodeId : Bytes := []
  txId : Bytes := []
  eventName : Bytes := []
  payload : Bytes := []
  deriving DecidableEq

structure SerializedIdentity where
  mspid : Bytes := []
  idBytes : Bytes := []
  deriving DecidableEq

structure Endorsement where
  endorser : Option SerializedIdentity := none
  signature : Bytes := []
  deriving DecidableEq

structure ChaincodeAction where
  results : Option TxReadWriteSet := none
  events : Option ChaincodeEvent := none
  chaincodeId : Option ChaincodeID := none
  deriving DecidableEq

structure ProposalResponsePayload where
  proposalHash : Bytes := []
  extension : ChaincodeAction := {}
  deriving DecidableEq

structure ChaincodeEndorsedAction where
  proposalResponsePayload : ProposalResponsePayload
  endorsements : List Endorsement
  deriving DecidableEq

structure LightHeader where
  channelHeader : ChannelHeader
  signatureHeader : SignatureHeader
  deriving DecidableEq

structure LightEnvelope where
  header : LightHeader
  data : ChaincodeEndorsedAction
  deriving DecidableEq

structure EnvMeta where
  signatureHeader : Option SignatureHeader := none
  chaincodeID : Option ChaincodeID := none
  endorsements : List Endorsement := []
  proposalHash : Bytes := []
  events : Option ChaincodeEvent := none
  deriving DecidableEq

structure LeanEnvelope where
  channelId : Bytes := []
  txId : Bytes := []
  shardId : Int := 0
  orgsInvolved : List Bytes := []
  nonce : Bytes := []
  tlsCertHash : Bytes := []
  results : Option TxReadWriteSet := none
  envMeta : Option EnvMeta := none
  deriving DecidableEq

/-- `common.Envelope`: the vanilla half is `payload`, the lite half is `leanEnv`. -/
structure Envelope where
  payload : Option Bytes := none
  signature : Bytes := []
  type : HeaderType := .message
  leanEnv : Option LeanEnvelope := none
  deriving DecidableEq

structure BlockHeader where
  number : UInt64
  previousHash : Bytes := []
  dataHash : Bytes := []
  deriving DecidableEq

structure Block where
  header : BlockHeader
  data : List Bytes := []
  metadata : List Bytes := []
  blockType : HeaderType := .message
  deriving DecidableEq

inductive BlockMetadataIndex where
  | signatures
  | lastConfig
  | transactionsFilter
  | orderer
  | commitHash
  | merkleRoot
  | orgBlockProof
  | orgBlockHashes
  | sparseTxnFilter
  deriving DecidableEq

def BlockMetadataIndex.index : BlockMetadataIndex → Nat
  | signatures => 0
  | lastConfig => 1
  | transactionsFilter => 2
  | orderer => 3
  | commitHash => 4
  | merkleRoot => 5
  | orgBlockProof => 6
  | orgBlockHashes => 7
  | sparseTxnFilter => 8

structure MetadataSignature where
  signatureHeader : Bytes := []
  signature : Bytes := []
  deriving DecidableEq

structure Metadata where
  value : Bytes := []
  signatures : List MetadataSignature := []
  deriving DecidableEq

structure OrdererBlockMetadata where
  lastConfig : Option UInt64
  consenterMetadata : Bytes
  deriving DecidableEq

structure SignedData where
  data : Bytes
  identity : Bytes
  signature : Bytes
  deriving DecidableEq

end Drunix.Proto
