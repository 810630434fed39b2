import Drunix.Orderer.BlockCutter
import Drunix.Proto.BlockUtils

namespace Drunix.Orderer

open Lib Proto

inductive MsgError where
  | badHeader
  | noSystemChannel
  | notProcessedDirectly
  | channelDoesNotExist
  | maintenanceMode
  | rejected
  deriving DecidableEq

inductive Classification where
  | normalMsg
  | configUpdateMsg
  | configMsg
  deriving DecidableEq

def classifyMsg (chdr : ChannelHeader) : Classification :=
  match chdr.type with
  | .configUpdate => .configUpdateMsg
  | .ordererTransaction => .configMsg
  | .config => .configMsg
  | _ => .normalMsg

/-- A lite endorser transaction has no channel header: the result is a nil pointer without an error. -/
def channelHeader (codec : Codec) (env : Envelope) : Outcome MsgError (Option ChannelHeader) :=
  if env.leanEnv.isSome && env.type = .endorserTransaction then .ok none
  else do
    let payload ← .orErr .badHeader (unmarshalPayload codec env.payload)
    let header ← .orErr .badHeader payload.header
    let bytes ← .orErr .badHeader header.channelHeader
    let chdr ← .orErr .badHeader (unmarshalChannelHeader codec (some bytes))
    .ok (some chdr)

def channelID (codec : Codec) (env : Envelope) : Outcome MsgError Bytes := do
  let chdr ← channelHeader codec env
  let chdr ← .deref chdr
  .ok chdr.channelId

def unmarshalEnvelopeOfType (codec : Codec) (env : Envelope) (headerType : HeaderType) : Outcome MsgError Bytes := do
  let payload ← .orErr .badHeader (unmarshalPayload codec env.payload)
  let header ← .orErr .badHeader payload.header
  let chdr ← .orErr .badHeader (unmarshalChannelHeader codec header.channelHeader)
  .require (chdr.type = headerType) .badHeader
  .ok (payload.data.getD [])

structure Signer where
  newSignatureHeader : Option SignatureHeader
  sign : Bytes → Option Bytes

def createSignedEnvelope (codec : Codec) (signer : Signer) (txType : HeaderType) (channelID data : Bytes) :
    Option Envelope := do
  let signatureHeader ← signer.newSignatureHeader
  let paylBytes := codec.payload.marshal
    { header := some
        { channelHeader := some (codec.channelHeader.marshal { type := txType, channelId := channelID }),
          signatureHeader := codec.signatureHeader.marshal signatureHeader },
      data := some data }
  let sig ← signer.sign paylBytes
  some { payload := some paylBytes, signature := sig }

structure ChannelSupport (κ : Type) where
  channelID : Bytes
  signer : Signer
  sequence : κ → UInt64
  batchSize : κ → BatchSize
  consensusTypeMigration : κ → Bool
  consensusStateNormal : κ → Bool
  filters : κ → Envelope → Bool
  maintenanceFilter : κ → Envelope → Bool
  /-- `ProposeConfigUpdate`: the encoded config envelope an authorized update leads to. -/
  proposeConfigUpdate : κ → Envelope → Option Bytes
  proposeNewChannel : κ → Envelope → Option Bytes
  lastUpdate : Bytes → Option (Option Envelope)
  /-- Decoding, validation and bundling of a config envelope. -/
  applyConfig : κ → Bytes → Bytes → Option κ
  checkForEvictionNCertRotation : κ → Envelope → Bool

structure Processor (κ : Type) where
  processNormalMsg : κ → Envelope → Outcome MsgError UInt64
  processConfigUpdateMsg : κ → Envelope → Outcome MsgError (Envelope × UInt64)
  processConfigMsg : κ → Envelope → Outcome MsgError (Envelope × UInt64)

section

variable {κ : Type} (codec : Codec) (support : ChannelSupport κ)

namespace StandardChannel

/-- The filters are not applied to normal messages. -/
def processNormalMsg (config : κ) : Outcome MsgError UInt64 :=
  if support.consensusTypeMigration config && !support.consensusStateNormal config then .err .maintenanceMode
  else .ok (support.sequence config)

def processConfigUpdateMsg (config : κ) (env : Envelope) : Outcome MsgError (Envelope × UInt64) := do
  .require (support.filters config env) .rejected
  let configEnvelope ← .orErr .rejected (support.proposeConfigUpdate config env)
  let signed ← .orErr .rejected
    (createSignedEnvelope codec support.signer .config support.channelID configEnvelope)
  .require (support.filters config signed) .rejected
  .require (support.maintenanceFilter config signed) .rejected
  .ok (signed, support.sequence config)

def processConfigMsg (config : κ) (env : Envelope) : Outcome MsgError (Envelope × UInt64) := do
  let data ← unmarshalEnvelopeOfType codec env .config
  let lastUpdate ← .orErr .badHeader (support.lastUpdate data)
  let lastUpdate ← .deref lastUpdate
  processConfigUpdateMsg codec support config lastUpdate

end StandardChannel

namespace SystemChannel

def processNormalMsg (config : κ) (msg : Envelope) : Outcome MsgError UInt64 := do
  let id ← channelID codec msg
  .require (id = support.channelID) .channelDoesNotExist
  StandardChannel.processNormalMsg support config

def processNewChannel (config : κ) (env : Envelope) (id : Bytes) : Outcome MsgError (Envelope × UInt64) := do
  let newChannelConfigEnv ← .orErr .rejected (support.proposeNewChannel config env)
  let newChannelEnvConfig ← .orErr .rejected
    (createSignedEnvelope codec support.signer .config id newChannelConfigEnv)
  let wrapped ← .orErr .rejected
    (createSignedEnvelope codec support.signer .ordererTransaction support.channelID
      (codec.envelope.marshal newChannelEnvConfig))
  .require (support.filters config wrapped) .rejected
  .ok (wrapped, support.sequence config)

def processConfigUpdateMsg (config : κ) (env : Envelope) : Outcome MsgError (Envelope × UInt64) := do
  let id ← channelID codec env
  if id = support.channelID then StandardChannel.processConfigUpdateMsg codec support config env
  else processNewChannel codec support config env id

def processOrdererTransaction (config : κ) (data : Bytes) : Outcome MsgError (Envelope × UInt64) := do
  let env ← .orErr .badHeader (codec.envelope.unmarshal data)
  let data ← unmarshalEnvelopeOfType codec env .config
  let lastUpdate ← .orErr .badHeader (support.lastUpdate data)
  let lastUpdate ← .deref lastUpdate
  processConfigUpdateMsg codec support config lastUpdate

def processConfig (config : κ) (data : Bytes) : Outcome MsgError (Envelope × UInt64) := do
  let lastUpdate ← .orErr .badHeader (support.lastUpdate data)
  let lastUpdate ← .deref lastUpdate
  StandardChannel.processConfigUpdateMsg codec support config lastUpdate

def processConfigMsg (config : κ) (env : Envelope) : Outcome MsgError (Envelope × UInt64) := do
  let payload ← .orErr .badHeader (unmarshalPayload codec env.payload)
  let header ← .orErr .badHeader payload.header
  let bytes ← .orErr .badHeader header.channelHeader
  let chdr ← .orErr .badHeader (unmarshalChannelHeader codec (some bytes))
  match chdr.type with
  | .config => processConfig codec support config (payload.data.getD [])
  | .ordererTransaction => processOrdererTransaction codec support config (payload.data.getD [])
  | _ => .err .badHeader

end SystemChannel

def newStandardChannel : Processor κ where
  processNormalMsg config _ := StandardChannel.processNormalMsg support config
  processConfigUpdateMsg := StandardChannel.processConfigUpdateMsg codec support
  processConfigMsg := StandardChannel.processConfigMsg codec support

def newSystemChannel : Processor κ where
  processNormalMsg := SystemChannel.processNormalMsg codec support
  processConfigUpdateMsg := SystemChannel.processConfigUpdateMsg codec support
  processConfigMsg := SystemChannel.processConfigMsg codec support

end

end Drunix.Orderer
