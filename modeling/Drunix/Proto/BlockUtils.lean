import Mathlib.Data.Nat.Digits.Defs
import Drunix.Lib.Outcome
import Drunix.Proto.Codec

namespace Drunix.Proto

open Lib

inductive BlockError where
  | emptyBlock
  | malformedEnvelope
  | malformedPayload
  | emptyPayloadHeader
  | malformedChannelHeader
  | channelHeaderNotSet
  | noMetadataInBlock
  | noMetadataAtIndex (index : BlockMetadataIndex)
  | malformedMetadata (index : BlockMetadataIndex)
  | malformedOrdererMetadata
  | malformedConsenterMetadata
  | malformedLastConfig
  deriving DecidableEq

def newBlock (seqNum : UInt64) (previousHash : Bytes) : Block where
  header := { number := seqNum, previousHash }
  metadata := List.replicate 9 []

def bigEndian (n : Nat) : Bytes :=
  ((Nat.digits 256 n).map UInt8.ofNat).reverse

def derLength (n : Nat) : Bytes :=
  if n < 128 then [UInt8.ofNat n] else UInt8.ofNat (128 + (bigEndian n).length) :: bigEndian n

def derField (tag : UInt8) (content : Bytes) : Bytes :=
  tag :: derLength content.length ++ content

def derInteger (n : Nat) : Bytes :=
  match bigEndian n with
  | [] => [0]
  | b :: bs => if b < 128 then b :: bs else 0 :: b :: bs

def blockHeaderBytes (b : BlockHeader) : Bytes :=
  derField 0x30 (derField 0x02 (derInteger b.number.toNat) ++ derField 0x04 b.previousHash ++
    derField 0x04 b.dataHash)

def blockHeaderHash (sha256 : Bytes → Bytes) (b : BlockHeader) : Bytes :=
  sha256 (blockHeaderBytes b)

def blockDataHash (sha256 : Bytes → Bytes) (data : List Bytes) : Bytes :=
  sha256 data.flatten

section

variable (codec : Codec)

def getEnvelopeFromBlock (data : Bytes) : Option Envelope :=
  codec.envelope.unmarshal data

/-- `proto.Unmarshal` reads a nil slice as the empty message. -/
def unmarshalPayload (payload : Option Bytes) : Option Payload :=
  codec.payload.unmarshal (payload.getD [])

def unmarshalChannelHeader (channelHeader : Option Bytes) : Option ChannelHeader :=
  codec.channelHeader.unmarshal (channelHeader.getD [])

def payloadChannelHeader (env : Envelope) : Outcome BlockError ChannelHeader := do
  let payload ← .orErr .malformedPayload (unmarshalPayload codec env.payload)
  let header ← .orErr .emptyPayloadHeader payload.header
  .orErr .malformedChannelHeader (unmarshalChannelHeader codec header.channelHeader)

def getChannelIDFromBlock (data : List Bytes) : Outcome BlockError Bytes :=
  match data with
  | [] => .err .emptyBlock
  | first :: _ => do
      let envelope ← .orErr .malformedEnvelope (getEnvelopeFromBlock codec first)
      match envelope.leanEnv with
      | some leanEnv => .ok leanEnv.channelId
      | none => do
          let chdr ← payloadChannelHeader codec envelope
          .ok chdr.channelId

def isConfigType : HeaderType → Bool
  | .config | .ordererTransaction => true
  | _ => false

def isConfigBlock (data : List Bytes) : Bool :=
  match data with
  | [marshaledEnvelope] =>
    match getEnvelopeFromBlock codec marshaledEnvelope with
    | none => false
    | some envelope =>
      match payloadChannelHeader codec envelope with
      | .ok hdr => isConfigType hdr.type
      | _ => false
  | _ => false

def getMetadataFromBlock (metadata : List Bytes) (index : BlockMetadataIndex) : Outcome BlockError Metadata :=
  match metadata[index.index]? with
  | none => .err (.noMetadataAtIndex index)
  | some md => .orErr (.malformedMetadata index) (codec.metadata.unmarshal md)

def getConsenterMetadataFromBlock (metadata : List Bytes) : Outcome BlockError Metadata := do
  let m ← getMetadataFromBlock codec metadata .signatures
  if m.value = [] then getMetadataFromBlock codec metadata .orderer
  else do
    let obm ← .orErr .malformedOrdererMetadata (codec.ordererBlockMetadata.unmarshal m.value)
    .orErr .malformedConsenterMetadata (codec.metadata.unmarshal obm.consenterMetadata)

def getLastConfigIndexFromBlock (metadata : List Bytes) : Outcome BlockError UInt64 := do
  let m ← getMetadataFromBlock codec metadata .signatures
  if m.value = [] then do
    let m ← getMetadataFromBlock codec metadata .lastConfig
    .orErr .malformedLastConfig (codec.lastConfig.unmarshal m.value)
  else do
    let obm ← .orErr .malformedOrdererMetadata (codec.ordererBlockMetadata.unmarshal m.value)
    .deref obm.lastConfig

/-- Only emptiness is checked: the per-transaction checks are commented out in the source. -/
def verifyTransactionsAreWellFormed (data : List Bytes) : Outcome BlockError Unit :=
  if data = [] then .err .emptyBlock
  else if isConfigBlock codec data then .ok ()
  else .ok ()

end

theorem verifyTransactionsAreWellFormed_eq (codec : Codec) (data : List Bytes) :
    verifyTransactionsAreWellFormed codec data = if data = [] then .err .emptyBlock else .ok () := by
  unfold verifyTransactionsAreWellFormed
  split
  · rfl
  · exact ite_self _

end Drunix.Proto
