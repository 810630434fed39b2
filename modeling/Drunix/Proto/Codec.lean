import Drunix.Lib.Wire
import Drunix.Proto.Vanilla

namespace Drunix.Proto

open Lib

/-- The protobuf encodings the code relies on, one for each message type. `chaincodeEvent` and
`endorserIdentity` are what a message holds after an unmarshal whose error the caller ignores; the
header extension is read for its chaincode id. -/
structure Codec where
  envelope : Wire Bytes Envelope
  payload : Wire Bytes Payload
  channelHeader : Wire Bytes ChannelHeader
  signatureHeader : Wire Bytes SignatureHeader
  transaction : Wire Bytes Vanilla.Transaction
  chaincodeActionPayload : Wire Bytes Vanilla.ChaincodeActionPayload
  vanillaResponsePayload : Wire Bytes Vanilla.ProposalResponsePayload
  vanillaChaincodeAction : Wire Bytes Vanilla.ChaincodeAction
  txRwSet : Wire Bytes Vanilla.TxRwSet
  responsePayload : Wire Bytes ProposalResponsePayload
  serializedIdentity : Wire Bytes SerializedIdentity
  chaincodeEvent : Bytes → ChaincodeEvent
  ccEvent : Wire Bytes ChaincodeEvent
  chaincodeHeaderExtension : Wire Bytes (Option ChaincodeID)
  endorserIdentity : Bytes → SerializedIdentity
  block : Wire Bytes Block
  metadata : Wire Bytes Metadata
  lastConfig : Wire Bytes UInt64
  ordererBlockMetadata : Wire Bytes OrdererBlockMetadata
  sparseTxnFilter : Wire Bytes SparseTxnFilter

def Codec.none : Codec where
  envelope := .ofTable [] []
  payload := .ofTable [] []
  channelHeader := .ofTable [] []
  signatureHeader := .ofTable [] []
  transaction := .ofTable [] []
  chaincodeActionPayload := .ofTable [] []
  vanillaResponsePayload := .ofTable [] []
  vanillaChaincodeAction := .ofTable [] []
  txRwSet := .ofTable [] []
  responsePayload := .ofTable [] []
  serializedIdentity := .ofTable [] []
  chaincodeEvent := fun _ => {}
  ccEvent := .ofTable [] []
  chaincodeHeaderExtension := .ofTable [] []
  endorserIdentity := fun _ => {}
  block := .ofTable [] []
  metadata := .ofTable [] []
  lastConfig := .ofTable [] []
  ordererBlockMetadata := .ofTable [] []
  sparseTxnFilter := .ofTable [] []

end Drunix.Proto
