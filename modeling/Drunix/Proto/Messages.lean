import Mathlib.Data.List.Basic

namespace Drunix.Proto

/-- Byte slices and Go strings; nil and empty slices are one value unless the code tests for nil. -/
abbrev Bytes := List UInt8

instance : LawfulBEq Bytes :=
  inferInstanceAs (LawfulBEq (List UInt8))

def ascii (s : String) : Bytes :=
  s.toList.map fun c => UInt8.ofNat c.toNat

/-- The open enumeration `common.HeaderType`, also carried as `int32` by `ChannelHeader.Type`. -/
inductive HeaderType where
  | message
  | config
  | configUpdate
  | endorserTransaction
  | ordererTransaction
  | deliverSeekInfo
  | chaincodePackage
  | approve
  | commit
  | other (n : Int)
  deriving DecidableEq

inductive TxValidationCode where
  | valid
  | nilEnvelope
  | badPayload
  | badCommonHeader
  | badCreatorSignature
  | invalidEndorserTransaction
  | invalidConfigTransaction
  | unsupportedTxPayload
  | badProposalTxid
  | duplicateTxid
  | endorsementPolicyFailure
  | mvccReadConflict
  | phantomReadConflict
  | unknownTxType
  | targetChainNotFound
  | marshalTxError
  | nilTxaction
  | expiredChaincode
  | chaincodeVersionConflict
  | badHeaderExtension
  | badChannelHeader
  | badResponsePayload
  | badRwset
  | illegalWriteset
  | invalidWriteset
  | invalidChaincode
  | notValidated
  | invalidOtherReason
  deriving DecidableEq

structure Version where
  blockNum : UInt64
  txNum : UInt64
  deriving DecidableEq

structure KVRead where
  key : Bytes
  version : Option Version
  deriving DecidableEq

structure KVWrite where
  key : Bytes
  isDelete : Bool
  value : Bytes
  deriving DecidableEq

structure KVMetadataEntry where
  name : Bytes
  value : Bytes
  deriving DecidableEq

structure KVMetadataWrite where
  key : Bytes
  entries : List KVMetadataEntry
  deriving DecidableEq

inductive ReadsInfo where
  | unset
  | rawReads (kvReads : List KVRead)
  | readsMerkleHashes (maxDegree maxLevel : UInt32) (maxLevelHashes : List Bytes)
  deriving DecidableEq

structure RangeQueryInfo where
  startKey : Bytes
  endKey : Bytes
  itrExhausted : Bool
  readsInfo : ReadsInfo
  deriving DecidableEq

structure KVRWSet where
  reads : List KVRead := []
  rangeQueriesInfo : List RangeQueryInfo := []
  writes : List KVWrite := []
  metadataWrites : List KVMetadataWrite := []
  deriving DecidableEq

structure KVReadHash where
  keyHash : Bytes
  version : Option Version
  deriving DecidableEq

structure KVWriteHash where
  keyHash : Bytes
  isDelete : Bool
  valueHash : Bytes
  deriving DecidableEq

structure KVMetadataWriteHash where
  keyHash : Bytes
  entries : List KVMetadataEntry
  deriving DecidableEq

structure HashedRWSet where
  hashedReads : List KVReadHash := []
  hashedWrites : List KVWriteHash := []
  metadataWrites : List KVMetadataWriteHash := []
  deriving DecidableEq

structure CollectionHashedReadWriteSet where
  collectionName : Bytes
  hashedRwset : Option HashedRWSet
  pvtRwsetHash : Bytes := []
  deriving DecidableEq

structure NsReadWriteSet where
  nameSpace : Bytes
  rwset : Option KVRWSet
  collectionHashedRwset : List CollectionHashedReadWriteSet := []
  deriving DecidableEq

structure TxReadWriteSet where
  nsRwset : List NsReadWriteSet
  deriving DecidableEq

structure TxnInfo where
  indexInFatBlock : UInt64
  txnMVCCStatus : TxValidationCode
  deriving DecidableEq

structure SparseTxnFilter where
  fatBlockNumber : UInt64
  txnInfoList : List TxnInfo
  deriving DecidableEq

end Drunix.Proto
