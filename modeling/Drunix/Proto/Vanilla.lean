import Drunix.Proto.Envelope

namespace Drunix.Proto.Vanilla

structure Endorsement where
  endorser : Bytes := []
  signature : Bytes := []
  deriving DecidableEq

structure ChaincodeEndorsedAction where
  proposalResponsePayload : Bytes := []
  endorsements : List Endorsement := []
  deriving DecidableEq

structure ChaincodeActionPayload where
  chaincodeProposalPayload : Bytes := []
  action : Option ChaincodeEndorsedAction := none
  deriving DecidableEq

structure TransactionAction where
  header : Bytes := []
  payload : Bytes := []
  deriving DecidableEq

structure Transaction where
  actions : List TransactionAction := []
  deriving DecidableEq

structure ProposalResponsePayload where
  proposalHash : Bytes := []
  extension : Bytes := []
  deriving DecidableEq

structure ChaincodeAction where
  results : Bytes := []
  events : Bytes := []
  chaincodeId : Option ChaincodeID := none
  deriving DecidableEq

/-- `kvrwset.KVWriteHash`: unlike the lite format it can ask for a purge of the private key. -/
structure KVWriteHash extends Proto.KVWriteHash where
  isPurge : Bool
  deriving DecidableEq

structure HashedRWSet where
  hashedReads : List KVReadHash := []
  hashedWrites : List KVWriteHash := []
  metadataWrites : List KVMetadataWriteHash := []
  deriving DecidableEq

structure CollHashedRwSet where
  collectionName : Bytes
  hashedRwSet : HashedRWSet
  pvtRwSetHash : Bytes := []
  deriving DecidableEq

structure NsRwSet where
  nameSpace : Bytes
  kvRwSet : KVRWSet
  collHashedRwSets : List CollHashedRwSet := []
  deriving DecidableEq

structure TxRwSet where
  nsRwSets : List NsRwSet
  deriving DecidableEq

end Drunix.Proto.Vanilla
