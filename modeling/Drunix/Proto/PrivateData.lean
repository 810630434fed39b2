import Drunix.Proto.Messages

namespace Drunix.Proto

/-- `rwset.CollectionPvtReadWriteSet`; the write set of the collection is carried in serialized form. -/
structure CollectionPvtReadWriteSet where
  collectionName : Bytes
  rwset : Bytes
  deriving DecidableEq

structure NsPvtReadWriteSet where
  nameSpace : Bytes
  collectionPvtRwset : List CollectionPvtReadWriteSet
  deriving DecidableEq

structure TxPvtReadWriteSet where
  nsPvtRwset : List NsPvtReadWriteSet
  deriving DecidableEq

structure TxPvtData where
  writeSet : Option TxPvtReadWriteSet
  deriving DecidableEq

structure CollData where
  ns : Bytes
  coll : Bytes
  rwset : Bytes
  deriving DecidableEq

def TxPvtReadWriteSet.collections (writeSet : TxPvtReadWriteSet) : List CollData :=
  writeSet.nsPvtRwset.flatMap fun ns => ns.collectionPvtRwset.map fun coll => ⟨ns.nameSpace, coll.collectionName, coll.rwset⟩

structure CollHash where
  ns : Bytes
  coll : Bytes
  hash : Bytes
  deriving DecidableEq

end Drunix.Proto
