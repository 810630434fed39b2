import Drunix.Lib.AMap
import Drunix.Lib.Outcome
import Drunix.Ledger.StateKeys

namespace Drunix.Orderer

open Lib Proto Ledger

def areSame (h₁ h₂ : Option Version) : Bool :=
  h₁ = h₂

structure VersionMVCC where
  version : Version
  isDelete : Bool
  deriving DecidableEq

abbrev MvccMap := AMap Bytes VersionMVCC

abbrev VersionDB := Bytes → Option Version

def getKeyVersion (db : VersionDB) (ns key : Bytes) : Option Version :=
  db (encodeDataKey ns key)

/-- Common body of `validateKVRead` and `validateKVReadHash`: a key that is not found in the database
is taken as valid whatever version was read. -/
def validateVersion (updatedInBlock : Bool) (committedVersion readVersion : Option Version) : Bool :=
  if updatedInBlock then false
  else
    match committedVersion with
    | none => true
    | some v => if readVersion = none then false else areSame (some v) readVersion

theorem validateVersion_eq_true {updated : Bool} {committed read : Option Version} :
    validateVersion updated committed read = true ↔ updated = false ∧ (committed = none ∨ committed = read) := by
  cases updated <;> cases committed <;> cases read <;> simp [validateVersion, areSame]

section

variable (m : MvccMap) (db : VersionDB)

def validateKVRead (ns : Bytes) (kvRead : KVRead) : Bool :=
  validateVersion (m.lookup (encodeDataKey ns kvRead.key)).isSome (getKeyVersion db ns kvRead.key)
    kvRead.version

def validateReadSet (nsRwSet : NsReadWriteSet) : Outcome Unit Bool := do
  let rwset ← .deref nsRwSet.rwset
  return rwset.reads.all (validateKVRead m db nsRwSet.nameSpace)

/-- The committed version is looked up under the key hash in the public namespace, while writes go
to the namespace of the collection. -/
def validateKVReadHash (ns coll : Bytes) (kvReadHash : KVReadHash) : Bool :=
  validateVersion (m.lookup (encodeDataKey (deriveHashedDataNs ns coll) kvReadHash.keyHash)).isSome
    (getKeyVersion db ns kvReadHash.keyHash) kvReadHash.version

def validateNsHashedReadSets (nsRwSet : NsReadWriteSet) : Outcome Unit Bool :=
  Outcome.all (fun collHashedRWSet => do
    let hashedRwset ← .deref collHashedRWSet.hashedRwset
    return hashedRwset.hashedReads.all
      (validateKVReadHash m db nsRwSet.nameSpace collHashedRWSet.collectionName))
    nsRwSet.collectionHashedRwset

def validateNameSpaceReadSet (nsRwSet : NsReadWriteSet) : Outcome Unit Bool := do
  if ← validateReadSet m db nsRwSet then validateNsHashedReadSets m db nsRwSet else return false

end

def applyWriteSet (m : MvccMap) (ns : Bytes) (kvWrites : List KVWrite) (version : Version) : MvccMap :=
  kvWrites.foldl (fun m kvWrite =>
    m.insert (encodeDataKey ns kvWrite.key) { version, isDelete := kvWrite.isDelete }) m

def applyHashedWrites (m : MvccMap) (ns coll : Bytes) (hashedWrites : List KVWriteHash)
    (version : Version) : MvccMap :=
  hashedWrites.foldl (fun m kvWriteHash =>
    m.insert (encodeDataKey (deriveHashedDataNs ns coll) kvWriteHash.keyHash)
      { version, isDelete := kvWriteHash.isDelete }) m

def applyWriteHashSet (m : MvccMap) (ns : Bytes) (collHashedRWSets : List CollectionHashedReadWriteSet)
    (version : Version) : Outcome Unit MvccMap :=
  collHashedRWSets.foldlM (fun m collHashedRWSet => do
    let hashedRwset ← .deref collHashedRWSet.hashedRwset
    return applyHashedWrites m ns collHashedRWSet.collectionName hashedRwset.hashedWrites version) m

def applyNameSpaceWriteSet (m : MvccMap) (version : Version) (nsRwSet : NsReadWriteSet) :
    Outcome Unit MvccMap := do
  let rwset ← .deref nsRwSet.rwset
  applyWriteHashSet (applyWriteSet m nsRwSet.nameSpace rwset.writes version) nsRwSet.nameSpace
    nsRwSet.collectionHashedRwset version

def validateEndorserTxn (txRWSet : TxReadWriteSet) (m : MvccMap) (db : VersionDB)
    (fatBlockNum txnIdx : UInt64) : Outcome Unit (MvccMap × Bool) := do
  if ← Outcome.all (validateNameSpaceReadSet m db) txRWSet.nsRwset then
    let m ← txRWSet.nsRwset.foldlM (fun m nsRwSet => applyNameSpaceWriteSet m ⟨fatBlockNum, txnIdx⟩ nsRwSet) m
    return (m, true)
  else
    return (m, false)

def applyBatch (m : MvccMap) (db : VersionDB) : VersionDB :=
  m.overlay id (fun vv => if vv.isDelete then none else some vv.version) db

def mvccStatus (valid : Bool) : TxValidationCode :=
  if valid then .valid else .mvccReadConflict

def validateFatBlock (db : VersionDB) (fatBlockNum : UInt64) :
    Nat → MvccMap → List TxReadWriteSet → Outcome Unit (List TxValidationCode × MvccMap)
  | _, m, [] => .ok ([], m)
  | txnIndex, m, txRWSet :: txs => do
      let (m, valid) ← validateEndorserTxn txRWSet m db fatBlockNum (UInt64.ofNat txnIndex)
      let (codes, m) ← validateFatBlock db fatBlockNum (txnIndex + 1) m txs
      return (mvccStatus valid :: codes, m)

structure FatBlock where
  num : UInt64
  txs : List TxReadWriteSet

def processFatBlock (db : VersionDB) (blk : FatBlock) : Outcome Unit (List TxValidationCode × VersionDB) := do
  let (codes, m) ← validateFatBlock db blk.num 0 ∅ blk.txs
  return (codes, applyBatch m db)

def processFatBlocks (db : VersionDB) : List FatBlock → Outcome Unit (List (List TxValidationCode) × VersionDB)
  | [] => .ok ([], db)
  | blk :: blks => do
      let (codes, db) ← processFatBlock db blk
      let (rest, db) ← processFatBlocks db blks
      return (codes :: rest, db)

end Drunix.Orderer
