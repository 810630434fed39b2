import Drunix.Proto.LiteUtils

namespace Drunix.Peer

open Lib Proto

inductive TxValidationError where
  | endorsementPolicy
  | executionFailure
  deriving DecidableEq

/-- Errors of a metadata lookup: the first two are the same on every peer and are ignored. -/
inductive StateError where
  | collConfigNotDefined
  | invalidCollName
  | other
  deriving DecidableEq

/-- What key-level validation reads: the validation results of the earlier transactions of the block
that update the metadata of a key, and the committed validation parameter of a key. -/
structure VpManager where
  updates : Bytes → Bytes → Bytes → List (UInt64 × Bool)
  metadata : Bytes → Bytes → Bytes → Outcome StateError Bytes
  translate : Bytes → Option Bytes

inductive VpError where
  | updated
  | state (e : StateError)
  | translation
  deriving DecidableEq

def getValidationParameterForKey (vpmgr : VpManager) (cc coll key : Bytes) (txNum : UInt64) :
    Outcome VpError Bytes := do
  if (vpmgr.updates cc coll key).any fun dep => dep.1 < txNum ∧ dep.2 then .err .updated
  else do
    let md ← (vpmgr.metadata cc coll key).mapErr .state
    .orErr .translation (vpmgr.translate md)

/-- How `checkSBAndCCEP` takes the errors of the lookup: those about the collection are ignored, and
leave the parameter empty. -/
def validationParameter (vpmgr : VpManager) (txNum : UInt64) (cc coll key : Bytes) : Outcome TxValidationError Bytes :=
  match getValidationParameterForKey vpmgr cc coll key txNum with
  | .ok vp => .ok vp
  | .err .updated => .err .endorsementPolicy
  | .err (.state .collConfigNotDefined) | .err (.state .invalidCollName) => .ok []
  | .err _ => .err .executionFailure
  | .panic => .panic

structure Policies where
  evaluate : Bytes → List SignedData → Bool
  collectionValidationInfo : Bytes → Bytes → Outcome TxValidationError Bytes

structure PolicyChecker where
  someEPChecked : Bool := false
  nsEPChecked : Bytes → Bool := fun _ => false

def PolicyChecker.checked (p : PolicyChecker) (coll : Bytes) : PolicyChecker where
  someEPChecked := true
  nsEPChecked := Function.update p.nsEPChecked coll true

section

variable (policies : Policies) (ccEP : Bytes) (sd : List SignedData)

def evaluatePolicy (policy : Bytes) : Outcome TxValidationError Unit :=
  .require (policies.evaluate policy sd) .endorsementPolicy

def checkCCEP (p : PolicyChecker) : Outcome TxValidationError PolicyChecker :=
  if p.nsEPChecked [] then .ok p
  else do
    evaluatePolicy policies sd ccEP
    return p.checked []

def checkCCEPIfNotChecked (cc coll : Bytes) (p : PolicyChecker) : Outcome TxValidationError PolicyChecker :=
  if coll = [] then checkCCEP policies ccEP sd p
  else if p.nsEPChecked coll then .ok p
  else do
    let collEP ← policies.collectionValidationInfo cc coll
    if collEP = [] then checkCCEP policies ccEP sd p
    else do
      evaluatePolicy policies sd collEP
      return p.checked coll

def checkCCEPIfNoEPChecked (p : PolicyChecker) : Outcome TxValidationError Unit :=
  if p.someEPChecked then .ok () else evaluatePolicy policies sd ccEP

def checkSBAndCCEP (vpmgr : VpManager) (txNum : UInt64) (cc coll key : Bytes) (p : PolicyChecker) :
    Outcome TxValidationError PolicyChecker := do
  let vp ← validationParameter vpmgr txNum cc coll key
  if vp = [] then checkCCEPIfNotChecked policies ccEP sd cc coll p
  else do
    evaluatePolicy policies sd vp
    return { p with someEPChecked := true }

/-- `baseEvaluatorAdapter.checkSBAndCCEP`: the lookup is commented out, so the parameter is always
empty. -/
def checkSBAndCCEPAdapter (cc coll : Bytes) (p : PolicyChecker) : Outcome TxValidationError PolicyChecker :=
  let vp : Bytes := []
  if vp = [] then checkCCEPIfNotChecked policies ccEP sd cc coll p
  else do
    evaluatePolicy policies sd vp
    return { p with someEPChecked := true }

/-- The loops of `Evaluate` over the writes of a transaction to a namespace, each a collection, empty
for public data, and a key. A message that is nil panics where it is reached. -/
def evaluate (check : Bytes → Bytes → PolicyChecker → Outcome TxValidationError PolicyChecker)
    (writes : List (Option (Bytes × Bytes))) : Outcome TxValidationError Unit := do
  let p ← writes.foldlM (fun p w => do
    let (coll, key) ← .deref w
    check coll key p) {}
  checkCCEPIfNoEPChecked policies ccEP sd p

end

def nsWrites (ns : Vanilla.NsRwSet) : List (Bytes × Bytes) :=
  ns.kvRwSet.writes.map (fun w => ([], w.key)) ++ ns.kvRwSet.metadataWrites.map (fun w => ([], w.key)) ++
    ns.collHashedRwSets.flatMap (fun c => c.hashedRwSet.hashedWrites.map fun w => (c.collectionName, w.keyHash)) ++
    ns.collHashedRwSets.flatMap fun c => c.hashedRwSet.metadataWrites.map fun w => (c.collectionName, w.keyHash)

def writesTo (nsRwSets : List Vanilla.NsRwSet) (ns : Bytes) : List (Option (Bytes × Bytes)) :=
  ((nsRwSets.filter fun n => n.nameSpace = ns).flatMap nsWrites).map some

def collWritesLtx (keys : HashedRWSet → List Bytes) (c : CollectionHashedReadWriteSet) : List (Option (Bytes × Bytes)) :=
  c.hashedRwset.elim [none] fun hashedRwset => (keys hashedRwset).map fun key => some (c.collectionName, key)

def nsWritesLtx (ns : NsReadWriteSet) : List (Option (Bytes × Bytes)) :=
  ns.rwset.elim [none] (fun rwset =>
    rwset.writes.map (fun w => some ([], w.key)) ++ rwset.metadataWrites.map fun w => some ([], w.key)) ++
    ns.collectionHashedRwset.flatMap (collWritesLtx fun h => h.hashedWrites.map KVWriteHash.keyHash) ++
    ns.collectionHashedRwset.flatMap (collWritesLtx fun h => h.metadataWrites.map KVMetadataWriteHash.keyHash)

def writesToLtx (nsRwSets : List NsReadWriteSet) (ns : Bytes) : List (Option (Bytes × Bytes)) :=
  (nsRwSets.filter fun n => n.nameSpace = ns).flatMap nsWritesLtx

end Drunix.Peer
