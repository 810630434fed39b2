import Drunix.Lib.AMap
import Drunix.Lib.Outcome
import Drunix.Ledger.StateKeys

namespace Drunix.Ledger

open Lib Proto List

/-- `statedb.VersionedValue`; in an update batch a nil value marks a deletion. -/
structure VersionedValue where
  value : Option Bytes
  metadata : Bytes
  version : Version
  deriving DecidableEq

abbrev StateDB := Bytes → Option VersionedValue

structure PublicAndHashUpdates where
  publicUpdates : AMap (Bytes × Bytes) VersionedValue
  hashUpdates : AMap CompositeKey VersionedValue
  coll_ne_nil : ∀ k ∈ hashUpdates, k.coll ≠ []

def newPubAndHashUpdates : PublicAndHashUpdates where
  publicUpdates := ∅
  hashUpdates := ∅
  coll_ne_nil := by simp

def PublicAndHashUpdates.get (u : PublicAndHashUpdates) (k : CompositeKey) : Option VersionedValue :=
  if k.coll = [] then u.publicUpdates.lookup (k.ns, k.key) else u.hashUpdates.lookup k

theorem PublicAndHashUpdates.get_public (u : PublicAndHashUpdates) (ns key : Bytes) :
    u.get ⟨ns, [], key⟩ = u.publicUpdates.lookup (ns, key) :=
  if_pos rfl

theorem PublicAndHashUpdates.get_hashed (u : PublicAndHashUpdates) {k : CompositeKey} (h : k.coll ≠ []) :
    u.get k = u.hashUpdates.lookup k :=
  if_neg h

theorem newPubAndHashUpdates_get (k : CompositeKey) : newPubAndHashUpdates.get k = none := by
  rw [PublicAndHashUpdates.get]
  split <;> rfl

structure KeyOps where
  flag : UInt8 := 0
  value : Option Bytes := none
  metadata : Bytes := []
  deriving DecidableEq

inductive KeyOp where
  | upsert (value : Bytes)
  | metadataUpdate (metadata : Bytes)
  | metadataDelete
  | delete
  deriving DecidableEq

/-- The flags are added, not or-ed. -/
def KeyOps.apply (ops : KeyOps) : KeyOp → KeyOps
  | .upsert value => { ops with flag := ops.flag + 1, value := some value }
  | .metadataUpdate metadata => { ops with flag := ops.flag + 2, metadata }
  | .metadataDelete => { ops with flag := ops.flag + 4 }
  | .delete => { ops with flag := ops.flag + 8 }

def KeyOps.isDelete (ops : KeyOps) : Bool :=
  ops.flag &&& 8 = 8

def KeyOps.isUpsertAndMetadataUpdate (ops : KeyOps) : Bool :=
  if ops.flag &&& 1 = 1 then ops.flag &&& 2 = 2 || ops.flag &&& 4 = 4 else false

def KeyOps.isOnlyUpsert (ops : KeyOps) : Bool :=
  ops.flag ||| 1 = 1

abbrev TxOps := AMap CompositeKey KeyOps

def TxOps.apply (txops : TxOps) (k : CompositeKey) (op : KeyOp) : TxOps :=
  AMap.modify txops k fun ops => (ops.getD {}).apply op

def isLtxKVWriteDelete (kvWrite : KVWrite) : Bool :=
  kvWrite.isDelete || kvWrite.value = []

section

variable (sha256 : Bytes → Bytes) (serialize : List KVMetadataEntry → Bytes)

def isLtxKVWriteHashDelete (kvWriteHash : KVWriteHash) : Bool :=
  kvWriteHash.isDelete || kvWriteHash.valueHash = [] || sha256 [] = kvWriteHash.valueHash

def ltxKVWriteOp (kvWrite : KVWrite) : KeyOp :=
  if isLtxKVWriteDelete kvWrite then .delete else .upsert kvWrite.value

def ltxMetadataOp (entries : List KVMetadataEntry) : KeyOp :=
  if entries = [] then .metadataDelete else .metadataUpdate (serialize entries)

def hashedWriteOp (hashedWrite : KVWriteHash) : KeyOp :=
  ltxKVWriteOp { key := hashedWrite.keyHash, value := hashedWrite.valueHash
                 isDelete := isLtxKVWriteHashDelete sha256 hashedWrite }

def publicOps (ns : Bytes) (rwset : KVRWSet) : List (CompositeKey × KeyOp) :=
  rwset.writes.map (fun w => (⟨ns, [], w.key⟩, ltxKVWriteOp w)) ++
    rwset.metadataWrites.map fun w => (⟨ns, [], w.key⟩, ltxMetadataOp serialize w.entries)

def collectionOps (ns coll : Bytes) (hashedRwset : HashedRWSet) : List (CompositeKey × KeyOp) :=
  hashedRwset.hashedWrites.map (fun w => (⟨ns, coll, w.keyHash⟩, hashedWriteOp sha256 w)) ++
    hashedRwset.metadataWrites.map fun w => (⟨ns, coll, w.keyHash⟩, ltxMetadataOp serialize w.entries)

def ltxCollOps (ns : Bytes) (coll : CollectionHashedReadWriteSet) :
    Outcome Unit (List (CompositeKey × KeyOp)) := do
  let hashedRwset ← .deref coll.hashedRwset
  return collectionOps sha256 serialize ns coll.collectionName hashedRwset

def ltxNsOps (nsRWSet : NsReadWriteSet) : Outcome Unit (List (CompositeKey × KeyOp)) := do
  let rwset ← .deref nsRWSet.rwset
  let perColl ← nsRWSet.collectionHashedRwset.mapM (ltxCollOps sha256 serialize nsRWSet.nameSpace)
  return publicOps serialize nsRWSet.nameSpace rwset ++ perColl.flatten

def ltxOps (rwset : TxReadWriteSet) : Outcome Unit (List (CompositeKey × KeyOp)) := do
  let perNs ← rwset.nsRwset.mapM (ltxNsOps sha256 serialize)
  return perNs.flatten

def applyLtxRwset (ops : List (CompositeKey × KeyOp)) : TxOps :=
  ops.foldl (fun txops op => txops.apply op.1 op.2) ∅

end

section

variable (u : PublicAndHashUpdates) (db : StateDB)

def retrieveLatestState (k : CompositeKey) : Option VersionedValue :=
  match u.get k with
  | some vv => some vv
  | none => db k.dataKey

def retrieveLatestMetadata (k : CompositeKey) : Bytes :=
  match u.get k with
  | some vv => vv.metadata
  | none => ((db k.dataKey).map VersionedValue.metadata).getD []

/-- The final state of a key after the transaction; `none` drops a metadata update of a key that
does not exist. -/
def prepareKeyOps (k : CompositeKey) (ops : KeyOps) : Option KeyOps :=
  if ops.isDelete || ops.isUpsertAndMetadataUpdate then some ops
  else if ops.isOnlyUpsert then some { ops with metadata := retrieveLatestMetadata u db k }
  else (retrieveLatestState u db k).map fun vv => { ops with value := vv.value }

def prepareLtxOps (txops : TxOps) : TxOps :=
  txops.filterMap (prepareKeyOps u db)

end

def KeyOps.batchValue (ops : KeyOps) (txHeight : Version) : Outcome Unit VersionedValue :=
  if ops.isDelete then .ok { value := none, metadata := [], version := txHeight }
  else
    match ops.value with
    | none => .panic
    | some value => .ok { value := some value, metadata := ops.metadata, version := txHeight }

def PublicAndHashUpdates.set (u : PublicAndHashUpdates) (k : CompositeKey) (vv : VersionedValue) :
    PublicAndHashUpdates :=
  if h : k.coll = [] then { u with publicUpdates := u.publicUpdates.insert (k.ns, k.key) vv }
  else
    { u with
      hashUpdates := u.hashUpdates.insert k vv
      coll_ne_nil := by
        intro k' hk'
        rcases (AList.mem_insert _).mp hk' with rfl | hk'
        · exact h
        · exact u.coll_ne_nil k' hk' }

def applyLtxWriteSet (u : PublicAndHashUpdates) (ops : List (CompositeKey × KeyOp)) (txHeight : Version)
    (db : StateDB) : Outcome Unit PublicAndHashUpdates :=
  (prepareLtxOps u db (applyLtxRwset ops)).entries.foldlM (fun u e => do
    let vv ← e.2.batchValue txHeight
    return u.set e.1 vv) u

theorem PublicAndHashUpdates.get_set (u : PublicAndHashUpdates) (k c : CompositeKey) (vv : VersionedValue) :
    (u.set k vv).get c = if c = k then some vv else u.get c := by
  by_cases he : c = k
  · subst he
    by_cases hc : c.coll = [] <;> simp [get, set, hc]
  · rw [if_neg he]
    by_cases hk : k.coll = [] <;> by_cases hc : c.coll = []
    · have hne : (c.ns, c.key) ≠ (k.ns, k.key) := by
        intro h
        apply he
        obtain ⟨ns, coll, key⟩ := c
        obtain ⟨ns', coll', key'⟩ := k
        simp_all
      simp only [get, set, dif_pos hk, if_pos hc]
      exact AList.lookup_insert_ne hne
    · simp [get, set, hk, hc]
    · simp [get, set, hk, hc]
    · simp only [get, set, dif_neg hk, if_neg hc]
      exact AList.lookup_insert_ne he

theorem PublicAndHashUpdates.get_foldl_set {W : Type} (g : W → VersionedValue) (m : AMap CompositeKey W)
    (u : PublicAndHashUpdates) (c : CompositeKey) :
    (m.entries.foldl (fun u e => u.set e.1 (g e.2)) u).get c = (m.lookup c).elim (u.get c) fun w => some (g w) := by
  refine AMap.foldl_entries_of_frame (m := m) (fun u => u.get c) (fun w _ => some (g w)) (fun u e _ hne => ?_) ?_ u
  · rw [get_set, if_neg hne.symm]
  · exact fun u w _ => by rw [get_set, if_pos rfl]

def batchEntry (ops : KeyOps) (txHeight : Version) : VersionedValue :=
  if ops.isDelete then ⟨none, [], txHeight⟩ else ⟨ops.value, ops.metadata, txHeight⟩

def Writable (ops : KeyOps) : Prop :=
  ops.isDelete ∨ ops.value ≠ none

instance (ops : KeyOps) : Decidable (Writable ops) :=
  inferInstanceAs (Decidable (_ ∨ _))

theorem batchValue_eq (ops : KeyOps) (txHeight : Version) :
    ops.batchValue txHeight = if Writable ops then .ok (batchEntry ops txHeight) else .panic := by
  by_cases hd : ops.isDelete
  · simp [KeyOps.batchValue, batchEntry, Writable, hd]
  · cases hv : ops.value <;> simp [KeyOps.batchValue, batchEntry, Writable, hd, hv]

section

variable {u u' : PublicAndHashUpdates} {ops : List (CompositeKey × KeyOp)} {txHeight : Version} {db : StateDB}

theorem applyLtxWriteSet_eq_ok_iff :
    applyLtxWriteSet u ops txHeight db = .ok u' ↔
      (∀ e ∈ (prepareLtxOps u db (applyLtxRwset ops)).entries, Writable e.2) ∧
        u' = (prepareLtxOps u db (applyLtxRwset ops)).entries.foldl
          (fun u e => u.set e.1 (batchEntry e.2 txHeight)) u := by
  apply Outcome.foldlM_eq_ok_iff
  intro u e
  rw [batchValue_eq]
  split <;> rfl

theorem lookup_prepareLtxOps (c : CompositeKey) :
    (prepareLtxOps u db (applyLtxRwset ops)).lookup c =
      ((applyLtxRwset ops).lookup c).bind (prepareKeyOps u db c) :=
  AMap.lookup_filterMap _ _ _

theorem get_of_applyLtxWriteSet (h : applyLtxWriteSet u ops txHeight db = .ok u') (c : CompositeKey) :
    u'.get c = (((applyLtxRwset ops).lookup c).bind (prepareKeyOps u db c)).elim (u.get c)
      fun o => some (batchEntry o txHeight) := by
  obtain ⟨_, rfl⟩ := applyLtxWriteSet_eq_ok_iff.mp h
  rw [← lookup_prepareLtxOps]
  exact PublicAndHashUpdates.get_foldl_set (fun o => batchEntry o txHeight) _ u c

end

def KeyOp.isWrite : KeyOp → Bool
  | .upsert _ | .delete => true
  | .metadataUpdate _ | .metadataDelete => false

def KeyOp.newValue : KeyOp → Option Bytes
  | .upsert value => some value
  | _ => none

def WrittenOnce (ops : List KeyOp) (w : KeyOp) : Prop :=
  w.isWrite ∧ (ops = [w] ∨ ∃ md, md.isWrite = false ∧ (ops = [w, md] ∨ ops = [md, w]))

theorem flag_bits :
    (1 &&& 8 : UInt8) = 0 ∧ (1 &&& 2 : UInt8) = 0 ∧ (1 &&& 4 : UInt8) = 0 ∧ (2 &&& 8 : UInt8) = 0 ∧
      (2 &&& 1 : UInt8) = 0 ∧ (2 ||| 1 : UInt8) = 3 ∧ (4 &&& 8 : UInt8) = 0 ∧ (4 &&& 1 : UInt8) = 0 ∧
      (4 ||| 1 : UInt8) = 5 ∧ (3 &&& 8 : UInt8) = 0 ∧ (3 &&& 1 : UInt8) = 1 ∧ (3 &&& 2 : UInt8) = 2 ∧
      (5 &&& 8 : UInt8) = 0 ∧ (5 &&& 1 : UInt8) = 1 ∧ (5 &&& 4 : UInt8) = 4 ∧ (10 &&& 8 : UInt8) = 8 ∧
      (12 &&& 8 : UInt8) = 8 := by
  decide

variable {w : KeyOp}

/-- The flags of a write, alone or with one of the metadata: 1, 3 and 5 put the value, 8, 10 and 12 delete the key. -/
theorem WrittenOnce.batchEntry {ops : List KeyOp} (h : WrittenOnce ops w) (u : PublicAndHashUpdates) (db : StateDB)
    (k : CompositeKey) (txHeight : Version) :
    ∃ o metadata, prepareKeyOps u db k (ops.foldl KeyOps.apply {}) = some o ∧ Writable o ∧
      Ledger.batchEntry o txHeight = ⟨w.newValue, metadata, txHeight⟩ := by
  obtain ⟨hw, ho⟩ := h
  cases w with
  | metadataUpdate | metadataDelete => cases hw
  | upsert | delete =>
    rcases ho with rfl | ⟨md, hmd, rfl | rfl⟩
    · simp [prepareKeyOps, KeyOps.apply, KeyOps.isDelete, KeyOps.isUpsertAndMetadataUpdate, KeyOps.isOnlyUpsert, flag_bits,
        Writable, Ledger.batchEntry, KeyOp.newValue]
    all_goals
      cases md with
      | upsert | delete => cases hmd
      | metadataUpdate | metadataDelete =>
        simp [prepareKeyOps, KeyOps.apply, KeyOps.isDelete, KeyOps.isUpsertAndMetadataUpdate, flag_bits, Writable,
          Ledger.batchEntry, KeyOp.newValue]

theorem WrittenOnce.filter_isWrite {ops : List KeyOp} (h : WrittenOnce ops w) : ops.filter KeyOp.isWrite = [w] := by
  obtain ⟨hw, rfl | ⟨md, hmd, rfl | rfl⟩⟩ := h <;> simp_all

def opsFor (ops : List (CompositeKey × KeyOp)) (c : CompositeKey) : List KeyOp :=
  (ops.filter fun e => e.1 = c).map Prod.snd

variable {ops : List (CompositeKey × KeyOp)} {c : CompositeKey}

theorem exists_of_opsFor_ne_nil (h : opsFor ops c ≠ []) : ∃ e ∈ ops, e.1 = c := by
  simpa [opsFor] using h

theorem opsFor_eq_nil (h : c ∉ ops.map Prod.fst) : opsFor ops c = [] := by
  by_contra hne
  exact h (mem_map.mpr (exists_of_opsFor_ne_nil hne))

theorem lookup_applyLtxRwset (ops : List (CompositeKey × KeyOp)) (c : CompositeKey) :
    (applyLtxRwset ops).lookup c =
      if opsFor ops c = [] then none else some ((opsFor ops c).foldl KeyOps.apply {}) := by
  have hf : ∀ (l : List (CompositeKey × KeyOp)) (o : KeyOps),
      l.foldl (fun v e => some (KeyOps.apply (v.getD {}) e.2)) (some o) =
        some ((l.map Prod.snd).foldl KeyOps.apply o) := by
    intro l
    induction l with
    | nil => exact fun _ => rfl
    | cons e l ih => exact fun o => ih (o.apply e.2)
  have h := AMap.lookup_foldl_modify (fun o (op : KeyOp) => (o.getD {}).apply op) ops (∅ : TxOps) c
  refine h.trans ?_
  rw [opsFor]
  cases hl : ops.filter fun e => e.1 = c with
  | nil => rfl
  | cons e l => exact hf l (KeyOps.apply {} e.2)

theorem WrittenOnce.lookup_prepareLtxOps (hw : WrittenOnce (opsFor ops c) w) (u : PublicAndHashUpdates) (db : StateDB)
    (txHeight : Version) :
    ∃ o metadata, (prepareLtxOps u db (applyLtxRwset ops)).lookup c = some o ∧
      Writable o ∧ Ledger.batchEntry o txHeight = ⟨w.newValue, metadata, txHeight⟩ := by
  obtain ⟨o, metadata, ho, hv⟩ := hw.batchEntry u db c txHeight
  have hne : opsFor ops c ≠ [] := by
    rcases hw.2 with h | ⟨md, _, h | h⟩ <;> simp [h]
  refine ⟨o, metadata, ?_, hv⟩
  rw [prepareLtxOps, AMap.lookup_filterMap, lookup_applyLtxRwset, if_neg hne]
  exact ho

theorem WrittenOnce.get {u u' : PublicAndHashUpdates} {db : StateDB} {txHeight : Version}
    (hw : WrittenOnce (opsFor ops c) w) (h : applyLtxWriteSet u ops txHeight db = .ok u') :
    ∃ metadata, u'.get c = some ⟨w.newValue, metadata, txHeight⟩ := by
  obtain ⟨o, metadata, ho, hv⟩ := hw.lookup_prepareLtxOps u db txHeight
  rw [Ledger.lookup_prepareLtxOps] at ho
  exact ⟨metadata, by rw [get_of_applyLtxWriteSet h c, ho, Option.elim_some, hv.2]⟩

theorem applyLtxWriteSet_of_writtenOnce (u : PublicAndHashUpdates) (txHeight : Version) (db : StateDB)
    (h : ∀ c ∈ ops.map Prod.fst, ∃ w, WrittenOnce (opsFor ops c) w) :
    ∃ u', applyLtxWriteSet u ops txHeight db = .ok u' ∧
      (∀ c w, WrittenOnce (opsFor ops c) w → ∃ metadata, u'.get c = some ⟨w.newValue, metadata, txHeight⟩) ∧
      ∀ c, c ∉ ops.map Prod.fst → u'.get c = u.get c := by
  have hw : ∀ e ∈ (prepareLtxOps u db (applyLtxRwset ops)).entries, Writable e.2 := by
    intro e he
    have hl : (prepareLtxOps u db (applyLtxRwset ops)).lookup e.1 = some e.2 := AList.mem_lookup_iff.mpr he
    by_cases hc : e.1 ∈ ops.map Prod.fst
    · obtain ⟨w, hw⟩ := h e.1 hc
      obtain ⟨o, metadata, ho, hv⟩ := hw.lookup_prepareLtxOps u db txHeight
      cases hl.symm.trans ho
      exact hv.1
    · rw [lookup_prepareLtxOps, lookup_applyLtxRwset, if_pos (opsFor_eq_nil hc)] at hl
      cases hl
  have hu : applyLtxWriteSet u ops txHeight db = .ok _ := applyLtxWriteSet_eq_ok_iff.mpr ⟨hw, rfl⟩
  refine ⟨_, hu, fun c w hw => hw.get hu, fun c hc => ?_⟩
  rw [get_of_applyLtxWriteSet hu c, lookup_applyLtxRwset, if_pos (opsFor_eq_nil hc)]
  rfl

end Drunix.Ledger
