import Drunix.Ledger.Validation.Validator

namespace Drunix.Ledger.Validation

open Lib Proto Vanilla Option

inductive StateKey where
  | pub (ns key : Bytes)
  | hashed (ns coll keyHash : Bytes)
  deriving DecidableEq

def StateKey.dataKey : StateKey → Bytes
  | pub ns key => encodeDataKey ns key
  | hashed ns coll keyHash => encodeDataKey (deriveHashedDataNs ns coll) keyHash

/-- The key of a write set that stands for `k`: the empty collection name marks public data. -/
def StateKey.writeKey : StateKey → Option CompositeKey
  | pub ns key => some ⟨ns, [], key⟩
  | hashed ns coll keyHash => if coll = [] then none else some ⟨ns, coll, keyHash⟩

abbrev State := StateKey → Option VersionedValue

def StateStore.state (store : StateStore) : State :=
  fun k => store.db k.dataKey

def entry (u : PublicAndHashUpdates) : StateKey → Option VersionedValue
  | .pub ns key => u.publicUpdates.lookup (ns, key)
  | .hashed ns coll keyHash => u.hashUpdates.lookup ⟨ns, coll, keyHash⟩

def State.update (s : State) (u : PublicAndHashUpdates) : State :=
  fun k => (entry u k).elim (s k) VersionedValue.stored

variable {c : CompositeKey} {k : StateKey}

theorem StateKey.writeKey_dataKey (h : k.writeKey = some c) : c.dataKey = k.dataKey := by
  cases k with
  | pub ns key =>
    cases h
    exact CompositeKey.dataKey_public ns key
  | hashed ns coll keyHash =>
    by_cases hc : coll = []
    · simp [writeKey, hc] at h
    · rw [writeKey, if_neg hc] at h
      cases h
      exact CompositeKey.dataKey_hashed hc

theorem entry_eq_get (u : PublicAndHashUpdates) (k : StateKey) : entry u k = k.writeKey.bind u.get := by
  cases k with
  | pub ns key => exact (u.get_public ns key).symm
  | hashed ns coll keyHash =>
    by_cases hc : coll = []
    · rw [StateKey.writeKey, if_pos hc]
      apply AList.lookup_eq_none.mpr
      intro hm
      exact u.coll_ne_nil _ hm hc
    · rw [StateKey.writeKey, if_neg hc]
      exact (u.get_hashed hc).symm

/-- What the operations of one transaction on one key do to its entry: delete it, replace value and
metadata, replace the value and keep the metadata, or replace the metadata of an existing key. -/
def effect (ops : KeyOps) (txHeight : Version) (old : Option VersionedValue) : Option VersionedValue :=
  if ops.isDelete then none
  else if ops.isUpsertAndMetadataUpdate then some ⟨ops.value, ops.metadata, txHeight⟩
  else if ops.isOnlyUpsert then some ⟨ops.value, (old.map VersionedValue.metadata).getD [], txHeight⟩
  else old.map fun vv => ⟨vv.value, ops.metadata, txHeight⟩

def operation (txHeight : Version) (old : Option VersionedValue) : KeyOp → Option VersionedValue
  | .upsert value => some ⟨some value, (old.map VersionedValue.metadata).getD [], txHeight⟩
  | .metadataUpdate metadata => old.map fun vv => ⟨vv.value, metadata, txHeight⟩
  | .metadataDelete => old.map fun vv => ⟨vv.value, [], txHeight⟩
  | .delete => none

/-- A write set with at most one write of a key, followed by at most one update of its metadata, acts
on the key as its operations one after the other. -/
theorem effect_eq_operations {ops : List KeyOp}
    (h : (∃ op, ops = [op]) ∨ ∃ w md, w.isWrite = true ∧ md.isWrite = false ∧ ops = [w, md]) (txHeight : Version)
    (old : Option VersionedValue) :
    effect (ops.foldl KeyOps.apply {}) txHeight old = ops.foldl (operation txHeight) old := by
  rcases h with ⟨op, rfl⟩ | ⟨w, md, hw, hmd, rfl⟩
  · cases op <;> simp [effect, operation, KeyOps.apply, KeyOps.isDelete, KeyOps.isUpsertAndMetadataUpdate,
      KeyOps.isOnlyUpsert, flag_bits]
  · cases w with
    | metadataUpdate | metadataDelete => cases hw
    | upsert | delete =>
      cases md with
      | upsert | delete => cases hmd
      | metadataUpdate | metadataDelete =>
        simp [effect, operation, KeyOps.apply, KeyOps.isDelete, KeyOps.isUpsertAndMetadataUpdate, flag_bits]

/-- Whether operations can be merged with the entry that the preceding transactions of the block left:
a value that is to be kept must not be the nil value of a deletion. -/
def Mergeable (ops : KeyOps) (preceding : Option VersionedValue) : Prop :=
  ops.isDelete ∨
    if ops.isUpsertAndMetadataUpdate ∨ ops.isOnlyUpsert then ops.value ≠ none
    else ∀ vv, preceding = some vv → vv.value ≠ none

def PlainDeletes (u : PublicAndHashUpdates) : Prop :=
  ∀ c vv, u.get c = some vv → vv.value = none → vv.metadata = []

theorem PlainDeletes.new : PlainDeletes newPubAndHashUpdates := by
  intro c vv h
  rw [newPubAndHashUpdates_get] at h
  cases h

section

variable {u u' : PublicAndHashUpdates} {db : StateDB} {ops : List (CompositeKey × KeyOp)} {txHeight : Version}
  {o : KeyOps}

theorem writable_of_applyLtxWriteSet (h : applyLtxWriteSet u ops txHeight db = .ok u') {o' : KeyOps}
    (ho : (applyLtxRwset ops).lookup c = some o) (ho' : prepareKeyOps u db c o = some o') : Writable o' := by
  have hl : (prepareLtxOps u db (applyLtxRwset ops)).lookup c = some o' := by
    rw [lookup_prepareLtxOps, ho]
    exact ho'
  exact (applyLtxWriteSet_eq_ok_iff.mp h).1 ⟨c, o'⟩ (AList.mem_lookup_iff.mp hl)

theorem PlainDeletes.applyLtxWriteSet (hu : PlainDeletes u) (h : applyLtxWriteSet u ops txHeight db = .ok u') :
    PlainDeletes u' := by
  intro c vv hvv hn
  rw [get_of_applyLtxWriteSet h c] at hvv
  cases hl : ((applyLtxRwset ops).lookup c).bind (prepareKeyOps u db c) with
  | none =>
    rw [hl] at hvv
    exact hu c vv hvv hn
  | some o =>
    rw [hl, elim_some, Option.some.injEq] at hvv
    obtain ⟨o₀, ho₀, ho⟩ := bind_eq_some_iff.mp hl
    have hw : Writable o := writable_of_applyLtxWriteSet h ho₀ ho
    subst hvv
    by_cases hd : o.isDelete
    · simp [batchEntry, hd]
    · simp only [batchEntry, hd, Bool.false_eq_true, if_false] at hn
      exact absurd hn (hw.resolve_left hd)

def latest (u : PublicAndHashUpdates) (db : StateDB) (c : CompositeKey) : Option VersionedValue :=
  (u.get c).elim (db c.dataKey) VersionedValue.stored

theorem retrieveLatestMetadata_eq_latest (hu : PlainDeletes u) (c : CompositeKey) :
    retrieveLatestMetadata u db c = ((latest u db c).map VersionedValue.metadata).getD [] := by
  rw [retrieveLatestMetadata, latest]
  cases hg : u.get c with
  | none => rfl
  | some vv =>
    by_cases hvv : vv.value = none
    · simp [VersionedValue.stored, hvv, hu c vv hg hvv]
    · simp [VersionedValue.stored, hvv]

theorem retrieveLatestState_eq_latest (h : ∀ vv, u.get c = some vv → vv.value ≠ none) :
    retrieveLatestState u db c = latest u db c := by
  rw [retrieveLatestState, latest]
  cases hg : u.get c with
  | none => rfl
  | some vv => simp [VersionedValue.stored, h vv hg]

theorem latest_value_ne_none (hdb : ∀ key vv, db key = some vv → vv.value ≠ none) {vv : VersionedValue}
    (h : latest u db c = some vv) : vv.value ≠ none := by
  rw [latest] at h
  cases hg : u.get c with
  | none =>
    rw [hg] at h
    exact hdb _ _ h
  | some vv' =>
    rw [hg, elim_some, VersionedValue.stored] at h
    by_cases hvv : vv'.value = none
    · rw [if_pos hvv] at h
      cases h
    · rw [if_neg hvv] at h
      cases h
      exact hvv

theorem effect_of_prepareKeyOps (txHeight : Version) (hu : PlainDeletes u)
    (hdb : ∀ key vv, db key = some vv → vv.value ≠ none) (hm : Mergeable o (u.get c)) :
    (∀ o', prepareKeyOps u db c o = some o' → Writable o') ∧
      ((prepareKeyOps u db c o).elim (latest u db c) fun o' => (batchEntry o' txHeight).stored) =
        effect o txHeight (latest u db c) := by
  rw [prepareKeyOps, effect]
  by_cases hd : o.isDelete
  · simp [hd, Writable, batchEntry, VersionedValue.stored]
  have hm' := hm.resolve_left hd
  by_cases hum : o.isUpsertAndMetadataUpdate
  · have hv : o.value ≠ none := by simpa [hum] using hm'
    simp [hd, hum, hv, Writable, batchEntry, VersionedValue.stored]
  by_cases hou : o.isOnlyUpsert
  · have hv : o.value ≠ none := by simpa [hou] using hm'
    have hdl (metadata : Bytes) : ({ o with metadata } : KeyOps).isDelete = false := eq_false_of_ne_true hd
    rw [← retrieveLatestMetadata_eq_latest hu]
    simp [hd, hum, hou, hv, hdl, Writable, batchEntry, VersionedValue.stored]
  · have hv : ∀ vv, u.get c = some vv → vv.value ≠ none := by simpa [hum, hou] using hm'
    have hdl (value : Option Bytes) : ({ o with value } : KeyOps).isDelete = false := eq_false_of_ne_true hd
    rw [retrieveLatestState_eq_latest hv]
    cases hl : latest u db c with
    | none => simp [hd, hum, hou]
    | some vv => simp [hd, hum, hou, hdl, latest_value_ne_none hdb hl, Writable, batchEntry, VersionedValue.stored]

theorem mergeable_of_writable (h : ∀ o', prepareKeyOps u db c o = some o' → Writable o') : Mergeable o (u.get c) := by
  by_cases hd : o.isDelete
  · exact .inl hd
  right
  by_cases hum : o.isUpsertAndMetadataUpdate
  · rw [if_pos (.inl hum)]
    exact (h o (by simp [prepareKeyOps, hum])).resolve_left hd
  by_cases hou : o.isOnlyUpsert
  · rw [if_pos (.inr hou)]
    have hw := h { o with metadata := retrieveLatestMetadata u db c } (by simp [prepareKeyOps, hd, hum, hou])
    exact hw.resolve_left hd
  · rw [if_neg (by simp [hum, hou])]
    intro vv hvv
    have hw := h { o with value := vv.value } (by simp [prepareKeyOps, hd, hum, hou, retrieveLatestState, hvv])
    exact hw.resolve_left hd

theorem latest_of_applyLtxWriteSet (hu : PlainDeletes u) (hdb : ∀ key vv, db key = some vv → vv.value ≠ none)
    (h : applyLtxWriteSet u ops txHeight db = .ok u') (c : CompositeKey) :
    latest u' db c = ((applyLtxRwset ops).lookup c).elim (latest u db c) fun o => effect o txHeight (latest u db c) := by
  rw [latest, get_of_applyLtxWriteSet h c]
  cases ho : (applyLtxRwset ops).lookup c with
  | none => rfl
  | some o =>
    have hm : Mergeable o (u.get c) := mergeable_of_writable fun o' ho' => writable_of_applyLtxWriteSet h ho ho'
    have he := (effect_of_prepareKeyOps txHeight hu hdb hm).2
    rw [bind_some, elim_some, ← he]
    cases prepareKeyOps u db c o <;> rfl

theorem get_of_get_applyLtxWriteSet_eq_none (h : applyLtxWriteSet u ops txHeight db = .ok u') (hc : u'.get c = none) :
    u.get c = none := by
  rw [get_of_applyLtxWriteSet h c] at hc
  cases hl : ((applyLtxRwset ops).lookup c).bind (prepareKeyOps u db c) with
  | none => simpa [hl] using hc
  | some o => simp [hl] at hc

end

section

variable {sha256 : Bytes → Bytes} {serialize : List KVMetadataEntry → Bytes} {store : StateStore}
  {u u' : PublicAndHashUpdates} {rwset : TxRwSet} {txHeight : Version}

theorem exists_applyLtxWriteSet {db : StateDB} {ops : List (CompositeKey × KeyOp)} (hu : PlainDeletes u)
    (hdb : ∀ key vv, db key = some vv → vv.value ≠ none)
    (h : ∀ c o, (applyLtxRwset ops).lookup c = some o → Mergeable o (u.get c)) :
    ∃ u', applyLtxWriteSet u ops txHeight db = .ok u' := by
  refine ⟨_, applyLtxWriteSet_eq_ok_iff.mpr ⟨?_, rfl⟩⟩
  intro e he
  have hl : (prepareLtxOps u db (applyLtxRwset ops)).lookup e.1 = some e.2 := AList.mem_lookup_iff.mpr he
  rw [lookup_prepareLtxOps, bind_eq_some_iff] at hl
  obtain ⟨o, ho, ho'⟩ := hl
  exact (effect_of_prepareKeyOps txHeight hu hdb (h e.1 o ho)).1 e.2 ho'

theorem exists_applyWriteSet_iff (hu : PlainDeletes u) :
    (∃ u', applyWriteSet sha256 serialize u rwset txHeight store.db = .ok u') ↔
      ∀ c o, (applyTxRwset sha256 serialize rwset).lookup c = some o → Mergeable o (u.get c) := by
  rw [applyTxRwset_eq_ltx]
  simp only [applyWriteSet_eq_ltx]
  constructor
  · rintro ⟨u', h⟩ c o ho
    exact mergeable_of_writable fun o' ho' => writable_of_applyLtxWriteSet h ho ho'
  · intro h
    exact exists_applyLtxWriteSet hu store.value_ne_none h

theorem PlainDeletes.applyWriteSet (hu : PlainDeletes u)
    (h : applyWriteSet sha256 serialize u rwset txHeight store.db = .ok u') : PlainDeletes u' := by
  rw [applyWriteSet_eq_ltx] at h
  exact hu.applyLtxWriteSet h

theorem update_eq_latest (h : k.writeKey = some c) : store.state.update u k = latest u store.db c := by
  rw [State.update, entry_eq_get, h, StateStore.state, ← StateKey.writeKey_dataKey h]
  rfl

end

end Drunix.Ledger.Validation
