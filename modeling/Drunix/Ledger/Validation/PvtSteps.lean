import Mathlib.Data.List.Dedup
import Drunix.Ledger.Validation.TxViews
import Drunix.Ledger.Validation.WriteSets

namespace Drunix.Ledger.Validation

open Lib Proto Outcome List Option

section

variable (sha256 : Bytes → Bytes) (serialize : List KVMetadataEntry → Bytes)
  (unmarshalKVRWSet : Bytes → Option KVRWSet)

def pvtWriteOps (pvtRWSet : List CollPvtRwSet) : List (CompositeKey × KeyOp) :=
  (pvtWrites pvtRWSet).map fun e => (e.1, ltxKVWriteOp e.2)

def pvtMetadataOps (pvtRWSet : List CollPvtRwSet) : List (CompositeKey × KeyOp) :=
  pvtRWSet.flatMap fun c =>
    c.kvRwSet.metadataWrites.map fun w => (⟨c.ns, c.coll, w.key⟩, ltxMetadataOp serialize w.entries)

def suppliedOps (pvtdata : UInt64 → Option TxPvtData) (tx : PvtTx) : List (CompositeKey × KeyOp) :=
  match usedPvtData pvtdata tx with
  | none => []
  | some txPvtdata =>
    match txPvtRwSetFromProtoMsg unmarshalKVRWSet txPvtdata.writeSet with
    | .ok pvtRWSet => pvtWriteOps pvtRWSet ++ pvtMetadataOps serialize pvtRWSet
    | _ => []

def hashOp : KeyOp → KeyOp
  | .upsert value => .upsert (sha256 value)
  | op => op

def PlainOps (ops : List KeyOp) : Prop :=
  ops = [] ∨ (∃ op, ops = [op]) ∨ ∃ w md, w.isWrite = true ∧ md.isWrite = false ∧ ops = [w, md]

/-- Every write of the key hash by a valid transaction of the block comes with the private write
behind it. -/
def WritesSupplied (blk : LedgerBlock) (codes : List TxValidationCode) (pvtdata : UInt64 → Option TxPvtData)
    (pk : CompositeKey) : Prop :=
  ∀ v ∈ valid (blk.views sha256 serialize) codes,
    PlainOps (opsFor (suppliedOps serialize unmarshalKVRWSet pvtdata v.pvtTx) pk) ∧
      opsFor v.ops (hashedKey sha256 pk) =
        (opsFor (suppliedOps serialize unmarshalKVRWSet pvtdata v.pvtTx) pk).map (hashOp sha256)

/-- The valid transactions that write the private key commit at the number of the block and their
index in it. -/
def WritersAtBlockHeight (blk : LedgerBlock) (codes : List TxValidationCode) (pvtdata : UInt64 → Option TxPvtData)
    (pk : CompositeKey) : Prop :=
  ∀ v ∈ valid (blk.views sha256 serialize) codes,
    (∃ op ∈ opsFor (suppliedOps serialize unmarshalKVRWSet pvtdata v.pvtTx) pk, op.isWrite = true) →
      blk.committingTxHeight v.pvtTx.indexInBlock = .ok ⟨blk.num, UInt64.ofNat v.pvtTx.indexInBlock⟩

structure NamedBlock (blk : LedgerBlock) (pvtdata : UInt64 → Option TxPvtData) : Prop where
  ops : ∀ v ∈ blk.views sha256 serialize, ∀ e ∈ v.ops, e.1.WellNamed
  pvtdata : ∀ i txPvtdata writeSet, pvtdata i = some txPvtdata → txPvtdata.writeSet = some writeSet →
    ∀ c ∈ writeSet.collections, CompositeKey.WellNamed ⟨c.ns, c.coll, []⟩

end

theorem opsFor_append (l l' : List (CompositeKey × KeyOp)) (c : CompositeKey) :
    opsFor (l ++ l') c = opsFor l c ++ opsFor l' c := by
  rw [opsFor, filter_append, map_append]
  rfl

variable {pk : CompositeKey} {pvtRWSet : List CollPvtRwSet} {op : KeyOp}

theorem isWrite_of_mem_pvtWriteOps (h : op ∈ opsFor (pvtWriteOps pvtRWSet) pk) : op.isWrite = true := by
  obtain ⟨e, he, rfl⟩ := mem_map.mp h
  obtain ⟨w, _, rfl⟩ := mem_map.mp (mem_filter.mp he).1
  rw [ltxKVWriteOp]
  split <;> rfl

section

variable {serialize : List KVMetadataEntry → Bytes}

theorem not_isWrite_of_mem_pvtMetadataOps (h : op ∈ opsFor (pvtMetadataOps serialize pvtRWSet) pk) :
    op.isWrite = false := by
  obtain ⟨e, he, rfl⟩ := mem_map.mp h
  obtain ⟨c, _, hc⟩ := mem_flatMap.mp (mem_filter.mp he).1
  obtain ⟨w, _, rfl⟩ := mem_map.mp hc
  rw [ltxMetadataOp]
  split <;> rfl

theorem mem_metadataKeys (h : opsFor (pvtMetadataOps serialize pvtRWSet) pk ≠ []) : pk ∈ metadataKeys pvtRWSet := by
  obtain ⟨e, he, rfl⟩ := exists_of_opsFor_ne_nil h
  obtain ⟨c, hc, he⟩ := mem_flatMap.mp he
  obtain ⟨w, hw, rfl⟩ := mem_map.mp he
  exact mem_flatMap.mpr ⟨c, hc, mem_map.mpr ⟨w, hw, rfl⟩⟩

end

def latestPvt (p : PvtUpdates) (db : StateDB) (k : CompositeKey) : Option VersionedValue :=
  (p.lookup k).elim (db (pvtDataKey k)) VersionedValue.stored

def SameAt (ver : Version) (pvt hash : Option VersionedValue) : Prop :=
  pvt.map VersionedValue.version = hash.map VersionedValue.version ∧ ∀ vv, hash = some vv → vv.version = ver

def HashOf (sha256 : Bytes → Bytes) (pvt hash : Option VersionedValue) : Prop :=
  pvt.map (fun vv => vv.value.map sha256) = hash.map VersionedValue.value

variable {acc : PvtUpdates × List CompositeKey} {store : StateStore}

section

variable {sha256 : Bytes → Bytes} {serialize : List KVMetadataEntry → Bytes} {unmarshalKVRWSet : Bytes → Option KVRWSet}

theorem pvtWriteEntry_eq (w : KVWrite) (ver : Version) : pvtWriteEntry w ver = ⟨(ltxKVWriteOp w).newValue, [], ver⟩ := by
  rw [pvtWriteEntry, ltxKVWriteOp]
  split <;> rfl

theorem lookup_addPvtRWSet (pvtRWSet : List CollPvtRwSet) (p : PvtUpdates) (ver : Version) (k : CompositeKey) :
    (addPvtRWSetToPvtUpdateBatch pvtRWSet p ver).lookup k =
      ((opsFor (pvtWriteOps pvtRWSet) k).getLast?.map fun op => ⟨op.newValue, [], ver⟩).or (p.lookup k) := by
  rw [addPvtRWSetToPvtUpdateBatch, pvtWriteOps]
  generalize pvtWrites pvtRWSet = writes
  induction writes using List.reverseRecOn with
  | nil => rfl
  | append_singleton writes e ih =>
    rw [foldl_concat, map_append, opsFor_append]
    by_cases hk : k = e.1
    · have ho : opsFor ([e].map fun e => (e.1, ltxKVWriteOp e.2)) k = [ltxKVWriteOp e.2] := by
        simp [opsFor, hk]
      rw [ho, getLast?_concat, hk, AList.lookup_insert, pvtWriteEntry_eq]
      rfl
    · have ho : opsFor ([e].map fun e => (e.1, ltxKVWriteOp e.2)) k = [] := by
        simp [opsFor, Ne.symm hk]
      rw [ho, append_nil, AList.lookup_insert_ne hk, ih]

variable {hash pvt : Option VersionedValue} {ops : List KeyOp} {txHeight ver : Version}

theorem HashOf.writes (ho : ∀ op ∈ ops, op.isWrite = true) (h : HashOf sha256 pvt hash) :
    HashOf sha256 (ops.getLast?.elim pvt fun op => VersionedValue.stored ⟨op.newValue, [], ver⟩)
      ((ops.map (hashOp sha256)).foldl (operation txHeight) hash) := by
  rcases eq_nil_or_concat' ops with rfl | ⟨before, op, rfl⟩
  · exact h
  rw [foldl_map, foldl_concat, getLast?_concat]
  have hw := ho op (by simp)
  cases op with
  | metadataUpdate | metadataDelete => cases hw
  | upsert | delete => rfl

theorem SameAt.writes (ho : ∀ op ∈ ops, op.isWrite = true) (hne : ops ≠ []) :
    SameAt ver (ops.getLast?.elim pvt fun op => VersionedValue.stored ⟨op.newValue, [], ver⟩)
      ((ops.map (hashOp sha256)).foldl (operation ver) hash) := by
  obtain ⟨before, op, rfl⟩ := (eq_nil_or_concat' ops).resolve_left hne
  rw [foldl_map, foldl_concat, getLast?_concat]
  have hw := ho op (by simp)
  cases op with
  | metadataUpdate | metadataDelete => cases hw
  | upsert value => exact ⟨rfl, by rintro vv ⟨rfl⟩; rfl⟩
  | delete => exact ⟨rfl, nofun⟩

theorem SameAt.foldl_metadata (ho : ∀ op ∈ ops, op.isWrite = false) (h : SameAt ver pvt hash) :
    SameAt ver pvt ((ops.map (hashOp sha256)).foldl (operation ver) hash) := by
  rw [foldl_map]
  refine foldlRecOn ops _ h fun hash h op hop => ?_
  have hw := ho op hop
  cases op with
  | upsert | delete => cases hw
  | metadataUpdate | metadataDelete =>
    cases hash with
    | none => exact h
    | some vv => exact ⟨h.1.trans (congrArg some (h.2 vv rfl)), by rintro vv' ⟨rfl⟩; rfl⟩

theorem HashOf.foldl_metadata (ho : ∀ op ∈ ops, op.isWrite = false) (h : HashOf sha256 pvt hash) :
    HashOf sha256 pvt ((ops.map (hashOp sha256)).foldl (operation txHeight) hash) := by
  rw [foldl_map]
  refine foldlRecOn ops _ h fun hash h op hop => h.trans ?_
  have hw := ho op hop
  cases op with
  | upsert | delete => cases hw
  | metadataUpdate | metadataDelete => cases hash <;> rfl

theorem hashOp_isWrite (op : KeyOp) : (hashOp sha256 op).isWrite = op.isWrite := by
  cases op <;> rfl

theorem PlainOps.map_hashOp (h : PlainOps ops) : PlainOps (ops.map (hashOp sha256)) := by
  rcases h with rfl | ⟨op, rfl⟩ | ⟨w, md, hw, hmd, rfl⟩
  · exact .inl rfl
  · exact .inr (.inl ⟨_, rfl⟩)
  · refine .inr (.inr ⟨hashOp sha256 w, hashOp sha256 md, ?_, ?_, rfl⟩)
    · rw [hashOp_isWrite, hw]
    · rw [hashOp_isWrite, hmd]

variable {u u' : PublicAndHashUpdates} {db : StateDB}

theorem PlainOps.latest_eq {ops : List (CompositeKey × KeyOp)} {c : CompositeKey} (h : PlainOps (opsFor ops c))
    (hu : PlainDeletes u) (hdb : ∀ key vv, db key = some vv → vv.value ≠ none)
    (ha : applyLtxWriteSet u ops txHeight db = .ok u') :
    latest u' db c = (opsFor ops c).foldl (operation txHeight) (latest u db c) := by
  rw [latest_of_applyLtxWriteSet hu hdb ha c, lookup_applyLtxRwset]
  rcases h with hnil | hpl
  · rw [hnil]
    rfl
  · have hne : opsFor ops c ≠ [] := by
      rcases hpl with ⟨op, h⟩ | ⟨w, md, _, _, h⟩ <;> simp [h]
    rw [if_neg hne]
    exact effect_eq_operations hpl txHeight _

/-- During the preparation of a block the two entries may only differ in their version, and only if the
metadata of the key hash was updated, which is made up for at the end. -/
structure InStep (sha256 : Bytes → Bytes) (db : StateDB) (pk : CompositeKey) (u : PublicAndHashUpdates)
    (acc : PvtUpdates × List CompositeKey) : Prop where
  plainDeletes : PlainDeletes u
  values : HashOf sha256 (latestPvt acc.1 db pk) (latest u db (hashedKey sha256 pk))
  versions : (pk ∈ acc.2 ∧ u.get (hashedKey sha256 pk) ≠ none) ∨
    (latestPvt acc.1 db pk).map VersionedValue.version =
      (latest u db (hashedKey sha256 pk)).map VersionedValue.version

variable {acc' : PvtUpdates × List CompositeKey} {pvtdata : UInt64 → Option TxPvtData} {blk : LedgerBlock}

theorem addTxPvtData_eq_ok (serialize : List KVMetadataEntry → Bytes) {num : UInt64} {tx : PvtTx}
    (h : addTxPvtData sha256 unmarshalKVRWSet num pvtdata acc tx = .ok acc') :
    (acc' = acc ∧ suppliedOps serialize unmarshalKVRWSet pvtdata tx = []) ∨
      ∃ txPvtdata pvtRWSet, usedPvtData pvtdata tx = some txPvtdata ∧
        txPvtRwSetFromProtoMsg unmarshalKVRWSet txPvtdata.writeSet = .ok pvtRWSet ∧
        acc' = (addPvtRWSetToPvtUpdateBatch pvtRWSet acc.1 ⟨num, UInt64.ofNat tx.indexInBlock⟩,
          acc.2 ++ metadataKeys pvtRWSet) ∧
        suppliedOps serialize unmarshalKVRWSet pvtdata tx = pvtWriteOps pvtRWSet ++ pvtMetadataOps serialize pvtRWSet := by
  rw [addTxPvtData] at h
  rw [suppliedOps]
  cases hu : usedPvtData pvtdata tx with
  | none =>
    rw [hu] at h
    cases h
    exact .inl ⟨rfl, rfl⟩
  | some txPvtdata =>
    rw [hu] at h
    obtain ⟨_, _, h⟩ := bind_eq_ok.mp h
    obtain ⟨pvtRWSet, hst, h⟩ := bind_eq_ok.mp h
    cases h
    exact .inr ⟨txPvtdata, pvtRWSet, rfl, hst, rfl, by simp only [hst]⟩

/-- A transaction without a write of the key: a metadata update marks it, unless it found no entry and
was dropped. -/
theorem InStep.versions_of_metadata {keys : List CompositeKey} (h : InStep sha256 db pk u acc)
    (hn : u'.get (hashedKey sha256 pk) = none → u.get (hashedKey sha256 pk) = none)
    (hlt : latest u' db (hashedKey sha256 pk) = ops.foldl (operation txHeight) (latest u db (hashedKey sha256 pk)))
    (hk : pk ∈ acc.2 → pk ∈ keys) (ho : ops ≠ [] → pk ∈ keys) :
    (pk ∈ keys ∧ u'.get (hashedKey sha256 pk) ≠ none) ∨
      (latestPvt acc.1 db pk).map VersionedValue.version =
        (latest u' db (hashedKey sha256 pk)).map VersionedValue.version := by
  by_cases hg : u'.get (hashedKey sha256 pk) = none
  · have hsm : latest u' db (hashedKey sha256 pk) = latest u db (hashedKey sha256 pk) := by
      rw [latest, latest, hg, hn hg]
    rw [hsm]
    exact h.versions.imp_left fun hmd => absurd (hn hg) hmd.2
  · by_cases hnil : ops = []
    · rw [hlt, hnil]
      exact h.versions.imp_left fun hmd => ⟨hk hmd.1, hg⟩
    · exact .inl ⟨ho hnil, hg⟩

theorem InStep.step {v : TxView} (h : InStep sha256 store.db pk u acc) (ha : applyView blk store.db u v = .ok u')
    (had : addTxPvtData sha256 unmarshalKVRWSet blk.num pvtdata acc v.pvtTx = .ok acc')
    (hpl : PlainOps (opsFor (suppliedOps serialize unmarshalKVRWSet pvtdata v.pvtTx) pk))
    (ho : opsFor v.ops (hashedKey sha256 pk) =
      (opsFor (suppliedOps serialize unmarshalKVRWSet pvtdata v.pvtTx) pk).map (hashOp sha256))
    (hh : (∃ op ∈ opsFor (suppliedOps serialize unmarshalKVRWSet pvtdata v.pvtTx) pk, op.isWrite = true) →
      blk.committingTxHeight v.pvtTx.indexInBlock = .ok ⟨blk.num, UInt64.ofNat v.pvtTx.indexInBlock⟩) :
    InStep sha256 store.db pk u' acc' := by
  obtain ⟨txHeight, htx, ha⟩ := bind_eq_ok.mp ha
  have hlt := (ho ▸ hpl.map_hashOp : PlainOps (opsFor v.ops (hashedKey sha256 pk))).latest_eq h.plainDeletes
    store.value_ne_none ha
  have hnn := get_of_get_applyLtxWriteSet_eq_none ha (c := hashedKey sha256 pk)
  rw [ho] at hlt
  rcases addTxPvtData_eq_ok serialize had with ⟨rfl, hnil⟩ | ⟨_, pvtRWSet, _, _, rfl, hsp⟩
  · rw [hnil] at hlt
    refine ⟨h.plainDeletes.applyLtxWriteSet ha, ?_, ?_⟩
    · rw [hlt]
      exact h.values
    · exact h.versions_of_metadata hnn hlt (fun hm => hm) fun hne => absurd rfl hne
  · rw [hsp, opsFor_append, map_append, foldl_append] at hlt
    rw [hsp, opsFor_append] at hh
    have hw : ∀ op ∈ opsFor (pvtWriteOps pvtRWSet) pk, op.isWrite = true := fun op hop =>
      isWrite_of_mem_pvtWriteOps hop
    have hmt : ∀ op ∈ opsFor (pvtMetadataOps serialize pvtRWSet) pk, op.isWrite = false := fun op hop =>
      not_isWrite_of_mem_pvtMetadataOps hop
    have hp : latestPvt (addPvtRWSetToPvtUpdateBatch pvtRWSet acc.1 ⟨blk.num, UInt64.ofNat v.pvtTx.indexInBlock⟩)
        store.db pk = (opsFor (pvtWriteOps pvtRWSet) pk).getLast?.elim (latestPvt acc.1 store.db pk) fun op =>
          VersionedValue.stored ⟨op.newValue, [], ⟨blk.num, UInt64.ofNat v.pvtTx.indexInBlock⟩⟩ := by
      rw [latestPvt, lookup_addPvtRWSet]
      cases (opsFor (pvtWriteOps pvtRWSet) pk).getLast? <;> rfl
    refine ⟨h.plainDeletes.applyLtxWriteSet ha, ?_, ?_⟩
    · rw [hlt, hp]
      exact (h.values.writes hw).foldl_metadata hmt
    · by_cases hnil : opsFor (pvtWriteOps pvtRWSet) pk = []
      · rw [hnil] at hp
        rw [hnil, map_nil] at hlt
        rw [hp]
        exact h.versions_of_metadata hnn hlt (mem_append_left _) fun hne =>
          mem_append_right _ (mem_metadataKeys fun hmd => hne (by rw [hmd, map_nil]))
      · obtain ⟨op, hop⟩ := exists_mem_of_ne_nil _ hnil
        have hvr := hh ⟨op, mem_append_left _ hop, hw op hop⟩
        rw [htx, Outcome.ok.injEq] at hvr
        subst hvr
        rw [hlt, hp]
        exact .inr ((SameAt.writes hw hnil).foldl_metadata hmt).1

theorem InStep.foldlM {views : List TxView} (h : InStep sha256 store.db pk u acc)
    (hst : ∀ v ∈ views, ∀ u u' acc acc', InStep sha256 store.db pk u acc → applyView blk store.db u v = .ok u' →
      addTxPvtData sha256 unmarshalKVRWSet blk.num pvtdata acc v.pvtTx = .ok acc' → InStep sha256 store.db pk u' acc')
    (ha : views.foldlM (applyView blk store.db) u = .ok u')
    (had : (views.map TxView.pvtTx).foldlM (addTxPvtData sha256 unmarshalKVRWSet blk.num pvtdata) acc = .ok acc') :
    InStep sha256 store.db pk u' acc' := by
  induction views generalizing u acc with
  | nil =>
    cases ha
    cases had
    exact h
  | cons v views ih =>
    obtain ⟨u₁, ha₁, ha⟩ := bind_eq_ok.mp ha
    obtain ⟨acc₁, had₁, had⟩ := bind_eq_ok.mp had
    rw [forall_mem_cons] at hst
    exact ih (hst.1 u u₁ acc acc₁ h ha₁ had₁) hst.2 ha had

end

section

variable {sha256 : Bytes → Bytes} {u : PublicAndHashUpdates} {db : StateDB} {p p' : PvtUpdates} {k : CompositeKey}
  {ks : List CompositeKey} {pvt hash : VersionedValue}

theorem incrementVersion_eq_ok (h : incrementVersion sha256 u db p k = .ok p') :
    (p' = p ∧ ∀ hav latestVal, u.hashUpdates.lookup (hashedKey sha256 k) = some hav →
        retrieveLatestVal db p k = some latestVal →
        latestVal.version = hav.version ∨ sha256 (latestVal.value.getD []) ≠ hav.value.getD []) ∨
      ∃ hav latestVal value, u.hashUpdates.lookup (hashedKey sha256 k) = some hav ∧
        retrieveLatestVal db p k = some latestVal ∧ latestVal.value = some value ∧
        ¬ latestVal.version = hav.version ∧ sha256 value = hav.value.getD [] ∧
        p' = p.insert k ⟨some value, [], hav.version⟩ := by
  rw [incrementVersion] at h
  cases hh : u.hashUpdates.lookup (hashedKey sha256 k) with
  | none =>
    rw [hh] at h
    cases h
    exact .inl ⟨rfl, nofun⟩
  | some hav =>
    cases hlt : retrieveLatestVal db p k with
    | none =>
      rw [hh, hlt] at h
      cases h
      exact .inl ⟨rfl, fun _ _ _ => nofun⟩
    | some latestVal =>
      simp only [hh, hlt] at h
      split_ifs at h with hvr hhs
      · cases h
        exact .inl ⟨rfl, by rintro _ _ ⟨rfl⟩ ⟨rfl⟩; exact .inl hvr⟩
      · obtain ⟨value, hvl, h⟩ := bind_eq_ok.mp h
        cases h
        rw [deref_eq_ok] at hvl
        rw [hvl, getD_some] at hhs
        exact .inr ⟨hav, latestVal, value, rfl, rfl, hvl, hvr, hhs, rfl⟩
      · cases h
        exact .inl ⟨rfl, by rintro _ _ ⟨rfl⟩ ⟨rfl⟩; exact .inr hhs⟩

theorem lookup_incrementVersion_of_ne (h : incrementVersion sha256 u db p k = .ok p') (hne : pk ≠ k) :
    p'.lookup pk = p.lookup pk := by
  obtain ⟨rfl, _⟩ | ⟨_, _, _, _, _, _, _, _, rfl⟩ := incrementVersion_eq_ok h
  · rfl
  · exact AList.lookup_insert_ne hne

theorem lookup_foldlM_incrementVersion_of_notMem (hpk : pk ∉ ks)
    (h : ks.foldlM (incrementVersion sha256 u db) p = .ok p') : p'.lookup pk = p.lookup pk := by
  induction ks generalizing p with
  | nil =>
    cases h
    rfl
  | cons k ks ih =>
    obtain ⟨p₁, hp₁, h⟩ := bind_eq_ok.mp h
    rw [mem_cons, not_or] at hpk
    exact (ih hpk.2 h).trans (lookup_incrementVersion_of_ne hp₁ hpk.1)

theorem exists_incrementVersion_of_mem (hks : ks.Nodup) (hpk : pk ∈ ks)
    (h : ks.foldlM (incrementVersion sha256 u db) p = .ok p') :
    ∃ q q', q.lookup pk = p.lookup pk ∧ incrementVersion sha256 u db q pk = .ok q' ∧ p'.lookup pk = q'.lookup pk := by
  induction ks generalizing p with
  | nil => exact absurd hpk not_mem_nil
  | cons k ks ih =>
    rw [foldlM_cons, bind_eq_ok] at h
    obtain ⟨p₁, hp₁, h⟩ := h
    rw [nodup_cons] at hks
    by_cases hk : pk = k
    · subst hk
      exact ⟨p, p₁, rfl, hp₁, lookup_foldlM_incrementVersion_of_notMem hks.1 h⟩
    · obtain ⟨q, q', hq, hi, hp'⟩ := ih hks.2 ((mem_cons.mp hpk).resolve_left hk) h
      exact ⟨q, q', hq.trans (lookup_incrementVersion_of_ne hp₁ hk), hi, hp'⟩

def Synced (sha256 : Bytes → Bytes) (pvt hash : Option VersionedValue) : Prop :=
  HashOf sha256 pvt hash ∧ pvt.map VersionedValue.version = hash.map VersionedValue.version

theorem get_hashedKey (hc : pk.coll ≠ []) :
    u.get (hashedKey sha256 pk) = u.hashUpdates.lookup (hashedKey sha256 pk) :=
  if_neg hc

theorem latestPvt_congr {q : PvtUpdates} (h : q.lookup pk = p.lookup pk) :
    latestPvt q db pk = latestPvt p db pk := by
  rw [latestPvt, latestPvt, h]

theorem latestPvt_eq_bind (hdb : ∀ key vv, db key = some vv → vv.value ≠ none) (pk : CompositeKey) :
    latestPvt p db pk = (retrieveLatestVal db p pk).bind VersionedValue.stored := by
  rw [latestPvt, retrieveLatestVal]
  cases p.lookup pk with
  | some vv => rfl
  | none =>
    cases hvv : db (pvtDataKey pk) with
    | none => rfl
    | some vv => exact (if_neg (hdb _ _ hvv)).symm

theorem HashOf.value_eq (h : HashOf sha256 pvt.stored hash.stored) : hash.value = pvt.value.map sha256 := by
  rw [HashOf, VersionedValue.stored, VersionedValue.stored] at h
  cases hp : pvt.value with
  | none =>
    cases hh : hash.value with
    | none => rfl
    | some x => simp [hp, hh] at h
  | some x =>
    cases hh : hash.value with
    | none => simp [hp, hh] at h
    | some y => simpa [hp, hh, eq_comm] using h

theorem synced_of_value_eq (hvl : hash.value = pvt.value.map sha256)
    (hvr : pvt.version = hash.version ∨ pvt.value = none) : Synced sha256 pvt.stored hash.stored := by
  rw [VersionedValue.stored, VersionedValue.stored, hvl]
  cases hp : pvt.value with
  | none => exact ⟨rfl, rfl⟩
  | some value =>
    have hv' := hvr.resolve_right (by simp [hp])
    exact ⟨by simp [HashOf, hp, hvl], by simpa using hv'⟩

theorem synced_incrementVersion (hc : pk.coll ≠ []) (hdb : ∀ key vv, db key = some vv → vv.value ≠ none)
    (hg : u.get (hashedKey sha256 pk) ≠ none)
    (hvl : HashOf sha256 (latestPvt p db pk) (latest u db (hashedKey sha256 pk)))
    (h : incrementVersion sha256 u db p pk = .ok p') :
    Synced sha256 (latestPvt p' db pk) (latest u db (hashedKey sha256 pk)) := by
  obtain ⟨hav, hh⟩ := ne_none_iff_exists'.mp hg
  have hlk : u.hashUpdates.lookup (hashedKey sha256 pk) = some hav := by
    rw [← hh]
    exact (get_hashedKey hc).symm
  rw [latest, hh, elim_some] at hvl ⊢
  rw [latestPvt_eq_bind hdb] at hvl
  obtain ⟨rfl, hk⟩ | ⟨hav', latestVal, value, hh', hval, hva, -, -, rfl⟩ := incrementVersion_eq_ok h
  · rw [latestPvt_eq_bind hdb]
    cases hval : retrieveLatestVal db p' pk with
    | none =>
      rw [hval] at hvl
      have hst : hav.stored = none := map_eq_none_iff.mp hvl.symm
      exact ⟨hvl, by rw [hst]; rfl⟩
    | some latestVal =>
      rw [hval] at hvl
      have hva := hvl.value_eq
      refine synced_of_value_eq hva ((hk hav latestVal hlk hval).imp_right fun hne => ?_)
      by_contra hsm
      obtain ⟨value, hlv⟩ := ne_none_iff_exists'.mp hsm
      rw [hva, hlv] at hne
      exact hne rfl
  · obtain rfl := Option.some.inj (hlk.symm.trans hh')
    rw [hval] at hvl
    rw [latestPvt, AList.lookup_insert]
    refine synced_of_value_eq ?_ (.inl rfl)
    rw [hvl.value_eq, hva]

theorem Synced.of_inStep (hc : pk.coll ≠ []) (h : InStep sha256 store.db pk u acc)
    (hi : acc.2.dedup.foldlM (incrementVersion sha256 u store.db) acc.1 = .ok p') :
    Synced sha256 (latestPvt p' store.db pk) (latest u store.db (hashedKey sha256 pk)) := by
  by_cases hm : pk ∈ acc.2.dedup
  · obtain ⟨q, q', hq, hst, hp'⟩ := exists_incrementVersion_of_mem acc.2.nodup_dedup hm hi
    have hvl := h.values
    rw [← latestPvt_congr hq] at hvl
    rw [latestPvt_congr hp']
    by_cases hg : u.get (hashedKey sha256 pk) = none
    · have hvr := h.versions.resolve_left fun hmd => hmd.2 hg
      have hn : u.hashUpdates.lookup (hashedKey sha256 pk) = none := by
        rw [← hg]
        exact (get_hashedKey hc).symm
      rw [incrementVersion, hn] at hst
      cases hst
      rw [latestPvt_congr hq]
      exact ⟨h.values, hvr⟩
    · exact synced_incrementVersion hc store.value_ne_none hg hvl hst
  · rw [latestPvt_congr (lookup_foldlM_incrementVersion_of_notMem hm hi)]
    rw [mem_dedup] at hm
    exact ⟨h.values, h.versions.resolve_left fun hmd => hm hmd.1⟩

end

end Drunix.Ledger.Validation
