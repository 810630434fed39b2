import Drunix.Ledger.Validation.TxViews
import Drunix.Ledger.Validation.WriteSets

namespace Drunix.Ledger.Validation

open Lib Proto Outcome List Option

def resets (ops : KeyOps) : Bool :=
  ops.isDelete || ops.isUpsertAndMetadataUpdate

def isOnlyMetadata (ops : KeyOps) : Bool :=
  !resets ops && !ops.isOnlyUpsert

def keepsMetadata (ops : KeyOps) : Bool :=
  !resets ops && ops.isOnlyUpsert

def effects (ops : List (KeyOps × Version)) (row : Option VersionedValue) : Option VersionedValue :=
  ops.foldl (fun row op => effect op.1 op.2 row) row

section

variable {ops : List (KeyOps × Version)} {row row' : Option VersionedValue} {op : KeyOps} {ver : Version} {α : Type}

theorem isOnlyMetadata_iff : isOnlyMetadata op = true ↔ resets op = false ∧ op.isOnlyUpsert = false := by
  rw [isOnlyMetadata, Bool.and_eq_true, Bool.not_eq_true', Bool.not_eq_true']

theorem keepsMetadata_iff : keepsMetadata op = true ↔ resets op = false ∧ op.isOnlyUpsert = true := by
  rw [keepsMetadata, Bool.and_eq_true, Bool.not_eq_true']

theorem effect_of_resets (h : resets op = true) (row row' : Option VersionedValue) :
    effect op ver row = effect op ver row' := by
  rw [effect, effect]
  rw [resets, Bool.or_eq_true] at h
  by_cases hd : op.isDelete
  · rw [if_pos hd, if_pos hd]
  · rw [if_neg hd, if_neg hd, if_pos (h.resolve_left hd), if_pos (h.resolve_left hd)]

theorem effect_of_keepsMetadata (h : keepsMetadata op = true) :
    effect op ver row = some ⟨op.value, (row.map VersionedValue.metadata).getD [], ver⟩ := by
  rw [keepsMetadata_iff, resets, Bool.or_eq_false_iff] at h
  simp [effect, h]

theorem effect_of_isOnlyMetadata (h : isOnlyMetadata op = true) :
    effect op ver row = row.map fun vv => ⟨vv.value, op.metadata, ver⟩ := by
  rw [isOnlyMetadata_iff, resets, Bool.or_eq_false_iff] at h
  simp [effect, h]

theorem keepsMetadata_or (h : resets op = false) : keepsMetadata op = true ∨ isOnlyMetadata op = true := by
  rw [keepsMetadata, isOnlyMetadata, h]
  cases op.isOnlyUpsert <;> simp

theorem effects_append (ops ops' : List (KeyOps × Version)) (row : Option VersionedValue) :
    effects (ops ++ ops') row = effects ops' (effects ops row) :=
  foldl_append

theorem effects_of_resets (h : ∃ op ∈ ops, resets op.1 = true) (row row' : Option VersionedValue) :
    effects ops row = effects ops row' := by
  obtain ⟨op, hm, hrs⟩ := h
  obtain ⟨pre, post, rfl⟩ := append_of_mem hm
  rw [effects_append, effects_append]
  change effects post (effect op.1 op.2 _) = effects post (effect op.1 op.2 _)
  rw [effect_of_resets hrs]

def lastOf {α : Type} (f : KeyOps × Version → Option α) (ops : List (KeyOps × Version)) (a : α) : α :=
  (ops.filterMap f).getLast?.getD a

section

variable (f : KeyOps × Version → Option α)

theorem lastOf_lastOf (ops : List (KeyOps × Version)) (a : α) : lastOf f ops (lastOf f ops a) = lastOf f ops a := by
  rw [lastOf, lastOf]
  cases (ops.filterMap f).getLast? <;> rfl

theorem lastOf_cons (op : KeyOps × Version) (ops : List (KeyOps × Version)) (a : α) :
    lastOf f (op :: ops) a = lastOf f ops ((f op).getD a) := by
  rw [lastOf, filterMap_cons]
  cases f op with
  | none => rfl
  | some b =>
    rw [getLast?_cons]
    rfl

end

def valueOf (op : KeyOps × Version) : Option (Option Bytes) :=
  if op.1.isOnlyUpsert then some op.1.value else none

def metadataOf (op : KeyOps × Version) : Option Bytes :=
  if op.1.isOnlyUpsert then none else some op.1.metadata

section

variable (h : ∀ op ∈ ops, resets op.1 = false) (vv : VersionedValue)
include h

theorem effects_some :
    effects ops (some vv) =
      some ⟨lastOf valueOf ops vv.value, lastOf metadataOf ops vv.metadata, lastOf (some ∘ Prod.snd) ops vv.version⟩ := by
  induction ops generalizing vv with
  | nil => rfl
  | cons op ops ih =>
    obtain ⟨hop, hops⟩ := forall_mem_cons.mp h
    change effects ops (effect op.1 op.2 (some vv)) = _
    simp only [lastOf_cons]
    rcases keepsMetadata_or hop with hk | ho
    · rw [effect_of_keepsMetadata hk, ih hops]
      simp [valueOf, metadataOf, (keepsMetadata_iff.mp hk).2]
    · rw [effect_of_isOnlyMetadata ho, map_some, ih hops]
      simp [valueOf, metadataOf, (isOnlyMetadata_iff.mp ho).2]

theorem effects_effects_some : effects ops (effects ops (some vv)) = effects ops (some vv) := by
  simp only [effects_some h, lastOf_lastOf]

end

/-- Two runs of the operations on a key leave what one run leaves, if an absent row is not first given metadata alone. -/
theorem effects_effects (hf : row = none → ∀ op, ops.head? = some op → isOnlyMetadata op.1 = false) :
    effects ops (effects ops row) = effects ops row := by
  by_cases hrs : ∃ op ∈ ops, resets op.1 = true
  · exact effects_of_resets hrs _ _
  have ha : ∀ op ∈ ops, resets op.1 = false := by
    intro op hop
    exact Bool.eq_false_iff.mpr fun h => hrs ⟨op, hop, h⟩
  cases row with
  | some vv => exact effects_effects_some ha vv
  | none =>
    cases ops with
    | nil => rfl
    | cons op ops =>
      -- The first operation sets the value, so that it could as well have found it.
      have hk : keepsMetadata op.1 = true :=
        (keepsMetadata_or (ha op mem_cons_self)).resolve_right (by simp [hf rfl op rfl])
      have hs : effects (op :: ops) none = effects (op :: ops) (some ⟨op.1.value, [], op.2⟩) := by
        change effects ops (effect op.1 op.2 none) = effects ops (effect op.1 op.2 _)
        rw [effect_of_keepsMetadata hk, effect_of_keepsMetadata hk]
        rfl
      rw [hs, effects_effects_some ha]

end

/-! ### The updates of a block, key by key -/

def opsOn (blk : LedgerBlock) (vs : List TxView) (c : CompositeKey) : List (KeyOps × Version) :=
  vs.filterMap fun v =>
    match blk.committingTxHeight v.pvtTx.indexInBlock with
    | .ok txHeight => ((applyLtxRwset v.ops).lookup c).map fun ops => (ops, txHeight)
    | _ => none

section

variable {blk : LedgerBlock} {db : StateDB} {u u' u₀ : PublicAndHashUpdates} {v : TxView} {vs : List TxView}
  {c : CompositeKey} {txHeight : Version}

theorem applyView_eq_ok : applyView blk db u v = .ok u' ↔
    ∃ txHeight, blk.committingTxHeight v.pvtTx.indexInBlock = .ok txHeight ∧
      applyLtxWriteSet u v.ops txHeight db = .ok u' := by
  rw [applyView, bind_eq_ok]

theorem opsOn_cons (h : blk.committingTxHeight v.pvtTx.indexInBlock = .ok txHeight) :
    opsOn blk (v :: vs) c =
      (((applyLtxRwset v.ops).lookup c).map fun ops => (ops, txHeight)).toList ++ opsOn blk vs c := by
  rw [opsOn, filterMap_cons, h]
  cases (applyLtxRwset v.ops).lookup c <;> rfl

theorem latest_of_foldlM (hdb : ∀ key vv, db key = some vv → vv.value ≠ none) (hu : PlainDeletes u₀)
    (h : vs.foldlM (applyView blk db) u₀ = .ok u) (c : CompositeKey) :
    latest u db c = effects (opsOn blk vs c) (latest u₀ db c) := by
  induction vs generalizing u₀ with
  | nil =>
    cases h
    rfl
  | cons v vs ih =>
    obtain ⟨u₁, hv, hr⟩ := bind_eq_ok.mp h
    obtain ⟨txHeight, hh, ha⟩ := applyView_eq_ok.mp hv
    rw [ih (hu.applyLtxWriteSet ha) hr, opsOn_cons hh, latest_of_applyLtxWriteSet hu hdb ha c]
    cases (applyLtxRwset v.ops).lookup c <;> rfl

theorem plainDeletes_of_foldlM (h : vs.foldlM (applyView blk db) newPubAndHashUpdates = .ok u) : PlainDeletes u := by
  refine foldlM_invariant PlainDeletes (fun v _ u u' hu hv => ?_) PlainDeletes.new h
  obtain ⟨txHeight, -, ha⟩ := applyView_eq_ok.mp hv
  exact hu.applyLtxWriteSet ha

theorem prepareKeyOps_eq_none {o : KeyOps} :
    prepareKeyOps u db c o = none ↔ isOnlyMetadata o = true ∧ u.get c = none ∧ db c.dataKey = none := by
  rw [prepareKeyOps, isOnlyMetadata_iff, resets]
  cases hr : o.isDelete || o.isUpsertAndMetadataUpdate with
  | true => simp
  | false =>
    cases hup : o.isOnlyUpsert with
    | true => simp
    | false =>
      rw [retrieveLatestState]
      cases u.get c <;> simp

theorem get_applyLtxWriteSet_eq_none {ops : List (CompositeKey × KeyOp)}
    (h : applyLtxWriteSet u ops txHeight db = .ok u') :
    u'.get c = none ↔ u.get c = none ∧ ∀ o, (applyLtxRwset ops).lookup c = some o →
      isOnlyMetadata o = true ∧ db c.dataKey = none := by
  rw [get_of_applyLtxWriteSet h c]
  cases ho : (applyLtxRwset ops).lookup c with
  | none => simp
  | some o =>
    simp only [bind_some, Option.some.injEq, forall_eq']
    cases hp : prepareKeyOps u db c o with
    | none =>
      obtain ⟨hon, hg, hr⟩ := prepareKeyOps_eq_none.mp hp
      simp [hon, hg, hr]
    | some o' =>
      simp only [elim_some, reduceCtorEq, false_iff]
      rintro ⟨hg, hon, hr⟩
      rw [prepareKeyOps_eq_none.mpr ⟨hon, hg, hr⟩] at hp
      cases hp

theorem get_foldlM_eq_none (h : vs.foldlM (applyView blk db) u₀ = .ok u) :
    u.get c = none ↔ u₀.get c = none ∧ ∀ op ∈ opsOn blk vs c, isOnlyMetadata op.1 = true ∧ db c.dataKey = none := by
  induction vs generalizing u₀ with
  | nil =>
    cases h
    simp [opsOn]
  | cons v vs ih =>
    obtain ⟨u₁, hv, hr⟩ := bind_eq_ok.mp h
    obtain ⟨txHeight, hh, ha⟩ := applyView_eq_ok.mp hv
    rw [ih hr, get_applyLtxWriteSet_eq_none ha, opsOn_cons hh, and_assoc]
    cases (applyLtxRwset v.ops).lookup c <;> simp

theorem version_of_foldlM (h : vs.foldlM (applyView blk db) u₀ = .ok u) {vv : VersionedValue} (hvv : u.get c = some vv) :
    ((opsOn blk vs c).getLast?.map Prod.snd).getD vv.version = vv.version ∧ (opsOn blk vs c = [] → u₀.get c = some vv) := by
  induction vs generalizing u₀ with
  | nil =>
    cases h
    exact ⟨rfl, fun _ => hvv⟩
  | cons v vs ih =>
    obtain ⟨u₁, hv, hr⟩ := bind_eq_ok.mp h
    obtain ⟨txHeight, hh, ha⟩ := applyView_eq_ok.mp hv
    obtain ⟨hl, hf⟩ := ih hr
    rw [opsOn_cons hh]
    have hg := get_of_applyLtxWriteSet ha c
    cases ho : (applyLtxRwset v.ops).lookup c with
    | none =>
      rw [ho] at hg
      refine ⟨hl, fun hnil => ?_⟩
      exact hg.symm.trans (hf hnil)
    | some o =>
      refine ⟨?_, by simp⟩
      cases hop : (opsOn blk vs c).getLast? with
      | some op =>
        simpa [getLast?_cons, hop] using hl
      | none =>
        -- The operation found an entry or a row to work on, or there would be no entry now.
        rw [getLast?_eq_none_iff] at hop
        have hu₁ := hf hop
        rw [hg, ho, bind_some] at hu₁
        cases hp : prepareKeyOps u₀ db c o with
        | none =>
          rw [hp, (prepareKeyOps_eq_none.mp hp).2.1] at hu₁
          cases hu₁
        | some o' =>
          rw [hp, elim_some, Option.some.injEq] at hu₁
          have hvr : vv.version = txHeight := by
            rw [← hu₁, batchEntry]
            split <;> rfl
          simp [hop, hvr]

end

end Drunix.Ledger.Validation
