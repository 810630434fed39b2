import Drunix.Ledger.Validation.LiteAgreement
import Drunix.Ledger.Validation.PvtBatch

namespace Drunix.Ledger.Validation

open Lib Proto Outcome List

structure TxView where
  pvtTx : PvtTx
  ops : List (CompositeKey × KeyOp)

def LedgerBlock.num : LedgerBlock → UInt64
  | vanilla blk => blk.num
  | lite blk => blk.num

def LedgerBlock.committingTxHeight : LedgerBlock → Nat → Outcome Unit Version
  | vanilla blk => blk.committingTxHeight
  | lite blk => blk.committingTxHeight

section

variable (sha256 : Bytes → Bytes) (serialize : List KVMetadataEntry → Bytes)

def txView (tx : Transaction) : TxView :=
  ⟨⟨tx.indexInBlock, collHashes tx.rwset⟩, txOps sha256 serialize tx.rwset⟩

def ltxView (tx : LtxTransaction) : TxView :=
  ⟨⟨tx.indexInBlock, ltxCollHashes tx.rwset⟩,
    match ltxOps sha256 serialize tx.rwset with
    | .ok ops => ops
    | _ => []⟩

def LedgerBlock.views : LedgerBlock → List TxView
  | vanilla blk => blk.txs.map (txView sha256 serialize)
  | lite blk => blk.txs.map (ltxView sha256 serialize)

end

def applyView (blk : LedgerBlock) (db : StateDB) (u : PublicAndHashUpdates) (v : TxView) :
    Outcome Unit PublicAndHashUpdates := do
  let committingTxHeight ← blk.committingTxHeight v.pvtTx.indexInBlock
  applyLtxWriteSet u v.ops committingTxHeight db

variable {α : Type}

theorem valid_cons (tx : α) (txs : List α) (code : TxValidationCode) (codes : List TxValidationCode) :
    valid (tx :: txs) (code :: codes) = if code = .valid then tx :: valid txs codes else valid txs codes := by
  by_cases h : code = .valid
  · simp [h, valid]
  · simp [h, valid]

theorem valid_map {β : Type} (f : α → β) (txs : List α) (codes : List TxValidationCode) :
    valid (txs.map f) codes = (valid txs codes).map f := by
  induction txs generalizing codes with
  | nil => rfl
  | cons tx txs ih =>
    cases codes with
    | nil => rfl
    | cons code codes =>
      rw [map_cons, valid_cons, valid_cons, ih]
      split <;> rfl

variable {codes : List TxValidationCode}

theorem mem_of_mem_valid {txs : List α} {tx : α} (h : tx ∈ valid txs codes) : tx ∈ txs := by
  obtain ⟨e, he, rfl⟩ := mem_map.mp h
  exact (of_mem_zip (mem_filter.mp he).1).1

section

variable {hashFunc : Bytes → Bytes} {serializeKVReads : List KVRead → Bytes}
  {validateLtxRangeQuery : RangeQueryValidator} {sha256 : Bytes → Bytes} {serialize : List KVMetadataEntry → Bytes}
  {unmarshalKVRWSet : Bytes → Option KVRWSet} {store : StateStore}

variable {code : TxValidationCode}

/-- A loop in which only the valid transactions have an effect. -/
theorem foldlM_valid_of_mapAccumM {σ υ : Type} {step : σ → α → Outcome Unit (TxValidationCode × σ)}
    {f : υ → α → Outcome Unit υ} (g : σ → υ) {s s' : σ} {txs : List α}
    (hstep : ∀ s tx code s', step s tx = .ok (code, s') →
      (code = .valid ∧ f (g s) tx = .ok (g s')) ∨ (code ≠ .valid ∧ g s' = g s))
    (h : mapAccumM step s txs = .ok (codes, s')) : (valid txs codes).foldlM f (g s) = .ok (g s') := by
  induction txs generalizing s codes with
  | nil =>
    cases h
    rfl
  | cons tx txs ih =>
    obtain ⟨code, s₁, codes', htx, hr, rfl⟩ := mapAccumM_cons_eq_ok.mp h
    rw [valid_cons]
    rcases hstep _ _ _ _ htx with ⟨hvl, hf⟩ | ⟨hi, hg⟩
    · rw [if_pos hvl, foldlM_cons, hf, ok_bind, ih hr]
    · rw [if_neg hi, ← hg, ih hr]

variable {u u₁ u' : PublicAndHashUpdates} {doMVCC : Bool} {tracker : PurgeTracker}

theorem applyView_of_prepareTx {blk : Block} {tx : Transaction} {tracker₁ : PurgeTracker}
    (h : prepareTx hashFunc serializeKVReads store sha256 serialize blk doMVCC u tracker tx = .ok (code, u₁, tracker₁)) :
    (code = .valid ∧ applyView (.vanilla blk) store.db u (txView sha256 serialize tx) = .ok u₁) ∨
      (code ≠ .valid ∧ u₁ = u) := by
  obtain ⟨_, ⟨hvl, txHeight, hh, ha, _⟩ | ⟨hi, hu, _⟩⟩ := prepareTx_eq_ok_iff.mp h
  · refine Or.inl ⟨hvl, ?_⟩
    change (blk.committingTxHeight tx.indexInBlock >>= _) = _
    rw [applyWriteSet_eq_ltx] at ha
    rw [hh]
    exact ha
  · exact Or.inr ⟨hi, hu⟩

theorem applyView_of_validateAndPrepareTx {blk : LtxBlock} {tx : LtxTransaction}
    (h : validateAndPrepareTx validateLtxRangeQuery store.db sha256 serialize blk doMVCC u tx = .ok (code, u₁)) :
    (code = .valid ∧ applyView (.lite blk) store.db u (ltxView sha256 serialize tx) = .ok u₁) ∨
      (code ≠ .valid ∧ u₁ = u) := by
  obtain ⟨_, ⟨hvl, txHeight, ops, hh, ho, ha⟩ | hi⟩ := validateAndPrepareTx_eq_ok_iff.mp h
  · refine Or.inl ⟨hvl, ?_⟩
    change (blk.committingTxHeight tx.indexInBlock >>= _) = _
    rw [hh, ltxView, ho]
    exact ha
  · exact Or.inr hi

theorem foldlM_applyView_of_prepareTxs {blk : Block} {txs : List Transaction} {tracker' : PurgeTracker}
    (h : prepareTxs hashFunc serializeKVReads store sha256 serialize blk doMVCC u tracker txs = .ok (codes, u', tracker')) :
    (valid (txs.map (txView sha256 serialize)) codes).foldlM (applyView (.vanilla blk) store.db) u = .ok u' := by
  rw [valid_map, foldlM_map]
  exact foldlM_valid_of_mapAccumM Prod.fst (fun _ _ _ _ => applyView_of_prepareTx) h

theorem foldlM_applyView_of_validateAndPrepareLtxBatch {blk : LtxBlock} {txs : List LtxTransaction}
    (h : validateAndPrepareLtxBatch validateLtxRangeQuery store.db sha256 serialize blk doMVCC u txs = .ok (codes, u')) :
    (valid (txs.map (ltxView sha256 serialize)) codes).foldlM (applyView (.lite blk) store.db) u = .ok u' := by
  rw [valid_map, foldlM_map]
  exact foldlM_valid_of_mapAccumM id (fun _ _ _ _ => applyView_of_validateAndPrepareTx) h

theorem exists_of_validateAndPrepare {blk : LedgerBlock} {pvtdata : UInt64 → Option TxPvtData} {p : PvtUpdates}
    (h : validateAndPrepare hashFunc serializeKVReads validateLtxRangeQuery sha256 serialize unmarshalKVRWSet store doMVCC
      pvtdata blk = .ok (codes, u, tracker, p)) :
    (valid (blk.views sha256 serialize) codes).foldlM (applyView blk store.db) newPubAndHashUpdates = .ok u ∧
      preparePvtBatch sha256 unmarshalKVRWSet u store.db blk.num
        ((valid (blk.views sha256 serialize) codes).map TxView.pvtTx) pvtdata = .ok p := by
  cases blk with
  | vanilla blk =>
    obtain ⟨⟨codes', u', tracker'⟩, hb, h⟩ := bind_eq_ok.mp h
    obtain ⟨p', hp, h⟩ := bind_eq_ok.mp h
    cases h
    refine ⟨foldlM_applyView_of_prepareTxs hb, ?_⟩
    rw [LedgerBlock.views, valid_map, map_map]
    exact hp
  | lite blk =>
    obtain ⟨⟨codes', u'⟩, hb, h⟩ := bind_eq_ok.mp h
    obtain ⟨p', hp, h⟩ := bind_eq_ok.mp h
    cases h
    refine ⟨foldlM_applyView_of_validateAndPrepareLtxBatch hb, ?_⟩
    rw [LedgerBlock.views, valid_map, map_map]
    exact hp

end

end Drunix.Ledger.Validation
