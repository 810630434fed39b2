import Drunix.Ledger.MvccAgreement

namespace Drunix.Ledger

open Lib Proto Orderer Outcome List

section

variable (sha256 : Bytes → Bytes) (serialize : List KVMetadataEntry → Bytes)

def opsOf (r : List LtxNs) : List (CompositeKey × KeyOp) :=
  (r.map (LtxNs.ops sha256 serialize)).flatten

def writesOf (r : List LtxNs) : List (CompositeKey × Bool) :=
  (r.map LtxNs.writes).flatten

/-- What the orderer's MVCC needs of a transaction, given the version database and the keys
updated so far in the block, to decide as the peer does. -/
structure Meets (odb : VersionDB) (m : MvccMap) (r : List LtxNs) : Prop where
  wellFormed : ∀ n ∈ r, n.WellFormed
  reads : ∀ n ∈ r, n.ReadsMeet odb m
  deletesFlagged : ∀ n ∈ r, n.DeletesFlagged sha256
  writtenOnce : ∀ c ∈ (opsOf sha256 serialize r).map Prod.fst,
    ∃ w, WrittenOnce (opsFor (opsOf sha256 serialize r) c) w

def TxMeets (odb : VersionDB) (m : MvccMap) (tx : TxReadWriteSet) : Prop :=
  ∃ r : List LtxNs, tx = ⟨r.map LtxNs.message⟩ ∧ Meets sha256 serialize odb m r

end

section

variable {sha256 : Bytes → Bytes} {serialize : List KVMetadataEntry → Bytes} {odb : VersionDB} {db : StateDB}
  {m : MvccMap} {u : PublicAndHashUpdates} {r : List LtxNs} {c : CompositeKey} {w : KeyOp}
  {writes : List (CompositeKey × Bool)}

theorem wellNamed_of_mem_ops {n : LtxNs} (hn : n.WellFormed) {e : CompositeKey × KeyOp}
    (he : e ∈ n.ops sha256 serialize) : e.1.WellNamed := by
  rw [LtxNs.ops, mem_append, mem_flatten] at he
  rcases he with he | ⟨l, hl, he⟩
  · rw [publicOps, mem_append, mem_map, mem_map] at he
    rcases he with ⟨w, _, rfl⟩ | ⟨w, _, rfl⟩ <;> exact hn.wellNamed_public w.key
  · obtain ⟨c, hc, rfl⟩ := mem_map.mp hl
    rw [collectionOps, mem_append, mem_map, mem_map] at he
    rcases he with ⟨w, _, rfl⟩ | ⟨w, _, rfl⟩ <;> exact hn.wellNamed_hashed hc w.keyHash

theorem Meets.wellNamed (h : Meets sha256 serialize odb m r) (hc : c ∈ (opsOf sha256 serialize r).map Prod.fst) :
    c.WellNamed := by
  obtain ⟨e, he, rfl⟩ := mem_map.mp hc
  obtain ⟨l, hl, he⟩ := mem_flatten.mp he
  obtain ⟨n, hn, rfl⟩ := mem_map.mp hl
  exact wellNamed_of_mem_ops (h.wellFormed n hn) he

theorem Meets.filter_opsOf (h : Meets sha256 serialize odb m r) :
    ((opsOf sha256 serialize r).filter fun e => e.2.isWrite).map (fun e => (e.1, decide (e.2 = .delete))) =
      writesOf r := by
  rw [opsOf, filter_flatten, map_flatten, map_map, map_map]
  congr 1
  apply map_congr_left
  intro n hn
  exact LtxNs.filter_ops sha256 serialize (h.deletesFlagged n hn)

theorem Meets.filter_writesOf (h : Meets sha256 serialize odb m r)
    (hw : WrittenOnce (opsFor (opsOf sha256 serialize r) c) w) :
    (writesOf r).filter (fun e => e.1 = c) = [(c, decide (w = .delete))] := by
  have hp : ∀ l : List (CompositeKey × KeyOp),
      ((l.filter fun e => e.2.isWrite).map fun e => (e.1, decide (e.2 = .delete))).filter (fun e => e.1 = c) =
        ((((l.filter fun e => e.1 = c).map Prod.snd).filter KeyOp.isWrite).map fun w => (c, decide (w = .delete))) := by
    intro l
    induction l with
    | nil => rfl
    | cons e l ih =>
      by_cases hc : e.1 = c <;> by_cases hi : e.2.isWrite <;> simp_all
  rw [← h.filter_opsOf, hp]
  have hf : ((opsOf sha256 serialize r).filter fun e => e.1 = c).map Prod.snd =
      opsFor (opsOf sha256 serialize r) c := rfl
  rw [hf, hw.filter_isWrite]
  rfl

theorem lookup_insertWrites (version : Version) (m : MvccMap) (hc : c.WellNamed) (hw : ∀ e ∈ writes, e.1.WellNamed) :
    (insertWrites version m writes).lookup c.dataKey =
      ((writes.filter fun e => e.1 = c).foldl (fun _ e => some ⟨version, e.2⟩) (m.lookup c.dataKey)) := by
  induction writes generalizing m with
  | nil => rfl
  | cons e writes ih =>
    rw [insertWrites, foldl_cons, ← insertWrites, ih _ fun e' he' => hw e' (by simp [he'])]
    by_cases he : e.1 = c
    · subst he
      simp
    · have hk : c.dataKey ≠ e.1.dataKey := by
        intro hd
        exact he (CompositeKey.dataKey_inj hc (hw e (by simp)) hd).symm
      rw [filter_cons_of_neg (by simpa using he), AList.lookup_insert_ne hk]

theorem mem_insertWrites {version : Version} {k : Bytes} (h : k ∈ insertWrites version m writes) :
    k ∈ m ∨ ∃ e ∈ writes, e.1.dataKey = k := by
  induction writes generalizing m with
  | nil => exact Or.inl h
  | cons e writes ih =>
    rcases ih h with hm | ⟨e', he', hk⟩
    · rcases (AList.mem_insert _).mp hm with rfl | hm
      · exact Or.inr ⟨e, by simp, rfl⟩
      · exact Or.inl hm
    · exact Or.inr ⟨e', by simp [he'], hk⟩

section

variable (h : Meets sha256 serialize odb m r)
include h

theorem Meets.mem_writesOf {e : CompositeKey × Bool} (he : e ∈ writesOf r) :
    e.1 ∈ (opsOf sha256 serialize r).map Prod.fst := by
  rw [← h.filter_opsOf] at he
  obtain ⟨e', he', rfl⟩ := mem_map.mp he
  exact mem_map_of_mem (mem_filter.mp he').1

theorem Meets.sameUpdates (hu : SameUpdates m u) {height : Version} {u' : PublicAndHashUpdates}
    (hst : ∀ c w, WrittenOnce (opsFor (opsOf sha256 serialize r) c) w →
      ∃ metadata, u'.get c = some ⟨w.newValue, metadata, height⟩)
    (hf : ∀ c, c ∉ (opsOf sha256 serialize r).map Prod.fst → u'.get c = u.get c) :
    SameUpdates (insertWrites height m (writesOf r)) u' where
  named_mvcc := by
    intro k hk
    rcases mem_insertWrites hk with hm | ⟨e, he, rfl⟩
    · exact hu.named_mvcc k hm
    · exact ⟨e.1, h.wellNamed (h.mem_writesOf he), rfl⟩
  named_get := by
    intro c hc
    by_cases hm : c ∈ (opsOf sha256 serialize r).map Prod.fst
    · exact h.wellNamed hm
    · exact hu.named_get c (hf c hm ▸ hc)
  lookup_eq := by
    intro c hc
    rw [lookup_insertWrites height m hc fun e he => h.wellNamed (h.mem_writesOf he)]
    by_cases hm : c ∈ (opsOf sha256 serialize r).map Prod.fst
    · obtain ⟨w, hw⟩ := h.writtenOnce c hm
      obtain ⟨metadata, hg⟩ := hst c w hw
      have hd : decide (w = .delete) = decide (w.newValue = none) := by
        have hi := hw.1
        cases w <;> simp_all [KeyOp.newValue, KeyOp.isWrite]
      rw [h.filter_writesOf hw, hg, hd]
      rfl
    · have hnil : (writesOf r).filter (fun e => e.1 = c) = [] := by
        rw [filter_eq_nil_iff]
        intro e he hec
        have hky : e.1 = c := by simpa using hec
        exact hm (hky ▸ h.mem_writesOf he)
      rw [hnil, hf c hm]
      exact hu.lookup_eq c hc

theorem validateEndorserTxn_message (hv : SameVersions odb db) (hu : SameUpdates m u) (num idx : UInt64) :
    validateEndorserTxn ⟨r.map LtxNs.message⟩ m odb num idx =
      .ok (if r.all (LtxNs.readsValid db u) then (insertWrites ⟨num, idx⟩ m (writesOf r), true) else (m, false)) := by
  have hrd : Outcome.all (validateNameSpaceReadSet m odb) (r.map LtxNs.message) =
      .ok (r.all (LtxNs.readsValid db u)) :=
    all_map_eq_ok fun n hn => validateNameSpaceReadSet_message hv hu (h.wellFormed n hn) (h.reads n hn)
  have hw : ∀ (l : List LtxNs) (m : MvccMap), (∀ n ∈ l, n.WellFormed) →
      (l.map LtxNs.message).foldlM (fun m nsRwSet => applyNameSpaceWriteSet m ⟨num, idx⟩ nsRwSet) m =
        Outcome.ok (insertWrites ⟨num, idx⟩ m (writesOf l)) := by
    intro l
    induction l with
    | nil => exact fun _ _ => rfl
    | cons n l ih =>
      intro m hl
      rw [map_cons, foldlM_cons, applyNameSpaceWriteSet_message (hl n (by simp)), ok_bind,
        ih _ fun n' hn' => hl n' (by simp [hn']), writesOf, writesOf, map_cons, flatten_cons,
        insertWrites, insertWrites, insertWrites, foldl_append]
  rw [validateEndorserTxn, hrd]
  cases r.all (LtxNs.readsValid db u) with
  | false => rfl
  | true =>
    rw [hw r m h.wellFormed]
    rfl

end

theorem TxMeets.step {tx : TxReadWriteSet} (h : TxMeets sha256 serialize odb m tx) (rq : RangeQueryValidator)
    (hv : SameVersions odb db) (hu : SameUpdates m u) {blk : LtxBlock} {i : Nat} {num : UInt64}
    (hh : blk.committingTxHeight i = .ok ⟨num, UInt64.ofNat i⟩) :
    ∃ m' u' valid, validateEndorserTxn tx m odb num (UInt64.ofNat i) = .ok (m', valid) ∧
      validateAndPrepareTx rq db sha256 serialize blk true u ⟨i, tx, .valid⟩ = .ok (mvccStatus valid, u') ∧
      SameUpdates m' u' := by
  obtain ⟨r, rfl, h⟩ := h
  have hor := validateEndorserTxn_message h hv hu num (UInt64.ofNat i)
  have hc : validateEndorserLtX rq db true ⟨r.map LtxNs.message⟩ u =
      .ok (mvccStatus (r.all (LtxNs.readsValid db u))) := validateLtx_message rq h.wellFormed
  have ho := ltxOps_message sha256 serialize r
  obtain ⟨u', ha, hst, hf⟩ :=
    applyLtxWriteSet_of_writtenOnce u ⟨num, UInt64.ofNat i⟩ db h.writtenOnce
  cases hb : r.all (LtxNs.readsValid db u) with
  | false =>
    rw [hb] at hor hc
    refine ⟨m, u, false, hor, ?_, hu⟩
    exact validateAndPrepareTx_eq_ok_iff.mpr ⟨(if_pos rfl).trans hc, .inr ⟨by decide, rfl⟩⟩
  | true =>
    rw [hb] at hor hc
    refine ⟨_, u', true, hor, ?_, h.sameUpdates hu hst hf⟩
    exact validateAndPrepareTx_eq_ok_iff.mpr ⟨(if_pos rfl).trans hc, .inl ⟨rfl, _, _, hh, ho, ha⟩⟩

end

end Drunix.Ledger
