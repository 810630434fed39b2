import Drunix.Ledger.Validation.KeyEffects
import Drunix.Ledger.Validation.PrivateVersions
import Drunix.Peer.CommitPaths

namespace Drunix.Peer

open Lib Proto Ledger Ledger.Validation Ledger.Expiry Outcome List

def flagsOf : LedgerBlock → List TxValidationCode
  | .vanilla blk => blk.txs.map Transaction.validationCode
  | .lite blk => blk.txs.map LtxTransaction.validationCode

variable {codes : List TxValidationCode} {u₁' : PublicAndHashUpdates}

section

variable {s : CommitSupport} {store : StateStore} {blk : LedgerBlock} {pvtdata : UInt64 → Option TxPvtData}

def CommitSupport.validViews (s : CommitSupport) (blk : LedgerBlock) : List TxView :=
  valid (blk.views s.sha256 s.serialize) (flagsOf blk)

theorem mvccCode_false (u : PublicAndHashUpdates) (tx : Transaction) :
    mvccCode s.hashFunc s.serializeKVReads store false u tx = .ok tx.validationCode := by
  rw [mvccCode]
  split
  · rename_i hvl
    rw [hvl]
    rfl
  · rfl

variable {u u' u₁ : PublicAndHashUpdates} {tracker : PurgeTracker} {b : LtxBlock} {txs : List LtxTransaction}
  {p : PvtUpdates}

/-- A loop that leaves every transaction its code does what the valid ones do, one after the other. -/
theorem exists_mapAccumM_of_foldlM {α σ : Type} {flag : α → TxValidationCode}
    {step : σ → α → Outcome Unit (TxValidationCode × σ)} {f : PublicAndHashUpdates → α → Outcome Unit PublicAndHashUpdates}
    (g : σ → PublicAndHashUpdates) {r : σ} {txs : List α}
    (hskip : ∀ tx ∈ txs, flag tx ≠ .valid → ∀ r, step r tx = .ok (flag tx, r))
    (hstep : ∀ tx ∈ txs, flag tx = .valid → ∀ r u, f (g r) tx = .ok u → ∃ r', step r tx = .ok (flag tx, r') ∧ g r' = u)
    (h : (valid txs (txs.map flag)).foldlM f (g r) = .ok u') :
    ∃ r', mapAccumM step r txs = .ok (txs.map flag, r') ∧ g r' = u' := by
  induction txs generalizing r with
  | nil => exact ⟨r, rfl, ok.inj h⟩
  | cons tx txs ih =>
    rw [forall_mem_cons] at hskip hstep
    rw [map_cons, valid_cons] at h
    have hr : ∃ r₁, step r tx = .ok (flag tx, r₁) ∧ (valid txs (txs.map flag)).foldlM f (g r₁) = .ok u' := by
      split_ifs at h with hvl
      · obtain ⟨u₁, hu₁, h⟩ := bind_eq_ok.mp h
        obtain ⟨r₁, htx, rfl⟩ := hstep.1 hvl r u₁ hu₁
        exact ⟨r₁, htx, h⟩
      · exact ⟨r, hskip.1 hvl r, h⟩
    obtain ⟨r₁, htx, h⟩ := hr
    obtain ⟨r', hm, hg⟩ := ih hskip.2 hstep.2 h
    exact ⟨r', mapAccumM_cons_eq_ok.mpr ⟨_, r₁, _, htx, hm, rfl⟩, hg⟩

theorem ltxMvccCode_false (db : StateDB) (u : PublicAndHashUpdates) (tx : LtxTransaction) :
    ltxMvccCode s.validateLtxRangeQuery db false u tx = .ok tx.validationCode := by
  rw [ltxMvccCode]
  split
  · rename_i hvl
    rw [hvl]
    rfl
  · rfl

/-- The codes of a lite batch are those of its transactions, and the operations of the valid ones can be read. -/
theorem ltxBatch_codes {db : StateDB}
    (h : validateAndPrepareLtxBatch s.validateLtxRangeQuery db s.sha256 s.serialize b false u txs = .ok (codes, u₁)) :
    codes = txs.map LtxTransaction.validationCode ∧ ∀ tx ∈ txs, tx.validationCode = .valid →
      ltxOps s.sha256 s.serialize tx.rwset = .ok (ltxView s.sha256 s.serialize tx).ops := by
  refine mapAccumM_forall (fun u tx code u' htx => ?_) h
  obtain ⟨hc, hcs⟩ := validateAndPrepareTx_eq_ok_iff.mp htx
  obtain rfl := ok.inj ((ltxMvccCode_false db u tx).symm.trans hc)
  refine ⟨rfl, fun hvl => ?_⟩
  obtain ⟨-, txHeight, ops, -, ho, -⟩ := hcs.resolve_right fun hi => hi.1 hvl
  rw [ltxView, ho]

structure Prepared (s : CommitSupport) (db : StateDB) (pvtdata : UInt64 → Option TxPvtData) (blk : LedgerBlock)
    (u : PublicAndHashUpdates) (p : PvtUpdates) : Prop where
  updates : (s.validViews blk).foldlM (applyView blk db) newPubAndHashUpdates = .ok u
  pvtUpdates : preparePvtBatch s.sha256 s.unmarshalKVRWSet u db blk.num ((s.validViews blk).map TxView.pvtTx) pvtdata = .ok p

section

variable (h : s.validateAndPrepare false store pvtdata blk = .ok (codes, u, tracker, p))
include h

theorem prepared_of_validateAndPrepare : Prepared s store.db pvtdata blk u p := by
  cases blk with
  | vanilla b =>
    obtain ⟨⟨codes, u', tracker'⟩, hb, h⟩ := bind_eq_ok.mp h
    obtain ⟨p', hpv, h⟩ := bind_eq_ok.mp h
    cases h
    have hf := foldlM_applyView_of_prepareTxs hb
    obtain ⟨rfl, -⟩ : codes = b.txs.map Transaction.validationCode ∧ ∀ tx ∈ b.txs, True :=
      mapAccumM_forall (fun _ tx _ _ htx =>
        ⟨ok.inj ((prepareTx_eq_ok_iff.mp htx).1.symm.trans (mvccCode_false _ tx)), trivial⟩) hb
    refine ⟨hf, ?_⟩
    rw [CommitSupport.validViews, LedgerBlock.views, valid_map, map_map]
    exact hpv
  | lite b =>
    obtain ⟨⟨codes, u'⟩, hb, h⟩ := bind_eq_ok.mp h
    obtain ⟨p', hpv, h⟩ := bind_eq_ok.mp h
    cases h
    have hf := foldlM_applyView_of_validateAndPrepareLtxBatch hb
    obtain ⟨rfl, -⟩ := ltxBatch_codes hb
    refine ⟨hf, ?_⟩
    rw [CommitSupport.validViews, LedgerBlock.views, valid_map, map_map]
    exact hpv

theorem validateAndPrepare_of_prepared {store' : StateStore} {p' : PvtUpdates} (h' : Prepared s store'.db pvtdata blk u' p') :
    ∃ codes' tracker', s.validateAndPrepare false store' pvtdata blk = .ok (codes', u', tracker', p') := by
  obtain ⟨hf, hpv⟩ := h'
  cases blk with
  | vanilla b =>
    rw [CommitSupport.validViews, LedgerBlock.views, valid_map] at hf hpv
    rw [flagsOf, foldlM_map] at hf
    rw [map_map] at hpv
    obtain ⟨⟨_, tracker'⟩, hb, rfl⟩ := exists_mapAccumM_of_foldlM (r := (newPubAndHashUpdates, ∅)) Prod.fst
      (fun tx _ hi r => prepareTx_eq_ok_iff.mpr ⟨mvccCode_false r.1 tx, .inr ⟨hi, rfl, rfl⟩⟩)
      (fun tx _ hvl r u hu => by
        obtain ⟨txHeight, hh, ha⟩ := applyView_eq_ok.mp hu
        rw [txView, ← applyWriteSet_eq_ltx] at ha
        exact ⟨(u, _), prepareTx_eq_ok_iff.mpr ⟨mvccCode_false r.1 tx, .inl ⟨hvl, txHeight, hh, ha, rfl⟩⟩, rfl⟩) hf
    exact ⟨_, tracker', bind_eq_ok.mpr ⟨_, hb, bind_eq_ok.mpr ⟨p', hpv, rfl⟩⟩⟩
  | lite b =>
    obtain ⟨⟨codes, u₁⟩, hb, -⟩ := bind_eq_ok.mp h
    obtain ⟨rfl, hops⟩ := ltxBatch_codes hb
    rw [CommitSupport.validViews, LedgerBlock.views, valid_map] at hf hpv
    rw [flagsOf, foldlM_map] at hf
    rw [map_map] at hpv
    obtain ⟨_, hb', rfl⟩ := exists_mapAccumM_of_foldlM (r := newPubAndHashUpdates) id
      (fun tx _ hi r => validateAndPrepareTx_eq_ok_iff.mpr ⟨ltxMvccCode_false _ r tx, .inr ⟨hi, rfl⟩⟩)
      (fun tx htx hvl r u hu => by
        obtain ⟨txHeight, hh, ha⟩ := applyView_eq_ok.mp hu
        exact ⟨u, validateAndPrepareTx_eq_ok_iff.mpr
          ⟨ltxMvccCode_false _ r tx, .inl ⟨hvl, txHeight, _, hh, hops tx htx hvl, ha⟩⟩, rfl⟩) hf
    exact ⟨_, ∅, bind_eq_ok.mpr ⟨_, hb', bind_eq_ok.mpr ⟨p', hpv, rfl⟩⟩⟩

end

end

/-! ### Updates over another state -/

def DeletesWithin (u' u : PublicAndHashUpdates) : Prop :=
  ∀ c vv', u'.get c = some vv' → vv'.value = none → ∃ vv, u.get c = some vv ∧ vv.value = none

variable {c : CompositeKey}

section

variable {blk : LedgerBlock} {db db' : StateDB} {u u₁ u' : PublicAndHashUpdates} {vs : List TxView}

theorem mergeable_of_deletesWithin {o : KeyOps} (hd : DeletesWithin u' u) (hm : Mergeable o (u.get c)) :
    Mergeable o (u'.get c) := by
  refine hm.imp_right fun hm => ?_
  split_ifs at hm ⊢ with hvl
  · exact hm
  · intro vv' hvv' hn
    obtain ⟨vv, hvv, hvv_none⟩ := hd c vv' hvv' hn
    exact hm vv hvv hvv_none

theorem DeletesWithin.step {ops : List (CompositeKey × KeyOp)} {txHeight : Version} (hd : DeletesWithin u' u)
    (h : applyLtxWriteSet u ops txHeight db = .ok u₁) (h' : applyLtxWriteSet u' ops txHeight db' = .ok u₁') :
    DeletesWithin u₁' u₁ := by
  intro c vv' hvv' hn
  rw [get_of_applyLtxWriteSet h' c] at hvv'
  rw [get_of_applyLtxWriteSet h c]
  cases ho : (applyLtxRwset ops).lookup c with
  | none =>
    rw [ho] at hvv'
    exact hd c vv' hvv' hn
  | some o =>
    rw [ho, Option.bind_some] at hvv'
    cases hp : prepareKeyOps u' db' c o with
    | none =>
      rw [hp, (prepareKeyOps_eq_none.mp hp).2.1] at hvv'
      cases hvv'
    | some o' =>
      rw [hp, Option.elim_some, Option.some.injEq] at hvv'
      have hw : Writable o' := writable_of_applyLtxWriteSet h' ho hp
      have hdl : o'.isDelete := by
        by_contra hnt
        rw [← hvv', batchEntry, if_neg hnt] at hn
        exact hw.resolve_left hnt hn
      have hf : o'.flag = o.flag := by
        rw [prepareKeyOps] at hp
        split at hp
        · cases hp
          rfl
        · split at hp
          · cases hp
            rfl
          · obtain ⟨vv, -, rfl⟩ := Option.map_eq_some_iff.mp hp
            rfl
      have hd' : o.isDelete := by
        rw [KeyOps.isDelete, ← hf]
        exact hdl
      refine ⟨batchEntry o txHeight, ?_, by rw [batchEntry, if_pos hd']⟩
      simp [prepareKeyOps, hd']

theorem exists_foldlM_applyView (hdb : ∀ key vv, db' key = some vv → vv.value ≠ none) (hu : PlainDeletes u')
    (hd : DeletesWithin u' u) (h : vs.foldlM (applyView blk db) u = .ok u₁) :
    ∃ u₁', vs.foldlM (applyView blk db') u' = .ok u₁' := by
  induction vs generalizing u u' with
  | nil => exact ⟨u', rfl⟩
  | cons v vs ih =>
    obtain ⟨u₂, hv, hr⟩ := bind_eq_ok.mp h
    obtain ⟨txHeight, hh, ha⟩ := applyView_eq_ok.mp hv
    have hmr : ∀ c o, (applyLtxRwset v.ops).lookup c = some o → Mergeable o (u'.get c) := by
      intro c o ho
      apply mergeable_of_deletesWithin hd
      exact mergeable_of_writable fun o' ho' => writable_of_applyLtxWriteSet ha ho ho'
    obtain ⟨u₂', ha'⟩ := @exists_applyLtxWriteSet _ txHeight _ _ hu hdb hmr
    obtain ⟨u₁', hr'⟩ := ih (hu.applyLtxWriteSet ha') (hd.step ha ha') hr
    refine ⟨u₁', ?_⟩
    rw [foldlM_cons, applyView_eq_ok.mpr ⟨txHeight, hh, ha'⟩]
    exact hr'

end

/-! ### Private rows -/

def bump (sha256 : Bytes → Bytes) (hashedVal row : Option VersionedValue) : Option VersionedValue :=
  match hashedVal, row with
  | some hashedVal, some vv =>
    if vv.version ≠ hashedVal.version ∧ sha256 (vv.value.getD []) = hashedVal.value.getD [] then
      some ⟨vv.value, [], hashedVal.version⟩
    else some vv
  | _, row => row

variable {ks : List CompositeKey} {q : PvtUpdates} {k : CompositeKey}

section

variable {sha256 : Bytes → Bytes} {u u' : PublicAndHashUpdates} {db db' : StateDB} {p p' q : PvtUpdates}
  {k : CompositeKey} {hashedVal row : Option VersionedValue}

theorem bump_bump : bump sha256 hashedVal (bump sha256 hashedVal row) = bump sha256 hashedVal row := by
  cases hashedVal with
  | none => rfl
  | some hv =>
    cases row with
    | none => rfl
    | some vv =>
      simp only [bump]
      split_ifs with h
      · simp
      · simp [h]

theorem latestPvt_incrementVersion (hdb : ∀ key vv, db key = some vv → vv.value ≠ none)
    (h : incrementVersion sha256 u db p k = .ok p') :
    latestPvt p' db k = bump sha256 (u.hashUpdates.lookup (hashedKey sha256 k)) (latestPvt p db k) := by
  obtain ⟨rfl, hk⟩ | ⟨hav, lv, value, hh, hlt, hvl, hne, hsm, rfl⟩ := incrementVersion_eq_ok h
  · rw [latestPvt_eq_bind hdb]
    cases hh : u.hashUpdates.lookup (hashedKey sha256 k) with
    | none => rfl
    | some hav =>
      cases hlt : retrieveLatestVal db p' k with
      | none => rfl
      | some lv =>
        rw [Option.bind_some, VersionedValue.stored]
        split_ifs
        · rfl
        · exact (if_neg fun hc => (hk hav lv hh hlt).elim hc.1 fun hn => hn hc.2).symm
  · rw [latestPvt_eq_bind (p := p) hdb, hh, hlt]
    simp [latestPvt, VersionedValue.stored, hvl, bump, hne, hsm]

/-- Whether the version can be incremented depends on the updates of the block alone. -/
theorem exists_incrementVersion_iff (hdb : ∀ key vv, db key = some vv → vv.value ≠ none) :
    (∃ p', incrementVersion sha256 u db p k = .ok p') ↔
      ∀ hav lv, u.hashUpdates.lookup (hashedKey sha256 k) = some hav → p.lookup k = some lv → lv.value = none →
        lv.version = hav.version ∨ sha256 [] ≠ hav.value.getD [] := by
  constructor
  · rintro ⟨p', h⟩ hav lv hh hl hn
    have hlt : retrieveLatestVal db p k = some lv := by
      rw [retrieveLatestVal, hl]
      rfl
    obtain ⟨-, hk⟩ | ⟨_, _, _, _, hlt', hvl, _⟩ := incrementVersion_eq_ok h
    · simpa [hn] using hk hav lv hh hlt
    · cases hlt.symm.trans hlt'
      cases hn.symm.trans hvl
  · intro h
    rw [incrementVersion]
    split
    next hav lv hh hlt =>
      split_ifs with hvr hhs
      · exact ⟨p, rfl⟩
      · cases hvl : lv.value with
        | some value => exact ⟨_, rfl⟩
        | none =>
          -- rows have values, so the block deletes the key
          rw [hvl] at hhs
          rcases Option.or_eq_some_iff.mp hlt with hl | ⟨-, hl⟩
          · exact ((h hav lv hh hl hvl).elim hvr fun hn => hn hhs).elim
          · exact absurd hvl (hdb _ _ hl)
      · exact ⟨p, rfl⟩
    next => exact ⟨p, rfl⟩

theorem exists_foldlM_incrementVersion (hdb : ∀ key vv, db key = some vv → vv.value ≠ none) (hks : ks.Nodup)
    (h : ∀ k ∈ ks, ∃ p', incrementVersion sha256 u db p k = .ok p') :
    ∃ p', ks.foldlM (incrementVersion sha256 u db) p = .ok p' := by
  induction ks generalizing p with
  | nil => exact ⟨p, rfl⟩
  | cons k ks ih =>
    rw [nodup_cons] at hks
    obtain ⟨⟨p₁, hp₁⟩, hr⟩ := forall_mem_cons.mp h
    have hn : ∀ k' ∈ ks, ∃ p', incrementVersion sha256 u db p₁ k' = .ok p' := by
      intro k' hk'
      have hne : k' ≠ k := by
        rintro rfl
        exact hks.1 hk'
      rw [exists_incrementVersion_iff hdb, lookup_incrementVersion_of_ne hp₁ hne, ← exists_incrementVersion_iff hdb]
      exact hr k' hk'
    obtain ⟨p', hp'⟩ := ih hks.2 hn
    refine ⟨p', ?_⟩
    rw [foldlM_cons, hp₁]
    exact hp'

end

/-! ### Rows after the updates -/

section

variable {store : StateStore} {u : PublicAndHashUpdates} {p : PvtUpdates}

section

variable (hu : NamedUpdates u) (hp : NamedKeys p)
include hu hp

theorem applyUpdates_frame {dataKey : Bytes} (hc : ∀ c : CompositeKey, c.WellNamed → c.dataKey ≠ dataKey)
    (hk : ∀ k : CompositeKey, k.WellNamed → pvtDataKey k ≠ dataKey) :
    (store.applyUpdates u p).db dataKey = store.db dataKey := by
  rw [applyUpdates_db, overlay_hashUpdates_frame hu hc, AMap.overlay_of_notMem, overlay_publicUpdates_frame hu hc]
  intro k hm
  exact hk k (wellNamed_of_mem hm hp)

end

end

/-! ### A block committed twice -/

section

variable {s : CommitSupport} {store store' : StateStore} {blk : LedgerBlock} {pvtdata : UInt64 → Option TxPvtData}
  {u u' : PublicAndHashUpdates} {p : PvtUpdates}

section

variable (h : Prepared s store.db pvtdata blk u p)
include h

theorem Prepared.latest (c : CompositeKey) :
    Validation.latest u store.db c = effects (opsOn blk (s.validViews blk) c) (store.db c.dataKey) := by
  rw [latest_of_foldlM store.value_ne_none PlainDeletes.new h.updates c]
  congr 1
  rw [Validation.latest, newPubAndHashUpdates_get]
  rfl

theorem Prepared.named (hnamed : NamedBlock s.sha256 s.serialize blk pvtdata) : NamedUpdates u ∧ NamedKeys p :=
  ⟨hnamed.namedUpdates h.updates, namedKeys_of_preparePvtBatch hnamed.pvtdata h.pvtUpdates⟩

end

variable {sha256 : Bytes → Bytes}

theorem latestPvt_foldlM_incrementVersion (h : ks.dedup.foldlM (incrementVersion sha256 u store.db) q = .ok p)
    (k : CompositeKey) :
    latestPvt p store.db k = if k ∈ ks then
      bump sha256 (u.hashUpdates.lookup (hashedKey sha256 k)) (latestPvt q store.db k) else latestPvt q store.db k := by
  split_ifs with hk
  · obtain ⟨q₁, q₂, hq₁, hi, hq₂⟩ := exists_incrementVersion_of_mem ks.nodup_dedup (mem_dedup.mpr hk) h
    rw [latestPvt_congr hq₂, latestPvt_incrementVersion store.value_ne_none hi, latestPvt_congr hq₁]
  · rw [latestPvt_congr (lookup_foldlM_incrementVersion_of_notMem (fun h => hk (mem_dedup.mp h)) h)]

section

variable (hu : (s.validViews blk).foldlM (applyView blk store.db) newPubAndHashUpdates = .ok u)
  (hu' : (s.validViews blk).foldlM (applyView blk store'.db) newPubAndHashUpdates = .ok u')
include hu hu'

theorem version_eq_of_get {vv vv' : VersionedValue} (hc : u.get c = some vv) (hc' : u'.get c = some vv') :
    vv'.version = vv.version := by
  obtain ⟨h₁, h₁'⟩ := version_of_foldlM hu hc
  obtain ⟨h₂, -⟩ := version_of_foldlM hu' hc'
  cases hl : (opsOn blk (s.validViews blk) c).getLast? with
  | none =>
    rw [getLast?_eq_none_iff] at hl
    have hnw := h₁' hl
    rw [newPubAndHashUpdates_get] at hnw
    cases hnw
  | some op =>
    rw [hl] at h₁ h₂
    exact h₂.symm.trans h₁

variable (hr : store'.db c.dataKey = store.db c.dataKey ∨ store'.db c.dataKey = latest u store.db c)
  (hlt : latest u' store'.db c = latest u store.db c)
include hr hlt

theorem get_eq_none_iff_of_latest_eq : u.get c = none ↔ u'.get c = none := by
  rw [get_foldlM_eq_none hu, get_foldlM_eq_none hu']
  refine and_congr_right fun _ => ⟨fun h op hop => ?_, fun h op hop => ?_⟩
  · refine ⟨(h op hop).1, ?_⟩
    have he := (h op hop).2
    have hg : u.get c = none := (get_foldlM_eq_none hu).mpr ⟨newPubAndHashUpdates_get c, h⟩
    rcases hr with hr | hr
    · rw [hr, he]
    · rw [hr, latest, hg]
      exact he
  · refine ⟨(h op hop).1, ?_⟩
    have he := (h op hop).2
    have hg : u'.get c = none := (get_foldlM_eq_none hu').mpr ⟨newPubAndHashUpdates_get c, h⟩
    rw [latest, hg, Option.elim_none, he] at hlt
    -- The row that is left is absent, and only metadata was given to it.
    cases hdb : store.db c.dataKey with
    | none => rfl
    | some vv =>
      have ho : ∀ op ∈ opsOn blk (s.validViews blk) c, isOnlyMetadata op.1 = true := fun op hop => (h op hop).1
      rw [latest_of_foldlM store.value_ne_none PlainDeletes.new hu c, latest, newPubAndHashUpdates_get,
        Option.elim_none, hdb, effects_some fun op hop => (isOnlyMetadata_iff.mp (ho op hop)).1] at hlt
      cases hlt

theorem get_eq_of_latest_eq : u'.get c = u.get c := by
  have hn := get_eq_none_iff_of_latest_eq hu hu' hr hlt
  cases hc : u.get c with
  | none => exact hn.mp hc
  | some vv =>
    cases hc' : u'.get c with
    | none =>
      rw [hn.mpr hc'] at hc
      cases hc
    | some vv' =>
      have hvr := version_eq_of_get hu hu' hc hc'
      rw [latest, latest, hc, hc', Option.elim_some, Option.elim_some, VersionedValue.stored,
        VersionedValue.stored] at hlt
      split_ifs at hlt with h₁ h₂
      · have hm := plainDeletes_of_foldlM hu c vv hc h₂
        have hm' := plainDeletes_of_foldlM hu' c vv' hc' h₁
        cases vv
        cases vv'
        simp_all
      · exact hlt

end

end

/-- No absent key is first given metadata alone by the valid transactions of the block. -/
def MetadataKept (s : CommitSupport) (store : StateStore) (blk : LedgerBlock) : Prop :=
  ∀ c : CompositeKey, store.db c.dataKey = none →
    ∀ op, (opsOn blk (s.validViews blk) c).head? = some op → isOnlyMetadata op.1 = false

section

variable {s : CommitSupport} {store store' : StateStore} {pvtdata : UInt64 → Option TxPvtData} {blk : LedgerBlock}
  {u u' : PublicAndHashUpdates} {tracker : PurgeTracker} {p p' : PvtUpdates}

theorem hashUpdates_lookup_eq (h : u'.get c = u.get c) : u'.hashUpdates.lookup c = u.hashUpdates.lookup c := by
  by_cases hc : c.coll = []
  · have hn : ∀ w : PublicAndHashUpdates, w.hashUpdates.lookup c = none := fun w =>
      AList.lookup_eq_none.mpr fun hm => w.coll_ne_nil c hm hc
    rw [hn, hn]
  · rwa [u.get_hashed hc, u'.get_hashed hc] at h

theorem opsOn_eq_nil (hnamed : NamedBlock s.sha256 s.serialize blk pvtdata) (hc : ¬ c.WellNamed) :
    opsOn blk (s.validViews blk) c = [] := by
  rw [opsOn, filterMap_eq_nil_iff]
  intro v hv
  have hlk : (applyLtxRwset v.ops).lookup c = none := by
    rw [lookup_applyLtxRwset, if_pos]
    refine opsFor_eq_nil fun hm => hc ?_
    obtain ⟨e, he, rfl⟩ := mem_map.mp hm
    exact hnamed.ops v (mem_of_mem_valid hv) e he
  rw [hlk]
  split <;> rfl

theorem latest_eq_of_metadataKept (hk : MetadataKept s store blk) (h : Prepared s store.db pvtdata blk u p)
    (hu' : (s.validViews blk).foldlM (applyView blk store'.db) newPubAndHashUpdates = .ok u')
    (hr : store'.db c.dataKey = store.db c.dataKey ∨ store'.db c.dataKey = latest u store.db c) :
    latest u' store'.db c = latest u store.db c := by
  have hn : latest newPubAndHashUpdates store'.db c = store'.db c.dataKey := by
    rw [latest, newPubAndHashUpdates_get]
    rfl
  rw [latest_of_foldlM store'.value_ne_none PlainDeletes.new hu' c, hn]
  rcases hr with hr | hr
  · rw [hr, h.latest]
  · rw [hr, h.latest]
    exact effects_effects (hk c)

theorem latestPvt_eq_of_lookup_eq {sha256 : Bytes → Bytes}
    (hi : ks.dedup.foldlM (incrementVersion sha256 u store.db) q = .ok p)
    (hi' : ks.dedup.foldlM (incrementVersion sha256 u' store'.db) q = .ok p')
    (heq : u'.hashUpdates.lookup (hashedKey sha256 k) = u.hashUpdates.lookup (hashedKey sha256 k))
    (hr : store'.db (pvtDataKey k) = store.db (pvtDataKey k) ∨ store'.db (pvtDataKey k) = latestPvt p store.db k) :
    latestPvt p' store'.db k = latestPvt p store.db k := by
  have hp := latestPvt_foldlM_incrementVersion hi k
  rw [latestPvt_foldlM_incrementVersion hi' k, heq]
  cases hq : q.lookup k with
  | some vv => rw [hp, latestPvt, latestPvt, hq, Option.elim_some, Option.elim_some]
  | none =>
    have hq' : ∀ st : StateStore, latestPvt q st.db k = st.db (pvtDataKey k) := by
      intro st
      rw [latestPvt, hq]
      rfl
    rw [hq'] at hp
    rw [hq']
    rcases hr with hr | hr
    · rw [hr, hp]
    · rw [hr, hp]
      by_cases hk : k ∈ ks
      · rw [if_pos hk, if_pos hk, bump_bump]
      · rw [if_neg hk]

theorem exists_prepared (hnamed : NamedBlock s.sha256 s.serialize blk pvtdata) (h : Prepared s store.db pvtdata blk u p)
    (hlt : ∀ u', (s.validViews blk).foldlM (applyView blk store'.db) newPubAndHashUpdates = .ok u' →
      ∀ c : CompositeKey, c.WellNamed → u'.get c = u.get c) :
    ∃ u' p', Prepared s store'.db pvtdata blk u' p' ∧ (∀ c, u'.get c = u.get c) ∧
      ∃ (q : PvtUpdates) (ks : List CompositeKey), ks.dedup.foldlM (incrementVersion s.sha256 u store.db) q = .ok p ∧
        ks.dedup.foldlM (incrementVersion s.sha256 u' store'.db) q = .ok p' := by
  have hd : DeletesWithin newPubAndHashUpdates newPubAndHashUpdates := fun c vv hvv hn => ⟨vv, hvv, hn⟩
  obtain ⟨u', hu'⟩ := exists_foldlM_applyView store'.value_ne_none PlainDeletes.new hd h.updates
  have hsm : ∀ c, u'.get c = u.get c := by
    intro c
    by_cases hc : c.WellNamed
    · exact hlt u' hu' c hc
    · have ho := opsOn_eq_nil hnamed hc
      have hn : ∀ op ∈ opsOn blk (s.validViews blk) c, isOnlyMetadata op.1 = true ∧ store.db c.dataKey = none := by
        simp [ho]
      have hn' : ∀ op ∈ opsOn blk (s.validViews blk) c, isOnlyMetadata op.1 = true ∧ store'.db c.dataKey = none := by
        simp [ho]
      rw [(get_foldlM_eq_none h.updates).mpr ⟨newPubAndHashUpdates_get c, hn⟩,
        (get_foldlM_eq_none hu').mpr ⟨newPubAndHashUpdates_get c, hn'⟩]
  -- The private updates before versions are incremented, and the keys to look at, do not depend on the state.
  obtain ⟨⟨q, ks⟩, ha, hi⟩ := bind_eq_ok.mp h.pvtUpdates
  have hst : ∀ k ∈ ks.dedup, ∃ r, incrementVersion s.sha256 u' store'.db q k = .ok r := by
    intro k hk
    obtain ⟨q₁, q₂, hq₁, hi₁, -⟩ := exists_incrementVersion_of_mem ks.nodup_dedup hk hi
    rw [exists_incrementVersion_iff store'.value_ne_none, hashUpdates_lookup_eq (hsm _), ← hq₁,
      ← exists_incrementVersion_iff store.value_ne_none]
    exact ⟨q₂, hi₁⟩
  obtain ⟨p', hi'⟩ := exists_foldlM_incrementVersion store'.value_ne_none ks.nodup_dedup hst
  exact ⟨u', p', ⟨hu', bind_eq_ok.mpr ⟨_, ha, hi'⟩⟩, hsm, q, ks, hi, hi'⟩

/-! ### Commits with which nothing expires -/

section

variable {m m' : TxMgr} {policy : BTLPolicy} {sha256 : Bytes → Bytes} {n : UInt64}

theorem exists_buildExpirySchedule_iff {hashUpdates : AMap CompositeKey VersionedValue} :
    (∃ schedule, buildExpirySchedule policy sha256 p hashUpdates = .ok schedule) ↔
      (∀ k ∈ p, policy.getBTL k.ns k.coll ≠ none) ∧ ∀ c ∈ hashUpdates, policy.getBTL c.ns c.coll ≠ none := by
  have hf : ∀ (xs : List (KeyAndHash × VersionedValue)) (schedule : ExpirySchedule),
      (∃ schedule', xs.foldlM (addToSchedule policy) schedule = .ok schedule') ↔
        ∀ x ∈ xs, policy.getBTL x.1.hashed.ns x.1.hashed.coll ≠ none := by
    intro xs
    induction xs with
    | nil => exact fun schedule => ⟨fun _ _ hx => absurd hx not_mem_nil, fun _ => ⟨schedule, rfl⟩⟩
    | cons x xs ih =>
      intro schedule
      rw [forall_mem_cons]
      cases hb : policy.getBTL x.1.hashed.ns x.1.hashed.coll with
      | none => simp [foldlM_cons, addToSchedule, hb, Outcome.orErr]
      | some btl =>
        obtain ⟨schedule₁, hx⟩ : ∃ schedule₁, addToSchedule policy schedule x = .ok schedule₁ := by
          rw [addToSchedule, hb]
          dsimp only [Outcome.orErr]
          rw [ok_bind]
          split <;> exact ⟨_, rfl⟩
        rw [foldlM_cons, hx, ok_bind, ih schedule₁]
        simp
  rw [buildExpirySchedule, hf]
  constructor
  · intro h
    have hp : ∀ k ∈ p, policy.getBTL k.ns k.coll ≠ none := by
      intro k hk
      obtain ⟨vv, hvv⟩ := Option.isSome_iff_exists.mp (AList.lookup_isSome.mpr hk)
      exact h (⟨hashedKey sha256 k, k.key⟩, vv) (mem_scheduled.mpr (.inl ⟨k, hvv, rfl⟩))
    refine ⟨hp, fun c hc => ?_⟩
    obtain ⟨vv, hvv⟩ := Option.isSome_iff_exists.mp (AList.lookup_isSome.mpr hc)
    by_cases hk : ∃ k ∈ p, hashedKey sha256 k = c
    · obtain ⟨k, hk, rfl⟩ := hk
      exact hp k hk
    · push Not at hk
      refine h (⟨c, []⟩, vv) (mem_scheduled.mpr (.inr ⟨hvv, rfl, fun k heq => ?_⟩))
      exact AList.lookup_eq_none.mpr fun hm => hk k hm heq
  · rintro ⟨hp, hh⟩ ⟨e, vv⟩ hx
    rcases mem_scheduled.mp hx with ⟨k, hk, rfl⟩ | ⟨hl, -, -⟩
    · exact hp k (AList.lookup_isSome.mp (by rw [hk]; rfl))
    · exact hh e.hashed (AList.lookup_isSome.mp (by rw [hl]; rfl))

theorem commit_of_notDue (hws : m.workingset = none) (hdue : retrieve m.expKeeper n = []) :
    m.commit policy sha256 n u p = (buildExpirySchedule policy sha256 p u.hashUpdates >>= fun schedule =>
      let store := m.store.applyUpdates u p
      let expKeeper := updateKeeper (updateKeeper m.expKeeper schedule []) ∅ []
      .ok ⟨store, expKeeper, some (prepareWorkingsetFor store.db expKeeper (n + 1))⟩) := by
  have hw : m.workingsetFor n = ⟨∅, [], n⟩ := by
    rw [TxMgr.workingsetFor, hws, Option.getD_none, prepareWorkingsetFor, hdue]
    rfl
  rw [TxMgr.commit, TxMgr.updateExpiryInfo, hw]
  cases buildExpirySchedule policy sha256 p u.hashUpdates <;> rfl

theorem retrieve_eq_nil {keeper : ExpirySchedule} : retrieve keeper n = [] ↔ ∀ b, keeper.lookup ⟨b, n⟩ = none := by
  rw [retrieve, filter_eq_nil_iff]
  constructor
  · intro h b
    cases hl : keeper.lookup ⟨b, n⟩ with
    | none => rfl
    | some keys => exact absurd (decide_eq_true rfl) (h (⟨b, n⟩, keys) (AMap.mem_toPairs.mpr hl))
  · rintro h ⟨⟨b, n'⟩, keys⟩ he heq
    obtain rfl : n' = n := of_decide_eq_true heq
    have hl := AMap.mem_toPairs.mp he
    rw [h b] at hl
    cases hl

end

theorem mem_of_incrementVersion {sha256 : Bytes → Bytes} (hi : incrementVersion sha256 u store.db q k = .ok p)
    (k' : CompositeKey) :
    (k' ∈ q → k' ∈ p) ∧ (k' ∈ p → k' ∈ q ∨ hashedKey sha256 k' ∈ u.hashUpdates) := by
  obtain ⟨rfl, _⟩ | ⟨hav, _, value, hh, _, _, _, _, rfl⟩ := incrementVersion_eq_ok hi
  · exact ⟨id, .inl⟩
  · refine ⟨fun hk => (AList.mem_insert _).mpr (.inr hk), fun hk => ?_⟩
    rcases (AList.mem_insert _).mp hk with rfl | hk
    · exact .inr (AList.lookup_isSome.mp (by rw [hh]; rfl))
    · exact .inl hk

theorem mem_of_foldlM_incrementVersion {sha256 : Bytes → Bytes}
    (hi : ks.foldlM (incrementVersion sha256 u store.db) q = .ok p) {k' : CompositeKey} :
    (k' ∈ q → k' ∈ p) ∧ (k' ∈ p → k' ∈ q ∨ hashedKey sha256 k' ∈ u.hashUpdates) := by
  refine foldlM_invariant (fun r : PvtUpdates => (k' ∈ q → k' ∈ r) ∧ (k' ∈ r → k' ∈ q ∨ hashedKey sha256 k' ∈ u.hashUpdates))
    ?_ ⟨id, .inl⟩ hi
  intro k _ r r' hr hk
  have hm := mem_of_incrementVersion hk k'
  exact ⟨fun h => hm.1 (hr.1 h), fun h => (hm.2 h).elim hr.2 .inr⟩

/-- The recommitted block schedules no collection that the commit did not. -/
theorem exists_buildExpirySchedule_of_get_eq {policy : BTLPolicy} {sha256 : Bytes → Bytes} {schedule : ExpirySchedule}
    (hi : ks.foldlM (incrementVersion sha256 u store.db) q = .ok p)
    (hi' : ks.foldlM (incrementVersion sha256 u' store'.db) q = .ok p') (hsm : ∀ c, u'.get c = u.get c)
    (h : buildExpirySchedule policy sha256 p u.hashUpdates = .ok schedule) :
    ∃ schedule', buildExpirySchedule policy sha256 p' u'.hashUpdates = .ok schedule' := by
  obtain ⟨hp, hh⟩ := exists_buildExpirySchedule_iff.mp ⟨schedule, h⟩
  have hh' : ∀ c ∈ u'.hashUpdates, policy.getBTL c.ns c.coll ≠ none := fun c hc =>
    hh c (AList.lookup_isSome.mp (hashUpdates_lookup_eq (hsm c) ▸ AList.lookup_isSome.mpr hc))
  refine exists_buildExpirySchedule_iff.mpr ⟨fun k hk => ?_, hh'⟩
  rcases (mem_of_foldlM_incrementVersion hi').2 hk with hq | hc
  · exact hp k ((mem_of_foldlM_incrementVersion hi).1 hq)
  · exact hh' (hashedKey sha256 k) hc

section

variable {codes : List TxValidationCode} {m m' : TxMgr} {schedule : ExpirySchedule}
  (hnamed : NamedBlock s.sha256 s.serialize blk pvtdata)
  (hprepare : s.validateAndPrepare false store pvtdata blk = .ok (codes, u, tracker, p))
include hnamed hprepare

theorem commitLost_of_metadataKept (hsc : buildExpirySchedule s.policy s.sha256 p u.hashUpdates = .ok schedule)
    (hws : m.workingset = none) (hdue : retrieve m.expKeeper blk.num = []) (hkp : MetadataKept s store blk)
    (hpa : ∀ dataKey, m.store.db dataKey = store.db dataKey ∨ m.store.db dataKey = (store.applyUpdates u p).db dataKey) :
    ∃ m', s.commitLost m pvtdata blk = .ok m' ∧ m'.store.db = (store.applyUpdates u p).db := by
  have h := prepared_of_validateAndPrepare hprepare
  obtain ⟨hu, hp⟩ := h.named hnamed
  have hr : ∀ c : CompositeKey, c.WellNamed →
      m.store.db c.dataKey = store.db c.dataKey ∨ m.store.db c.dataKey = latest u store.db c := by
    intro c hc
    have hc' := hpa c.dataKey
    rwa [applyUpdates_dataKey hu hp hc] at hc'
  obtain ⟨u', p', h', hsm, q, ks, hi, hi'⟩ := exists_prepared hnamed h fun u' hu' c hc =>
    get_eq_of_latest_eq h.updates hu' (hr c hc) (latest_eq_of_metadataKept hkp h hu' (hr c hc))
  obtain ⟨codes', tracker', hpr'⟩ := validateAndPrepare_of_prepared hprepare h'
  obtain ⟨hu', hp'⟩ := h'.named hnamed
  obtain ⟨schedule', hsc'⟩ := exists_buildExpirySchedule_of_get_eq hi hi' hsm hsc
  refine ⟨_, bind_eq_ok.mpr ⟨_, hpr', (commit_of_notDue hws hdue).trans (bind_eq_ok.mpr ⟨_, hsc', rfl⟩)⟩, ?_⟩
  funext dataKey
  change (m.store.applyUpdates u' p').db dataKey = _
  by_cases hd : ∃ c : CompositeKey, c.WellNamed ∧ c.dataKey = dataKey
  · obtain ⟨c, hc, rfl⟩ := hd
    rw [applyUpdates_dataKey hu' hp' hc, applyUpdates_dataKey hu hp hc]
    exact latest_eq_of_metadataKept hkp h h'.updates (hr c hc)
  by_cases hpv : ∃ k : CompositeKey, k.WellNamed ∧ pvtDataKey k = dataKey
  · obtain ⟨k, hk, rfl⟩ := hpv
    have hk' := hpa (pvtDataKey k)
    rw [applyUpdates_pvtDataKey hu hp hk] at hk'
    rw [applyUpdates_pvtDataKey hu' hp' hk, applyUpdates_pvtDataKey hu hp hk]
    exact latestPvt_eq_of_lookup_eq hi hi' (hashUpdates_lookup_eq (hsm _)) hk'
  · push Not at hd hpv
    have hf := @applyUpdates_frame store _ _ hu hp _ hd hpv
    rw [applyUpdates_frame hu' hp' hd hpv, hf]
    exact (hpa dataKey).elim id fun heq => heq.trans hf

end

end

/-! ### Interrupted commits -/

section

variable {s : CommitSupport} {path : CommitPath} {l : KvLedger} {blk : FlaggedBlock}
  {pvtdata : UInt64 → Option TxPvtData}

def CommitRun.scheduled (c : CommitRun s path l blk pvtdata) : Outcome Unit TxMgr :=
  l.stateDB.txmgr.updateExpiryInfo s.policy s.sha256 c.u
    (purgeAppInitiatedPvtKeys (s.rawKeys l.pvtdataStore) c.purges c.pvtUpdates)

/-- What a crash leaves of the commit of the state: nothing, or the expiry schedule and any of the rows. -/
inductive CommitRun.Interrupted (c : CommitRun s path l blk pvtdata) : TxMgr → Prop
  | before : Interrupted c l.stateDB.txmgr
  | torn {m : TxMgr} (store : StateStore) (hscheduled : c.scheduled = .ok m)
      (hrows : ∀ dataKey, store.db dataKey = m.store.db dataKey ∨ store.db dataKey = c.txmgr.store.db dataKey) :
      Interrupted c { m with store }

/-- Whatever rows of the commit were written before a crash, the block committed again leaves the rows of one commit. -/
def CommitRun.RecommitIdempotent (c : CommitRun s path l blk pvtdata) : Prop :=
  ∀ m, c.Interrupted m → ∃ final, (c.blockStored.withState m).restart.recommit s (c.block, .state) = .ok final ∧
    final.stateDB.txmgr.store.db = c.txmgr.store.db

/-- No private data expires with the block. -/
def CommitRun.NothingDue (c : CommitRun s path l blk pvtdata) : Prop :=
  ∀ m, c.scheduled = .ok m → retrieve m.expKeeper blk.number = []

variable (hs : l.Settled) (hpurge : blk.PurgeFree s) (c : CommitRun s path l blk pvtdata)
include hs hpurge

theorem CommitRun.exists_scheduled (hdue : c.NothingDue) :
    ∃ schedule, buildExpirySchedule s.policy s.sha256 c.pvtUpdates c.u.hashUpdates = .ok schedule ∧
      c.scheduled = .ok { l.stateDB.txmgr with expKeeper := updateKeeper l.stateDB.txmgr.expKeeper schedule [] } ∧
      retrieve l.stateDB.txmgr.expKeeper blk.number = [] ∧
      retrieve (updateKeeper l.stateDB.txmgr.expKeeper schedule []) blk.number = [] ∧
      c.txmgr.store = l.stateDB.txmgr.store.applyUpdates c.u c.pvtUpdates := by
  have hcm := c.committed_restart hs hpurge
  obtain ⟨m, hm, -⟩ := bind_eq_ok.mp hcm
  obtain ⟨schedule, hsc, -⟩ := bind_eq_ok.mp hm
  have hsd : c.scheduled =
      .ok { l.stateDB.txmgr with expKeeper := updateKeeper l.stateDB.txmgr.expKeeper schedule [] } := by
    rw [CommitRun.scheduled, purgeAppInitiatedPvtKeys, hpurge.toPairs_eq_nil c.prepared, foldl_nil,
      TxMgr.updateExpiryInfo, hsc]
    rfl
  have hd := hdue _ hsd
  have hd₀ : retrieve l.stateDB.txmgr.expKeeper blk.number = [] := by
    rw [retrieve_eq_nil] at hd ⊢
    intro b
    have hb := hd b
    rw [lookup_updateKeeper, if_neg not_mem_nil, Option.or_eq_none_iff] at hb
    exact hb.2
  refine ⟨schedule, hsc, hsd, hd₀, hd, ?_⟩
  obtain ⟨schedule', _, hcm⟩ := bind_eq_ok.mp
    ((commit_of_notDue (m := { l.stateDB.txmgr with workingset := none }) rfl hd₀).symm.trans hcm)
  exact congrArg TxMgr.store (ok.inj hcm).symm

theorem CommitRun.recommit_eq_ok (hmax : blk.number ≠ maxUint64) (hpath : recommitPath s.codec blk.block.data = .ok path)
    {b : LedgerBlock} {postprocess : List TxValidationCode → List TxValidationCode}
    (hb : c.block.preprocess s path = .ok (b, postprocess)) (m : TxMgr) {final : KvLedger} :
    (c.blockStored.withState m).restart.recommit s (c.block, .state) = .ok final ↔
      ∃ m', s.commitLost { m with workingset := none } pvtdata b = .ok m' ∧
        final = c.blockStored.stateCommitted c.block m' := by
  have hrt : s.getPvtDataByBlockNum (c.blockStored.withState m).restart.pvtdataStore c.block.number = pvtdata :=
    c.retrieves hs hpurge hmax
  have hpath' : recommitPath s.codec c.block.block.data = .ok path := hpath
  rw [KvLedger.recommit, hpath', ok_bind, KvLedger.commitLost, hb, ok_bind, hrt, bind_eq_ok]
  refine exists_congr fun m' => and_congr_right fun _ => ?_
  exact ⟨fun h => (ok.inj h).symm, fun h => congrArg _ h.symm⟩

end

def exampleSupport (sets : List (Bytes × Vanilla.TxRwSet)) : CommitSupport where
  __ := liteSupport
  codec := writeSetCodec sets
  policy := { getBTL := fun _ coll => if coll = [] then none else some 2, unnamed := fun _ => rfl }
  unmarshalKVRWSet := exampleUnmarshal

def examplePvtSupport : CommitSupport :=
  exampleSupport [([0x01], ⟨[{
    nameSpace := ascii "cc"
    kvRwSet := {}
    collHashedRwSets := [{
      collectionName := ascii "c"
      hashedRwSet := { hashedWrites := [⟨⟨ascii "k", false, ascii "v"⟩, false⟩] }
      pvtRwSetHash := ascii "rw" }] }]⟩)]

def exampleLedger : KvLedger where
  blockStore := [liteWriteBlock]
  pvtdataStore := { height := 1 }
  stateDB := { txmgr := TxMgr.init, savepoint := some 0 }

def exampleFlaggedBlock : FlaggedBlock where
  block := { header := { number := 1 }, data := [[0x01]] }
  flags := [.valid]

def metadataFirstSupport : CommitSupport where
  __ := exampleSupport [
    ([0x01], ⟨[{
      nameSpace := ascii "cc"
      kvRwSet := { metadataWrites := [⟨ascii "k", [⟨ascii "VALIDATION_PARAMETER", ascii "p"⟩]⟩] } }]⟩),
    ([0x02], ⟨[{ nameSpace := ascii "cc", kvRwSet := { writes := [⟨ascii "k", false, ascii "v"⟩] } }]⟩)]
  serialize := fun entries => entries.flatMap KVMetadataEntry.value

def metadataFirstBlock : FlaggedBlock where
  block := { header := { number := 0 }, data := [[0x01], [0x02]] }
  flags := [.valid, .valid]

end Drunix.Peer
