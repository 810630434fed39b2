import Drunix.Ledger.Expiry.BlockToLive

namespace Drunix.Ledger.Expiry

open Lib Proto Validation Outcome List

variable {codes : List TxValidationCode} {store : StateStore} {p : PvtUpdates}

section

variable (sha256 : Bytes → Bytes) (serialize : List KVMetadataEntry → Bytes)
  (unmarshalKVRWSet : Bytes → Option KVRWSet)

def suppliedWrites (pvtdata : UInt64 → Option TxPvtData) (vs : List TxView) (k : CompositeKey) : List KeyOp :=
  vs.flatMap fun v => (opsFor (suppliedOps serialize unmarshalKVRWSet pvtdata v.pvtTx) k).filter KeyOp.isWrite

def purgedBy : LedgerBlock → List TxValidationCode → List CompositeKey
  | .vanilla blk, codes => (valid blk.txs codes).flatMap fun tx => purgedKeys tx.rwset
  | .lite _, _ => []

/-- The valid transactions that work on key hashes commit at the number of the block. If the private key behind `c` is
deleted or purged then the last operation on `c` is a deletion, and if it is written then so is `c`. -/
structure ExpiresInStep (c : CompositeKey) (blk : LedgerBlock) (codes : List TxValidationCode)
    (pvtdata : UInt64 → Option TxPvtData) : Prop where
  heights : ∀ v ∈ valid (blk.views sha256 serialize) codes, (∃ e ∈ v.ops, e.1.coll ≠ []) →
    ∃ txNum, blk.committingTxHeight v.pvtTx.indexInBlock = .ok ⟨blk.num, txNum⟩
  deletes : ∀ k, hashedKey sha256 k = c →
    (suppliedWrites serialize unmarshalKVRWSet pvtdata (valid (blk.views sha256 serialize) codes) k).getLast? =
        some .delete ∨ c ∈ purgedBy blk codes →
      ∀ op ∈ (opsOn blk (valid (blk.views sha256 serialize) codes) c).getLast?, op.1.isDelete = true
  writes : ∀ k, hashedKey sha256 k = c →
    suppliedWrites serialize unmarshalKVRWSet pvtdata (valid (blk.views sha256 serialize) codes) k ≠ [] →
      ∃ op ∈ opsOn blk (valid (blk.views sha256 serialize) codes) c, isOnlyMetadata op.1 = false

end

section

variable {blk : LedgerBlock} {db : StateDB} {u : PublicAndHashUpdates} {vs : List TxView} {c : CompositeKey}
  {vv : VersionedValue}

theorem mem_opsOn {op : KeyOps × Version} :
    op ∈ opsOn blk vs c ↔ ∃ v ∈ vs, blk.committingTxHeight v.pvtTx.indexInBlock = .ok op.2 ∧
      (applyLtxRwset v.ops).lookup c = some op.1 := by
  rw [opsOn, mem_filterMap]
  refine exists_congr fun v => and_congr_right fun _ => ?_
  cases blk.committingTxHeight v.pvtTx.indexInBlock with
  | ok txHeight =>
    obtain ⟨ops, ver⟩ := op
    simp [eq_comm, and_comm]
  | err | panic => simp

theorem exists_view_of_get (h : vs.foldlM (applyView blk db) newPubAndHashUpdates = .ok u) (hvv : u.get c = some vv) :
    ∃ v ∈ vs, blk.committingTxHeight v.pvtTx.indexInBlock = .ok vv.version ∧ ∃ e ∈ v.ops, e.1 = c := by
  obtain ⟨hl, hnil⟩ := version_of_foldlM h hvv
  cases hg : (opsOn blk vs c).getLast? with
  | none =>
    have hn := hnil (getLast?_eq_none_iff.mp hg)
    rw [newPubAndHashUpdates_get] at hn
    cases hn
  | some op =>
    rw [hg] at hl
    obtain ⟨v, hv, hh, ho⟩ := mem_opsOn.mp (mem_of_getLast? hg)
    refine ⟨v, hv, hh.trans (congrArg _ hl), ?_⟩
    rw [lookup_applyLtxRwset] at ho
    split at ho
    next => cases ho
    next hne =>
      exact exists_of_opsFor_ne_nil hne

def writesOn (vs : List TxView) (c : CompositeKey) : List KeyOp :=
  vs.flatMap fun v => (opsFor v.ops c).filter KeyOp.isWrite

theorem writtenBy_get_foldlM (n : UInt64) (before : Option UInt64) {u₀ : PublicAndHashUpdates}
    (hw : ∀ v ∈ vs, opsFor v.ops c ≠ [] → ∃ w, WrittenOnce (opsFor v.ops c) w)
    (h : vs.foldlM (applyView blk db) u₀ = .ok u) :
    writtenBy n (u.get c) before =
      (writesOn vs c).getLast?.elim (writtenBy n (u₀.get c) before) fun w => w.newValue.map fun _ => n := by
  induction vs generalizing u₀ with
  | nil =>
    cases h
    rfl
  | cons v vs ih =>
    obtain ⟨u₁, hv, hr⟩ := bind_eq_ok.mp h
    obtain ⟨txHeight, -, ha⟩ := applyView_eq_ok.mp hv
    rw [forall_mem_cons] at hw
    rw [ih hw.2 hr, writesOn, writesOn, flatMap_cons, getLast?_append]
    by_cases hnil : opsFor v.ops c = []
    · rw [get_of_applyLtxWriteSet ha c, lookup_applyLtxRwset, if_pos hnil, hnil]
      simp
    · obtain ⟨w, hw⟩ := hw.1 hnil
      obtain ⟨metadata, hg⟩ := hw.get ha
      rw [hg, hw.filter_isWrite]
      cases (vs.flatMap fun v => (opsFor v.ops c).filter KeyOp.isWrite).getLast? <;> rfl

theorem latest_of_last_delete (h : vs.foldlM (applyView blk store.db) newPubAndHashUpdates = .ok u)
    (hl : ∀ op ∈ (opsOn blk vs c).getLast?, op.1.isDelete = true) (hne : opsOn blk vs c ≠ []) :
    latest u store.db c = none := by
  have hlt := latest_of_foldlM store.value_ne_none PlainDeletes.new h c
  obtain ⟨ops, op, ho⟩ := (eq_nil_or_concat' (opsOn blk vs c)).resolve_left hne
  have hd : op.1.isDelete = true := hl op (by rw [ho, getLast?_concat]; rfl)
  rw [ho, effects_append] at hlt
  change latest u store.db c = effect op.1 op.2 _ at hlt
  rwa [effect, if_pos hd] at hlt

theorem value_of_last_delete (h : vs.foldlM (applyView blk store.db) newPubAndHashUpdates = .ok u)
    (hl : ∀ op ∈ (opsOn blk vs c).getLast?, op.1.isDelete = true) (hvv : u.get c = some vv) : vv.value = none := by
  have hlt : latest u store.db c = none := by
    refine latest_of_last_delete h hl fun hnil => ?_
    have hn := (version_of_foldlM h hvv).2 hnil
    rw [newPubAndHashUpdates_get] at hn
    cases hn
  rw [latest, hvv] at hlt
  change vv.stored = none at hlt
  by_contra hne
  rw [VersionedValue.stored, if_neg hne] at hlt
  cases hlt

end

section

variable {sha256 : Bytes → Bytes} {serialize : List KVMetadataEntry → Bytes} {unmarshalKVRWSet : Bytes → Option KVRWSet}
  {pvtdata : UInt64 → Option TxPvtData} {num : UInt64} {k : CompositeKey} {vs : List TxView}

theorem filter_isWrite_opsFor (pvtRWSet : List CollPvtRwSet) (k : CompositeKey) :
    (opsFor (pvtWriteOps pvtRWSet ++ pvtMetadataOps serialize pvtRWSet) k).filter KeyOp.isWrite =
      opsFor (pvtWriteOps pvtRWSet) k := by
  rw [opsFor_append, filter_append]
  have hw : (opsFor (pvtWriteOps pvtRWSet) k).filter KeyOp.isWrite = opsFor (pvtWriteOps pvtRWSet) k :=
    filter_eq_self.mpr fun op hop => isWrite_of_mem_pvtWriteOps hop
  have hmt : (opsFor (pvtMetadataOps serialize pvtRWSet) k).filter KeyOp.isWrite = [] := by
    rw [filter_eq_nil_iff]
    intro op hop
    rw [not_isWrite_of_mem_pvtMetadataOps hop]
    exact Bool.false_ne_true
  rw [hw, hmt, append_nil]

variable (serialize) in
theorem lookup_foldlM_addTxPvtData {acc acc' : PvtUpdates × List CompositeKey}
    (h : (vs.map TxView.pvtTx).foldlM (addTxPvtData sha256 unmarshalKVRWSet num pvtdata) acc = .ok acc') :
    (∃ op txNum, (suppliedWrites serialize unmarshalKVRWSet pvtdata vs k).getLast? = some op ∧
        acc'.1.lookup k = some ⟨op.newValue, [], ⟨num, txNum⟩⟩) ∨
      (suppliedWrites serialize unmarshalKVRWSet pvtdata vs k = [] ∧ acc'.1.lookup k = acc.1.lookup k) := by
  induction vs generalizing acc with
  | nil =>
    cases h
    exact .inr ⟨rfl, rfl⟩
  | cons v vs ih =>
    rw [map_cons, foldlM_cons, bind_eq_ok] at h
    obtain ⟨acc₁, ha, hr⟩ := h
    rw [suppliedWrites, flatMap_cons]
    rcases ih hr with ⟨op, txNum, hl, hlk⟩ | ⟨hnil, hlk⟩
    · refine .inl ⟨op, txNum, ?_, hlk⟩
      rw [getLast?_append, ← suppliedWrites, hl]
      rfl
    · rw [← suppliedWrites, hnil, append_nil, hlk]
      rcases addTxPvtData_eq_ok serialize ha with ⟨rfl, hsp⟩ | ⟨_, pvtRWSet, _, _, rfl, hsp⟩
      · rw [hsp]
        exact .inr ⟨rfl, rfl⟩
      · rw [hsp, filter_isWrite_opsFor, lookup_addPvtRWSet]
        cases hl : (opsFor (pvtWriteOps pvtRWSet) k).getLast? with
        | none => exact .inr ⟨getLast?_eq_none_iff.mp hl, rfl⟩
        | some op => exact .inl ⟨op, _, rfl, rfl⟩

variable {vv : VersionedValue}

variable (serialize) in
theorem lookup_preparePvtBatch {u : PublicAndHashUpdates} {db : StateDB}
    (h : preparePvtBatch sha256 unmarshalKVRWSet u db num (vs.map TxView.pvtTx) pvtdata = .ok p)
    (hvv : p.lookup k = some vv) :
    (∃ op txNum, (suppliedWrites serialize unmarshalKVRWSet pvtdata vs k).getLast? = some op ∧
        vv = ⟨op.newValue, [], ⟨num, txNum⟩⟩) ∨
      ∃ hav value, u.hashUpdates.lookup (hashedKey sha256 k) = some hav ∧ vv = ⟨some value, [], hav.version⟩ := by
  obtain ⟨⟨q, keys⟩, ha, hi⟩ := bind_eq_ok.mp h
  have hq : p.lookup k = q.lookup k → ∃ op txNum,
      (suppliedWrites serialize unmarshalKVRWSet pvtdata vs k).getLast? = some op ∧
        vv = ⟨op.newValue, [], ⟨num, txNum⟩⟩ := by
    intro hk
    rw [hvv] at hk
    rcases lookup_foldlM_addTxPvtData serialize ha with ⟨op, txNum, hl, hlk⟩ | ⟨_, hn⟩
    · exact ⟨op, txNum, hl, Option.some.inj (hk.trans hlk)⟩
    · cases hk.trans (hn.trans (AList.lookup_empty k))
  by_cases hm : k ∈ keys.dedup
  · obtain ⟨q₁, q₂, hq₁, hst, hp⟩ := exists_incrementVersion_of_mem keys.nodup_dedup hm hi
    obtain ⟨rfl, _⟩ | ⟨hav, _, value, hh, _, _, _, _, rfl⟩ := incrementVersion_eq_ok hst
    · exact .inl (hq (hp.trans hq₁))
    · rw [hp, AList.lookup_insert] at hvv
      exact .inr ⟨hav, value, hh, (Option.some.inj hvv).symm⟩
  · exact .inl (hq (lookup_foldlM_incrementVersion_of_notMem hm hi))

theorem lookup_purgeAppInitiatedPvtKeys (rawKeys : RawKeys sha256) (purges : PurgeTracker) (p : PvtUpdates)
    (k : CompositeKey) : (purgeAppInitiatedPvtKeys rawKeys purges p).lookup k = p.lookup k ∨
      ∃ ver, purges.lookup (hashedKey sha256 k) = some ver ∧
        (purgeAppInitiatedPvtKeys rawKeys purges p).lookup k = some ⟨none, [], ver⟩ := by
  refine foldlRecOn (motive := fun q : PvtUpdates => q.lookup k = p.lookup k ∨ ∃ ver,
    purges.lookup (hashedKey sha256 k) = some ver ∧ q.lookup k = some ⟨none, [], ver⟩) purges.toPairs _ (.inl rfl) ?_
  intro q hq e he
  dsimp only [purgeAppInitiatedPvtKey]
  split
  next => exact hq
  next hf =>
    split
    next =>
      rw [AMap.lookup_insert_eq]
      split_ifs with hk
      · refine .inr ⟨e.2, ?_, rfl⟩
        rw [hk, hashedKey, rawKeys.hash_fetch e.1 hf]
        exact AMap.mem_toPairs.mp he
      · exact hq
    next => exact hq

end

section

variable {hashFunc : Bytes → Bytes} {serializeKVReads : List KVRead → Bytes}
  {validateLtxRangeQuery : RangeQueryValidator} {sha256 : Bytes → Bytes} {serialize : List KVMetadataEntry → Bytes}
  {unmarshalKVRWSet : Bytes → Option KVRWSet}

variable {u : PublicAndHashUpdates} {c : CompositeKey}

variable {pvtdata : UInt64 → Option TxPvtData} {blk : LedgerBlock} {purges : PurgeTracker}

theorem mem_purgedBy
    (hpr : validateAndPrepare hashFunc serializeKVReads validateLtxRangeQuery sha256 serialize unmarshalKVRWSet store true
      pvtdata blk = .ok (codes, u, purges, p))
    (hc : purges.lookup c ≠ none) : c ∈ purgedBy blk codes := by
  cases blk with
  | lite blk =>
    obtain ⟨_, _, hpr⟩ := bind_eq_ok.mp hpr
    obtain ⟨_, _, hpr⟩ := bind_eq_ok.mp hpr
    cases hpr
    exact absurd (AList.lookup_empty c) hc
  | vanilla blk =>
    obtain ⟨_, hb, hpr⟩ := bind_eq_ok.mp hpr
    obtain ⟨_, _, hpr⟩ := bind_eq_ok.mp hpr
    cases hpr
    exact (mem_purgedKeys_of_prepareTxs hb hc).resolve_left fun hne => hne (AList.lookup_empty c)

theorem wellNamed_of_mem_purgedBy (hnm : NamedBlock sha256 serialize blk pvtdata) (hc : c ∈ purgedBy blk codes) :
    c.WellNamed := by
  cases blk with
  | lite blk => cases hc
  | vanilla blk =>
    obtain ⟨v, hv, e, he, rfl⟩ := exists_op_of_mem_purgedKeys sha256 serialize hc
    exact hnm.ops v (mem_of_mem_valid hv) e he

theorem NamedKeys.purge {rawKeys : RawKeys sha256} (hp : NamedKeys p)
    (hpr : ∀ c, purges.lookup c ≠ none → c.WellNamed) : NamedKeys (purgeAppInitiatedPvtKeys rawKeys purges p) := by
  intro k hk
  rcases lookup_purgeAppInitiatedPvtKeys rawKeys purges p k with heq | ⟨ver, hvr, _⟩
  · exact hp k (heq ▸ hk)
  · have hnm := hpr _ (by rw [hvr]; simp)
    exact ⟨hnm.ns_zero, hnm.ns_dollar, hnm.coll_zero⟩

theorem batchInStep_of_expiresInStep (rawKeys : RawKeys sha256) (hc : c.coll ≠ [])
    (hpr : validateAndPrepare hashFunc serializeKVReads validateLtxRangeQuery sha256 serialize unmarshalKVRWSet store true
      pvtdata blk = .ok (codes, u, purges, p))
    (hnm : NamedBlock sha256 serialize blk pvtdata)
    (hst : ExpiresInStep sha256 serialize unmarshalKVRWSet c blk codes pvtdata) :
    BatchInStep sha256 c blk.num u (purgeAppInitiatedPvtKeys rawKeys purges p) := by
  obtain ⟨ha, hp⟩ := exists_of_validateAndPrepare hpr
  have hvr : ∀ c' vv, c'.coll ≠ [] → u.get c' = some vv → vv.version.blockNum = blk.num := by
    intro c' vv hcl' hvv
    obtain ⟨v, hv, hhg, e, he, rfl⟩ := exists_view_of_get ha hvv
    obtain ⟨txNum, hnu⟩ := hst.heights v hv ⟨e, he, hcl'⟩
    rw [hhg, Outcome.ok.injEq] at hnu
    rw [hnu]
  refine ⟨hnm.namedUpdates ha, ?_, hvr, ?_, ?_, ?_⟩
  · refine NamedKeys.purge (namedKeys_of_preparePvtBatch hnm.pvtdata hp) fun c' hc' => ?_
    exact wellNamed_of_mem_purgedBy hnm (mem_purgedBy hpr hc')
  · intro k vv hvv hvl
    rcases lookup_purgeAppInitiatedPvtKeys rawKeys purges p k with heq | ⟨ver, _, heq⟩ <;> rw [heq] at hvv
    · rcases lookup_preparePvtBatch serialize hp hvv with ⟨op, txNum, _, rfl⟩ | ⟨hav, value, hh, rfl⟩
      · rfl
      · have hm : hashedKey sha256 k ∈ u.hashUpdates := AList.lookup_isSome.mp (by rw [hh]; rfl)
        exact hvr _ hav (u.coll_ne_nil _ hm) ((u.get_hashed (u.coll_ne_nil _ hm)).trans hh)
    · cases hvv
      exact absurd rfl hvl
  · intro k vv hv hk hvv hvl hhv
    refine value_of_last_delete ha (hst.deletes k hk ?_) hhv
    rcases lookup_purgeAppInitiatedPvtKeys rawKeys purges p k with heq | ⟨ver, hve, heq⟩ <;> rw [heq] at hvv
    · rcases lookup_preparePvtBatch serialize hp hvv with ⟨op, txNum, hl, rfl⟩ | ⟨hav, value, hh, rfl⟩
      · refine .inl (hl.trans ?_)
        have hw : op.isWrite = true := by
          obtain ⟨_, _, hm⟩ := mem_flatMap.mp (mem_of_getLast? hl)
          exact (mem_filter.mp hm).2
        cases op with
        | delete => rfl
        | upsert => cases hvl
        | metadataUpdate | metadataDelete => cases hw
      · cases hvl
    · rw [hk] at hve
      exact .inr (mem_purgedBy hpr (by rw [hve]; simp))
  · intro k vv hk hvv hvl
    rcases lookup_purgeAppInitiatedPvtKeys rawKeys purges p k with heq | ⟨ver, _, heq⟩ <;> rw [heq] at hvv
    · rcases lookup_preparePvtBatch serialize hp hvv with ⟨op, txNum, hl, _⟩ | ⟨hav, value, hh, _⟩
      · obtain ⟨op', hop', ho⟩ := hst.writes k hk (by rw [Ne, ← getLast?_eq_none_iff, hl]; simp)
        intro hn
        have hal := ((get_foldlM_eq_none ha).mp hn).2 op' hop'
        rw [ho] at hal
        exact Bool.false_ne_true hal.1
      · rw [hk] at hh
        rw [u.get_hashed hc, hh]
        simp
    · cases hvv
      exact absurd rfl hvl

end

section

variable (hashFunc : Bytes → Bytes) (serializeKVReads : List KVRead → Bytes)
  (validateLtxRangeQuery : RangeQueryValidator) (sha256 : Bytes → Bytes) (serialize : List KVMetadataEntry → Bytes)
  (unmarshalKVRWSet : Bytes → Option KVRWSet) (policy : BTLPolicy)

structure CommitsNext (s t : PeerState) (blk : LedgerBlock) (codes : List TxValidationCode)
    (pvtdata : UInt64 → Option TxPvtData) : Prop where
  next : blk.num = s.height
  room : s.height ≠ maxUint64
  commit : ∃ rawKeys, commitToState hashFunc serializeKVReads validateLtxRangeQuery sha256 serialize unmarshalKVRWSet policy
    rawKeys s blk pvtdata = .ok (codes, t)
  named : NamedBlock sha256 serialize blk pvtdata

def PeerStep (cond : LedgerBlock → List TxValidationCode → (UInt64 → Option TxPvtData) → Prop) (s t : PeerState) : Prop :=
  (∃ blk codes pvtdata, CommitsNext hashFunc serializeKVReads validateLtxRangeQuery sha256 serialize unmarshalKVRWSet policy
    s t blk codes pvtdata ∧ cond blk codes pvtdata) ∨ t = { s with workingset := none }

variable {hashFunc serializeKVReads validateLtxRangeQuery sha256 serialize unmarshalKVRWSet policy}

theorem ExpiryInv.init (c : CompositeKey) (btl : UInt64) : ExpiryInv policy sha256 c btl PeerState.init where
  workingset := .inl rfl
  keeper := by
    have hn : ∀ ek e, e ∉ keysAt PeerState.init.expKeeper ek := fun ek e => not_mem_nil
    exact ⟨fun ek e he => absurd he (hn ek e), fun ek e he => absurd he (hn ek e), fun ek e he => absurd he (hn ek e),
      fun ek e he => absurd he (hn ek e), fun ek e he => absurd he (hn ek e)⟩
  hash := .of_none ..
  pvt := fun k _ => .of_none ..
  order := by
    intro k b b' _ hb
    cases hb
  keyed := by
    intro k ek b _ hm
    exact absurd hm not_mem_nil

theorem CommitsNext.batches {s t : PeerState} {blk : LedgerBlock} {pvtdata : UInt64 → Option TxPvtData}
    (h : CommitsNext hashFunc serializeKVReads validateLtxRangeQuery sha256 serialize unmarshalKVRWSet policy s t blk codes
      pvtdata) :
    ∃ (rawKeys : RawKeys sha256) (u : PublicAndHashUpdates) (purges : PurgeTracker) (p : PvtUpdates),
      validateAndPrepare hashFunc serializeKVReads validateLtxRangeQuery sha256 serialize unmarshalKVRWSet s.store true
        pvtdata blk = .ok (codes, u, purges, p) ∧
      Expiry.commit policy sha256 s s.height u (purgeAppInitiatedPvtKeys rawKeys purges p) = .ok t := by
  obtain ⟨rawKeys, hto⟩ := h.commit
  simp only [commitToState, bind_eq_ok, pure_eq, Outcome.ok.injEq, Prod.mk.injEq, Prod.exists] at hto
  obtain ⟨codes', u, purges, p, hpr, t', hto, rfl, rfl⟩ := hto
  rw [h.next] at hto
  exact ⟨rawKeys, u, purges, p, hpr, hto⟩

/-- Where every valid transaction of the block that works on a key hash writes it once, `hashWritten` follows the last
write of the hash in their write sets. -/
theorem CommitsNext.hashWritten_eq {s t : PeerState} {blk : LedgerBlock} {pvtdata : UInt64 → Option TxPvtData}
    (h : CommitsNext hashFunc serializeKVReads validateLtxRangeQuery sha256 serialize unmarshalKVRWSet policy s t blk codes
      pvtdata) {c : CompositeKey}
    (hw : ∀ v ∈ valid (blk.views sha256 serialize) codes, opsFor v.ops c ≠ [] → ∃ w, WrittenOnce (opsFor v.ops c) w) :
    t.hashWritten c = (writesOn (valid (blk.views sha256 serialize) codes) c).getLast?.elim (s.hashWritten c)
      fun w => w.newValue.map fun _ => s.height := by
  obtain ⟨rawKeys, u, purges, p, hpr, hto⟩ := h.batches
  simp only [Expiry.commit, bind_eq_ok, pure_eq, Outcome.ok.injEq] at hto
  obtain ⟨_, -, rfl⟩ := hto
  have hu := writtenBy_get_foldlM s.height (s.hashWritten c) hw (exists_of_validateAndPrepare hpr).1
  rwa [newPubAndHashUpdates_get] at hu

section

variable {c : CompositeKey} (hc : c.WellNamed) (hcoll : c.coll ≠ []) {btl : UInt64}
  (hbtl : policy.getBTL c.ns c.coll = some btl)
  (hinj : ∀ k k', hashedKey sha256 k = c → hashedKey sha256 k' = c → k = k')
  (hkey : ∀ k, hashedKey sha256 k = c → k.key ≠ []) {s : PeerState}
include hc hcoll hbtl hinj hkey

theorem ExpiryInv.commitsNext {t : PeerState} {blk : LedgerBlock} {pvtdata : UInt64 → Option TxPvtData}
    (hs : ExpiryInv policy sha256 c btl s)
    (h : CommitsNext hashFunc serializeKVReads validateLtxRangeQuery sha256 serialize unmarshalKVRWSet policy s t blk codes
      pvtdata)
    (hst : ExpiresInStep sha256 serialize unmarshalKVRWSet c blk codes pvtdata) : ExpiryInv policy sha256 c btl t := by
  obtain ⟨rawKeys, u, purges, p, hpr, hto⟩ := h.batches
  have hb := batchInStep_of_expiresInStep rawKeys hcoll hpr h.named hst
  rw [h.next] at hb
  exact hs.commit hc hcoll hbtl hinj hkey h.room hb hto

/-- After the block `height - 1` the row of a key that was last written in the block `b` and not deleted since is there
exactly if that block comes before `b + btl + 1`. -/
theorem block_to_live_exact
    (h : Reachable (fun s => s = PeerState.init) (PeerStep hashFunc serializeKVReads validateLtxRangeQuery sha256 serialize
      unmarshalKVRWSet policy (ExpiresInStep sha256 serialize unmarshalKVRWSet c)) s) :
    (∀ b, s.hashWritten c = some b →
        ((s.store.db c.dataKey).isSome ↔ s.height.toNat ≤ b.toNat + btl.toNat + 1)) ∧
      ∀ k b, hashedKey sha256 k = c → s.pvtWritten k = some b →
        ((s.store.db (pvtDataKey k)).isSome ↔ s.height.toNat ≤ b.toNat + btl.toNat + 1) := by
  have hi : ExpiryInv policy sha256 c btl s := by
    refine h.invariant (ExpiryInv policy sha256 c btl) ?_ ?_
    · rintro s rfl
      exact ExpiryInv.init c btl
    · rintro s t hs (⟨blk, codes, pvtdata, hcm, hst⟩ | rfl)
      · exact hs.commitsNext hc hcoll hbtl hinj hkey hcm hst
      · exact { hs with workingset := .inl rfl }
  exact ⟨hi.hash.present, fun k b hk => (hi.pvt k hk).present b⟩

end

end

def examplePolicy : BTLPolicy where
  getBTL _ coll := if coll = [] then none else some 1
  unnamed _ := rfl

def exampleEmptyBlock (num : UInt64) : LedgerBlock :=
  .vanilla { num, txs := [], sparseblockchainFilter := none }

def exampleCommit (s : PeerState) (blk : LedgerBlock) : Outcome Unit (List TxValidationCode × PeerState) :=
  commitToState id (fun _ => []) (fun _ _ _ _ => false) id (fun _ => []) exampleUnmarshal examplePolicy (RawKeys.unknown id) s blk
    examplePvtData

def exampleAfter (s : PeerState) (blk : LedgerBlock) : PeerState :=
  match exampleCommit s blk with
  | .ok r => r.2
  | _ => s

def exampleBlock (n : Nat) : LedgerBlock :=
  if n = 1 then examplePvtBlock none else exampleEmptyBlock (UInt64.ofNat n)

def exampleState : Nat → PeerState
  | 0 => PeerState.init
  | n + 1 => exampleAfter (exampleState n) (exampleBlock n)

theorem exampleEmptyBlock_expiresInStep (num : UInt64) (c : CompositeKey) :
    ExpiresInStep id (fun _ => []) exampleUnmarshal c (exampleEmptyBlock num) [] examplePvtData where
  heights v hv := absurd hv not_mem_nil
  deletes k _ _ op hop := absurd hop (by simp [exampleEmptyBlock, LedgerBlock.views, valid, opsOn])
  writes k _ h := absurd rfl h

theorem examplePvtBlock_expiresInStep :
    ExpiresInStep id (fun _ => []) exampleUnmarshal examplePvtKey.toCompositeKey (examplePvtBlock none) [.valid]
      examplePvtData where
  heights := by
    intro v hv _
    cases mem_singleton.mp hv
    exact ⟨0, rfl⟩
  deletes := by
    intro k hk h
    obtain rfl : k = examplePvtKey.toCompositeKey := hk
    exact absurd h (by decide)
  writes := by
    intro k _ _
    exact ⟨_, mem_singleton.mpr rfl, by decide⟩

theorem exampleEmptyBlock_named (num : UInt64) : NamedBlock id (fun _ => []) (exampleEmptyBlock num) examplePvtData where
  ops _ hv := absurd hv not_mem_nil
  pvtdata := (examplePvtBlock_named none).pvtdata

theorem exampleState_reachable {cond : LedgerBlock → List TxValidationCode → (UInt64 → Option TxPvtData) → Prop}
    (he : ∀ num, cond (exampleEmptyBlock num) [] examplePvtData) (hp : cond (examplePvtBlock none) [.valid] examplePvtData) :
    ∀ n : Fin 5, Reachable (fun s => s = PeerState.init) (PeerStep id (fun _ => []) (fun _ _ _ _ => false) id (fun _ => [])
      exampleUnmarshal examplePolicy cond) (exampleState n) := by
  have h₀ : Reachable (fun s => s = PeerState.init) (PeerStep id (fun _ => []) (fun _ _ _ _ => false) id (fun _ => [])
      exampleUnmarshal examplePolicy cond) (exampleState 0) := .init rfl
  have h₁ := h₀.step (t := exampleState 1) (.inl ⟨exampleEmptyBlock 0, [], examplePvtData,
    ⟨rfl, by decide, ⟨RawKeys.unknown id, rfl⟩, exampleEmptyBlock_named 0⟩, he 0⟩)
  have h₂ := h₁.step (t := exampleState 2) (.inl ⟨examplePvtBlock none, [.valid], examplePvtData,
    ⟨rfl, by decide, ⟨RawKeys.unknown id, rfl⟩, examplePvtBlock_named none⟩, hp⟩)
  have h₃ := h₂.step (t := exampleState 3) (.inl ⟨exampleEmptyBlock 2, [], examplePvtData,
    ⟨rfl, by decide, ⟨RawKeys.unknown id, rfl⟩, exampleEmptyBlock_named 2⟩, he 2⟩)
  have h₄ := h₃.step (t := exampleState 4) (.inl ⟨exampleEmptyBlock 3, [], examplePvtData,
    ⟨rfl, by decide, ⟨RawKeys.unknown id, rfl⟩, exampleEmptyBlock_named 3⟩, he 3⟩)
  exact fun | 0 => h₀ | 1 => h₁ | 2 => h₂ | 3 => h₃ | 4 => h₄

theorem block_to_live_exact_examplePvtBlock :
    (exampleState 4).hashWritten examplePvtKey.toCompositeKey = some 1 ∧
      (exampleState 3).store.db examplePvtKey.toCompositeKey.dataKey ≠ none ∧
      (exampleState 4).store.db examplePvtKey.toCompositeKey.dataKey = none ∧
      ∀ n : Fin 5,
        (∀ b, (exampleState n).hashWritten examplePvtKey.toCompositeKey = some b →
          (((exampleState n).store.db examplePvtKey.toCompositeKey.dataKey).isSome ↔
            (exampleState n).height.toNat ≤ b.toNat + (1 : UInt64).toNat + 1)) ∧
        ∀ k b, hashedKey id k = examplePvtKey.toCompositeKey → (exampleState n).pvtWritten k = some b →
          (((exampleState n).store.db (pvtDataKey k)).isSome ↔
            (exampleState n).height.toNat ≤ b.toNat + (1 : UInt64).toNat + 1) := by
  refine ⟨rfl, by decide, rfl, fun n => block_to_live_exact examplePvtKey.wellNamed examplePvtKey.coll_ne_nil
    (show examplePolicy.getBTL _ _ = some _ from rfl) ?_ ?_
    (exampleState_reachable (exampleEmptyBlock_expiresInStep · _) examplePvtBlock_expiresInStep n)⟩
  · rintro k k' hk hk'
    exact hk.trans hk'.symm
  · intro k hk
    obtain rfl : k = examplePvtKey.toCompositeKey := hk
    decide

/-- In a block with a sparse filter the hash is scheduled under the number of the fat block. With a block-to-live of 1 a
write in block 1 is to expire with block 3, but only the private key does. -/
theorem hash_stays_after_expiry :
    ([exampleEmptyBlock 0, examplePvtBlock (some ⟨7, [⟨3, .valid⟩]⟩), exampleEmptyBlock 2, exampleEmptyBlock 3].foldlM
        (fun s blk => do
          let r ← exampleCommit s blk
          return r.2) PeerState.init >>= fun s =>
      .ok (s.height, s.hashWritten examplePvtKey.toCompositeKey, (s.store.db examplePvtKey.toCompositeKey.dataKey).isSome,
        s.pvtWritten examplePvtKey.toCompositeKey, (s.store.db (pvtDataKey examplePvtKey.toCompositeKey)).isSome)) =
      .ok (4, some 1, true, some 1, false) :=
  rfl

end Drunix.Ledger.Expiry
