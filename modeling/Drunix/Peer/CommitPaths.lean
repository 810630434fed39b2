import Drunix.Ledger.Expiry.Schedule
import Drunix.Peer.KvLedger

namespace Drunix.Peer

open Lib Proto Ledger Ledger.Validation Ledger.Expiry Outcome List

variable {n : Nat}

section

variable {τ : Type}

structure Reflags (preprocessTx : Nat → TxValidationCode → Bytes → Outcome Unit (TxValidationCode × Option τ))
    (setCode : τ → TxValidationCode → τ) : Prop where
  skipped : ∀ {n flag b flag'}, preprocessTx n flag b = .ok (flag', none) → preprocessTx n flag' b = .ok (flag', none)
  kept : ∀ {n flag b flag' tx}, preprocessTx n flag b = .ok (flag', some tx) →
    ∀ code, preprocessTx n code b = .ok (code, some (setCode tx code))

def reflagged (setCode : τ → TxValidationCode → τ) :
    List (TxValidationCode × Option τ) → List TxValidationCode → List (TxValidationCode × Option τ)
  | [], _ => []
  | (flag, none) :: es, codes => (flag, none) :: reflagged setCode es codes
  | (_, some tx) :: es, code :: codes => (code, some (setCode tx code)) :: reflagged setCode es codes
  | (flag, some tx) :: es, [] => (flag, some tx) :: reflagged setCode es []

variable {preprocessTx : Nat → TxValidationCode → Bytes → Outcome Unit (TxValidationCode × Option τ)}
  {setCode : τ → TxValidationCode → τ} {codes : List TxValidationCode} {es : List (TxValidationCode × Option τ)}

theorem Reflags.preprocessTxs (h : Reflags preprocessTx setCode) {data : List Bytes} {flags : List TxValidationCode}
    (hes : preprocessTxs preprocessTx n data flags = .ok es) (hlen : (es.filterMap Prod.snd).length = codes.length) :
    Peer.preprocessTxs preprocessTx n data (postprocessFlags es codes) = .ok (reflagged setCode es codes) := by
  induction data generalizing n flags codes es with
  | nil =>
    rw [Peer.preprocessTxs] at hes
    cases hes
    rfl
  | cons b data ih =>
    cases flags with
    | nil => cases hes
    | cons flag flags =>
      simp only [Peer.preprocessTxs, bind_eq_ok, pure_eq, ok.injEq] at hes
      obtain ⟨⟨flag', tx⟩, he, es, hes, rfl⟩ := hes
      cases tx with
      | none =>
        simp only [postprocessFlags, reflagged, Peer.preprocessTxs, h.skipped he, ih hes hlen, ok_bind, pure_eq]
      | some tx =>
        cases codes with
        | nil => cases hlen
        | cons code codes =>
          have hl' : (es.filterMap Prod.snd).length = codes.length := Nat.succ.inj hlen
          simp only [postprocessFlags, reflagged, Peer.preprocessTxs, h.kept he code, ih hes hl', ok_bind, pure_eq]

theorem filterMap_reflagged (hlen : (es.filterMap Prod.snd).length = codes.length) :
    (reflagged setCode es codes).filterMap Prod.snd = List.zipWith setCode (es.filterMap Prod.snd) codes := by
  induction es generalizing codes with
  | nil => rfl
  | cons e es ih =>
    obtain ⟨flag, tx⟩ := e
    cases tx with
    | none => exact ih hlen
    | some tx =>
      cases codes with
      | nil => cases hlen
      | cons code codes => exact congrArg (setCode tx code :: ·) (ih (Nat.succ.inj hlen))

end

def setCode (tx : Transaction) (code : TxValidationCode) : Transaction :=
  { tx with validationCode := code }

def setLtxCode (tx : LtxTransaction) (code : TxValidationCode) : LtxTransaction :=
  { tx with validationCode := code }

section

variable {s : CommitSupport} {b : Bytes}

/-- What an envelope is read as: refused with a code of its own, without a read-write set, or with one. -/
inductive ReadsAs (s : CommitSupport) (n : Nat) (b : Bytes) : Prop
  | refused (code : TxValidationCode) (h : ∀ flag, preprocessTx s n flag b = .ok (code, none))
  | empty (h : ∀ flag, preprocessTx s n flag b = .ok (flag, none))
  | tx (rwset : Vanilla.TxRwSet) (h : ∀ flag, preprocessTx s n flag b = .ok (flag, some ⟨n, rwset, flag⟩))

theorem readsAs_of_checked (rwset : Vanilla.TxRwSet)
    (h : ∀ flag, preprocessTx s n flag b = preprocessTx.checked s n flag rwset) : ReadsAs s n b := by
  simp only [preprocessTx.checked] at h
  by_cases hvl : s.validateWriteset rwset = true
  · exact .tx rwset fun flag => by rw [h, if_pos hvl]
  · exact .refused .invalidWriteset fun flag => by rw [h, if_neg hvl]

theorem readsAs_of_preprocessTx {flag : TxValidationCode} {r : TxValidationCode × Option Transaction}
    (h : preprocessTx s n flag b = .ok r) : ReadsAs s n b := by
  simp only [preprocessTx, bind_eq_ok, orErr_eq_ok, deref_eq_ok] at h
  obtain ⟨env, he, payload, hp, header, hh, chdr, hc, h⟩ := h
  by_cases ht : chdr.type = .endorserTransaction
  · rw [if_pos ht] at h
    cases ha : getActionFromEnvelopeMsg s.codec env with
    | err e =>
      refine .refused .nilTxaction fun flag => ?_
      simp only [preprocessTx, he, hp, hh, hc, ht, ha, orErr, deref, ok_bind, if_true]
    | panic =>
      rw [ha] at h
      cases h
    | ok respPayload =>
      cases hrw : s.codec.txRwSet.unmarshal respPayload.results with
      | none =>
        refine .refused .invalidOtherReason fun flag => ?_
        simp only [preprocessTx, he, hp, hh, hc, ht, ha, hrw, orErr, deref, ok_bind, if_true]
      | some rwset =>
        refine readsAs_of_checked rwset fun flag => ?_
        simp only [preprocessTx, he, hp, hh, hc, ht, ha, hrw, orErr, deref, ok_bind, if_true]
  · rw [if_neg ht, bind_eq_ok] at h
    obtain ⟨rwset, hrw, h⟩ := h
    cases rwset with
    | none =>
      refine .empty fun flag => ?_
      simp only [preprocessTx, he, hp, hh, hc, ht, hrw, orErr, deref, ok_bind, if_false]
    | some rwset =>
      refine readsAs_of_checked rwset fun flag => ?_
      simp only [preprocessTx, he, hp, hh, hc, ht, hrw, orErr, deref, ok_bind, if_false]

theorem preprocessTx_reflags : Reflags (preprocessTx s) setCode where
  skipped := by
    intro n flag b flag' h
    cases readsAs_of_preprocessTx h with
    | refused code ha =>
      rw [ha] at h
      cases h
      exact ha flag'
    | empty ha => exact ha flag'
    | tx rwset ha =>
      rw [ha] at h
      cases h
  kept := by
    intro n flag b flag' tx h code
    cases readsAs_of_preprocessTx h with
    | refused code ha =>
      rw [ha] at h
      cases h
    | empty ha =>
      rw [ha] at h
      cases h
    | tx rwset ha =>
      rw [ha] at h
      cases h
      exact ha code

theorem preprocessLtxTx_reflags : Reflags (preprocessLtxTx s) setLtxCode where
  skipped := by
    intro n flag b flag' h
    simp only [preprocessLtxTx, bind_eq_ok, orErr_eq_ok, pure_eq, ok.injEq, Prod.mk.injEq] at h
    obtain ⟨env, he, results, hrs, rfl, hn⟩ := h
    simp only [preprocessLtxTx, he, hrs, hn, orErr, ok_bind, pure_eq]
  kept := by
    intro n flag b flag' tx h code
    simp only [preprocessLtxTx, bind_eq_ok, orErr_eq_ok, pure_eq, ok.injEq, Prod.mk.injEq] at h
    obtain ⟨env, he, results, hrs, rfl, hsm⟩ := h
    obtain ⟨rwset, rfl, rfl⟩ := Option.map_eq_some_iff.mp hsm
    simp only [preprocessLtxTx, he, hrs, orErr, ok_bind, pure_eq, Option.map_some, setLtxCode]

variable {store : StateStore} {doMVCC : Bool} {u u' : PublicAndHashUpdates} {code : TxValidationCode}
  {codes : List TxValidationCode} {r : PublicAndHashUpdates × PurgeTracker} {tracker : PurgeTracker}

section

variable (b b' : Validation.Block) (hheight : b'.committingTxHeight = b.committingTxHeight)
include hheight

theorem prepareTx_recommit {tx : Transaction}
    (h : prepareTx s.hashFunc s.serializeKVReads store s.sha256 s.serialize b doMVCC u tracker tx = .ok (code, r)) :
    prepareTx s.hashFunc s.serializeKVReads store s.sha256 s.serialize b' false u tracker (setCode tx code) =
      .ok (code, r) := by
  obtain ⟨_, hc⟩ := prepareTx_eq_ok_iff.mp h
  rw [← hheight] at hc
  refine prepareTx_eq_ok_iff.mpr ⟨?_, hc⟩
  rw [mvccCode, setCode]
  by_cases hvl : code = .valid
  · rw [hvl]
    rfl
  · rw [if_neg hvl]

theorem prepareTxs_recommit {txs : List Transaction}
    (h : prepareTxs s.hashFunc s.serializeKVReads store s.sha256 s.serialize b doMVCC u tracker txs = .ok (codes, r)) :
    txs.length = codes.length ∧
      prepareTxs s.hashFunc s.serializeKVReads store s.sha256 s.serialize b' false u tracker
        (List.zipWith setCode txs codes) = .ok (codes, r) :=
  mapAccumM_zipWith (fun _ _ _ _ => prepareTx_recommit b b' hheight) h

end

section

variable (b b' : LtxBlock) (hheight : b'.committingTxHeight = b.committingTxHeight)
include hheight

theorem validateAndPrepareTx_recommit {tx : LtxTransaction}
    (h : validateAndPrepareTx s.validateLtxRangeQuery store.db s.sha256 s.serialize b doMVCC u tx = .ok (code, u')) :
    validateAndPrepareTx s.validateLtxRangeQuery store.db s.sha256 s.serialize b' false u (setLtxCode tx code) =
      .ok (code, u') := by
  obtain ⟨_, hc⟩ := validateAndPrepareTx_eq_ok_iff.mp h
  rw [← hheight] at hc
  refine validateAndPrepareTx_eq_ok_iff.mpr ⟨?_, hc⟩
  rw [ltxMvccCode, setLtxCode]
  by_cases hvl : code = .valid
  · rw [hvl]
    rfl
  · rw [if_neg hvl]

theorem validateAndPrepareLtxBatch_recommit {txs : List LtxTransaction}
    (h : validateAndPrepareLtxBatch s.validateLtxRangeQuery store.db s.sha256 s.serialize b doMVCC u txs =
      .ok (codes, u')) :
    txs.length = codes.length ∧
      validateAndPrepareLtxBatch s.validateLtxRangeQuery store.db s.sha256 s.serialize b' false u
        (List.zipWith setLtxCode txs codes) = .ok (codes, u') :=
  mapAccumM_zipWith (fun _ _ _ _ => validateAndPrepareTx_recommit b b' hheight) h

end

theorem map_valid_zipWith {α β : Type} {f : α → TxValidationCode → α} {g : α → β} (hg : ∀ a code, g (f a code) = g a)
    (txs : List α) (codes : List TxValidationCode) :
    (valid (List.zipWith f txs codes) codes).map g = (valid txs codes).map g := by
  induction txs generalizing codes with
  | nil => rfl
  | cons tx txs ih =>
    cases codes with
    | nil => rfl
    | cons code codes =>
      rw [zipWith_cons_cons, valid_cons, valid_cons]
      split
      · rw [map_cons, map_cons, hg, ih]
      · exact ih codes

theorem map_snd_reflagged {τ : Type} {f : τ → TxValidationCode → τ} {es : List (TxValidationCode × Option τ)}
    {txs : List τ} (h : es.map Prod.snd = txs.map some) (hlen : txs.length = codes.length) :
    (reflagged f es codes).map Prod.snd = (List.zipWith f txs codes).map some := by
  induction es generalizing txs codes with
  | nil =>
    cases txs with
    | nil => rfl
    | cons tx txs => cases h
  | cons e es ih =>
    obtain ⟨flag, tx⟩ := e
    cases txs with
    | nil => cases h
    | cons tx' txs =>
      cases codes with
      | nil => cases hlen
      | cons code codes =>
        simp only [map_cons, List.cons.injEq] at h
        obtain ⟨rfl, h⟩ := h
        rw [reflagged, map_cons, zipWith_cons_cons, map_cons, ih h (Nat.succ.inj hlen)]

variable {pvtdata : UInt64 → Option TxPvtData}

def withCodes (b : Validation.Block) (codes : List TxValidationCode) : Validation.Block :=
  { b with txs := List.zipWith setCode b.txs codes }

def withLtxCodes (b : LtxBlock) (codes : List TxValidationCode) : LtxBlock :=
  { b with txs := List.zipWith setLtxCode b.txs codes }

variable {blk : FlaggedBlock} {flags : List TxValidationCode} {r : PublicAndHashUpdates × PurgeTracker × PvtUpdates}

/-- A block read again with its final flags is prepared, without MVCC validation, to the same updates. -/
theorem prepare_recommit {path : CommitPath} (h : prepare s path doMVCC store blk pvtdata = .ok (flags, r)) :
    ∃ b postprocess codes, FlaggedBlock.preprocess s { blk with flags } path = .ok (b, postprocess) ∧
      s.validateAndPrepare false store pvtdata b = .ok (codes, r) ∧ b.num = blk.number := by
  obtain ⟨⟨b, postprocess⟩, hb, h⟩ := bind_eq_ok.mp h
  obtain ⟨⟨codes, r'⟩, hv, h⟩ := bind_eq_ok.mp h
  cases h
  cases path with
  | vanilla =>
    simp only [FlaggedBlock.preprocess, bind_eq_ok, pure_eq, ok.injEq, Prod.mk.injEq] at hb
    obtain ⟨es, hes, rfl, rfl⟩ := hb
    obtain ⟨⟨codes', u, tracker⟩, hb, hv⟩ := bind_eq_ok.mp hv
    obtain ⟨p, hp, hv⟩ := bind_eq_ok.mp hv
    cases hv
    obtain ⟨hlen, ha⟩ := prepareTxs_recommit ⟨blk.number, es.filterMap Prod.snd, blk.sparseFilter s⟩
      (withCodes ⟨blk.number, es.filterMap Prod.snd, blk.sparseFilter s⟩ codes) rfl hb
    refine ⟨.vanilla (withCodes ⟨blk.number, es.filterMap Prod.snd, blk.sparseFilter s⟩ codes),
      postprocessFlags (reflagged setCode es codes), codes,
      bind_eq_ok.mpr ⟨_, preprocessTx_reflags.preprocessTxs hes hlen, ?_⟩,
      bind_eq_ok.mpr ⟨_, ha, bind_eq_ok.mpr ⟨p, ?_, rfl⟩⟩, rfl⟩
    · rw [filterMap_reflagged hlen]
      rfl
    · rw [validateAndPreparePvtBatch] at hp ⊢
      rw [withCodes, map_valid_zipWith (f := setCode) fun _ _ => rfl]
      exact hp
  | lite =>
    simp only [FlaggedBlock.preprocess, bind_eq_ok, pure_eq, ok.injEq, Prod.mk.injEq] at hb
    obtain ⟨es, hes, txs, ht, rfl, rfl⟩ := hb
    obtain ⟨⟨codes', u⟩, hb, hv⟩ := bind_eq_ok.mp hv
    obtain ⟨p, hp, hv⟩ := bind_eq_ok.mp hv
    cases hv
    rw [mapM_deref_eq_ok] at ht
    obtain ⟨hlen, ha⟩ := validateAndPrepareLtxBatch_recommit ⟨blk.number, txs, blk.sparseFilter s⟩
      (withLtxCodes ⟨blk.number, txs, blk.sparseFilter s⟩ codes) rfl hb
    have hl' : (es.filterMap Prod.snd).length = codes.length := by rw [filterMap_of_map_eq ht, hlen]
    refine ⟨.lite (withLtxCodes ⟨blk.number, txs, blk.sparseFilter s⟩ codes), _, codes,
      bind_eq_ok.mpr ⟨_, preprocessLtxTx_reflags.preprocessTxs hes hl',
        bind_eq_ok.mpr ⟨_, mapM_deref_eq_ok.mpr (map_snd_reflagged ht hlen), rfl⟩⟩,
      bind_eq_ok.mpr ⟨_, ha, bind_eq_ok.mpr ⟨p, ?_, rfl⟩⟩, rfl⟩
    rw [validateAndPrepareLtxPvtBatch] at hp ⊢
    rw [withLtxCodes, map_valid_zipWith (f := setLtxCode) fun _ _ => rfl]
    exact hp

end

structure SamePath (codec : Codec) (leanFormatEnabled : Bool) (data : List Bytes) : Prop where
  replayed : storeBlockPath codec leanFormatEnabled data = replayPath
  recommitted : recommitPath codec data = .ok (storeBlockPath codec leanFormatEnabled data)

theorem samePath_iff (codec : Codec) (leanFormatEnabled : Bool) (data : List Bytes) :
    SamePath codec leanFormatEnabled data ↔
      isConfigBlock codec data = true ∨ (leanFormatEnabled = false ∧ isLiteBlock codec data = .ok false) := by
  constructor
  · rintro ⟨hrp, hr⟩
    rw [hrp] at hr
    by_cases hc : isConfigBlock codec data = true
    · exact Or.inl hc
    · refine Or.inr ⟨?_, ?_⟩
      · cases leanFormatEnabled with
        | false => rfl
        | true => simp [storeBlockPath, replayPath, hc] at hrp
      · rw [recommitPath, if_neg hc, bind_eq_ok] at hr
        obtain ⟨lite, hl, hp⟩ := hr
        cases lite with
        | false => exact hl
        | true => cases hp
  · rintro (hc | ⟨rfl, hl⟩)
    · have hp : storeBlockPath codec leanFormatEnabled data = .vanilla := by simp [storeBlockPath, hc]
      exact ⟨hp, by rw [recommitPath, if_pos hc, hp]⟩
    · have hp : storeBlockPath codec false data = .vanilla := by simp [storeBlockPath]
      refine ⟨hp, ?_⟩
      rw [recommitPath, hl]
      split <;> rfl

section

variable {s : CommitSupport} {path : CommitPath} {l l' : KvLedger} {blk : FlaggedBlock}
  {pvtdata : UInt64 → Option TxPvtData}

def KvLedger.withBlock (l : KvLedger) (blk : FlaggedBlock) (commitHash : Bytes) : KvLedger :=
  { l with blockStore := l.blockStore ++ [blk], commitHash }

theorem storePvtdata_eq_ok {num : UInt64} {purges : PurgeTracker} (h : l.storePvtdata num pvtdata purges = .ok l') :
    ∃ pvtdataStore, l' = { l with pvtdataStore } := by
  rw [KvLedger.storePvtdata] at h
  split at h
  · cases h
    exact ⟨_, rfl⟩
  · obtain ⟨st, _, h⟩ := bind_eq_ok.mp h
    cases h
    exact ⟨st, rfl⟩

theorem addBlock_eq_ok {commitHash : Bytes} :
    l.addBlock blk commitHash = .ok l' ↔ blk.number.toNat = l.height ∧ l' = l.withBlock blk commitHash := by
  simp only [KvLedger.addBlock, bind_eq_ok, require_eq_ok, pure_eq, ok.injEq, decide_eq_true_eq]
  constructor
  · rintro ⟨_, hnm, h⟩
    exact ⟨hnm, h.symm⟩
  · rintro ⟨hnm, h⟩
    exact ⟨(), hnm, h.symm⟩

/-- What a commit goes through. -/
structure CommitRun (s : CommitSupport) (path : CommitPath) (l : KvLedger) (blk : FlaggedBlock)
    (pvtdata : UInt64 → Option TxPvtData) where
  flags : List TxValidationCode
  u : PublicAndHashUpdates
  purges : PurgeTracker
  pvtUpdates : PvtUpdates
  pvtdataStore : PvtdataStore
  txmgr : TxMgr
  prepared : prepare s path true l.stateDB.txmgr.store blk pvtdata = .ok (flags, u, purges, pvtUpdates)
  stored : l.storePvtdata blk.number pvtdata purges = .ok { l with pvtdataStore }
  number : blk.number.toNat = l.height
  committed : l.stateDB.txmgr.commit s.policy s.sha256 blk.number u
    (purgeAppInitiatedPvtKeys (s.rawKeys l.pvtdataStore) purges pvtUpdates) = .ok txmgr

namespace CommitRun

variable (c : CommitRun s path l blk pvtdata)

def block : FlaggedBlock :=
  { blk with flags := c.flags }

def blockStored : KvLedger :=
  { l with pvtdataStore := c.pvtdataStore }.withBlock c.block (l.addBlockCommitHash s c.block c.u)

theorem commitUpTo_pvtdataStored :
    l.commitUpTo s .pvtdataStored path blk pvtdata = .ok { l with pvtdataStore := c.pvtdataStore } := by
  rw [KvLedger.commitUpTo, c.prepared, ok_bind]
  exact congrArg (· >>= _) c.stored

theorem commitUpTo_blockStored : l.commitUpTo s .blockStored path blk pvtdata = .ok c.blockStored := by
  have ha : KvLedger.addBlock { l with pvtdataStore := c.pvtdataStore } c.block (l.addBlockCommitHash s c.block c.u) =
      .ok c.blockStored := addBlock_eq_ok.mpr ⟨c.number, rfl⟩
  rw [KvLedger.commitUpTo, c.prepared, ok_bind]
  refine (congrArg (· >>= _) c.stored).trans ?_
  exact congrArg (· >>= _) ha

theorem commit_eq : l.commit s path blk pvtdata =
    ((c.blockStored.stateCommitted c.block c.txmgr).commitHistory s path c.block).orPanic := by
  have ha : KvLedger.addBlock { l with pvtdataStore := c.pvtdataStore } c.block (l.addBlockCommitHash s c.block c.u) =
      .ok c.blockStored := addBlock_eq_ok.mpr ⟨c.number, rfl⟩
  rw [KvLedger.commit, KvLedger.commitUpTo, c.prepared, ok_bind]
  refine (congrArg (· >>= _) c.stored).trans ?_
  refine (congrArg (· >>= _) ha).trans ?_
  exact congrArg (· >>= _) (orPanic_eq_ok.mpr c.committed)

end CommitRun

theorem exists_commitRun (h : l.commit s path blk pvtdata = .ok l') :
    ∃ c : CommitRun s path l blk pvtdata,
      (c.blockStored.stateCommitted c.block c.txmgr).commitHistory s path c.block = .ok l' := by
  obtain ⟨⟨flags, u, purges, pvtUpdates⟩, hpr, h⟩ := bind_eq_ok.mp h
  obtain ⟨l₁, hst, h⟩ := bind_eq_ok.mp h
  obtain ⟨pvtdataStore, rfl⟩ := storePvtdata_eq_ok hst
  rw [if_neg (by decide)] at h
  obtain ⟨l₂, ha, h⟩ := bind_eq_ok.mp h
  obtain ⟨hnm, rfl⟩ := addBlock_eq_ok.mp ha
  rw [if_neg (by decide)] at h
  obtain ⟨txmgr, hcm, h⟩ := bind_eq_ok.mp h
  exact ⟨⟨flags, u, purges, pvtUpdates, pvtdataStore, txmgr, hpr, hst, hnm, orPanic_eq_ok.mp hcm⟩, orPanic_eq_ok.mp h⟩

/-! ### Private data stored and retrieved -/

theorem retrieved_eq {st : PvtdataStore} {num txNum : UInt64} {ns : NsPvtReadWriteSet}
    (hex : ∀ coll, s.isExpired st ns.nameSpace coll num = false)
    (hpu : ∀ coll, st.keyPotentiallyPurged ns.nameSpace coll ⟨num, txNum⟩ = false) : s.retrieved st num txNum ns = ns := by
  have hf : (ns.collectionPvtRwset.filter fun coll => !s.isExpired st ns.nameSpace coll.collectionName num) =
      ns.collectionPvtRwset := filter_eq_self.mpr fun coll _ => by rw [hex]; rfl
  rw [CommitSupport.retrieved, hf]
  have hm : ns.collectionPvtRwset.map (s.removePurgedDataFromCollPvtRWset st ⟨num, txNum⟩ ns.nameSpace) =
      ns.collectionPvtRwset := by
    rw [map_eq_self_iff]
    intro coll _
    rw [CommitSupport.removePurgedDataFromCollPvtRWset, if_neg (by rw [hpu]; exact Bool.false_ne_true)]
  rw [hm]

/-- The private data of the last block is retrieved as it was stored, as long as the block purges nothing. -/
theorem getPvtDataByBlockNum_eq {st : PvtdataStore} {num : UInt64} (hd : st.data num.toNat = pvtdata)
    (hh : st.height = num.toNat + 1) (hmax : num ≠ maxUint64)
    (hmk : ∀ c v, st.purgeMarkers.lookup c = some v → v.blockNum.toNat < num.toNat) :
    s.getPvtDataByBlockNum st num = pvtdata := by
  have hex : ∀ ns coll, s.isExpired st ns coll num = false := by
    intro ns coll
    rw [CommitSupport.isExpired, Option.any_eq_false]
    intro btl _
    have hmin := toNat_computeExpiringBlock num btl
    have hne : num.toNat ≠ maxUint64.toNat := fun heq => hmax (UInt64.toNat_inj.mp heq)
    have hlt : num.toNat < 2 ^ 64 := num.toNat_lt
    have hmx : maxUint64.toNat = 18446744073709551615 := rfl
    rw [decide_eq_false_iff_not, hh, hmin]
    omega
  have hpu : ∀ ns coll txNum, st.keyPotentiallyPurged ns coll ⟨num, txNum⟩ = false := by
    intro ns coll txNum
    rw [PvtdataStore.keyPotentiallyPurged, List.any_eq_false]
    intro e he hc
    have hlt : e.2.blockNum < num := hmk e.1 e.2 (AMap.mem_toPairs.mp he)
    simp [versionLt, hlt] at hc
  funext txNum
  rw [CommitSupport.getPvtDataByBlockNum, hd]
  cases pvtdata txNum with
  | none => rfl
  | some txPvtdata =>
    obtain ⟨writeSet⟩ := txPvtdata
    cases writeSet with
    | none => rfl
    | some writeSet =>
      have hm : writeSet.nsPvtRwset.map (s.retrieved st num txNum) = writeSet.nsPvtRwset := by
        rw [map_eq_self_iff]
        exact fun ns _ => retrieved_eq (hex ns.nameSpace) fun coll => hpu ns.nameSpace coll txNum
      simp [hm]

/-! ### A commit resumed after a crash -/

/-- A ledger between two commits. -/
structure KvLedger.Settled (l : KvLedger) : Prop where
  pvtdataHeight : l.pvtdataStore.height = l.height
  markers : ∀ c v, l.pvtdataStore.purgeMarkers.lookup c = some v → v.blockNum.toNat < l.height
  workingset : ∀ ws ∈ l.stateDB.txmgr.workingset,
    ws = prepareWorkingsetFor l.stateDB.txmgr.store.db l.stateDB.txmgr.expKeeper (UInt64.ofNat l.height)

/-- No transaction of the block purges a private key. -/
def FlaggedBlock.PurgeFree (s : CommitSupport) (blk : FlaggedBlock) : Prop :=
  ∀ b ∈ blk.block.data, ∀ n flag flag' tx, preprocessTx s n flag b = .ok (flag', some tx) → purgedKeys tx.rwset = []

theorem exists_of_mem_preprocessTxs {τ : Type}
    {preprocessTx : Nat → TxValidationCode → Bytes → Outcome Unit (TxValidationCode × Option τ)} {data : List Bytes}
    {flags : List TxValidationCode} {es : List (TxValidationCode × Option τ)}
    (h : preprocessTxs preprocessTx n data flags = .ok es) {e : TxValidationCode × Option τ} (he : e ∈ es) :
    ∃ b ∈ data, ∃ n flag, preprocessTx n flag b = .ok e := by
  induction data generalizing n flags es with
  | nil =>
    cases h
    cases he
  | cons b data ih =>
    cases flags with
    | nil => cases h
    | cons flag flags =>
      simp only [preprocessTxs, bind_eq_ok, pure_eq, ok.injEq] at h
      obtain ⟨e', he', es', hes, rfl⟩ := h
      rcases mem_cons.mp he with rfl | he
      · exact ⟨b, by simp, n, flag, he'⟩
      · obtain ⟨b', hb', h⟩ := ih hes he
        exact ⟨b', by simp [hb'], h⟩

theorem FlaggedBlock.PurgeFree.toPairs_eq_nil {flags : List TxValidationCode} {doMVCC : Bool} {store : StateStore}
    {u : PublicAndHashUpdates} {purges : PurgeTracker} {p : PvtUpdates} (h : blk.PurgeFree s)
    (hpr : prepare s path doMVCC store blk pvtdata = .ok (flags, u, purges, p)) : purges.toPairs = [] := by
  obtain ⟨⟨b, postprocess⟩, hb, hpr⟩ := bind_eq_ok.mp hpr
  obtain ⟨⟨codes, r⟩, hv, hpr⟩ := bind_eq_ok.mp hpr
  cases hpr
  cases path with
  | lite =>
    simp only [FlaggedBlock.preprocess, bind_eq_ok, pure_eq, ok.injEq, Prod.mk.injEq] at hb
    obtain ⟨es, _, txs, _, rfl, rfl⟩ := hb
    obtain ⟨_, _, hv⟩ := bind_eq_ok.mp hv
    obtain ⟨_, _, hv⟩ := bind_eq_ok.mp hv
    cases hv
    rfl
  | vanilla =>
    simp only [FlaggedBlock.preprocess, bind_eq_ok, pure_eq, ok.injEq, Prod.mk.injEq] at hb
    obtain ⟨es, hes, rfl, rfl⟩ := hb
    obtain ⟨⟨codes', u, tracker⟩, hb, hv⟩ := bind_eq_ok.mp hv
    obtain ⟨_, _, hv⟩ := bind_eq_ok.mp hv
    cases hv
    rw [eq_nil_iff_forall_not_mem]
    intro e he
    have hm := (mem_purgedKeys_of_prepareTxs hb (c := e.1) (by rw [AMap.mem_toPairs.mp he]; simp)).resolve_left
      fun hne => hne (AList.lookup_empty _)
    obtain ⟨tx, htx, hm⟩ := mem_flatMap.mp hm
    obtain ⟨⟨flag, _⟩, hex, rfl⟩ := mem_filterMap.mp (mem_of_mem_valid htx)
    obtain ⟨b, hbd, n, flag', hp⟩ := exists_of_mem_preprocessTxs hes hex
    rw [h b hbd n flag' flag tx hp] at hm
    cases hm

variable {leanFormatEnabled : Bool} {retrievePvtdata : CommitPath → Outcome Unit (UInt64 → Option TxPvtData)}

theorem KvLedger.storeBlock_eq_commit (hs : l.Settled)
    (hrt : retrievePvtdata (storeBlockPath s.codec leanFormatEnabled blk.block.data) = .ok pvtdata)
    (h : l.storeBlock s leanFormatEnabled retrievePvtdata blk = .ok l') :
    l.commit s (storeBlockPath s.codec leanFormatEnabled blk.block.data) blk pvtdata = .ok l' := by
  rw [KvLedger.storeBlock] at h
  by_cases he : blk.number.toNat < l.pvtdataStore.height
  · rw [if_pos he] at h
    obtain ⟨c, _⟩ := exists_commitRun h
    have hnm := c.number
    rw [hs.pvtdataHeight] at he
    omega
  · rw [if_neg he] at h
    dsimp only at h
    rw [hrt] at h
    exact h

/-- The block replayed after its private data was stored, and the block recommitted to state and history
after it was stored, both lead to `l'`. -/
def ResumesTo (s : CommitSupport) (leanFormatEnabled : Bool)
    (retrievePvtdata : CommitPath → Outcome Unit (UInt64 → Option TxPvtData)) (l l' : KvLedger) (blk : FlaggedBlock)
    (pvtdata : UInt64 → Option TxPvtData) : Prop :=
  ∃ flags replayed crashed,
    l.commitUpTo s .pvtdataStored (storeBlockPath s.codec leanFormatEnabled blk.block.data) blk pvtdata = .ok replayed ∧
    replayed.restart.storeBlock s leanFormatEnabled retrievePvtdata blk = .ok l' ∧
    l.commitUpTo s .blockStored (storeBlockPath s.codec leanFormatEnabled blk.block.data) blk pvtdata = .ok crashed ∧
    crashed.blockStore = l.blockStore ++ [{ blk with flags }] ∧
    crashed.restart.recommitLostBlocks s [({ blk with flags }, .state), ({ blk with flags }, .history)] = .ok l'

theorem CommitRun.pvtdataStore_eq (hs : l.Settled) (c : CommitRun s path l blk pvtdata) : c.pvtdataStore = {
    height := l.height + 1
    data := Function.update l.pvtdataStore.data l.height pvtdata
    purgeMarkers := c.purges.toPairs.foldl (fun m e => m.insert e.1 ⟨blk.number, e.2.txNum⟩)
      l.pvtdataStore.purgeMarkers } := by
  have hst := c.stored
  rw [KvLedger.storePvtdata, if_neg (by rw [hs.pvtdataHeight]; exact Nat.lt_irrefl _)] at hst
  simp only [PvtdataStore.commit, bind_eq_ok, pure_eq, ok.injEq] at hst
  obtain ⟨st, ⟨_, _, rfl⟩, hst⟩ := hst
  have heq := congrArg KvLedger.pvtdataStore hst
  dsimp only at heq
  rw [← heq, hs.pvtdataHeight]

theorem blockNum_of_lookup_markers {es : List (CompositeKey × Version)} {m : AMap CompositeKey Version} {num : UInt64}
    {k : CompositeKey} {v : Version}
    (h : (es.foldl (fun m e => m.insert e.1 ⟨num, e.2.txNum⟩) m).lookup k = some v) :
    v.blockNum = num ∨ m.lookup k = some v := by
  induction es generalizing m with
  | nil => exact .inr h
  | cons e es ih =>
    refine (ih h).elim .inl fun hl => ?_
    by_cases hk : k = e.1
    · rw [hk, AList.lookup_insert] at hl
      cases hl
      exact .inl rfl
    · rw [AList.lookup_insert_ne hk] at hl
      exact .inr hl

/-- A commit leaves the ledger settled again. -/
theorem KvLedger.Settled.commit (hs : l.Settled) (h : l.commit s path blk pvtdata = .ok l') : l'.Settled := by
  obtain ⟨c, hc⟩ := exists_commitRun h
  have hf : l'.blockStore = l.blockStore ++ [c.block] ∧ l'.pvtdataStore = c.pvtdataStore ∧ l'.stateDB.txmgr = c.txmgr := by
    unfold KvLedger.commitHistory at hc
    split at hc
    · obtain ⟨d, _, hc⟩ := bind_eq_ok.mp hc
      cases hc
      exact ⟨rfl, rfl, rfl⟩
    · cases hc
      exact ⟨rfl, rfl, rfl⟩
  obtain ⟨hbs, hpv, hdb⟩ := hf
  have hh : l'.height = l.height + 1 := by
    rw [KvLedger.height, hbs]
    exact length_append
  refine ⟨?_, ?_, ?_⟩
  · rw [hpv, hh, c.pvtdataStore_eq hs]
  · intro k v hv
    rw [hpv, c.pvtdataStore_eq hs] at hv
    rw [hh]
    rcases blockNum_of_lookup_markers hv with hn | hl
    · rw [hn, c.number]
      exact Nat.lt_succ_self _
    · exact (hs.markers k v hl).trans (Nat.lt_succ_self _)
  · obtain ⟨m, _, hcm⟩ := bind_eq_ok.mp c.committed
    have hnum : UInt64.ofNat l'.height = blk.number + 1 := by
      rw [hh, ← c.number]
      simp
    rw [hdb, hnum, ← ok.inj hcm]
    exact fun ws hws => (Option.some.inj hws).symm

namespace CommitRun

section

variable (hs : l.Settled) (hpf : blk.PurgeFree s) (c : CommitRun s path l blk pvtdata)
include hs hpf

theorem retrieves (hmax : blk.number ≠ maxUint64) : s.getPvtDataByBlockNum c.pvtdataStore blk.number = pvtdata := by
  refine getPvtDataByBlockNum_eq ?_ ?_ hmax ?_
  · rw [c.pvtdataStore_eq hs, c.number]
    exact Function.update_self ..
  · rw [c.pvtdataStore_eq hs, c.number]
  · rw [c.pvtdataStore_eq hs, c.number, hpf.toPairs_eq_nil c.prepared]
    exact hs.markers

theorem committed_restart : ({ l.stateDB.txmgr with workingset := none } : TxMgr).commit s.policy s.sha256 blk.number c.u
    c.pvtUpdates = .ok c.txmgr := by
  have hnum : UInt64.ofNat l.height = blk.number := by rw [← c.number, UInt64.ofNat_toNat]
  have hws : ({ l.stateDB.txmgr with workingset := none } : TxMgr).workingsetFor blk.number =
      l.stateDB.txmgr.workingsetFor blk.number := by
    rw [TxMgr.workingsetFor, TxMgr.workingsetFor]
    cases hw : l.stateDB.txmgr.workingset with
    | none => rfl
    | some ws => exact (hnum ▸ hs.workingset ws hw).symm
  have hcm := c.committed
  rw [purgeAppInitiatedPvtKeys, hpf.toPairs_eq_nil c.prepared, foldl_nil, TxMgr.commit] at hcm
  rw [TxMgr.commit, hws]
  obtain ⟨m, hm, hcm⟩ := bind_eq_ok.mp hcm
  obtain ⟨schedule, hsc, hm⟩ := bind_eq_ok.mp hm
  cases hm
  rw [TxMgr.updateExpiryInfo, hsc]
  exact hcm

/-- The same commit from the ledger whose private data store is ahead. -/
def replayed : CommitRun s path (KvLedger.restart { l with pvtdataStore := c.pvtdataStore }) blk pvtdata where
  flags := c.flags
  u := c.u
  purges := c.purges
  pvtUpdates := c.pvtUpdates
  pvtdataStore := c.pvtdataStore
  txmgr := c.txmgr
  prepared := c.prepared
  stored := by
    rw [KvLedger.storePvtdata, if_pos]
    · rfl
    · change l.height < c.pvtdataStore.height
      rw [c.pvtdataStore_eq hs]
      exact Nat.lt_succ_self _
  number := c.number
  committed := by
    rw [purgeAppInitiatedPvtKeys, hpf.toPairs_eq_nil c.prepared, foldl_nil]
    exact c.committed_restart hs hpf

theorem resumesTo {c : CommitRun s (storeBlockPath s.codec leanFormatEnabled blk.block.data) l blk pvtdata}
    (hmax : blk.number ≠ maxUint64) (hsm : SamePath s.codec leanFormatEnabled blk.block.data)
    (h : (c.blockStored.stateCommitted c.block c.txmgr).commitHistory s
      (storeBlockPath s.codec leanFormatEnabled blk.block.data) c.block = .ok l') :
    ResumesTo s leanFormatEnabled retrievePvtdata l l' blk pvtdata := by
  refine ⟨c.flags, _, _, c.commitUpTo_pvtdataStored, ?_, c.commitUpTo_blockStored, rfl, ?_⟩
  · have he : blk.number.toNat < (KvLedger.restart { l with pvtdataStore := c.pvtdataStore }).pvtdataStore.height := by
      change _ < c.pvtdataStore.height
      rw [c.pvtdataStore_eq hs, c.number]
      exact Nat.lt_succ_self _
    have hrt : s.getPvtDataByBlockNum (KvLedger.restart { l with pvtdataStore := c.pvtdataStore }).pvtdataStore
        blk.number = pvtdata := c.retrieves hs hpf hmax
    rw [KvLedger.storeBlock, if_pos he, hrt, ← hsm.replayed, (c.replayed hs hpf).commit_eq]
    exact orPanic_eq_ok.mpr h
  · have hr : ∀ (d : KvLedger) (r : Recoverable), d.recommit s (c.block, r) =
        d.commitLost s (storeBlockPath s.codec leanFormatEnabled blk.block.data) c.block r := by
      intro d r
      exact congrArg (· >>= _) hsm.recommitted
    obtain ⟨b, postprocess, codes, hb, hv, hnum⟩ := prepare_recommit c.prepared
    have hst : c.blockStored.restart.commitLost s (storeBlockPath s.codec leanFormatEnabled blk.block.data) c.block
        .state = .ok (c.blockStored.stateCommitted c.block c.txmgr) := by
      refine bind_eq_ok.mpr ⟨_, hb, bind_eq_ok.mpr ⟨c.txmgr, ?_, rfl⟩⟩
      have hrt : s.getPvtDataByBlockNum c.blockStored.restart.pvtdataStore c.block.number = pvtdata :=
        c.retrieves hs hpf hmax
      rw [hrt]
      refine bind_eq_ok.mpr ⟨_, hv, ?_⟩
      dsimp only
      rw [hnum]
      exact c.committed_restart hs hpf
    change (KvLedger.recommitLostBlocks s _ [(c.block, .state), (c.block, .history)]) = _
    rw [KvLedger.recommitLostBlocks, foldlM_cons, hr, hst, ok_bind, foldlM_cons, hr]
    change (_ >>= fun d => KvLedger.recommitLostBlocks s d []) = _
    exact bind_eq_ok.mpr ⟨l', h, rfl⟩

end

end CommitRun

/-- The three ways of committing a block choose one path exactly for config blocks, and for vanilla
blocks while the lean format is off; and when they do and the block purges no private key, a commit that is interrupted and
resumed leads to the same ledger as one that is not: blocks, flags, private data, state, history and commit hash. -/
theorem commitPath_same_iff (s : CommitSupport) (leanFormatEnabled : Bool) (blk : FlaggedBlock) :
    (SamePath s.codec leanFormatEnabled blk.block.data ↔
      isConfigBlock s.codec blk.block.data = true ∨
        (leanFormatEnabled = false ∧ isLiteBlock s.codec blk.block.data = .ok false)) ∧
    (SamePath s.codec leanFormatEnabled blk.block.data → blk.PurgeFree s → blk.number ≠ maxUint64 →
      ∀ (retrievePvtdata : CommitPath → Outcome Unit (UInt64 → Option TxPvtData)) (pvtdata : UInt64 → Option TxPvtData)
        (l l' : KvLedger),
        retrievePvtdata (storeBlockPath s.codec leanFormatEnabled blk.block.data) = .ok pvtdata → l.Settled →
        l.storeBlock s leanFormatEnabled retrievePvtdata blk = .ok l' →
          ResumesTo s leanFormatEnabled retrievePvtdata l l' blk pvtdata) := by
  refine ⟨samePath_iff s.codec leanFormatEnabled blk.block.data, ?_⟩
  intro hsm hpf hmax retrievePvtdata pvtdata l l' hrt hs hl
  obtain ⟨c, hc⟩ := exists_commitRun (KvLedger.storeBlock_eq_commit hs hrt hl)
  exact CommitRun.resumesTo hs hpf hmax hsm hc

end

/-- Each of the byte strings is an envelope with its write set, under every encoding on the way to it. -/
def writeSetCodec (sets : List (Bytes × Vanilla.TxRwSet)) : Codec :=
  { Codec.none with
    envelope := .ofTable [] (sets.map fun s => ({ payload := some s.1 }, s.1))
    payload := .ofTable [] (({}, []) :: sets.map fun s =>
      ({ header := some { channelHeader := some [0x63], signatureHeader := [] }, data := some s.1 }, s.1))
    channelHeader := .ofTable [] [({ type := .endorserTransaction, channelId := ascii "ch", txId := [] }, [0x63])]
    transaction := .ofTable [] (sets.map fun s => ({ actions := [{ payload := s.1 }] }, s.1))
    chaincodeActionPayload := .ofTable [] (sets.map fun s => ({ action := some { proposalResponsePayload := s.1 } }, s.1))
    vanillaResponsePayload := .ofTable [] (sets.map fun s => ({ extension := s.1 }, s.1))
    vanillaChaincodeAction := .ofTable [] (sets.map fun s => ({ results := s.1 }, s.1))
    txRwSet := .ofTable [] (sets.map Prod.swap) }

def liteWrite : Envelope where
  type := .endorserTransaction
  leanEnv := some {
    channelId := ascii "ch"
    envMeta := some {}
    results := some ⟨[{ nameSpace := ascii "cc", rwset := some { writes := [⟨ascii "k", false, ascii "v"⟩] } }]⟩ }

def liteSupport : CommitSupport where
  codec := { Codec.none with
    envelope := .ofTable [] [(liteWrite, [0x01])]
    payload := .ofTable [] [({}, [])] }
  sha256 := id
  hashFunc := id
  serializeKVReads := fun _ => []
  serialize := fun _ => []
  validateLtxRangeQuery := fun _ _ _ _ => true
  unmarshalKVRWSet := fun _ => none
  marshalKVRWSet := fun _ => []
  policy := { getBTL := fun _ _ => none, unnamed := fun _ => rfl }
  rawKeys := fun _ => RawKeys.unknown id
  validateWriteset := fun _ => true
  filterBytes := fun _ => []
  updateBatchBytes := fun _ => []

def liteWriteBlock : FlaggedBlock where
  block := { header := { number := 0 }, data := [[0x01]] }
  flags := [.valid]

def newLedger : KvLedger where
  stateDB := { txmgr := TxMgr.init }
  historyDB := some {}

/-- A lite block is committed live; replayed because the private data store is ahead, it panics. -/
theorem liteWriteBlock_replay_panics :
    (newLedger.storeBlock liteSupport true (fun _ => .ok fun _ => none) liteWriteBlock >>= fun l =>
        .ok (l.blockStore.map FlaggedBlock.flags, l.stateDB.savepoint)) = .ok ([[.valid]], some 0) ∧
      (newLedger.storePvtdata 0 (fun _ => none) ∅ >>= fun l =>
        l.restart.storeBlock liteSupport true (fun _ => .ok fun _ => none) liteWriteBlock) = .panic ∧
      ¬ SamePath liteSupport.codec true liteWriteBlock.block.data := by
  refine ⟨rfl, rfl, ?_⟩
  intro h
  cases h.replayed

end Drunix.Peer
