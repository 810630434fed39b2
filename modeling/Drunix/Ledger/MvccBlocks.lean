import Drunix.Ledger.MvccRun
import Drunix.Ledger.Expiry.PurgeMgr

namespace Drunix.Ledger

open Lib Proto Orderer Outcome Validation Expiry

def ltxTransactions : Nat → List TxReadWriteSet → List LtxTransaction
  | _, [] => []
  | i, tx :: txs => ⟨i, tx, .valid⟩ :: ltxTransactions (i + 1) txs

structure SameBlock (fat : FatBlock) (blk : LtxBlock) : Prop where
  txs_eq : blk.txs = ltxTransactions 0 fat.txs
  height_eq : ∀ i < fat.txs.length, blk.committingTxHeight i = .ok ⟨fat.num, UInt64.ofNat i⟩

section

variable (sha256 : Bytes → Bytes) (serialize : List KVMetadataEntry → Bytes)

def BlockMeets (odb : VersionDB) (num : UInt64) : Nat → MvccMap → List TxReadWriteSet → Prop
  | _, _, [] => True
  | i, m, tx :: txs => TxMeets sha256 serialize odb m tx ∧
      ∀ m' valid, validateEndorserTxn tx m odb num (UInt64.ofNat i) = .ok (m', valid) →
        BlockMeets odb num (i + 1) m' txs

def RunMeets : VersionDB → List FatBlock → Prop
  | _, [] => True
  | odb, fat :: fats => BlockMeets sha256 serialize odb fat.num 0 ∅ fat.txs ∧
      ∀ codes odb', processFatBlock odb fat = .ok (codes, odb') → RunMeets odb' fats

end

/-- A block of lite transactions with the private data that the peer has for it. -/
structure PeerBlock where
  blk : LtxBlock
  pvtdata : UInt64 → Option TxPvtData

def PeerBlock.Named (b : PeerBlock) : Prop :=
  ∀ i txPvtdata writeSet, b.pvtdata i = some txPvtdata → txPvtdata.writeSet = some writeSet →
    ∀ c ∈ writeSet.collections, CompositeKey.WellNamed ⟨c.ns, c.coll, []⟩

def PeerBlock.withoutPvtData (b : PeerBlock) : PeerBlock :=
  { b with pvtdata := fun _ => none }

section

variable (rq : RangeQueryValidator) (sha256 : Bytes → Bytes) (serialize : List KVMetadataEntry → Bytes)
  (unmarshalKVRWSet : Bytes → Option KVRWSet) (policy : BTLPolicy) (rawKeys : RawKeys sha256)

def commitLtxBlocks (s : PeerState) : List PeerBlock → Outcome Unit (List (List TxValidationCode) × PeerState)
  | [] => .ok ([], s)
  | b :: blks => do
      let (codes, s) ← commitToState id (fun _ => []) rq sha256 serialize unmarshalKVRWSet policy rawKeys s (.lite b.blk)
        b.pvtdata
      let (rest, s) ← commitLtxBlocks s blks
      return (codes :: rest, s)

end

def NeverExpires (policy : BTLPolicy) : Prop :=
  ∀ ns coll, coll ≠ [] → policy.getBTL ns coll = some maxUint64

/-- A peer on which nothing is scheduled to expire. -/
def Unscheduled (s : PeerState) : Prop :=
  s.expKeeper = ∅ ∧ ∀ ws ∈ s.workingset, ws.toPurge = ∅ ∧ ws.toClearFromSchedule = []

section expiry

variable {policy : BTLPolicy} {sha256 : Bytes → Bytes} {s : PeerState} {u : PublicAndHashUpdates} {p : PvtUpdates}
  {n : UInt64}

theorem addToSchedule_of_neverExpires (hp : NeverExpires policy) (e : KeyAndHash × VersionedValue) :
    addToSchedule policy ∅ e = if e.1.hashed.coll = [] then .err () else .ok ∅ := by
  rw [addToSchedule]
  split_ifs with hc
  · rw [hc, policy.unnamed]
    rfl
  · have hmax : computeExpiringBlock e.2.version.blockNum maxUint64 = maxUint64 := by
      have h : e.2.version.blockNum + maxUint64 + 1 = e.2.version.blockNum := by
        rw [UInt64.add_assoc]
        exact UInt64.add_zero _
      rw [computeExpiringBlock, h, if_pos (UInt64.le_refl _)]
    rw [hp _ _ hc]
    simp only [orErr, ok_bind, hmax, or_true, if_true]
    rfl

theorem foldlM_addToSchedule (hp : NeverExpires policy) {l : List (KeyAndHash × VersionedValue)}
    {schedule : ExpirySchedule} (h : l.foldlM (addToSchedule policy) ∅ = .ok schedule) : schedule = ∅ := by
  refine foldlM_invariant (fun m => m = ∅) ?_ rfl h
  rintro e _ m m' rfl hm
  rw [addToSchedule_of_neverExpires hp] at hm
  split_ifs at hm
  cases hm
  rfl

theorem buildExpirySchedule_empty (hp : NeverExpires policy) :
    buildExpirySchedule policy sha256 ∅ u.hashUpdates = .ok ∅ := by
  have hl : ∀ e ∈ scheduled sha256 ∅ u.hashUpdates, e.1.hashed.coll ≠ [] := by
    intro e he
    rcases List.mem_append.mp he with he | he
    · cases he
    · obtain ⟨d, hd, rfl⟩ := List.mem_map.mp he
      exact u.coll_ne_nil _ (AList.lookup_isSome.mp (by rw [AMap.mem_toPairs.mp (List.mem_filter.mp hd).1]; rfl))
  rw [buildExpirySchedule]
  generalize scheduled sha256 ∅ u.hashUpdates = l at hl
  induction l with
  | nil => rfl
  | cons e l ih =>
    rw [List.foldlM_cons, addToSchedule_of_neverExpires hp, if_neg (hl e (by simp)), ok_bind]
    exact ih fun e' he' => hl e' (by simp [he'])

theorem Unscheduled.commit (hs : Unscheduled s)
    (hsc : buildExpirySchedule policy sha256 p u.hashUpdates = .ok ∅) :
    ∃ t, Expiry.commit policy sha256 s n u p = .ok t ∧ Unscheduled t ∧ t.store = s.store.applyUpdates u p := by
  obtain ⟨hk, hws⟩ := hs
  have hw : (s.workingsetFor n).toPurge = ∅ ∧ (s.workingsetFor n).toClearFromSchedule = [] := by
    rw [TxMgr.workingsetFor]
    cases hw : s.workingset with
    | none =>
      rw [hk]
      exact ⟨rfl, rfl⟩
    | some ws => exact hws ws hw
  have hb : addExpiredEntriesToUpdateBatch (s.workingsetFor n) (u, p) = (u, p) := by
    rw [addExpiredEntriesToUpdateBatch, hw.1]
    rfl
  have hke : updateKeeper (updateKeeper s.expKeeper ∅ []) ∅ (s.workingsetFor n).toClearFromSchedule = ∅ := by
    rw [hw.2, hk]
    rfl
  rw [Expiry.commit, TxMgr.commit, TxMgr.updateExpiryInfo, hsc]
  simp only [ok_bind, pure_eq, hb, hke]
  refine ⟨_, rfl, ⟨rfl, ?_⟩, rfl⟩
  rintro ws ⟨⟩
  exact ⟨rfl, rfl⟩

end expiry

variable {sha256 : Bytes → Bytes} {serialize : List KVMetadataEntry → Bytes} {odb : VersionDB} {db : StateDB}
  {fats : List FatBlock}

theorem BlockMeets.run {txs : List TxReadWriteSet} {num : UInt64} {i : Nat} {m : MvccMap} {u : PublicAndHashUpdates}
    (h : BlockMeets sha256 serialize odb num i m txs) (rq : RangeQueryValidator) (hv : SameVersions odb db)
    (hu : SameUpdates m u) {blk : LtxBlock}
    (hh : ∀ j, i ≤ j → j < i + txs.length → blk.committingTxHeight j = .ok ⟨num, UInt64.ofNat j⟩) :
    ∃ codes m' u', validateFatBlock odb num i m txs = .ok (codes, m') ∧
      validateAndPrepareLtxBatch rq db sha256 serialize blk true u (ltxTransactions i txs) = .ok (codes, u') ∧
      SameUpdates m' u' := by
  induction txs generalizing i m u with
  | nil => exact ⟨[], m, u, rfl, rfl, hu⟩
  | cons tx txs ih =>
    obtain ⟨htx, hr⟩ := h
    obtain ⟨m₁, u₁, valid, hor, hp, hu₁⟩ :=
      htx.step rq hv hu (hh i le_rfl (by simp))
    obtain ⟨codes, m', u', hf, hl, hu'⟩ := ih (hr m₁ valid hor) hu₁ (by
      intro j hij hj
      exact hh j (by omega) (by simp only [List.length_cons]; omega))
    refine ⟨mvccStatus valid :: codes, m', u', ?_, ?_, hu'⟩
    · rw [validateFatBlock, hor]
      simp only [ok_bind, hf]
      rfl
    · exact mapAccumM_cons_eq_ok.mpr ⟨_, u₁, codes, hp, hl, rfl⟩

theorem SameUpdates.sameVersions {m : MvccMap} {u : PublicAndHashUpdates} {p : PvtUpdates} {store : StateStore}
    (hu : SameUpdates m u) (hp : NamedKeys p) (hv : SameVersions odb store.db) :
    SameVersions (applyBatch m odb) (store.applyUpdates u p).db := by
  intro c hc
  have hor : applyBatch m odb c.dataKey = (m.lookup c.dataKey).elim (odb c.dataKey)
      fun vv => if vv.isDelete then none else some vv.version :=
    AMap.overlay_apply id _ m odb c.dataKey fun k₁ _ he => he
  rw [hor, applyUpdates_dataKey hu.named_get hp hc, hu.lookup_eq c hc, latest]
  cases u.get c with
  | none => exact hv c hc
  | some vv =>
    by_cases hvl : vv.value = none <;> simp [VersionedValue.mvcc, VersionedValue.stored, hvl]

theorem RunMeets.take (h : RunMeets sha256 serialize odb fats) (k : Nat) :
    RunMeets sha256 serialize odb (fats.take k) := by
  induction fats generalizing odb k with
  | nil => simpa using h
  | cons fat fats ih =>
    cases k with
    | zero => trivial
    | succ k => exact ⟨h.1, fun codes odb' hp => ih (h.2 codes odb' hp) k⟩

variable {rq : RangeQueryValidator} {unmarshalKVRWSet : Bytes → Option KVRWSet} {policy : BTLPolicy}
  {rawKeys : RawKeys sha256} {s : PeerState}

section

variable (hp : NeverExpires policy) (hs : Unscheduled s) (hv : SameVersions odb s.store.db)
include hp hs hv

/-- One block: the orderer decides it, and so does every commit of it that the peer's private data allows. -/
theorem BlockMeets.agrees {fat : FatBlock} {b : PeerBlock} (h : BlockMeets sha256 serialize odb fat.num 0 ∅ fat.txs)
    (hb : SameBlock fat b.blk) (hnm : b.Named) :
    ∃ codes odb', processFatBlock odb fat = .ok (codes, odb') ∧
      (∀ codes' t, commitToState id (fun _ => []) rq sha256 serialize unmarshalKVRWSet policy rawKeys s (.lite b.blk)
        b.pvtdata = .ok (codes', t) → codes' = codes ∧ Unscheduled t ∧ SameVersions odb' t.store.db) ∧
      (b.pvtdata = (fun _ => none) → ∃ t, commitToState id (fun _ => []) rq sha256 serialize unmarshalKVRWSet policy rawKeys
        s (.lite b.blk) b.pvtdata = .ok (codes, t)) := by
  obtain ⟨codes, m, u, hf, hl, hu⟩ := h.run rq hv SameUpdates.empty fun j _ hj => hb.height_eq j (by omega)
  rw [← hb.txs_eq] at hl
  refine ⟨codes, applyBatch m odb, by rw [processFatBlock, hf]; rfl, ?_, ?_⟩
  · intro codes' t hcm
    simp only [commitToState, validateAndPrepare, hl, ok_bind, bind_eq_ok, pure_eq, Outcome.ok.injEq, Prod.mk.injEq,
      Prod.exists] at hcm
    obtain ⟨_, _, _, p, ⟨p', hpv, rfl, rfl, rfl, rfl⟩, t', hcm, rfl, rfl⟩ := hcm
    have hsc : buildExpirySchedule policy sha256 (purgeAppInitiatedPvtKeys rawKeys ∅ p') u.hashUpdates = .ok ∅ := by
      obtain ⟨_, hm, _⟩ := bind_eq_ok.mp hcm
      obtain ⟨_, hm, _⟩ := bind_eq_ok.mp hm
      obtain ⟨schedule, hsc, _⟩ := bind_eq_ok.mp hm
      rw [hsc, foldlM_addToSchedule hp hsc]
    obtain ⟨t₁, ht, hun, hst⟩ := hs.commit (n := b.blk.num) hsc
    cases hcm.symm.trans ht
    refine ⟨rfl, hun, ?_⟩
    rw [hst]
    exact hu.sameVersions (namedKeys_of_preparePvtBatch hnm hpv) hv
  · intro hn
    have hpv : ∀ txs, preparePvtBatch sha256 unmarshalKVRWSet u s.store.db b.blk.num txs (fun _ => none) = .ok ∅ := by
      intro txs
      have ha : txs.foldlM (addTxPvtData sha256 unmarshalKVRWSet b.blk.num fun _ => none) (∅, []) = .ok (∅, []) := by
        induction txs with
        | nil => rfl
        | cons tx txs ih =>
          have hused : usedPvtData (fun _ => none) tx = none := by
            rw [usedPvtData]
            split <;> rfl
          rw [List.foldlM_cons, addTxPvtData, hused, ok_bind]
          exact ih
      rw [preparePvtBatch, ha]
      rfl
    have hsc : buildExpirySchedule policy sha256 ∅ u.hashUpdates = .ok ∅ := buildExpirySchedule_empty hp
    obtain ⟨t, ht, _⟩ := hs.commit (n := b.blk.num) hsc
    refine ⟨t, ?_⟩
    rw [hn]
    simp only [commitToState, validateAndPrepare, hl, ok_bind, validateAndPrepareLtxPvtBatch, hpv, pure_eq]
    exact congrArg (fun o => o >>= _) ht

theorem RunMeets.agrees {blks : List PeerBlock} (h : RunMeets sha256 serialize odb fats)
    (hb : List.Forall₂ (fun fat b => SameBlock fat b.blk ∧ b.Named) fats blks) {codes codes' : List (List TxValidationCode)}
    {odb' : VersionDB} {t : PeerState} (hor : processFatBlocks odb fats = .ok (codes, odb'))
    (hcm : commitLtxBlocks rq sha256 serialize unmarshalKVRWSet policy rawKeys s blks = .ok (codes', t)) :
    codes' = codes ∧ SameVersions odb' t.store.db := by
  induction hb generalizing odb s codes codes' with
  | nil =>
    cases hor
    cases hcm
    exact ⟨rfl, hv⟩
  | @cons fat b fats blks hbl _ ih =>
    simp only [processFatBlocks, bind_eq_ok, pure_eq, Outcome.ok.injEq, Prod.mk.injEq, Prod.exists] at hor
    simp only [commitLtxBlocks, bind_eq_ok, pure_eq, Outcome.ok.injEq, Prod.mk.injEq, Prod.exists] at hcm
    obtain ⟨c, odb₁, hf, rest, _, hr, rfl, rfl⟩ := hor
    obtain ⟨c', s₁, hto, rest', _, hrc, rfl, rfl⟩ := hcm
    obtain ⟨c₀, odb₀, hf₀, hall, _⟩ := h.1.agrees hp hs hv hbl.1 hbl.2
    cases hf₀.symm.trans hf
    obtain ⟨rfl, hs₁, hv₁⟩ := hall c' s₁ hto
    obtain ⟨rfl, hvr⟩ := ih hs₁ hv₁ (h.2 _ _ hf) hr hrc
    exact ⟨rfl, hvr⟩

variable (rq unmarshalKVRWSet rawKeys) in
theorem RunMeets.commits {blks : List PeerBlock} (h : RunMeets sha256 serialize odb fats)
    (hb : List.Forall₂ (fun fat b => SameBlock fat b.blk) fats blks) :
    ∃ codes odb' t, processFatBlocks odb fats = .ok (codes, odb') ∧
      commitLtxBlocks rq sha256 serialize unmarshalKVRWSet policy rawKeys s (blks.map PeerBlock.withoutPvtData) =
        .ok (codes, t) := by
  induction hb generalizing odb s with
  | nil => exact ⟨[], odb, s, rfl, rfl⟩
  | @cons fat b fats blks hbl _ ih =>
    obtain ⟨codes, odb₁, hf, hall, hex⟩ :=
      h.1.agrees (b := b.withoutPvtData) hp hs hv hbl (by rintro _ _ _ ⟨⟩)
    obtain ⟨s₁, hto⟩ := hex rfl
    obtain ⟨_, hs₁, hv₁⟩ := hall codes s₁ hto
    obtain ⟨rest, odb', t, hr, hrc⟩ := ih hs₁ hv₁ (h.2 _ _ hf)
    refine ⟨codes :: rest, odb', t, ?_, ?_⟩
    · rw [processFatBlocks, hf]
      simp only [ok_bind, hr]
      rfl
    · rw [List.map_cons, commitLtxBlocks, hto]
      simp only [ok_bind, hrc]
      rfl

end

def createKey : LtxNs where
  name := ascii "a"
  rwset := { reads := [⟨ascii "k", none⟩], writes := [⟨ascii "k", false, ascii "v"⟩] }
  colls := []

def createFat : FatBlock := ⟨1, [⟨[createKey.message]⟩]⟩

def createBlk : LtxBlock := ⟨1, ltxTransactions 0 createFat.txs, none⟩

theorem createKey_meets : Meets id (fun _ => []) (fun _ => none) ∅ [createKey] where
  wellFormed := by
    intro n hn
    rw [List.mem_singleton.mp hn]
    exact ⟨by decide, by decide, by simp [createKey], by simp [createKey], rfl⟩
  reads := by
    intro n hn
    rw [List.mem_singleton.mp hn]
    exact ⟨by simp [createKey], by simp [createKey]⟩
  deletesFlagged := by
    intro n hn
    rw [List.mem_singleton.mp hn]
    exact ⟨by decide, by simp [createKey]⟩
  writtenOnce := by
    intro c hc
    have hc' : c = ⟨ascii "a", [], ascii "k"⟩ := List.mem_singleton.mp hc
    subst hc'
    exact ⟨.upsert (ascii "v"), rfl, Or.inl rfl⟩

def keptPolicy : BTLPolicy where
  getBTL _ coll := if coll = [] then none else some maxUint64
  unnamed _ := rfl

def staleFats : List FatBlock :=
  [⟨1, [⟨[⟨ascii "a", some {}, [⟨ascii "c", some { hashedWrites := [⟨ascii "h", false, ascii "v"⟩] }, []⟩]⟩]⟩]⟩,
    ⟨2, [⟨[⟨ascii "a", some {}, [⟨ascii "c", some { hashedReads := [⟨ascii "h", none⟩] }, []⟩]⟩]⟩]⟩]

def staleBlks : List PeerBlock :=
  staleFats.map fun fat => ⟨⟨fat.num, ltxTransactions 0 fat.txs, none⟩, fun _ => none⟩

end Drunix.Ledger
