import Drunix.Orderer.FollowerBatching

namespace Drunix.Orderer

open Lib Outcome List

structure Batcher where
  cutter : Receiver SubmitRequest := {}
  ticking : Bool := false

structure LeaderBlock (κ : Type) where
  config : κ
  batch : List SubmitRequest
  reqs : List SubmitRequest

structure Leader (κ : Type) where
  blocks : List (LeaderBlock κ) := []
  panicked : Bool := false

namespace Chain

variable {κ : Type} (c : Chain κ)

/-- What `orderedBatch` says of pending requests. It says no for every config message, also for one that waits for an
abdication and leaves the cutter as it was. -/
def orderedBatchPending (config : κ) (r : Receiver SubmitRequest) (msg : SubmitRequest) : Bool :=
  !msg.isConfig && (r.ordered (c.batchSize config) msg (messageSizeBytes msg.payload)).pending

/-- A round of `batcher`, or a leader that steps down; whether `Submit` succeeds makes no difference. -/
inductive BatcherStep (Allowed : κ → Batcher → SubmitRequest → Prop) (s : Batcher) : Batcher → Prop
  | order {config : κ} {req : SubmitRequest} {o : OrderResult SubmitRequest} (hallowed : Allowed config s req)
      (ho : c.orderedBatch config s.cutter req = .ok o) :
      BatcherStep Allowed s ⟨o.receiver, c.orderedBatchPending config s.cutter req⟩
  | orderFails {config : κ} {req : SubmitRequest} {e : MsgError} (ho : c.orderedBatch config s.cutter req = .err e) :
      BatcherStep Allowed s s
  | timer (hticking : s.ticking = true) : BatcherStep Allowed s {}
  | stepDown : BatcherStep Allowed s { s with cutter := { s.cutter with pendingBatchSizeBytes := 0 } }

def BatcherRun (Allowed : κ → Batcher → SubmitRequest → Prop) : Batcher → Prop :=
  Reachable (fun s => s = {}) (c.BatcherStep Allowed)

/-- No config message evicts a consenter or rotates its certificate while requests are pending. -/
def Undisturbed (config : κ) (s : Batcher) (req : SubmitRequest) : Prop :=
  s.cutter.pendingBatch ≠ [] → req.isConfig = true → ∀ msg, c.revalidateConfig config req = .ok msg →
    c.support.checkForEvictionNCertRotation config msg.payload = false

/-- The loop of `proposeBatch`, where the `k`th block finds room in the channel or not. -/
def leadBatches (config : κ) (hasRoom : Nat → Bool) : Nat → List (List SubmitRequest) →
    Outcome Unit (List (LeaderBlock κ))
  | _, [] => .ok []
  | k, batch :: batches =>
    match c.checkValidationStatusOfTxns config batch with
    | .ok reqs =>
      if hasRoom k then do
        let blocks ← leadBatches config hasRoom (k + 1) batches
        .ok (⟨config, batch, reqs⟩ :: blocks)
      else .panic
    | .err _ => .ok []
    | .panic => .panic

/-- A request as it stands under the config in force: one validated under an earlier config is validated again. -/
def revalidated (config : κ) (req : SubmitRequest) : Outcome MsgError SubmitRequest :=
  if req.isConfig then c.revalidateConfig config req
  else do
    c.revalidateNormal config req
    .ok req

def survivors (config : κ) (batch : List SubmitRequest) : List SubmitRequest :=
  batch.filterMap fun req => (c.revalidated config req).toOption

structure Proper (config : κ) (batch : List SubmitRequest) : Prop where
  returns : ∀ req ∈ batch, c.revalidated config req ≠ .panic
  kinds : (∃ req, batch = [req] ∧ req.isConfig = true) ∨
    (∀ req ∈ batch, req.isConfig = false) ∧ ∃ req ∈ batch, c.revalidateNormal config req = .ok ()

inductive LeaderStep (Allowed : κ → (Nat → Bool) → List (List SubmitRequest) → Prop) (s : Leader κ) : Leader κ → Prop
  | created {config : κ} {hasRoom : Nat → Bool} {batches : List (List SubmitRequest)} {blocks : List (LeaderBlock κ)}
      (hallowed : Allowed config hasRoom batches) (h : c.leadBatches config hasRoom 0 batches = .ok blocks) :
      LeaderStep Allowed s { s with blocks := s.blocks ++ blocks }
  | panics {config : κ} {hasRoom : Nat → Bool} {batches : List (List SubmitRequest)}
      (hallowed : Allowed config hasRoom batches) (h : c.leadBatches config hasRoom 0 batches = .panic) :
      LeaderStep Allowed s { s with panicked := true }

def LeaderRun (Allowed : κ → (Nat → Bool) → List (List SubmitRequest) → Prop) : Leader κ → Prop :=
  Reachable (fun s => s = {}) (c.LeaderStep Allowed)

/-- A block is not empty and has the surviving requests of its batch; a config request is alone in it. -/
structure WellMade (b : LeaderBlock κ) : Prop where
  ne_nil : b.reqs ≠ []
  survivors : b.reqs = c.survivors b.config b.batch
  alone : ∀ req ∈ b.reqs, req.isConfig = true → b.reqs = [req]

variable {c} {config : κ}

theorem Undisturbed.pending {s : Batcher} {req : SubmitRequest} {o : OrderResult SubmitRequest}
    (h : c.Undisturbed config s req) (hz : s.cutter.pendingBatch = [] → s.cutter.pendingBatchSizeBytes = 0)
    (ho : c.orderedBatch config s.cutter req = .ok o) :
    (c.orderedBatchPending config s.cutter req = true ↔ o.receiver.pendingBatch ≠ []) ∧
      (o.receiver.pendingBatch = [] → o.receiver.pendingBatchSizeBytes = 0) := by
  simp only [orderedBatch, orderedBatchOf, RequestForm.plain_request] at ho
  unfold orderedBatchPending
  split_ifs at ho with hc
  · obtain ⟨msg, hm, ho⟩ := bind_eq_ok.mp ho
    split_ifs at ho with he
    · cases ho
      have hp : s.cutter.pendingBatch = [] := by
        by_contra hp
        rw [h hp hc msg hm] at he
        cases he
      simpa [hc, hp] using hz hp
    · cases ho
      simp [hc]
  · cases ho
    have hsh := Receiver.ordered_shape hz (c.batchSize config) req (messageSizeBytes req.payload)
    simp only [hc, Bool.not_false, Bool.true_and]
    exact ⟨hsh.pending, hsh.zero⟩

/-- The timer runs while requests are pending, if none of the config messages that arrive then makes a leader abdicate. -/
theorem ticking_iff_pending {Allowed : κ → Batcher → SubmitRequest → Prop} {s : Batcher} (h : c.BatcherRun Allowed s)
    (hallowed : ∀ config s req, Allowed config s req → c.Undisturbed config s req) :
    s.ticking = true ↔ s.cutter.pendingBatch ≠ [] := by
  refine (h.invariant (fun s => (s.ticking = true ↔ s.cutter.pendingBatch ≠ []) ∧
    (s.cutter.pendingBatch = [] → s.cutter.pendingBatchSizeBytes = 0)) ?_ ?_).1
  · rintro _ rfl
    simp
  · rintro s t ⟨ht, hz⟩ hst
    cases hst with
    | order hr ho => exact (hallowed _ _ _ hr).pending hz ho
    | orderFails => exact ⟨ht, hz⟩
    | timer => simp
    | stepDown => exact ⟨ht, fun _ => rfl⟩

theorem ticking_iff_pending_transfer :
    ∃ s, paymentsChain.BatcherRun paymentsChain.Undisturbed s ∧ s.cutter.pendingBatch = [transferRequest] ∧
      s.ticking = true := by
  have hr : paymentsChain.BatcherRun paymentsChain.Undisturbed _ :=
    .step (.init rfl) (.order (fun h => absurd rfl h) (rfl : paymentsChain.orderedBatch 0 {} transferRequest = _))
  exact ⟨_, hr, rfl, (ticking_iff_pending hr fun _ _ _ h => h).mpr (cons_ne_nil _ _)⟩

/-- A config message that evicts a consenter stops the timer and leaves the pending request where it is. -/
theorem pending_without_timer :
    ∃ s, evictingChain.BatcherRun (fun _ _ _ => True) s ∧ s.cutter.pendingBatch = [transferRequest] ∧
      s.ticking = false := by
  have hp : evictingChain.BatcherRun (fun _ _ _ => True) _ :=
    .step (.init rfl) (.order trivial (rfl : evictingChain.orderedBatch 0 {} transferRequest = _))
  exact ⟨_, hp.step (.order trivial (rfl : evictingChain.orderedBatch 0 _ evictionRequest = _)), rfl, rfl⟩

theorem keepValid_eq_survivors {reqs : List SubmitRequest} (hrt : ∀ req ∈ reqs, c.revalidated config req ≠ .panic)
    (hnr : ∀ req ∈ reqs, req.isConfig = false) :
    ∃ rejected, c.keepValid .plain config reqs = .ok (c.survivors config reqs, rejected) := by
  induction reqs with
  | nil => exact ⟨[], rfl⟩
  | cons req reqs ih =>
    obtain ⟨hrq, hrt⟩ := forall_mem_cons.mp hrt
    obtain ⟨hk, hnr⟩ := forall_mem_cons.mp hnr
    obtain ⟨rejected, ih⟩ := ih hrt hnr
    rw [keepValid, ih, RequestForm.plain_request, survivors, survivors, filterMap_cons]
    rw [revalidated, if_neg (by simp [hk])] at hrq ⊢
    cases hr : c.revalidateNormal config req with
    | ok => exact ⟨_, rfl⟩
    | err => exact ⟨_, rfl⟩
    | panic => simp [hr] at hrq

theorem Proper.checked {batch : List SubmitRequest} (h : c.Proper config batch) :
    (∃ reqs, c.checkValidationStatusOfTxns config batch = .ok reqs ∧ c.WellMade ⟨config, batch, reqs⟩) ∨
      ∃ e, c.checkValidationStatusOfTxns config batch = .err e := by
  obtain ⟨hrt, ⟨req, rfl, hc⟩ | ⟨hnr, req, hm, hok⟩⟩ := h
  · have hrq := hrt req (mem_singleton.mpr rfl)
    rw [revalidated, if_pos hc] at hrq
    rw [checkValidationStatusOfTxns, checkTxns, RequestForm.plain_request, if_pos hc]
    cases hr : c.revalidateConfig config req with
    | ok msg =>
      refine .inl ⟨[msg], rfl, cons_ne_nil _ _, ?_, ?_⟩
      · simp [survivors, revalidated, hc, hr, toOption]
      · intro req' hrq' _
        rw [mem_singleton.mp hrq']
    | err e => exact .inr ⟨e, rfl⟩
    | panic => exact absurd hr hrq
  · refine .inl ⟨c.survivors config batch, ?_, ?_, rfl, ?_⟩
    · obtain ⟨rejected, hk⟩ := keepValid_eq_survivors hrt hnr
      cases batch with
      | nil => cases hm
      | cons first rest =>
        rw [checkValidationStatusOfTxns, checkTxns, if_neg (by simp [hnr]), hk]
        rfl
    · refine ne_nil_of_mem (a := req) (mem_filterMap.mpr ⟨req, hm, ?_⟩)
      rw [revalidated, if_neg (by simp [hnr req hm]), hok]
      rfl
    · intro req' hrq' hc
      obtain ⟨r, hr, hsm⟩ := mem_filterMap.mp hrq'
      rw [revalidated, if_neg (by simp [hnr r hr]), toOption_eq_some] at hsm
      obtain ⟨_, _, hr'⟩ := bind_eq_ok.mp hsm
      cases hr'
      rw [hnr _ hr] at hc
      cases hc

/-- The blocks are those of `proposeBatch`. -/
theorem proposeBatch_of_leadBatches {hasRoom : Nat → Bool} {batches : List (List SubmitRequest)}
    {blocks : List (LeaderBlock κ)} {k : Nat} (h : c.leadBatches config hasRoom k batches = .ok blocks) :
    c.proposeBatch config batches = blocks.map fun b => c.createNextBlock (b.reqs.map SubmitRequest.payload) := by
  induction batches generalizing k blocks with
  | nil =>
    cases h
    rfl
  | cons batch batches ih =>
    rw [leadBatches, checkValidationStatusOfTxns] at h
    rw [proposeBatch, proposeAll]
    cases hc : c.checkTxns .plain config batch with
    | ok p =>
      simp only [hc, ok_bind] at h
      split_ifs at h
      obtain ⟨blocks', hb, h⟩ := bind_eq_ok.mp h
      cases h
      exact congrArg (c.createNextBlock (p.1.map SubmitRequest.payload) :: ·) (ih hb)
    | err e =>
      simp only [hc, err_bind, ok.injEq] at h
      rw [← h]
      rfl
    | panic =>
      simp only [hc, panic_bind] at h
      cases h

theorem exists_leadBatches {har : Nat → Bool} {batches : List (List SubmitRequest)}
    (hpr : ∀ batch ∈ batches, c.Proper config batch) {k : Nat}
    (hr : ∀ i, k ≤ i → i < k + batches.length → har i = true) :
    ∃ blocks, c.leadBatches config har k batches = .ok blocks ∧ ∀ b ∈ blocks, c.WellMade b := by
  induction batches generalizing k with
  | nil => exact ⟨[], rfl, by simp⟩
  | cons batch batches ih =>
    obtain ⟨hbt, hba⟩ := forall_mem_cons.mp hpr
    rw [length_cons] at hr
    unfold leadBatches
    rcases hbt.checked with ⟨reqs, hrq, hm⟩ | ⟨e, he⟩
    · obtain ⟨blocks, hb, ha⟩ := ih hba (k := k + 1) fun i hi hlt => hr i (by omega) (by omega)
      refine ⟨⟨config, batch, reqs⟩ :: blocks, ?_, forall_mem_cons.mpr ⟨hm, ha⟩⟩
      simp only [hrq, hr k (Nat.le_refl k) (by omega), if_true, hb, ok_bind]
    · exact ⟨[], by rw [he], by simp⟩

/-- A leader that gets proper batches only, with room for their blocks, makes no other blocks and does not panic. -/
theorem leader_blocks_wellMade {Allowed : κ → (Nat → Bool) → List (List SubmitRequest) → Prop} {s : Leader κ}
    (h : c.LeaderRun Allowed s)
    (hallowed : ∀ config hasRoom batches, Allowed config hasRoom batches →
      (∀ batch ∈ batches, c.Proper config batch) ∧ ∀ i < batches.length, hasRoom i = true) :
    s.panicked = false ∧ ∀ b ∈ s.blocks, c.WellMade b := by
  refine h.invariant (fun s => s.panicked = false ∧ ∀ b ∈ s.blocks, c.WellMade b) ?_ ?_
  · rintro _ rfl
    exact ⟨rfl, by simp⟩
  · rintro s t ⟨hpn, hs⟩ hst
    have hm {config : κ} {hasRoom : Nat → Bool} {batches : List (List SubmitRequest)}
        (ha : Allowed config hasRoom batches) :
        ∃ blocks, c.leadBatches config hasRoom 0 batches = .ok blocks ∧ ∀ b ∈ blocks, c.WellMade b := by
      obtain ⟨hpr, hr⟩ := hallowed config hasRoom batches ha
      exact exists_leadBatches hpr fun i _ hi => hr i (by omega)
    cases hst with
    | created ha hb =>
      obtain ⟨blocks, hok, hal⟩ := hm ha
      rw [hok] at hb
      cases hb
      exact ⟨hpn, forall_mem_append.mpr ⟨hs, hal⟩⟩
    | panics ha hpa =>
      obtain ⟨blocks, hok, -⟩ := hm ha
      rw [hok] at hpa
      cases hpa

def transferBatches : List (List SubmitRequest) :=
  [[transferRequest], [transferRequest, transferRequest]]

theorem leader_blocks_wellMade_transfer :
    ∃ s, paymentsChain.LeaderRun (fun config hasRoom batches => config = 0 ∧ batches = transferBatches ∧
      ∀ i < batches.length, hasRoom i = true) s ∧ s.blocks.map LeaderBlock.reqs = transferBatches ∧ s.panicked = false := by
  have hrn : paymentsChain.LeaderRun (fun config hasRoom batches => config = 0 ∧ batches = transferBatches ∧
      ∀ i < batches.length, hasRoom i = true) _ := .step (.init rfl) (.created ⟨rfl, rfl, fun _ _ => rfl⟩
        (rfl : paymentsChain.leadBatches 0 (fun _ => true) 0 transferBatches = _))
  refine ⟨_, hrn, rfl, (leader_blocks_wellMade hrn ?_).1⟩
  rintro config hasRoom batches ⟨rfl, rfl, hr⟩
  refine ⟨fun batch hb => ?_, hr⟩
  rcases mem_pair.mp hb with rfl | rfl <;>
    exact ⟨by decide, .inr ⟨by decide, transferRequest, mem_cons_self, rfl⟩⟩

def maintainedChain : Chain UInt64 :=
  { paymentsChain with support :=
      { paymentsSupport with consensusTypeMigration := fun _ => true, consensusStateNormal := fun _ => false } }

/-- A batch without requests makes the leader panic, and one whose requests are all rejected becomes an empty block. -/
theorem empty_batch_panics :
    (∃ s, maintainedChain.LeaderRun (fun _ _ batches => batches = [[]]) s ∧ s.panicked = true) ∧
      ∃ s, maintainedChain.LeaderRun (fun _ _ batches => batches = [[transferRequest]]) s ∧
        s.blocks = [⟨1, [transferRequest], []⟩] :=
  ⟨⟨_, .step (.init rfl) (.panics rfl (rfl : maintainedChain.leadBatches 1 (fun _ => true) 0 [[]] = _)), rfl⟩,
    _, .step (.init rfl) (.created rfl
      (rfl : maintainedChain.leadBatches 1 (fun _ => true) 0 [[transferRequest]] = _)), rfl⟩

end Chain

end Drunix.Orderer
