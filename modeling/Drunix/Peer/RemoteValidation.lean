import Mathlib.Algebra.GroupWithZero.Nat
import Mathlib.Data.List.Nodup
import Mathlib.Data.List.Perm.Subperm
import Drunix.Lib.Transition
import Drunix.Peer.DuplicateTxids

namespace Drunix.Peer

open Lib Proto Outcome List

def maxRetries : Nat := 5

/-- A `blockValidationResult` on its way. `about` is the transaction whose validation gave the result; it is not
part of the message. -/
structure Message where
  tIdx : Int
  res : TxResult
  about : Nat
  deriving DecidableEq

@[irreducible]
def int32 (i : Nat) : Int :=
  Int.bmod i 4294967296

def serviceResult (code : TxValidationCode) : TxResult :=
  if code = .valid then .ok [] else .err (.invalid code)

/-- `TxValidatorVSCCAdapter.Validate` on the results of its workers, in the order of their arrival; an error has
the code of no result. The status is that of a reply without errors. -/
structure VsccResponse where
  ok : Bool
  validationResponses : List (Nat × TxValidationCode)

def vsccValidate (arrived : List (Nat × Option TxValidationCode)) : VsccResponse where
  ok := arrived.all fun res => res.2.isSome
  validationResponses := arrived.map fun res => (res.1, res.2.getD .valid)

/-- What the peer makes of a reply; the index has gone through 32 bits. -/
def VsccResponse.messages (res : VsccResponse) : List Message :=
  res.validationResponses.map fun r => ⟨int32 r.1, serviceResult r.2, r.1⟩

/-- The goroutine of a batch: it has failed so many times, or it has the results to send. -/
inductive Job where
  | trying (batch : List Nat) (failures : Nat)
  | sending (messages : List Message)

/-- A run of `Validate` or `validateLtx`: the workers of the block, the goroutines of the service batches and the
reading loop. There are batches once the workers are done. `verdicts` and `failed` only keep what was computed and which batches were given up. -/
structure ValidateState where
  pending : List (Nat × Handling)
  endorsersTxns : List Nat := []
  queued : Option (List (List Nat)) := none
  jobs : List Job := []
  channel : List Message := []
  consumed : List Message := []
  verdicts : List (Nat × TxResult) := []
  failed : List (List Nat) := []

inductive ValidateStep (n size : Nat) (st : ValidateState) : ValidateState → Prop
  -- A worker that panics takes the peer down.
  | check {pre post : List (Nat × Handling)} {i : Nat} {r : TxResult}
      (hpending : st.pending = pre ++ (i, .result r) :: post) (hr : r ≠ .panic) :
      ValidateStep n size st
        { st with
          pending := pre ++ post
          channel := st.channel ++ [⟨i, r, i⟩]
          verdicts := st.verdicts ++ [(i, r)] }
  | gather {pre post : List (Nat × Handling)} {i : Nat} (hpending : st.pending = pre ++ (i, .toService) :: post) :
      ValidateStep n size st { st with pending := pre ++ post, endorsersTxns := st.endorsersTxns ++ [i] }
  | wait (hqueued : st.queued = none) (hpending : st.pending = []) :
      ValidateStep n size st { st with queued := some (batches size st.endorsersTxns) }
  | start {batch : List Nat} {rest : List (List Nat)} (hqueued : st.queued = some (batch :: rest)) :
      ValidateStep n size st { st with queued := some rest, jobs := st.jobs ++ [.trying batch 0] }
  | retry {pre post : List Job} {batch : List Nat} {failures : Nat} (hjobs : st.jobs = pre ++ .trying batch failures :: post)
      (hretry : failures < maxRetries) :
      ValidateStep n size st { st with jobs := pre ++ .trying batch (failures + 1) :: post }
  | giveUp {pre post : List Job} {batch : List Nat} (hjobs : st.jobs = pre ++ .trying batch maxRetries :: post) :
      ValidateStep n size st
        { st with
          jobs := pre ++ .sending (batch.map fun i : Nat => ⟨i, .err .halt, i⟩) :: post
          failed := st.failed ++ [batch] }
  | reply {pre post : List Job} {batch : List Nat} {failures : Nat} (hjobs : st.jobs = pre ++ .trying batch failures :: post)
      (computed : Nat → Option TxValidationCode) {arrived : List (Nat × Option TxValidationCode)}
      (harrived : arrived.Perm (batch.map fun i => (i, computed i))) (hok : (vsccValidate arrived).ok = true) :
      ValidateStep n size st
        { st with
          jobs := pre ++ .sending (vsccValidate arrived).messages :: post
          verdicts := st.verdicts ++ batch.map fun i => (i, serviceResult ((computed i).getD .valid)) }
  | send {pre post : List Job} {m : Message} {rest : List Message} (hjobs : st.jobs = pre ++ .sending (m :: rest) :: post) :
      ValidateStep n size st { st with jobs := pre ++ .sending rest :: post, channel := st.channel ++ [m] }
  | receive {m : Message} {rest : List Message} (hqueued : st.queued.isSome) (hmore : st.consumed.length < n)
      (hchannel : st.channel = m :: rest) :
      ValidateStep n size st { st with channel := rest, consumed := st.consumed ++ [m] }

/-- One round of the reading loop; a flag outside of the block panics. -/
def collectMessage (n : Nat) (st : Collected) (m : Message) : Outcome BlockFailure Collected :=
  if m.res = .err .halt ∨ 0 ≤ m.tIdx ∧ m.tIdx < n then collect st (m.tIdx.toNat, m.res) else .panic

def collectMessages (n : Nat) (messages : List Message) : Outcome BlockFailure Collected :=
  messages.foldlM (collectMessage n) (.new n)

def validateMessages (n : Nat) (messages : List Message) : Outcome BlockFailure (List TxValidationCode) := do
  let st ← collectMessages n messages
  match st.errPos with
  | some errPos => .err (.txFailed errPos)
  | none => allValidated (markTXIdDuplicates [] (st.txidArray.zip st.txsfltr))

namespace Job

def request : Job → List (List Nat)
  | trying batch _ => [batch]
  | sending _ => []

def unsent : Job → List Message
  | trying _ _ => []
  | sending messages => messages

end Job

namespace ValidateState

variable (st : ValidateState)

def requests : List (List Nat) :=
  st.queued.getD [] ++ st.jobs.flatMap Job.request

def dispatched : List Nat :=
  (if st.queued = none then st.endorsersTxns else []) ++ st.requests.flatten

def unsettled : List Nat :=
  st.pending.map Prod.fst ++ st.dispatched

def produced : List Message :=
  st.jobs.flatMap Job.unsent ++ st.channel ++ st.consumed

end ValidateState

structure Settles (st st' : ValidateState) (new : List Message) : Prop where
  unsettled : st.unsettled.Perm (new.map Message.about ++ st'.unsettled)
  produced : st'.produced.Perm (new ++ st.produced)
  pending : ∀ h ∈ st'.pending, h ∈ st.pending
  dispatched : ∀ i ∈ st'.dispatched, i ∈ st.dispatched ∨ (i, .toService) ∈ st.pending
  requests : ∀ batch ∈ st'.requests, batch ∈ st.requests ∨ batch ≠ []
  waited : st'.queued.isSome → st.queued.isSome ∨ st'.pending = []

theorem ne_nil_of_mem_batches {α : Type} {size : Nat} {l : List α} {batch : List α} (h : batch ∈ batches size l) :
    batch ≠ [] := by
  fun_induction batches size l with
  | case1 => cases h
  | case2 x xs ih =>
    rcases mem_cons.mp h with rfl | h
    · exact cons_ne_nil _ _
    · exact ih h

variable {i failures : Nat} {r : TxResult} {m : Message}

section Step

variable {n size : Nat} {st st' : ValidateState} {verdicts : List (Nat × TxResult)} {pre post : List (Nat × Handling)}
  {batch : List Nat}

theorem settles_of_jobs {pre post : List Job} {job job' : Job} {new channel : List Message} {failed : List (List Nat)}
    (hj : st.jobs = pre ++ job :: post)
    (hrq : job.request.flatten.Perm (new.map Message.about ++ job'.request.flatten))
    (hsub : ∀ batch ∈ job'.request, batch ∈ job.request)
    (hu : (job'.unsent ++ channel).Perm (new ++ job.unsent ++ st.channel)) :
    Settles st { st with jobs := pre ++ job' :: post, channel := channel, verdicts := verdicts, failed := failed } new where
  unsettled := by
    rw [perm_iff_count] at hrq ⊢
    intro i
    have h := hrq i
    simp only [ValidateState.unsettled, ValidateState.dispatched, ValidateState.requests, hj, flatMap_append,
      flatMap_cons, flatten_append, count_append] at h ⊢
    omega
  produced := by
    rw [perm_iff_count] at hu ⊢
    intro m
    have h := hu m
    simp only [ValidateState.produced, hj, flatMap_append, flatMap_cons, count_append] at h ⊢
    omega
  pending := fun _ h => h
  dispatched := by
    intro i hi
    left
    simp only [ValidateState.dispatched, ValidateState.requests, hj, mem_append, mem_flatten, flatMap_append,
      flatMap_cons] at hi ⊢
    exact hi.imp_right fun ⟨batch, hb, hm⟩ => ⟨batch, hb.imp_right (Or.imp_right (Or.imp_left (hsub batch))), hm⟩
  requests := by
    intro batch hb
    left
    simp only [ValidateState.requests, hj, mem_append, flatMap_append, flatMap_cons] at hb ⊢
    exact hb.imp_right (Or.imp_right (Or.imp_left (hsub batch)))
  waited := .inl

theorem settles_check (hp : st.pending = pre ++ (i, .result r) :: post) :
    Settles st { st with pending := pre ++ post, channel := st.channel ++ [⟨i, r, i⟩], verdicts := verdicts } [⟨i, r, i⟩] where
  unsettled := by
    rw [perm_iff_count]
    intro j
    simp only [ValidateState.unsettled, ValidateState.dispatched, ValidateState.requests, hp, map_append, map_cons,
      map_nil, count_append, count_cons, count_nil]
    omega
  produced := by
    rw [perm_iff_count]
    intro m
    simp only [ValidateState.produced, count_append]
    omega
  pending := by
    intro h hh
    rw [hp, mem_append, mem_cons]
    exact (mem_append.mp hh).imp_right .inr
  dispatched := fun _ h => .inl h
  requests := fun _ h => .inl h
  waited := .inl

theorem settles_gather (hw : st.queued.isSome → st.pending = [])
    (hp : st.pending = pre ++ (i, .toService) :: post) :
    Settles st { st with pending := pre ++ post, endorsersTxns := st.endorsersTxns ++ [i] } [] := by
  have hq : st.queued = none := by
    rw [← Option.not_isSome_iff_eq_none]
    intro h
    rw [hw h] at hp
    simp at hp
  refine ⟨?_, .refl _, ?_, ?_, fun _ h => .inl h, .inl⟩
  · rw [perm_iff_count]
    intro j
    simp only [ValidateState.unsettled, ValidateState.dispatched, ValidateState.requests, hp, hq, map_append,
      map_cons, map_nil, if_true, count_append, count_cons, count_nil]
    omega
  · intro h hh
    rw [hp, mem_append, mem_cons]
    exact (mem_append.mp hh).imp_right .inr
  · intro j hj
    simp only [ValidateState.dispatched, ValidateState.requests, hq, if_true, mem_append, mem_singleton]
      at hj ⊢
    have hi : (i, .toService) ∈ st.pending := by simp [hp]
    grind

theorem settles_wait (hq : st.queued = none) (hp : st.pending = []) :
    Settles st { st with queued := some (batches size st.endorsersTxns) } [] := by
  have hd : ValidateState.dispatched { st with queued := some (batches size st.endorsersTxns) } = st.dispatched := by
    simp [ValidateState.dispatched, ValidateState.requests, hq, batches_flatten]
  refine ⟨?_, .refl _, fun _ h => h, ?_, ?_, fun _ => .inr hp⟩
  · rw [ValidateState.unsettled, ValidateState.unsettled, hd]
    exact .refl _
  · intro i hi
    exact .inl (hd ▸ hi)
  · intro batch hb
    rcases mem_append.mp hb with h | h
    · exact .inr (ne_nil_of_mem_batches h)
    · exact .inl (mem_append_right _ h)

theorem settles_start {rest : List (List Nat)} (hq : st.queued = some (batch :: rest)) :
    Settles st { st with queued := some rest, jobs := st.jobs ++ [.trying batch 0] } [] := by
  have hrq : (ValidateState.requests { st with queued := some rest, jobs := st.jobs ++ [.trying batch 0] }).Perm
      st.requests := by
    simp only [ValidateState.requests, hq, Option.getD_some, flatMap_append, flatMap_cons, flatMap_nil,
      Job.request, append_nil, ← append_assoc, cons_append]
    exact perm_append_singleton _ _
  have hd := hrq.flatten
  refine ⟨?_, ?_, fun _ h => h, ?_, fun _ h => .inl (hrq.mem_iff.mp h), fun _ => .inl (by simp [hq])⟩
  · simpa [ValidateState.unsettled, ValidateState.dispatched, hq] using hd.symm.append_left _
  · simp [ValidateState.produced, Job.unsent]
  · intro i hi
    left
    simpa [ValidateState.dispatched, hq] using hd.mem_iff.mp (by simpa [ValidateState.dispatched] using hi)

theorem settles_receive {rest : List Message} (hc : st.channel = m :: rest) :
    Settles st { st with channel := rest, consumed := st.consumed ++ [m] } [] where
  unsettled := .refl _
  produced := by
    rw [perm_iff_count]
    intro m'
    simp only [ValidateState.produced, hc, count_append, count_cons, count_nil]
    omega
  pending := fun _ h => h
  dispatched := fun _ h => .inl h
  requests := fun _ h => .inl h
  waited := .inl

/-- The results of a step are those of a worker or of a reply, with their verdicts, or those of a batch given up. -/
inductive Logs (st st' : ValidateState) : List Message → Prop
  | quiet (hverdicts : st'.verdicts = st.verdicts) (hfailed : st'.failed = st.failed) : Logs st st' []
  | worker {i : Nat} {r : TxResult} (hmem : (i, .result r) ∈ st.pending) (hr : r ≠ .panic)
      (hverdicts : st'.verdicts = st.verdicts ++ [(i, r)]) (hfailed : st'.failed = st.failed) : Logs st st' [⟨i, r, i⟩]
  | service {arrived : List (Nat × TxValidationCode)} (hmem : ∀ res ∈ arrived, res.1 ∈ st.dispatched)
      (hverdicts : st'.verdicts.Perm (st.verdicts ++ arrived.map fun res => (res.1, serviceResult res.2)))
      (hfailed : st'.failed = st.failed) :
      Logs st st' (arrived.map fun res => ⟨int32 res.1, serviceResult res.2, res.1⟩)
  | failure {batch : List Nat} (hmem : batch ∈ st.requests) (hverdicts : st'.verdicts = st.verdicts)
      (hfailed : st'.failed = st.failed ++ [batch]) : Logs st st' (batch.map fun i : Nat => ⟨i, .err .halt, i⟩)

theorem mem_requests_of_jobs {pre post : List Job} (hj : st.jobs = pre ++ .trying batch failures :: post) :
    batch ∈ st.requests := by
  rw [ValidateState.requests, hj]
  simp [Job.request]

theorem ValidateStep.settles (hst : ValidateStep n size st st') (hw : st.queued.isSome → st.pending = []) :
    ∃ new, Settles st st' new ∧ Logs st st' new := by
  cases hst with
  | check hp hr => exact ⟨_, settles_check hp, .worker (by simp [hp]) hr rfl rfl⟩
  | gather hp => exact ⟨_, settles_gather hw hp, .quiet rfl rfl⟩
  | wait hq hp => exact ⟨_, settles_wait hq hp, .quiet rfl rfl⟩
  | start hq => exact ⟨_, settles_start hq, .quiet rfl rfl⟩
  | retry hj => exact ⟨_, settles_of_jobs hj (.refl _) (fun _ h => h) (.refl _), .quiet rfl rfl⟩
  | giveUp hj =>
    refine ⟨_, settles_of_jobs hj ?_ (by simp [Job.request]) ?_, .failure (mem_requests_of_jobs hj) rfl rfl⟩
    · simp [Job.request, Function.comp_def]
    · simp [Job.unsent]
  | @reply pre post batch failures hj computed arrived ha hok =>
    have hpr := ha.map fun res => (res.1, res.2.getD .valid)
    rw [map_map] at hpr
    refine ⟨(vsccValidate arrived).messages, settles_of_jobs hj ?_ (by simp [Job.request]) ?_, ?_⟩
    · have hid := (hpr.map Prod.fst).symm
      simpa [Job.request, VsccResponse.messages, vsccValidate, Function.comp_def] using hid
    · simp [Job.unsent]
    · refine .service ?_ ?_ rfl
      · intro res hrs
        obtain ⟨i, hi, rfl⟩ := mem_map.mp (hpr.mem_iff.mp hrs)
        exact mem_append_right _ (mem_flatten.mpr ⟨batch, mem_requests_of_jobs hj, hi⟩)
      · have hl := (hpr.map fun res => (res.1, serviceResult res.2)).symm
        rw [map_map] at hl
        exact hl.append_left _
  | send hj =>
    refine ⟨[], settles_of_jobs hj (.refl _) (by simp [Job.request]) ?_, .quiet rfl rfl⟩
    simp only [Job.unsent, nil_append, cons_append, ← append_assoc]
    exact perm_append_singleton _ _
  | receive _ _ hc => exact ⟨_, settles_receive hc, .quiet rfl rfl⟩

end Step

/-! ### What holds of every state of a run -/

/-- A transaction is unsettled or has one result, and a result is a verdict or the failure of a batch. -/
structure Accounted (hs : List (Nat × Handling)) (st : ValidateState) : Prop where
  once : (st.produced.map Message.about ++ st.unsettled).Perm (hs.map Prod.fst)
  waited : st.queued.isSome → st.pending = []
  pending : ∀ h ∈ st.pending, h ∈ hs
  dispatched : ∀ i ∈ st.dispatched, (i, .toService) ∈ hs
  requests : ∀ batch ∈ st.requests, batch ≠ []
  index : ∀ m ∈ st.produced, m.tIdx = m.about ∨ m.tIdx = int32 m.about ∧ m.res ≠ .err .halt
  no_panic : ∀ m ∈ st.produced, m.res ≠ .panic
  origin : ∀ m ∈ st.produced, (m.about, m.res) ∈ st.verdicts ∨ m.res = .err .halt
  verdicts : (st.verdicts.map Prod.fst ++ st.unsettled).Nodup
  handled : ∀ v ∈ st.verdicts, (v.1, .result v.2) ∈ hs ∨ (v.1, .toService) ∈ hs
  failed : st.failed ≠ [] → ∃ m ∈ st.produced, m.res = .err .halt

theorem serviceResult_ne (code : TxValidationCode) : serviceResult code ≠ .panic ∧ serviceResult code ≠ .err .halt := by
  unfold serviceResult
  split_ifs <;> simp

namespace Logs

variable {hs : List (Nat × Handling)} {st st' : ValidateState} {new : List Message}

section

variable (h : Logs st st' new)
include h

theorem sound : ∀ m ∈ new, (m.tIdx = m.about ∨ m.tIdx = int32 m.about ∧ m.res ≠ .err .halt) ∧ m.res ≠ .panic ∧
    ((m.about, m.res) ∈ st'.verdicts ∨ m.res = .err .halt) := by
  intro m hm
  cases h with
  | quiet => cases hm
  | worker _ hr hvr =>
    obtain rfl := mem_singleton.mp hm
    exact ⟨.inl rfl, hr, by simp [hvr]⟩
  | service _ hvr =>
    obtain ⟨res, hr, rfl⟩ := mem_map.mp hm
    obtain ⟨hp, hh⟩ := serviceResult_ne res.2
    exact ⟨.inr ⟨rfl, hh⟩, hp, .inl (hvr.mem_iff.mpr (mem_append_right _ (mem_map.mpr ⟨res, hr, rfl⟩)))⟩
  | failure =>
    obtain ⟨i, -, rfl⟩ := mem_map.mp hm
    exact ⟨.inl rfl, by simp, .inr rfl⟩

theorem verdicts_subset : st.verdicts ⊆ st'.verdicts := by
  cases h with
  | quiet hvr | failure _ hvr => rw [hvr]; exact List.Subset.refl _
  | worker _ _ hvr => rw [hvr]; exact subset_append_left _ _
  | service _ hvr => exact fun v hv => hvr.mem_iff.mpr (mem_append_left _ hv)

theorem verdicts_subperm : (st'.verdicts.map Prod.fst).Subperm (st.verdicts.map Prod.fst ++ new.map Message.about) := by
  cases h with
  | quiet hvr =>
    rw [hvr, map_nil, append_nil]
  | worker _ _ hvr =>
    rw [hvr, map_append]
    exact List.Subperm.refl _
  | service _ hvr => simpa [Function.comp_def] using (hvr.map Prod.fst).subperm
  | failure _ hvr => rw [hvr]; exact (sublist_append_left _ _).subperm

theorem failed_ne_nil (hne : st.failed ≠ []) : st'.failed ≠ [] := by
  cases h with
  | quiet _ hf | worker _ _ _ hf | service _ _ hf => exact hf ▸ hne
  | failure _ _ hf => simp [hf]

theorem handled (ha : Accounted hs st) : ∀ v ∈ st'.verdicts, (v.1, .result v.2) ∈ hs ∨ (v.1, .toService) ∈ hs := by
  intro v hv
  cases h with
  | quiet hvr | failure _ hvr => exact ha.handled v (hvr ▸ hv)
  | worker hm _ hvr =>
    rw [hvr, mem_append, mem_singleton] at hv
    rcases hv with hv | rfl
    · exact ha.handled v hv
    · exact .inl (ha.pending _ hm)
  | service hm hvr =>
    rcases mem_append.mp (hvr.mem_iff.mp hv) with hv | hv
    · exact ha.handled v hv
    · obtain ⟨res, hr, rfl⟩ := mem_map.mp hv
      exact .inr (ha.dispatched _ (hm res hr))

theorem failed (ha : Accounted hs st) (hne : st'.failed ≠ []) : st.failed ≠ [] ∨ ∃ m ∈ new, m.res = .err .halt := by
  cases h with
  | quiet _ hf | worker _ _ _ hf | service _ _ hf => exact .inl (hf ▸ hne)
  | @failure batch hm =>
    obtain ⟨i, hi⟩ := exists_mem_of_ne_nil batch (ha.requests batch hm)
    exact .inr ⟨_, mem_map.mpr ⟨i, hi, rfl⟩, rfl⟩

end

end Logs

variable {hs : List (Nat × Handling)}

theorem Accounted.step {n size : Nat} {st st' : ValidateState} (ha : Accounted hs st)
    (hst : ValidateStep n size st st') : Accounted hs st' := by
  obtain ⟨new, hse, hlg⟩ := hst.settles ha.waited
  have hpr : ∀ {P : Message → Prop}, (∀ m ∈ new, P m) → (∀ m ∈ st.produced, P m) → ∀ m ∈ st'.produced, P m := by
    intro P hn ho m hm
    exact (mem_append.mp (hse.produced.mem_iff.mp hm)).elim (hn m) (ho m)
  constructor
  case once =>
    refine .trans ?_ ha.once
    have hp := hse.produced.map Message.about
    have hu := hse.unsettled
    rw [perm_iff_count] at hp hu ⊢
    intro i
    have hp := hp i
    have hu := hu i
    simp only [map_append, count_append] at hp hu ⊢
    omega
  case waited =>
    intro h
    refine (hse.waited h).elim (fun h => ?_) id
    refine eq_nil_iff_forall_not_mem.mpr fun p hp => ?_
    simpa [ha.waited h] using hse.pending p hp
  case pending => exact fun h hh => ha.pending h (hse.pending h hh)
  case dispatched => exact fun i hi => (hse.dispatched i hi).elim (ha.dispatched i) (ha.pending _)
  case requests => exact fun batch hb => (hse.requests batch hb).elim (ha.requests batch) id
  case index => exact hpr (fun m hm => (hlg.sound m hm).1) ha.index
  case no_panic => exact hpr (fun m hm => (hlg.sound m hm).2.1) ha.no_panic
  case origin =>
    exact hpr (fun m hm => (hlg.sound m hm).2.2) fun m hm => (ha.origin m hm).imp_left (hlg.verdicts_subset ·)
  case verdicts =>
    -- What has got a verdict was unsettled.
    have hsub : (st'.verdicts.map Prod.fst ++ st'.unsettled).Subperm (st.verdicts.map Prod.fst ++ st.unsettled) := by
      refine .trans (hlg.verdicts_subperm.append (List.Subperm.refl _)) ?_
      rw [append_assoc]
      exact ((hse.unsettled.symm).append_left _).subperm
    obtain ⟨l, hpe, hl⟩ := hsub
    exact hpe.nodup_iff.mp (ha.verdicts.sublist hl)
  case handled => exact hlg.handled ha
  case failed =>
    intro hne
    rcases hlg.failed ha hne with ho | ⟨m, hm, hr⟩
    · obtain ⟨m, hm, hr⟩ := ha.failed ho
      exact ⟨m, hse.produced.mem_iff.mpr (mem_append_right _ hm), hr⟩
    · exact ⟨m, hse.produced.mem_iff.mpr (mem_append_left _ hm), hr⟩

def ValidateState.start (hs : List (Nat × Handling)) : ValidateState where
  pending := hs

theorem accounted_start (hnd : (hs.map Prod.fst).Nodup) : Accounted hs (.start hs) := by
  constructor <;> simp [ValidateState.start, ValidateState.unsettled, ValidateState.dispatched,
    ValidateState.requests, ValidateState.produced, hnd]

def ValidateRun (a : PeerAdapter) (data : List Bytes) : ValidateState → Prop :=
  Reachable (· = .start (a.handlings data)) (ValidateStep data.length a.batchSize)

theorem ValidateRun.accounted {a : PeerAdapter} {data : List Bytes} {st : ValidateState}
    (h : ValidateRun a data st) : Accounted (a.handlings data) st := by
  refine Reachable.invariant (Accounted (a.handlings data)) ?_ (fun _ _ => Accounted.step) h
  rintro _ rfl
  apply accounted_start
  rw [PeerAdapter.handlings_keys]
  exact nodup_range

theorem Accounted.consumed {st : ValidateState} (ha : Accounted hs st) (hlen : st.consumed.length = hs.length) :
    st.produced = st.consumed ∧ st.unsettled = [] := by
  have hc := ha.once.length_eq
  simp only [ValidateState.produced, length_append, length_map] at hc
  have hu : (st.jobs.flatMap Job.unsent ++ st.channel).length = 0 := by
    rw [length_append]
    omega
  refine ⟨?_, eq_nil_of_length_eq_zero (by omega)⟩
  rw [ValidateState.produced, eq_nil_of_length_eq_zero hu, nil_append]

/-! ### The run comes to its end -/

section Progress

variable {n size : Nat} {st st' : ValidateState}

def Job.weight : Job → Nat
  | trying batch failures => 3 * batch.length + (maxRetries + 1 - failures)
  | sending messages => 2 * messages.length

/-- What is still to be done, a step of a transaction weighing less the further it is. -/
def ValidateState.weight (st : ValidateState) : Nat :=
  12 * st.pending.length + st.queued.elim (11 * st.endorsersTxns.length + 1) (fun queued => 10 * queued.flatten.length) +
    (st.jobs.map Job.weight).sum + st.channel.length

theorem weight_of_jobs {pre post : List Job} {job job' : Job} {channel : List Message} {verdicts : List (Nat × TxResult)}
    {failed : List (List Nat)} (hj : st.jobs = pre ++ job :: post)
    (hw : job'.weight + channel.length < job.weight + st.channel.length) :
    ValidateState.weight { st with jobs := pre ++ job' :: post, channel := channel, verdicts := verdicts, failed := failed } <
      st.weight := by
  simp only [ValidateState.weight, hj, map_append, map_cons, sum_append, sum_cons]
  omega

theorem ValidateStep.weight_lt (hst : ValidateStep n size st st') (ha : Accounted hs st) : st'.weight < st.weight := by
  cases hst with
  | check hp =>
    simp only [ValidateState.weight, hp, length_append, length_cons, length_nil]
    omega
  | gather hp =>
    have hq : st.queued = none := by
      rw [← Option.not_isSome_iff_eq_none]
      intro h
      rw [ha.waited h] at hp
      simp at hp
    simp only [ValidateState.weight, hp, hq, Option.elim_none, length_append, length_cons, length_nil]
    omega
  | wait hq =>
    simp only [ValidateState.weight, hq, Option.elim_none, Option.elim_some, batches_flatten]
    omega
  | @start batch rest hq =>
    have hb : 0 < batch.length :=
      length_pos_of_ne_nil (ha.requests batch (mem_append_left _ (by rw [hq]; exact mem_cons_self)))
    simp only [ValidateState.weight, hq, Option.elim_some, flatten_cons, length_append, map_append, map_cons, map_nil,
      sum_append, sum_cons, sum_nil, Job.weight, maxRetries]
    omega
  | retry hj hr =>
    refine weight_of_jobs hj ?_
    simp only [Job.weight]
    omega
  | giveUp hj =>
    refine weight_of_jobs hj ?_
    simp only [Job.weight, length_map]
    omega
  | @reply _ _ batch _ hj _ arrived harr =>
    have hb := length_pos_of_ne_nil (ha.requests batch (mem_requests_of_jobs hj))
    have hl := harr.length_eq
    refine weight_of_jobs hj ?_
    simp only [Job.weight, VsccResponse.messages, vsccValidate, length_map] at hl ⊢
    omega
  | send hj =>
    refine weight_of_jobs hj ?_
    simp only [Job.weight, length_append, length_cons, length_nil]
    omega
  | receive _ _ hc =>
    simp only [ValidateState.weight, hc, length_cons]
    omega

/-- A run is stuck only when a worker has panicked or all results are read. -/
theorem Accounted.exists_step (ha : Accounted hs st) (hmore : st.consumed.length < hs.length)
    (hp : ∀ i, (i, .result .panic) ∉ st.pending) : ∃ st', ValidateStep hs.length size st st' := by
  rcases hpd : st.pending with _ | ⟨⟨i, hd⟩, rest⟩
  · rcases hq : st.queued with _ | _ | ⟨batch, queued⟩
    · exact ⟨_, .wait hq hpd⟩
    · by_cases hj : st.jobs.flatMap Job.unsent = [] ∧ st.jobs.flatMap Job.request = []
      · rcases hc : st.channel with _ | ⟨m, channel⟩
        · have hl := ha.once.length_eq
          simp [ValidateState.produced, ValidateState.unsettled, ValidateState.dispatched, ValidateState.requests, hpd,
            hq, hj.1, hj.2, hc] at hl
          omega
        · exact ⟨_, .receive (by rw [hq]; rfl) hmore hc⟩
      · obtain ⟨job, hmem, hne⟩ : ∃ job ∈ st.jobs, job.unsent ≠ [] ∨ job.request ≠ [] := by
          simp only [flatMap_eq_nil_iff] at hj
          grind
        obtain ⟨pre, post, hjobs⟩ := append_of_mem hmem
        cases job with
        | trying batch failures => exact ⟨_, .reply hjobs (fun _ => some .valid) (.refl _) (by simp [vsccValidate])⟩
        | sending messages =>
          cases messages with
          | nil => exact absurd rfl (hne.resolve_right fun h => h rfl)
          | cons m rest => exact ⟨_, .send hjobs⟩
    · exact ⟨_, .start hq⟩
  · cases hd with
    | result r =>
      refine ⟨_, .check (show st.pending = [] ++ _ from hpd) ?_⟩
      rintro rfl
      exact hp i (hpd ▸ mem_cons_self)
    | toService => exact ⟨_, .gather (show st.pending = [] ++ _ from hpd)⟩

end Progress

/-! ### The reading loop over messages -/

section Reading

variable {n : Nat} {messages : List Message} {st st' : Collected}

def InBlock (n : Nat) (m : Message) : Prop :=
  m.res = .err .halt ∨ 0 ≤ m.tIdx ∧ m.tIdx < n

theorem foldlM_collectMessage_eq_ok (h : messages.foldlM (collectMessage n) st = .ok st') :
    (∀ m ∈ messages, InBlock n m) ∧ (messages.map fun m => (m.tIdx.toNat, m.res)).foldlM collect st = .ok st' := by
  induction messages generalizing st with
  | nil => exact ⟨by simp, h⟩
  | cons m messages ih =>
    obtain ⟨st₁, hst, hr⟩ := bind_eq_ok.mp h
    unfold collectMessage at hst
    split_ifs at hst with hin
    obtain ⟨ha, hf⟩ := ih hr
    refine ⟨forall_mem_cons.mpr ⟨hin, ha⟩, ?_⟩
    rw [map_cons, foldlM_cons, hst]
    exact hf

theorem exists_collectMessages (hin : ∀ m ∈ messages, InBlock n m) (hrs : ∀ m ∈ messages, m.res ≠ .panic) :
    ∃ filter, collectMessages n messages = .ok filter := by
  refine exists_foldlM_eq_ok (fun _ => True) (fun m hm st _ => ?_) trivial
  have hi := hin m hm
  unfold InBlock at hi
  rw [collectMessage, if_pos hi]
  cases hc : m.res with
  | panic => exact absurd hc (hrs m hm)
  | ok txid => exact ⟨_, rfl, trivial⟩
  | err e => cases e <;> exact ⟨_, rfl, trivial⟩

theorem collectMessages_ne_err (e : BlockFailure) : collectMessages n messages ≠ .err e := by
  refine noError_foldlM (fun st m e => ?_) _ _ e
  rw [collectMessage]
  split_ifs
  · cases m.res with
    | ok | panic => simp [collect]
    | err f => cases f <;> simp [collect]
  · simp

theorem ne_notValidated_of_allValidated {txids : List Bytes} {filter flags : List TxValidationCode}
    (h : allValidated (markTXIdDuplicates [] (txids.zip filter)) = .ok flags) (ht : txids[i]? = some []) :
    filter[i]? ≠ some .notValidated := by
  intro hf
  have hm : (markTXIdDuplicates [] (txids.zip filter))[i]? = some .notValidated := by
    have hz : (txids.zip filter)[i]? = some ([], .notValidated) := getElem?_zip_eq_some.mpr ⟨ht, hf⟩
    rw [getElem?_markTXIdDuplicates, hz]
    rfl
  unfold allValidated at h
  split at h
  · cases h
  · rename_i hn
    rw [findIdx?_eq_none_iff] at hn
    simpa using hn _ (mem_of_getElem? hm)

end Reading

theorem int32_of_lt (h : i < 2147483648) : int32 i = i := by
  unfold int32
  apply Int.bmod_eq_of_le
  · omega
  · omega

theorem int32_lt (i : Nat) : int32 i < 2147483648 := by
  unfold int32
  have h := @Int.bmod_lt i 4294967296 (by omega)
  simpa using h

theorem perm_range_of_covers {l : List Nat} {n : Nat} (hlen : l.length = n) (hc : ∀ i < n, i ∈ l) :
    l.Perm (List.range n) := by
  have hsub : (List.range n).Subperm l :=
    subperm_of_subset nodup_range fun i hi => hc i (mem_range.mp hi)
  exact (hsub.perm_of_length_le (by rw [length_range, hlen])).symm

theorem validateMessages_eq_ok {n : Nat} {messages : List Message} {flags : List TxValidationCode}
    (h : validateMessages n messages = .ok flags) :
    ∃ filter, collectMessages n messages = .ok filter ∧ filter.errPos = none ∧
      allValidated (markTXIdDuplicates [] (filter.txidArray.zip filter.txsfltr)) = .ok flags := by
  obtain ⟨filter, hc, hr⟩ := (bind_eq_ok ..).mp h
  refine ⟨filter, hc, ?_⟩
  cases he : filter.errPos with
  | some p =>
    rw [he] at hr
    cases hr
  | none =>
    rw [he] at hr
    exact ⟨rfl, hr⟩

section Returned

variable {n : Nat} {messages : List Message} {filter : Collected} {flags : List TxValidationCode}

theorem entered_perm_range (hlen : messages.length = n) (hc : collectMessages n messages = .ok filter)
    (he : filter.errPos = none)
    (hvl : allValidated (markTXIdDuplicates [] (filter.txidArray.zip filter.txsfltr)) = .ok flags) :
    (messages.map fun m => m.tIdx.toNat).Perm (List.range n) := by
  obtain ⟨-, hfl⟩ := foldlM_collectMessage_eq_ok hc
  obtain ⟨-, -, hf, -⟩ := foldlM_collect hfl he
  refine perm_range_of_covers (by rw [length_map, hlen]) fun i hi => ?_
  by_contra hms
  obtain ⟨hfla, ht⟩ := hf i (by simpa using hms)
  refine ne_notValidated_of_allValidated hvl (i := i) ?_ ?_
  · rw [ht, Collected.new, getElem?_replicate, if_pos hi]
  · rw [hfla, Collected.new, getElem?_replicate, if_pos hi]

/-- An index that was cut to 32 bits hits the position of another result. -/
theorem tIdx_eq_about (ha : (messages.map Message.about).Perm (List.range n))
    (hi : ∀ m ∈ messages, m.tIdx = m.about ∨ m.tIdx = int32 m.about) (hin : ∀ m ∈ messages, 0 ≤ m.tIdx ∧ m.tIdx < n)
    (he : (messages.map fun m => m.tIdx.toNat).Nodup) (hm : m ∈ messages) : m.tIdx = m.about := by
  rcases hi m hm with h | h
  · exact h
  obtain ⟨hpos, hlt⟩ := hin m hm
  have hsm : m.tIdx < 2147483648 := h ▸ int32_lt m.about
  have hmm : m.tIdx.toNat ∈ messages.map Message.about := ha.mem_iff.mpr (mem_range.mpr (by omega))
  obtain ⟨m', hm', ha'⟩ := mem_map.mp hmm
  have hi' : m'.tIdx = m.tIdx.toNat := by
    rcases hi m' hm' with h' | h'
    · rw [h', ha']
    · rw [h', ha', int32_of_lt (by omega)]
  have heq : m' = m := inj_on_of_nodup_map he hm' hm (by simp only [hi', Int.toNat_natCast])
  rw [← heq, hi', ← ha']

end Returned

theorem flagOf_eq_notValidated (h : flagOf r = .notValidated) : carriedId r = [] := by
  cases r with
  | ok txid => cases h
  | panic => rfl
  | err e => rfl

section Runs

variable {a : PeerAdapter} {data : List Bytes} {st : ValidateState}

theorem PeerAdapter.length_handlings : (a.handlings data).length = data.length := by
  rw [← length_map, PeerAdapter.handlings_keys, length_range]

theorem ValidateRun.consumed (h : ValidateRun a data st) (hlen : st.consumed.length = data.length) :
    st.produced = st.consumed ∧ (st.consumed.map Message.about).Perm (List.range data.length) := by
  obtain ⟨hpr, hu⟩ := h.accounted.consumed (hlen.trans a.length_handlings.symm)
  have ho := h.accounted.once
  rw [hpr, hu, append_nil, PeerAdapter.handlings_keys] at ho
  exact ⟨hpr, ho⟩

theorem ValidateRun.verdict_unique (h : ValidateRun a data st) {v : TxResult} (hv : (i, v) ∈ st.verdicts) :
    (∀ v', (i, v') ∈ st.verdicts → v' = v) ∧ ∀ r, (i, .result r) ∈ a.handlings data → v = r := by
  have ha := h.accounted
  constructor
  · intro v' hv'
    have hnd := (nodup_append.mp ha.verdicts).1
    exact congrArg Prod.snd (inj_on_of_nodup_map hnd hv' hv rfl)
  · intro r hr
    have hnd : ((a.handlings data).map Prod.fst).Nodup := by
      rw [PeerAdapter.handlings_keys]
      exact nodup_range
    rcases ha.handled _ hv with hl | hl
    · have heq := congrArg Prod.snd (inj_on_of_nodup_map hnd hl hr rfl)
      simpa using heq
    · have heq := congrArg Prod.snd (inj_on_of_nodup_map hnd hl hr rfl)
      cases heq

section

variable (h : ValidateRun a data st) (hlen : st.consumed.length = data.length)
include h hlen

theorem ValidateRun.returns_nil {flags : List TxValidationCode}
    (hok : validateMessages data.length st.consumed = .ok flags) :
    (st.consumed.map Message.tIdx).Perm ((List.range data.length).map Int.ofNat) ∧
      ∃ filter, collectMessages data.length st.consumed = .ok filter ∧ ∀ i < data.length, ∃ v,
        (∀ v', (i, v') ∈ st.verdicts ↔ v' = v) ∧ (∀ r, (i, .result r) ∈ a.handlings data → v = r) ∧
          filter.txsfltr[i]? = some (flagOf v) ∧ flagOf v ≠ .notValidated := by
  have hac := h.accounted
  obtain ⟨hpr, ha⟩ := h.consumed hlen
  obtain ⟨filter, hc, her, hvl⟩ := validateMessages_eq_ok hok
  obtain ⟨hb, hf⟩ := foldlM_collectMessage_eq_ok hc
  have he := entered_perm_range hlen hc her hvl
  have hnd : (st.consumed.map fun m => m.tIdx.toNat).Nodup := he.nodup_iff.mpr nodup_range
  obtain ⟨-, hg, -, hw⟩ := foldlM_collect hf her
  have hh : ∀ m ∈ st.consumed, m.res ≠ .err .halt := by
    intro m hm
    exact hg (m.tIdx.toNat, m.res) (mem_map.mpr ⟨m, hm, rfl⟩)
  have hin : ∀ m ∈ st.consumed, 0 ≤ m.tIdx ∧ m.tIdx < data.length := by
    intro m hm
    exact (hb m hm).resolve_left (hh m hm)
  have hid : ∀ m ∈ st.consumed, m.tIdx = m.about := by
    intro m hm
    refine tIdx_eq_about ha ?_ hin hnd hm
    intro m' hm'
    exact (hac.index m' (hpr ▸ hm')).imp_right And.left
  refine ⟨?_, filter, hc, ?_⟩
  · have hmp : st.consumed.map Message.tIdx = (st.consumed.map Message.about).map Int.ofNat := by
      rw [map_map]
      exact map_congr_left hid
    rw [hmp]
    exact ha.map _
  · intro i hi
    obtain ⟨m, hm, rfl⟩ := mem_map.mp (ha.mem_iff.mpr (mem_range.mpr hi))
    have hv := (hac.origin m (hpr ▸ hm)).resolve_right (hh m hm)
    obtain ⟨hu, hlc⟩ := h.verdict_unique hv
    have hmm : (m.about, m.res) ∈ st.consumed.map fun m => (m.tIdx.toNat, m.res) := by
      refine mem_map.mpr ⟨m, hm, ?_⟩
      rw [hid m hm, Int.toNat_natCast]
    obtain ⟨hfl, ht⟩ := hw (by simpa [Function.comp_def] using hnd) m.about m.res hmm (by simpa [Collected.new] using hi)
      (by rw [Collected.new, getElem?_replicate, if_pos hi])
    refine ⟨m.res, fun v' => ⟨hu v', fun heq => heq ▸ hv⟩, hlc, hfl, ?_⟩
    intro hn
    rw [flagOf_eq_notValidated hn] at ht
    rw [hn] at hfl
    exact ne_notValidated_of_allValidated hvl ht hfl

/-- A message misses the block only in a block whose positions do not fit 32 bits. -/
theorem ValidateRun.inBlock_or : (∀ m ∈ st.consumed, InBlock data.length m) ∨ 2147483648 < data.length := by
  obtain ⟨hpr, ha⟩ := h.consumed hlen
  refine or_iff_not_imp_right.mpr fun hf m hm => .inr ?_
  have hlt : m.about < data.length := mem_range.mp (ha.mem_iff.mp (mem_map.mpr ⟨m, hm, rfl⟩))
  have hi : m.tIdx = m.about := by
    rcases h.accounted.index m (hpr ▸ hm) with hm' | ⟨hm', -⟩
    · exact hm'
    · rw [hm', int32_of_lt (by omega)]
  omega

theorem ValidateRun.gave_up (hf : st.failed ≠ []) (hin : ∀ m ∈ st.consumed, InBlock data.length m) :
    ∃ errPos, validateMessages data.length st.consumed = .err (.txFailed errPos) := by
  have ha := h.accounted
  obtain ⟨hpr, -⟩ := h.consumed hlen
  have hr : ∀ m ∈ st.consumed, m.res ≠ .panic := fun m hm => ha.no_panic m (hpr ▸ hm)
  obtain ⟨m, hm, hh⟩ := ha.failed hf
  rw [hpr] at hm
  obtain ⟨filter, hc⟩ := exists_collectMessages hin hr
  cases he : filter.errPos with
  | some errPos => exact ⟨errPos, by simp only [validateMessages, hc, ok_bind, he]⟩
  | none =>
    have hg := (foldlM_collect (foldlM_collectMessage_eq_ok hc).2 he).2.1
    exact absurd hh (hg (m.tIdx.toNat, m.res) (mem_map.mpr ⟨m, hm, rfl⟩))

end

theorem ValidateRun.unqueued (h : ValidateRun a data st) : st.queued = none → st.jobs = [] ∧ st.failed = [] := by
  refine Reachable.invariant (fun st => st.queued = none → st.jobs = [] ∧ st.failed = []) ?_ ?_ h
  · rintro _ rfl _
    exact ⟨rfl, rfl⟩
  · intro st st' ih hst hq
    cases hst with
    | check | gather | receive => exact ih hq
    | wait | start => cases hq
    | retry hj | giveUp hj | reply hj | send hj =>
      rw [(ih hq).1] at hj
      simp at hj

theorem ValidateRun.comes_to_end (h : ValidateRun a data st) (hp : ∀ i, (i, .result .panic) ∉ st.pending)
    {P : ValidateState → Prop}
    (hP : ∀ t, ValidateRun a data t → (st.failed ≠ [] → t.failed ≠ []) → t.consumed.length = data.length → P t) :
    Inevitable (ValidateStep data.length a.batchSize) P st := by
  refine Inevitable.of_measure (fun t => ValidateRun a data t ∧ (∀ p ∈ t.pending, p ∈ st.pending) ∧
    (st.failed ≠ [] → t.failed ≠ [])) ValidateState.weight ?_ ⟨h, fun _ h => h, id⟩
  rintro t ⟨ht, hpt, hf⟩
  have hl := ht.accounted.once.length_eq
  simp only [ValidateState.produced, length_append, length_map, a.length_handlings] at hl
  by_cases hc : t.consumed.length = data.length
  · exact .inl (hP t ht hf hc)
  · refine .inr ⟨?_, fun u hst => ?_⟩
    · rw [← a.length_handlings]
      exact ht.accounted.exists_step (by rw [a.length_handlings]; omega) fun i hi => hp i (hpt _ hi)
    · obtain ⟨new, hse, hlg⟩ := hst.settles ht.accounted.waited
      exact ⟨⟨ht.step hst, fun p hpu => hpt p (hse.pending p hpu), fun hne => hlg.failed_ne_nil (hf hne)⟩,
        hst.weight_lt ht.accounted⟩

end Runs

/-- A run that returns nil has read one result for each transaction, and the flag of a transaction before the
duplicate pass is that of its verdict. A run in which no worker panics comes to its end. A run with a batch given
up returns an error; only a block of more than `2 ^ 31` transactions can panic first. -/
theorem remote_results_accounted (a : PeerAdapter) (data : List Bytes) (st : ValidateState) (h : ValidateRun a data st) :
    (∀ flags, st.consumed.length = data.length → validateMessages data.length st.consumed = .ok flags →
      (st.consumed.map Message.tIdx).Perm ((List.range data.length).map Int.ofNat) ∧
        ∃ filter, collectMessages data.length st.consumed = .ok filter ∧ ∀ i < data.length, ∃ v,
          (∀ v', (i, v') ∈ st.verdicts ↔ v' = v) ∧ (∀ r, (i, .result r) ∈ a.handlings data → v = r) ∧
            filter.txsfltr[i]? = some (flagOf v) ∧ flagOf v ≠ .notValidated) ∧
      ((∀ i, (i, .result .panic) ∉ st.pending) →
        Inevitable (ValidateStep data.length a.batchSize) (fun t => t.consumed.length = data.length) st) ∧
      (st.failed ≠ [] → Inevitable (ValidateStep data.length a.batchSize) (fun t => t.consumed.length = data.length ∧
        ((∃ errPos, validateMessages data.length t.consumed = .err (.txFailed errPos)) ∨
          validateMessages data.length t.consumed = .panic ∧ 2147483648 < data.length)) st) := by
  refine ⟨fun flags hlen => h.returns_nil hlen, fun hp => h.comes_to_end hp fun _ _ _ hlen => hlen, fun hf => ?_⟩
  have hpd : st.pending = [] := by
    refine h.accounted.waited (Option.ne_none_iff_isSome.mp fun hq => ?_)
    exact hf (h.unqueued hq).2
  refine h.comes_to_end (by simp [hpd]) fun t ht hft hlen => ⟨hlen, ?_⟩
  by_cases hin : ∀ m ∈ t.consumed, InBlock data.length m
  · exact .inl (ht.gave_up hlen (hft hf) hin)
  · refine .inr ⟨?_, (ht.inBlock_or hlen).resolve_left hin⟩
    -- No message is a panic and the loop returns no error, so what is left is the index.
    cases hc : collectMessages data.length t.consumed with
    | ok filter => exact absurd (foldlM_collectMessage_eq_ok hc).1 hin
    | err e => exact absurd hc (collectMessages_ne_err e)
    | panic => rw [validateMessages, hc, panic_bind]

def answeredTransfers : ValidateState where
  pending := []
  endorsersTxns := [0, 1]
  queued := some []
  jobs := [.sending []]
  consumed := [⟨int32 1, .ok [], 1⟩, ⟨int32 0, .ok [], 0⟩]
  verdicts := [(0, .ok []), (1, .ok [])]

def failedTransfers : ValidateState where
  pending := []
  endorsersTxns := [0, 1]
  queued := some []
  jobs := [.sending [⟨0, .err .halt, 0⟩, ⟨1, .err .halt, 1⟩]]
  failed := [[0, 1]]

theorem run_retried (h : failures ≤ maxRetries) : ValidateRun leanAdapter [[0x0a], [0x0a]]
    { pending := [], endorsersTxns := [0, 1], queued := some [], jobs := [.trying [0, 1] failures] } := by
  induction failures with
  | zero =>
    have hb : batches leanAdapter.batchSize [0, 1] = [[0, 1]] := by simp [batches, leanAdapter]
    have h₀ : ValidateRun leanAdapter [[0x0a], [0x0a]] { pending := [(0, .toService), (1, .toService)] } := .init rfl
    have h₁ := h₀.step (@ValidateStep.gather _ _ _ [] _ _ rfl)
    have h₂ := h₁.step (@ValidateStep.gather _ _ _ [] _ _ rfl)
    have h₃ := h₂.step (.wait rfl rfl)
    rw [show ([] ++ [0] ++ [1] : List Nat) = [0, 1] from rfl, hb] at h₃
    exact h₃.step (.start rfl)
  | succ failures ih => exact (ih (by omega)).step (@ValidateStep.retry _ _ _ [] _ _ _ rfl h)

theorem run_answered : ValidateRun leanAdapter [[0x0a], [0x0a]] answeredTransfers := by
  have h₀ := @run_retried 1 (by decide)
  have h₁ := h₀.step (@ValidateStep.reply _ _ _ [] _ _ _ rfl (fun _ => some .valid) _ (.swap _ _ _) rfl)
  have h₂ := h₁.step (@ValidateStep.send _ _ _ [] _ _ _ rfl)
  have h₃ := h₂.step (@ValidateStep.send _ _ _ [] _ _ _ rfl)
  have h₄ := h₃.step (.receive rfl (by decide) rfl)
  exact h₄.step (.receive rfl (by decide) rfl)

theorem validateMessages_answered :
    validateMessages 2 answeredTransfers.consumed = .ok [.valid, .valid] := by
  rw [answeredTransfers, int32_of_lt (by decide), int32_of_lt (by decide)]
  decide

theorem remote_results_accounted_transfers :
    (validateMessages 2 answeredTransfers.consumed = .ok [.valid, .valid] ∧
      (answeredTransfers.consumed.map Message.tIdx).Perm [0, 1]) ∧
      Inevitable (ValidateStep 2 leanAdapter.batchSize) (fun t => t.consumed.length = 2 ∧
        ((∃ errPos, validateMessages 2 t.consumed = .err (.txFailed errPos)) ∨
          validateMessages 2 t.consumed = .panic ∧ 2147483648 < 2)) failedTransfers := by
  have hok := remote_results_accounted leanAdapter [[0x0a], [0x0a]] answeredTransfers run_answered
  have hst := (run_retried le_rfl).step (@ValidateStep.giveUp _ _ _ [] _ _ rfl)
  have hf := remote_results_accounted leanAdapter [[0x0a], [0x0a]] failedTransfers hst
  exact ⟨⟨validateMessages_answered, (hok.1 _ rfl validateMessages_answered).1⟩, hf.2.2 (by decide)⟩

end Drunix.Peer
