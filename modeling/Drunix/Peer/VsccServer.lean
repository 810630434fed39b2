import Drunix.Lib.AMap
import Drunix.Lib.Transition
import Drunix.Proto.Messages

namespace Drunix.Peer

open Lib Proto

structure ChannelValidator where
  lastLifecycleBlockNumber : UInt64
  lastValidatedBlockNumber : UInt64
  /-- For the statements: the number that was stored while `txValidator` was set up from the database. -/
  initializedAt : Option UInt64
  deriving DecidableEq

structure VsccRequest where
  channelId : Bytes
  blockNum : UInt64
  deriving DecidableEq

/-- Where a call of `getValidator` is. A call is fresh if its block number is not that of the previous one; what it
returns comes with the number that is then stored. -/
inductive CallStage where
  | waiting
  | locked
  | looking (channelValidator : ChannelValidator)
  | initializing (blockNumber : UInt64)
  | reading (initializedAt : Option UInt64)
  | storing (channelValidator : ChannelValidator)
  | unlocking (fresh : Bool)
  | returning (fresh : Bool)
  | returned (fresh : Bool) (channelValidator : ChannelValidator) (stored : Option UInt64)
  | failed
  | panicked
  deriving DecidableEq

namespace CallStage

def Ended : CallStage → Prop
  | returned .. | failed | panicked => True
  | _ => False

def rank : CallStage → Nat
  | waiting => 8
  | locked => 7
  | looking _ => 6
  | initializing _ => 5
  | reading _ => 4
  | storing _ => 3
  | unlocking _ => 2
  | returning _ => 1
  | _ => 0

end CallStage

structure VsccServer where
  channelValidators : AMap Bytes ChannelValidator := ∅
  locked : Bool := false
  /-- `LAST_LIFECYCLE_BLOCK_NUMBER` of each channel. -/
  stored : Bytes → Option UInt64 := fun _ => none

/-- A lookup of the number; the versioned value of an absent key is nil and is dereferenced. -/
def lookupNumber (fails : Bool) (number : Option UInt64) (next : UInt64 → CallStage) : CallStage :=
  if fails then .failed else number.elim .panicked next

theorem lookupNumber_some (n : UInt64) (next : UInt64 → CallStage) : lookupNumber false (some n) next = next n := rfl

/-- One step of a call, which fails if it is a lookup or an initialization that does. `InitializeTxValidator` sets up the
validator first and then, for the number 0, looks for the number; the early returns do not unlock; and the map is read
again after the lock is released. -/
def VsccServer.act (s : VsccServer) (req : VsccRequest) (fails : Bool) : CallStage → VsccServer × CallStage
  | .waiting => if s.locked then (s, .waiting) else ({ s with locked := true }, .locked)
  | .locked =>
    (s, (s.channelValidators.lookup req.channelId).elim (.initializing 0) fun cv =>
      if cv.lastValidatedBlockNumber = req.blockNum then .unlocking false else .looking cv)
  | .looking cv =>
    (s, lookupNumber fails (s.stored req.channelId) fun lastLifecycleBlockNumberInDB =>
      if cv.lastLifecycleBlockNumber = lastLifecycleBlockNumberInDB then .storing cv
      else .initializing lastLifecycleBlockNumberInDB)
  | .initializing blockNumber =>
    (s, if fails then .failed
      else if blockNumber = 0 then .reading (s.stored req.channelId)
      else .storing ⟨blockNumber, 0, s.stored req.channelId⟩)
  | .reading initializedAt =>
    (s, lookupNumber fails (s.stored req.channelId) fun blockNumber => .storing ⟨blockNumber, 0, initializedAt⟩)
  | .storing cv =>
    ({ s with
      channelValidators := s.channelValidators.insert req.channelId { cv with lastValidatedBlockNumber := req.blockNum } },
      .unlocking true)
  | .unlocking fresh => ({ s with locked := false }, .returning fresh)
  | .returning fresh =>
    (s, (s.channelValidators.lookup req.channelId).elim .panicked fun cv =>
      .returned fresh cv (s.stored req.channelId))
  | stage => (s, stage)

/-- The server with its calls. -/
structure VsccCalls where
  server : VsccServer := {}
  calls : Nat → Option (VsccRequest × CallStage) := fun _ => none

inductive Move where
  | lifecycleCommit (channelId : Bytes) (number : UInt64)
  | request (i : Nat) (req : VsccRequest)
  | act (i : Nat) (fails : Bool)
  /-- Call `i` reads the map while call `j` writes to it. -/
  | race (i j : Nat)

namespace VsccCalls

variable (s : VsccCalls)

def setCall (i : Nat) (req : VsccRequest) (r : VsccServer × CallStage) : VsccCalls where
  server := r.1
  calls := Function.update s.calls i (some (req, r.2))

theorem setCall_self (i : Nat) (req : VsccRequest) (r : VsccServer × CallStage) :
    (s.setCall i req r).calls i = some (req, r.2) :=
  Function.update_self ..

theorem setCall_of_ne {i j : Nat} (h : j ≠ i) (req : VsccRequest) (r : VsccServer × CallStage) :
    (s.setCall i req r).calls j = s.calls j :=
  Function.update_of_ne h ..

theorem setCall_eq_self {s : VsccCalls} {i : Nat} {c : VsccRequest × CallStage} (h : s.calls i = some c) :
    s.setCall i c.1 (s.server, c.2) = s := by
  rw [setCall, ← h, Function.update_eq_self]

def move : Move → VsccCalls
  | .lifecycleCommit channelId number =>
    { s with server := { s.server with stored := Function.update s.server.stored channelId (some number) } }
  | .request i req => (s.calls i).elim (s.setCall i req (s.server, .waiting)) fun _ => s
  | .act i fails => (s.calls i).elim s fun c => s.setCall i c.1 (s.server.act c.1 fails c.2)
  | .race i j =>
    match s.calls i, s.calls j with
    | some (req, .returning _), some (_, .storing _) => s.setCall i req (s.server, .panicked)
    | _, _ => s

def Idle : Prop :=
  ∀ i c, s.calls i = some c → c.2.Ended

/-- Calls do not overlap, lifecycle commits come between them, and all that a call looks up is found. -/
def Alone : Move → Prop
  | .lifecycleCommit _ _ | .request _ _ => s.Idle
  | .act i fails => fails = false ∧ ∀ c, s.calls i = some c → (s.server.stored c.1.channelId).isSome
  | .race _ _ => True

def AloneStep (s t : VsccCalls) : Prop :=
  ∃ m, s.Alone m ∧ t = s.move m

end VsccCalls

/-- What holds of a call at its stage when it is the only one. -/
def CallStage.Inv (s : VsccServer) (req : VsccRequest) : CallStage → Prop
  | waiting => s.locked = false
  | locked => s.locked = true
  | looking cv => s.locked = true ∧ cv.initializedAt = some cv.lastLifecycleBlockNumber
  | initializing blockNumber => s.locked = true ∧ (blockNumber = 0 ∨ s.stored req.channelId = some blockNumber)
  | reading initializedAt => s.locked = true ∧ initializedAt = s.stored req.channelId
  | storing cv => s.locked = true ∧ cv.initializedAt = some cv.lastLifecycleBlockNumber ∧
      s.stored req.channelId = some cv.lastLifecycleBlockNumber
  | unlocking fresh => s.locked = true ∧ ∃ cv, s.channelValidators.lookup req.channelId = some cv ∧
      (fresh = true → cv.initializedAt = s.stored req.channelId)
  | returning fresh => s.locked = false ∧ ∃ cv, s.channelValidators.lookup req.channelId = some cv ∧
      (fresh = true → cv.initializedAt = s.stored req.channelId)
  | returned fresh cv stored => fresh = true → cv.initializedAt = stored
  | failed | panicked => False

def VsccServer.Consistent (s : VsccServer) : Prop :=
  ∀ ch cv, s.channelValidators.lookup ch = some cv → cv.initializedAt = some cv.lastLifecycleBlockNumber

section

variable {s : VsccServer} {req : VsccRequest} {stage : CallStage}

theorem CallStage.Inv.of_ended {s' : VsccServer} (h : stage.Inv s req) (he : stage.Ended) : stage.Inv s' req := by
  cases stage with
  | returned | failed | panicked => exact h
  | _ => cases he

theorem VsccServer.act_of_ended {fails : Bool} (he : stage.Ended) : s.act req fails stage = (s, stage) := by
  cases stage with
  | returned | failed | panicked => rfl
  | _ => cases he

theorem VsccServer.act_stored {fails : Bool} : (s.act req fails stage).1.stored = s.stored := by
  cases stage with
  | waiting =>
    rw [act]
    split <;> rfl
  | _ => rfl

/-- What a step of a call does that finds what it looks up. -/
structure VsccServer.Advances (s : VsccServer) (req : VsccRequest) (stage : CallStage) (r : VsccServer × CallStage) : Prop where
  consistent : r.1.Consistent
  inv : r.2.Inv r.1 req
  free : r.2.Ended → r.1.locked = false
  stored : r.1.stored = s.stored
  rank : r.2.rank < stage.rank

theorem VsccServer.Consistent.act (hs : s.Consistent) (h : stage.Inv s req) (he : ¬ stage.Ended)
    (hst : (s.stored req.channelId).isSome) : s.Advances req stage (s.act req false stage) := by
  obtain ⟨n, hn⟩ := Option.isSome_iff_exists.mp hst
  cases stage with
  | waiting =>
    rw [act, if_neg (by rw [show s.locked = false from h]; exact Bool.false_ne_true)]
    exact ⟨hs, rfl, False.elim, rfl, by simp [CallStage.rank]⟩
  | locked =>
    rw [act]
    cases hl : s.channelValidators.lookup req.channelId with
    | none => exact ⟨hs, ⟨h, .inl rfl⟩, False.elim, rfl, by simp [CallStage.rank]⟩
    | some cv =>
      rw [Option.elim_some]
      split
      · exact ⟨hs, ⟨h, cv, hl, nofun⟩, False.elim, rfl, by simp [CallStage.rank]⟩
      · exact ⟨hs, ⟨h, hs _ cv hl⟩, False.elim, rfl, by simp [CallStage.rank]⟩
  | looking cv =>
    rw [act, hn, lookupNumber_some]
    split
    next heq => exact ⟨hs, ⟨h.1, h.2, heq ▸ hn⟩, False.elim, rfl, by simp [CallStage.rank]⟩
    next => exact ⟨hs, ⟨h.1, .inr hn⟩, False.elim, rfl, by simp [CallStage.rank]⟩
  | initializing blockNumber =>
    rw [act, hn, if_neg Bool.false_ne_true]
    split
    next => exact ⟨hs, ⟨h.1, hn.symm⟩, False.elim, rfl, by simp [CallStage.rank]⟩
    next hne =>
      have hb : n = blockNumber := Option.some.inj (hn.symm.trans (h.2.resolve_left hne))
      exact ⟨hs, ⟨h.1, congrArg some hb, hb ▸ hn⟩, False.elim, rfl, by simp [CallStage.rank]⟩
  | reading initializedAt =>
    rw [act, hn, lookupNumber_some]
    exact ⟨hs, ⟨h.1, h.2.trans hn, hn⟩, False.elim, rfl, by simp [CallStage.rank]⟩
  | storing cv =>
    refine ⟨fun ch cv' hcv' => ?_, ⟨h.1, _, AList.lookup_insert _, fun _ => h.2.1.trans h.2.2.symm⟩, False.elim, rfl,
      by simp [act, CallStage.rank]⟩
    by_cases hch : ch = req.channelId
    · rw [act, hch, AList.lookup_insert] at hcv'
      cases hcv'
      exact h.2.1
    · rw [act, AList.lookup_insert_ne hch] at hcv'
      exact hs ch cv' hcv'
  | unlocking fresh => exact ⟨hs, ⟨rfl, h.2⟩, False.elim, rfl, by simp [act, CallStage.rank]⟩
  | returning fresh =>
    obtain ⟨hlk, cv, hl, hf⟩ := h
    rw [act, hl]
    exact ⟨hs, hf, fun _ => hlk, rfl, by simp [CallStage.rank]⟩
  | returned | failed | panicked => exact absurd trivial he

end

namespace VsccCalls

structure Inv (s : VsccCalls) : Prop where
  consistent : s.server.Consistent
  free : s.Idle → s.server.locked = false
  one : ∀ i j c c', s.calls i = some c → s.calls j = some c' → ¬ c.2.Ended → ¬ c'.2.Ended → i = j
  stages : ∀ i c, s.calls i = some c → c.2.Inv s.server c.1

variable {s t : VsccCalls} {i : Nat} {c : VsccRequest × CallStage}

theorem Idle.init : Idle {} := fun _ _ hi => (Option.some_ne_none _ hi.symm).elim

theorem Inv.init : Inv {} where
  consistent _ _ hcv := (Option.some_ne_none _ (hcv.symm.trans (AList.lookup_empty _))).elim
  free _ := rfl
  one _ _ _ _ hi := (Option.some_ne_none _ hi.symm).elim
  stages _ _ hi := (Option.some_ne_none _ hi.symm).elim

/-- A call that is not ended, or a new one, takes a step beside calls that have ended. -/
theorem Inv.setCall (h : s.Inv) (ho : ∀ j c', s.calls j = some c' → j ≠ i → c'.2.Ended) {req : VsccRequest}
    {r : VsccServer × CallStage} (hc : r.1.Consistent) (hi : r.2.Inv r.1 req) (hf : r.2.Ended → r.1.locked = false) :
    (s.setCall i req r).Inv := by
  have hcl : ∀ j c', (s.setCall i req r).calls j = some c' → (j = i ∧ c' = (req, r.2)) ∨ j ≠ i ∧ s.calls j = some c' := by
    intro j c' hj
    by_cases hji : j = i
    · subst hji
      exact .inl ⟨rfl, (Option.some.inj ((s.setCall_self j req r).symm.trans hj)).symm⟩
    · exact .inr ⟨hji, (s.setCall_of_ne hji req r).symm.trans hj⟩
  refine ⟨hc, fun hid => hf (hid i (req, r.2) (s.setCall_self i req r)), ?_, ?_⟩
  · intro j k c' c'' hj hk he he'
    rcases hcl j c' hj with ⟨rfl, -⟩ | ⟨hji, hj⟩
    · rcases hcl k c'' hk with ⟨rfl, -⟩ | ⟨hki, hk⟩
      · rfl
      · exact absurd (ho k c'' hk hki) he'
    · exact absurd (ho j c' hj hji) he
  · intro j c' hj
    rcases hcl j c' hj with ⟨-, rfl⟩ | ⟨hji, hj⟩
    · exact hi
    · exact (h.stages j c' hj).of_ended (ho j c' hj hji)

theorem Inv.act (h : s.Inv) (hi : s.calls i = some c) (he : ¬ c.2.Ended) (hst : (s.server.stored c.1.channelId).isSome) :
    (s.setCall i c.1 (s.server.act c.1 false c.2)).Inv ∧
      s.server.Advances c.1 c.2 (s.server.act c.1 false c.2) := by
  have ha := h.consistent.act (h.stages i c hi) he hst
  refine ⟨h.setCall (fun j c' hj hji => ?_) ha.consistent ha.inv ha.free, ha⟩
  by_contra he'
  exact hji (h.one j i c' c hj hi he' he)

theorem Inv.step (h : s.Inv) (hst : AloneStep s t) : t.Inv := by
  obtain ⟨m, ha, rfl⟩ := hst
  cases m with
  | lifecycleCommit channelId number =>
    exact ⟨h.consistent, h.free, h.one, fun i c hi => (h.stages i c hi).of_ended (ha i c hi)⟩
  | request i req =>
    rw [move]
    cases s.calls i with
    | none => exact h.setCall (fun j c' hj _ => ha j c' hj) h.consistent (h.free ha) nofun
    | some c => exact h
  | act i fails =>
    obtain ⟨rfl, hst⟩ := ha
    rw [move]
    cases hi : s.calls i with
    | none => exact h
    | some c =>
      by_cases he : c.2.Ended
      · rw [Option.elim_some, VsccServer.act_of_ended he, setCall_eq_self hi]
        exact h
      · exact (h.act hi he (hst c hi)).1
  | race i j =>
    rw [move]
    split
    next req fresh req' cv hi hj =>
      cases h.one i j _ _ hi hj not_false not_false
      cases hi.symm.trans hj
    next => exact h

/-- A step of call `i`. -/
def ActStep (i : Nat) (s t : VsccCalls) : Prop :=
  t = s.move (.act i false)

/-- When calls do not overlap with each other and with lifecycle commits and find what they look up, a call never ends with
an error or a panic, the lock is free after it, a fresh call returns a validator that was set up at the number
then stored, and every call returns. -/
theorem getValidator_served (h : Reachable (· = {}) AloneStep s) (hi : s.calls i = some c) :
    c.2 ≠ .failed ∧ c.2 ≠ .panicked ∧ (s.Idle → s.server.locked = false) ∧
      (∀ cv stored, c.2 = .returned true cv stored → cv.initializedAt = stored) ∧
      ((s.server.stored c.1.channelId).isSome →
        Inevitable (ActStep i) (fun t => ∃ fresh cv stored, t.calls i = some (c.1, .returned fresh cv stored)) s) := by
  have hinv : s.Inv := h.invariant Inv (by rintro _ rfl; exact Inv.init) fun _ _ => Inv.step
  have hsi := hinv.stages i c hi
  refine ⟨fun hf => ?_, fun hp => ?_, hinv.free, fun cv stored hr => ?_, fun hst => ?_⟩
  · rw [hf] at hsi
    exact hsi
  · rw [hp] at hsi
    exact hsi
  · rw [hr] at hsi
    exact hsi rfl
  · refine Inevitable.of_measure
      (fun t => t.Inv ∧ t.server.stored = s.server.stored ∧ ∃ stage, t.calls i = some (c.1, stage))
      (fun t => ((t.calls i).map fun c => c.2.rank).getD 0) ?_ ⟨hinv, rfl, c.2, hi⟩
    rintro t ⟨ht, hts, stage, hti⟩
    by_cases he : stage.Ended
    · left
      have hsv := ht.stages i _ hti
      cases stage with
      | returned fresh cv stored => exact ⟨fresh, cv, stored, hti⟩
      | failed | panicked => cases hsv
      | _ => cases he
    · right
      refine ⟨⟨_, rfl⟩, ?_⟩
      rintro u rfl
      obtain ⟨hu, ha⟩ := ht.act hti he (hts ▸ hst)
      have hm : t.move (.act i false) = t.setCall i c.1 (t.server.act c.1 false stage) := by
        rw [move, hti]
        rfl
      have hui : (t.move (.act i false)).calls i = some (c.1, (t.server.act c.1 false stage).2) := by
        rw [hm]
        exact t.setCall_self ..
      refine ⟨⟨hm ▸ hu, ?_, _, hui⟩, ?_⟩
      · rw [hm]
        exact ha.stored.trans hts
      · rw [hui, hti]
        exact ha.rank

/-- Call `i` takes `n` steps alone. -/
def acts (i n : Nat) (s : VsccCalls) : VsccCalls :=
  (List.replicate n (.act i false)).foldl move s

theorem reachable_acts (h : Reachable (· = {}) AloneStep s)
    (hst : ∀ c, s.calls i = some c → (s.server.stored c.1.channelId).isSome) (n : Nat) :
    Reachable (· = {}) AloneStep (acts i n s) := by
  induction n generalizing s with
  | zero => exact h
  | succ n ih =>
    refine ih (h.step ⟨.act i false, ⟨rfl, hst⟩, rfl⟩) fun c hc => ?_
    rw [move] at hc ⊢
    cases hi : s.calls i with
    | none => rw [hi, Option.elim_none, hi] at hc; cases hc
    | some c' =>
      rw [hi, Option.elim_some, setCall_self] at hc
      cases hc
      rw [Option.elim_some, setCall, VsccServer.act_stored]
      exact hst c' hi

theorem calls_acts_of_ne {j : Nat} (hj : j ≠ i) (n : Nat) (s : VsccCalls) : (acts i n s).calls j = s.calls j := by
  induction n generalizing s with
  | zero => rfl
  | succ n ih =>
    refine (ih _).trans ?_
    rw [move]
    cases s.calls i with
    | none => rfl
    | some c => exact s.setCall_of_ne hj ..

def requestOf (i : Nat) (blockNum : UInt64) (s : VsccCalls) : VsccCalls :=
  s.move (.request i ⟨ascii "ch", blockNum⟩)

def committed (number : UInt64) (s : VsccCalls) : VsccCalls :=
  s.move (.lifecycleCommit (ascii "ch") number)

def firstCall : VsccCalls :=
  requestOf 0 5 (committed 3 {})

/-- A call for another block, after another lifecycle commit. -/
def secondCall : VsccCalls :=
  requestOf 1 6 (committed 4 (acts 0 7 firstCall))

theorem getValidator_served_secondCall :
    Inevitable (ActStep 1) (fun t => ∃ fresh cv stored, t.calls 1 = some (⟨ascii "ch", 6⟩, .returned fresh cv stored))
        secondCall ∧
      (acts 1 7 secondCall).calls 1 = some (⟨ascii "ch", 6⟩, .returned true ⟨4, 6, some 4⟩ (some 4)) := by
  have h₀ : Reachable (· = {}) AloneStep firstCall :=
    .step (.step (.init rfl) ⟨.lifecycleCommit (ascii "ch") 3, .init, rfl⟩)
      ⟨.request 0 ⟨ascii "ch", 5⟩, .init, rfl⟩
  have h₁ : Reachable (· = {}) AloneStep (acts 0 7 firstCall) :=
    reachable_acts h₀ (fun c hc => by cases hc; rfl) 7
  have hid : (acts 0 7 firstCall).Idle := by
    intro j c hc
    by_cases hj : j = 0
    · have he : (acts 0 7 firstCall).calls 0 = some (⟨ascii "ch", 5⟩, .returned true ⟨3, 5, some 3⟩ (some 3)) := by
        decide +kernel
      rw [hj, he] at hc
      cases hc
      trivial
    · rw [calls_acts_of_ne hj, firstCall, requestOf, move, show (committed 3 {}).calls 0 = none from rfl,
        Option.elim_none, setCall_of_ne _ hj] at hc
      cases hc
  have h₂ : Reachable (· = {}) AloneStep secondCall :=
    .step (.step h₁ ⟨.lifecycleCommit (ascii "ch") 4, hid, rfl⟩) ⟨.request 1 ⟨ascii "ch", 6⟩, hid, rfl⟩
  have hc : secondCall.calls 1 = some (⟨ascii "ch", 6⟩, .waiting) := by decide +kernel
  have hst : (secondCall.server.stored (ascii "ch")).isSome := by decide +kernel
  exact ⟨(getValidator_served h₂ hc).2.2.2.2 hst, by decide +kernel⟩

/-- A failed lookup and an absent number leave the lock held, and a validator can be older than its number. -/
theorem failed_lookup_keeps_lock :
    (((acts 0 3 (requestOf 0 5 {})).move (.act 0 true)).calls 0 = some (⟨ascii "ch", 5⟩, .failed) ∧
      ((acts 0 3 (requestOf 0 5 {})).move (.act 0 true)).server.locked = true) ∧
    ((acts 0 4 (requestOf 0 5 {})).calls 0 = some (⟨ascii "ch", 5⟩, .panicked) ∧
      (acts 0 4 (requestOf 0 5 {})).server.locked = true) ∧
    (acts 0 4 (committed 4 (acts 0 3 firstCall))).calls 0 =
      some (⟨ascii "ch", 5⟩, .returned true ⟨4, 5, some 3⟩ (some 4)) := by
  decide +kernel

end VsccCalls

end Drunix.Peer
