import Mathlib.Logic.Basic

namespace Drunix.Lib

inductive Reachable {σ : Type} (init : σ → Prop) (step : σ → σ → Prop) : σ → Prop
  | init {s : σ} (h : init s) : Reachable init step s
  | step {s t : σ} (h : Reachable init step s) (hstep : step s t) : Reachable init step t

namespace Reachable

variable {σ : Type} {init : σ → Prop} {step : σ → σ → Prop}

/-- What holds at the start and is kept by every step holds in every reachable state. -/
theorem invariant (P : σ → Prop) (hi : ∀ s, init s → P s) (hst : ∀ s t, P s → step s t → P t) {s : σ}
    (h : Reachable init step s) : P s := by
  induction h with
  | init h => exact hi _ h
  | step _ hs ih => exact hst _ _ ih hs

end Reachable

/-- Every run from the state comes to a state with `P`, and none gets stuck before. -/
inductive Inevitable {σ : Type} (step : σ → σ → Prop) (P : σ → Prop) : σ → Prop
  | now {s : σ} (h : P s) : Inevitable step P s
  | later {s : σ} (hmove : ∃ t, step s t) (h : ∀ t, step s t → Inevitable step P t) : Inevitable step P s

namespace Inevitable

variable {σ : Type} {step : σ → σ → Prop} {P : σ → Prop}

theorem of_measure (inv : σ → Prop) (measure : σ → Nat)
    (hst : ∀ s, inv s → P s ∨ (∃ t, step s t) ∧ ∀ t, step s t → inv t ∧ measure t < measure s) {s : σ} (hs : inv s) :
    Inevitable step P s := by
  induction hn : measure s using Nat.strongRecOn generalizing s with
  | _ n ih =>
    subst hn
    rcases hst s hs with h | ⟨hm, h⟩
    · exact .now h
    · exact .later hm fun t ht => ih _ (h t ht).2 (h t ht).1 rfl

theorem exists_reachable {init : σ → Prop} {s : σ} (h : Inevitable step P s) (hs : Reachable init step s) :
    ∃ t, Reachable init step t ∧ P t := by
  induction h with
  | now h => exact ⟨_, hs, h⟩
  | later hm _ ih =>
    obtain ⟨t, ht⟩ := hm
    exact ih t ht (hs.step ht)

end Inevitable

end Drunix.Lib
