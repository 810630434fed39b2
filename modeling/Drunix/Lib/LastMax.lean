import Mathlib.Order.Lattice
import Mathlib.Data.List.Basic
import Mathlib.Data.List.Induction

namespace Drunix.Lib

open List

variable {α β W : Type} [LinearOrder W]

/-- What a loop keeps that replaces its choice by each element that is not below it. -/
def lastMax (w : α → W) (l : List α) : Option α :=
  l.foldl (fun best a => if best.all fun b => w b ≤ w a then some a else best) none

variable {w : α → W} {l l' : List α} {a : α}

theorem lastMax_concat (w : α → W) (l : List α) (a : α) :
    lastMax w (l ++ [a]) = if (lastMax w l).all fun b => w b ≤ w a then some a else lastMax w l :=
  foldl_concat ..

theorem exists_lastMax_eq_some (h : l ≠ []) : ∃ a, lastMax w l = some a := by
  induction l using List.reverseRecOn with
  | nil => exact absurd rfl h
  | append_singleton l c ih =>
    rw [lastMax_concat]
    cases lastMax w l with
    | none => exact ⟨c, rfl⟩
    | some b =>
      by_cases hc : w b ≤ w c
      · exact ⟨c, by simp [hc]⟩
      · exact ⟨b, by simp [hc]⟩

theorem isMax_of_lastMax_eq_some (h : lastMax w l = some a) : a ∈ l ∧ ∀ b ∈ l, w b ≤ w a := by
  induction l using List.reverseRecOn generalizing a with
  | nil => cases h
  | append_singleton l c ih =>
    rw [lastMax_concat] at h
    simp only [mem_append, mem_singleton, or_imp, forall_and, forall_eq]
    split_ifs at h with hc
    · cases h
      refine ⟨Or.inr rfl, ?_, le_refl _⟩
      intro b hb
      obtain ⟨d, hd⟩ := exists_lastMax_eq_some (w := w) (ne_nil_of_mem hb)
      rw [hd, Option.all_some, decide_eq_true_iff] at hc
      exact le_trans ((ih hd).2 b hb) hc
    · obtain ⟨ha, hmax⟩ := ih h
      refine ⟨Or.inl ha, hmax, ?_⟩
      rw [h, Option.all_some, decide_eq_true_iff] at hc
      exact le_of_lt (not_le.mp hc)

theorem lastMax_concat_of_max (h : ∀ b ∈ l, w b ≤ w a) : lastMax w (l ++ [a]) = some a := by
  rw [lastMax_concat, if_pos]
  cases hl : lastMax w l with
  | none => rfl
  | some b => exact decide_eq_true (h b (isMax_of_lastMax_eq_some hl).1)

theorem map_lastMax_congr {f : α → β} (hm : ∀ a, a ∈ l ↔ a ∈ l')
    (h : ∀ a ∈ l, ∀ b ∈ l, (∀ c ∈ l, w c ≤ w a) → (∀ c ∈ l, w c ≤ w b) → f a = f b) :
    (lastMax w l).map f = (lastMax w l').map f := by
  by_cases hl : l = []
  · have hl' : l' = [] := eq_nil_iff_forall_not_mem.mpr fun a ha => by simpa [hl] using (hm a).mpr ha
    rw [hl, hl']
  · obtain ⟨a, ha⟩ := exists_mem_of_ne_nil l hl
    obtain ⟨b, hb⟩ := exists_lastMax_eq_some (w := w) hl
    obtain ⟨b', hb'⟩ := exists_lastMax_eq_some (w := w) (ne_nil_of_mem ((hm a).mp ha))
    obtain ⟨hbl, hbm⟩ := isMax_of_lastMax_eq_some hb
    obtain ⟨hbl', hbm'⟩ := isMax_of_lastMax_eq_some hb'
    rw [hb, hb', Option.map_some, Option.map_some, h b hbl b' ((hm b').mpr hbl') hbm fun c hc => hbm' c ((hm c).mp hc)]

end Drunix.Lib
