import Mathlib.Data.List.Nodup

namespace Drunix.Lib

open List

variable {α : Type} {a b c : α} {l₁ l₂ r₁ r₂ before after l : List α}

theorem getElem?_concat_eq_some {i : ℕ} (h : (l ++ [a])[i]? = some b) : l[i]? = some b ∨ i = l.length ∧ b = a := by
  grind

theorem append_cons_of_concat (h : l ++ [a] = before ++ b :: after) :
    after = [] ∧ l = before ∧ a = b ∨ ∃ rest, after = rest ++ [a] ∧ l = before ++ b :: rest := by
  rcases eq_nil_or_concat' after with rfl | ⟨rest, last, rfl⟩
  · simpa using h
  · rw [← cons_append, ← append_assoc] at h
    obtain ⟨rfl, heq⟩ := append_inj' h rfl
    cases heq
    exact .inr ⟨rest, rfl, rfl⟩

theorem mem_replaced (h : c ∈ before ++ b :: after) : c = b ∨ c ∈ before ++ a :: after := by
  simp only [mem_append, mem_cons] at h ⊢
  tauto

theorem mem_replaced_of_ne (h : c ∈ before ++ a :: after) (hne : c ≠ a) : c ∈ before ++ b :: after := by
  simp only [mem_append, mem_cons] at h ⊢
  tauto

theorem append_cons_inj (h₁ : a ∉ l₁) (h₂ : a ∉ l₂) (h : l₁ ++ a :: r₁ = l₂ ++ a :: r₂) : l₁ = l₂ ∧ r₁ = r₂ := by
  -- one list begins with the other, and what it has more begins with the element
  rcases append_eq_append_iff.mp h with ⟨_ | ⟨x, c⟩, rfl, hc⟩ | ⟨_ | ⟨x, c⟩, rfl, hc⟩
  · simpa using hc
  · cases hc
    simp at h₂
  · simpa [eq_comm] using hc
  · cases hc
    simp at h₁

theorem all_congr_of_mem {p q : α → Bool} (h : ∀ a ∈ l, p a = q a) : l.all p = l.all q := by
  induction l with
  | nil => rfl
  | cons a l ih => rw [all_cons, all_cons, h a (by simp), ih fun b hb => h b (by simp [hb])]

theorem map_eq_self_iff {f : α → α} : l.map f = l ↔ ∀ a ∈ l, f a = a := by
  have h := map_inj_left (l := l) (f := f) (g := id)
  rwa [map_id] at h

variable {β : Type}

theorem filterMap_of_map_eq {f : α → Option β} {l' : List β} (h : l.map f = l'.map some) : l.filterMap f = l' := by
  have hf : l.filterMap f = (l.map f).filterMap id := by
    rw [filterMap_map]
    rfl
  rw [hf, h]
  simp

theorem flatMap_ite_nil {p : α → Prop} [DecidablePred p] (f : α → List β) (l : List α) :
    (l.flatMap fun a => if p a then [] else f a) = (l.filter fun a => ¬ p a).flatMap f := by
  induction l with
  | nil => rfl
  | cons a l ih =>
    by_cases h : p a
    · simpa [h] using ih
    · simpa [h] using ih

theorem filterMap_flatMap_replicate (f : α → Option β) (n : Nat) (l : List α) :
    (l.flatMap (List.replicate n)).filterMap f = (l.filterMap f).flatMap (List.replicate n) := by
  induction l with
  | nil => rfl
  | cons a l ih =>
    rw [flatMap_cons, filterMap_append, ih]
    cases h : f a with
    | none => rw [filterMap_replicate_of_none h, filterMap_cons_none h, nil_append]
    | some b => rw [filterMap_replicate_of_some h, filterMap_cons_some h, flatMap_cons]

theorem length_flatMap_replicate (f : α → List β) (n : Nat) (l : List α) :
    ((l.flatMap (List.replicate n)).flatMap f).length = n * (l.flatMap f).length := by
  induction l with
  | nil => simp
  | cons a l ih =>
    rw [flatMap_cons, flatMap_append, length_append, ih, flatMap_cons, length_append, Nat.mul_add]
    simp [length_flatMap]

theorem take_succ_of_getElem? {i : Nat} (h : l[i]? = some a) : l.take (i + 1) = l.take i ++ [a] := by
  rw [take_add_one, h, Option.toList_some]

theorem map_snd_filter_map_pair [DecidableEq α] [BEq α] [LawfulBEq α] (l : List α) (a : α) (b : β) :
    ((l.map (·, b)).filter fun e => e.1 = a).map Prod.snd = List.replicate (l.count a) b := by
  induction l with
  | nil => rfl
  | cons c l ih =>
    by_cases h : c = a
    · subst h
      simpa [replicate_succ] using ih
    · simpa [h] using ih

theorem flatMap_replicate_eq_filter_iff {ι : Type} [DecidableEq ι] {l : List (α × ι)} (c : α → Nat) (p : α → Bool)
    (hl : (l.map Prod.snd).Nodup) :
    (l.flatMap fun e => List.replicate (c e.1) e.2) = (l.filter fun e => p e.1).map Prod.snd ↔
      ∀ e ∈ l, c e.1 = if p e.1 then 1 else 0 := by
  induction l with
  | nil => simp
  | cons e l ih =>
    rw [map_cons, nodup_cons] at hl
    have hlf : e.2 ∉ l.flatMap fun e => List.replicate (c e.1) e.2 := by
      intro hm
      obtain ⟨e', he', hr⟩ := mem_flatMap.mp hm
      exact hl.1 (mem_map.mpr ⟨e', he', (eq_of_mem_replicate hr).symm⟩)
    have hrg : e.2 ∉ (l.filter fun e => p e.1).map Prod.snd := by
      intro hm
      obtain ⟨e', he', hr⟩ := mem_map.mp hm
      exact hl.1 (mem_map.mpr ⟨e', mem_of_mem_filter he', hr⟩)
    have hcn : ((e :: l).filter fun e => p e.1).map Prod.snd =
        List.replicate (if p e.1 then 1 else 0) e.2 ++ (l.filter fun e => p e.1).map Prod.snd := by
      cases hp : p e.1 <;> simp [hp]
    rw [flatMap_cons, hcn, forall_mem_cons, ← ih hl.2]
    constructor
    · intro h
      have hc := congrArg (List.count e.2) h
      rw [count_append, count_append, count_replicate_self, count_replicate_self,
        count_eq_zero_of_not_mem hlf, count_eq_zero_of_not_mem hrg] at hc
      have hc' : c e.1 = if p e.1 then 1 else 0 := hc
      rw [hc'] at h
      exact ⟨hc', append_cancel_left h⟩
    · rintro ⟨hc, hrs⟩
      rw [hc, hrs]

end Drunix.Lib
