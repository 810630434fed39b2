import Mathlib.Data.List.Basic
import Drunix.Lib.Transition

namespace Drunix.Lib

open List

/-- Goroutines that send to a channel nobody reads from before all are done: what each has still to send, and what is in
the channel. -/
structure Gathering (ρ : Type) where
  pending : List (List ρ)
  channel : List ρ := []

namespace Gathering

variable {ρ : Type} {capacity : Nat} {s t : Gathering ρ} {sends : List (List ρ)} {P : List ρ → Prop}

inductive Send (capacity : Nat) : Gathering ρ → Gathering ρ → Prop
  | send {pre post : List (List ρ)} {channel : List ρ} (response : ρ) (rest : List ρ) (hroom : channel.length < capacity) :
      Send capacity ⟨pre ++ (response :: rest) :: post, channel⟩ ⟨pre ++ rest :: post, channel ++ [response]⟩

/-- The goroutines are done, and the channel holds what satisfies `P`. -/
def Ends (P : List ρ → Prop) (s : Gathering ρ) : Prop :=
  s.pending.flatten = [] ∧ P s.channel

theorem Send.perm (h : Send capacity s t) :
    (t.channel ++ t.pending.flatten).Perm (s.channel ++ s.pending.flatten) := by
  cases h with
  | @send pre post channel response rest hr =>
    simp only [flatten_append, flatten_cons, append_assoc, cons_append, nil_append]
    exact (perm_middle.symm).append_left channel

theorem Send.room (h : Send capacity s t) : s.channel.length < capacity := by
  cases h with
  | send response rest hr => exact hr

theorem exists_send (hp : s.pending.flatten ≠ []) (hr : s.channel.length < capacity) :
    ∃ t, Send capacity s t := by
  obtain ⟨l, hl, hne⟩ : ∃ l ∈ s.pending, l ≠ [] := by simpa using hp
  obtain ⟨pre, post, hsp⟩ := append_of_mem hl
  obtain ⟨response, rest, rfl⟩ := exists_cons_of_ne_nil hne
  obtain ⟨pending, channel⟩ := s
  cases hsp
  exact ⟨_, .send response rest hr⟩

/-- With room for everything that is sent no goroutine blocks, whatever the order. -/
theorem inevitable_of_room (hr : sends.flatten.length ≤ capacity)
    (hP : ∀ channel, channel.Perm sends.flatten → P channel) : Inevitable (Send capacity) (Ends P) ⟨sends, []⟩ := by
  refine .of_measure (fun s => (s.channel ++ s.pending.flatten).Perm sends.flatten) (fun s => s.pending.flatten.length) ?_
    (by simp)
  intro s hs
  by_cases hd : s.pending.flatten = []
  · rw [hd, append_nil] at hs
    exact .inl ⟨hd, hP _ hs⟩
  · have hln := hs.length_eq
    rw [length_append] at hln
    have hpos := length_pos_of_ne_nil hd
    refine .inr ⟨exists_send hd (by omega), fun t ht => ⟨ht.perm.trans hs, ?_⟩⟩
    cases ht with
    | send response rest => simp

/-- Nothing leaves the channel, so that it must have room for everything. -/
theorem room_of_inevitable (h : Inevitable (Send capacity) (Ends P) ⟨sends, []⟩) : sends.flatten.length ≤ capacity := by
  obtain ⟨s, hs, hd, -⟩ := h.exists_reachable (.init rfl)
  have hi : (s.channel ++ s.pending.flatten).Perm sends.flatten ∧ s.channel.length ≤ capacity := by
    refine hs.invariant (fun s => (s.channel ++ s.pending.flatten).Perm sends.flatten ∧ s.channel.length ≤ capacity) ?_ ?_
    · rintro _ rfl
      simp
    · rintro s t ⟨hp, -⟩ hsn
      refine ⟨hsn.perm.trans hp, ?_⟩
      cases hsn with
      | send response rest hr => simpa using Nat.succ_le_of_lt hr
  rw [hd, append_nil] at hi
  exact hi.1.length_eq ▸ hi.2

end Gathering

end Drunix.Lib
