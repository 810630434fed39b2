import Mathlib.Data.List.Basic

namespace Drunix.Lib

open List

variable {α : Type} {n : Nat} {l : List α}

def chunksIn (n : Nat) : Nat → List α → List (List α)
  | 0, _ => []
  | rounds + 1, l => if l.isEmpty then [] else l.take n :: chunksIn n rounds (l.drop n)

def chunks (n : Nat) (l : List α) : List (List α) :=
  chunksIn n l.length l

theorem chunksIn_flatten (hn : 0 < n) {rounds : Nat} (hl : l.length ≤ rounds) : (chunksIn n rounds l).flatten = l := by
  induction rounds generalizing l with
  | zero =>
    obtain rfl := length_eq_zero_iff.mp (Nat.le_zero.mp hl)
    rfl
  | succ rounds ih =>
    rw [chunksIn]
    cases l with
    | nil => rfl
    | cons a l =>
      have hr : ((a :: l).drop n).length ≤ rounds := by
        rw [length_drop]
        omega
      rw [isEmpty_cons, if_neg Bool.false_ne_true, flatten_cons, ih hr, take_append_drop]

theorem chunks_flatten (hn : 0 < n) (l : List α) : (chunks n l).flatten = l :=
  chunksIn_flatten hn (Nat.le_refl _)

theorem chunks_eq_singleton (hl : l ≠ []) (hn : l.length ≤ n) : chunks n l = [l] := by
  cases l with
  | nil => exact absurd rfl hl
  | cons a l =>
    rw [chunks, length_cons, chunksIn, isEmpty_cons, take_of_length_le hn, drop_of_length_le hn]
    cases l.length <;> rfl

end Drunix.Lib
