import Mathlib.Data.List.Basic

namespace Drunix.Lib

theorem toNat_add_one {n : UInt64} (h : n + 1 ≠ 0) : (n + 1).toNat = n.toNat + 1 := by
  have hne : (n + 1).toNat ≠ 0 := UInt64.toNat_inj.not.mpr h
  have hlt := n.toNat_lt
  rw [UInt64.toNat_add, UInt64.toNat_one] at hne ⊢
  omega

namespace Varint

open List

/-- Base 128 digits, lowest first, with the high bit on all but the last: at most `rounds` bytes. -/
def encodeRounds : ℕ → ℕ → List UInt8
  | 0, _ => []
  | rounds + 1, n =>
    if n < 128 then [UInt8.ofNat n] else UInt8.ofNat (n % 128 + 128) :: encodeRounds rounds (n / 128)

/-- The number at the start of the bytes, and the bytes after it. The last round takes one bit only. -/
def consumeRounds : ℕ → List UInt8 → Option (ℕ × List UInt8)
  | 0, _ => none
  | _ + 1, [] => none
  | rounds + 1, b :: bytes =>
    if b.toNat < 128 then
      if rounds = 0 ∧ 2 ≤ b.toNat then none else some (b.toNat, bytes)
    else (consumeRounds rounds bytes).map fun r => (b.toNat - 128 + 128 * r.1, r.2)

def bound : ℕ → ℕ
  | 0 => 2
  | rounds + 1 => 128 * bound rounds

/-- A 64-bit varint takes at most ten bytes. -/
def encode (x : UInt64) : List UInt8 :=
  encodeRounds 10 x.toNat

def consume (bytes : List UInt8) : Option (UInt64 × List UInt8) :=
  (consumeRounds 10 bytes).map fun r => (UInt64.ofNat r.1, r.2)

def encodeBytes (bytes : List UInt8) : List UInt8 :=
  encode (UInt64.ofNat bytes.length) ++ bytes

def consumeBytes (bytes : List UInt8) : Option (List UInt8 × List UInt8) :=
  (consume bytes).bind fun r =>
    if r.2.length < r.1.toNat then none else some (r.2.take r.1.toNat, r.2.drop r.1.toNat)

variable {n : ℕ}

theorem toNat_ofNat_of_lt (h : n < 256) : (UInt8.ofNat n).toNat = n := by
  simpa using Nat.mod_eq_of_lt h

variable {rounds : ℕ}

theorem consumeRounds_encodeRounds (hn : n < bound rounds) (rest : List UInt8) :
    consumeRounds (rounds + 1) (encodeRounds (rounds + 1) n ++ rest) = some (n, rest) := by
  induction rounds generalizing n with
  | zero =>
    have hn : n < 2 := hn
    have hb : (UInt8.ofNat n).toNat = n := toNat_ofNat_of_lt (by omega)
    rw [encodeRounds, if_pos (by omega), singleton_append, consumeRounds, hb, if_pos (by omega), if_neg (by omega)]
  | succ rounds ih =>
    rw [encodeRounds]
    split
    next hsm =>
      have hb : (UInt8.ofNat n).toNat = n := toNat_ofNat_of_lt (by omega)
      rw [singleton_append, consumeRounds, hb, if_pos hsm, if_neg (by omega)]
    next hlr =>
      have hb : (UInt8.ofNat (n % 128 + 128)).toNat = n % 128 + 128 := toNat_ofNat_of_lt (by omega)
      have hq : n / 128 < bound rounds := Nat.div_lt_of_lt_mul hn
      rw [cons_append, consumeRounds, if_neg (by omega), ih hq]
      simp only [Option.map_some, Option.some.injEq, Prod.mk.injEq, and_true]
      omega

@[simp] theorem consume_encode_append (x : UInt64) (rest : List UInt8) :
    consume (encode x ++ rest) = some (x, rest) := by
  have hx : x.toNat < bound 9 := x.toNat_lt
  rw [consume, encode, consumeRounds_encodeRounds hx]
  simp

variable {bytes : List UInt8}

@[simp] theorem consumeBytes_encodeBytes_append (hb : bytes.length < UInt64.size) (rest : List UInt8) :
    consumeBytes (encodeBytes bytes ++ rest) = some (bytes, rest) := by
  have hlen : (UInt64.ofNat bytes.length).toNat = bytes.length := UInt64.toNat_ofNat_of_lt' hb
  rw [consumeBytes, encodeBytes, append_assoc]
  simp [hlen]

theorem consumeRounds_of_prefix (hp : bytes <+: encodeRounds rounds n) (hne : bytes ≠ encodeRounds rounds n)
    (rounds' : ℕ) : consumeRounds rounds' bytes = none := by
  induction rounds generalizing n bytes rounds' with
  | zero => exact absurd (prefix_nil.mp hp) hne
  | succ rounds ih =>
    cases rounds' with
    | zero => rfl
    | succ rounds' =>
    cases bytes with
    | nil => rfl
    | cons b bytes =>
    rw [encodeRounds] at hp hne
    split at hp
    next hsm =>
      rw [if_pos hsm] at hne
      obtain ⟨rfl, ht⟩ := cons_prefix_cons.mp hp
      exact absurd (congrArg _ (prefix_nil.mp ht)) hne
    next hlr =>
      rw [if_neg hlr] at hne
      obtain ⟨rfl, ht⟩ := cons_prefix_cons.mp hp
      have hb : (UInt8.ofNat (n % 128 + 128)).toNat = n % 128 + 128 := toNat_ofNat_of_lt (by omega)
      rw [consumeRounds, if_neg (by omega), ih ht (fun heq => hne (congrArg _ heq))]
      rfl

theorem consume_of_prefix {x : UInt64} (hp : bytes <+: encode x) (hne : bytes ≠ encode x) : consume bytes = none := by
  rw [consume, consumeRounds_of_prefix hp hne]
  rfl

theorem length_encodeRounds_le {k : ℕ} (hn : n < 64 * bound k) : (encodeRounds rounds n).length ≤ k + 1 := by
  induction k generalizing rounds n with
  | zero =>
    have hn : n < 128 := hn
    cases rounds with
    | zero => simp [encodeRounds]
    | succ rounds => simp [encodeRounds, hn]
  | succ k ih =>
    cases rounds with
    | zero => simp [encodeRounds]
    | succ rounds =>
      rw [encodeRounds]
      split
      next => simp
      next =>
        have hn : n < 64 * (128 * bound k) := hn
        exact Nat.succ_le_succ (ih (by omega))

theorem encode_ne_nil (x : UInt64) : encode x ≠ [] := by
  rw [encode, encodeRounds]
  split <;> simp

end Varint

end Drunix.Lib
