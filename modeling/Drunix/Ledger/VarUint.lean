import Mathlib.Tactic.Linarith
import Mathlib.Tactic.Ring
import Drunix.Lib.Varint
import Drunix.Proto.Messages

namespace Drunix.Ledger

open Lib Proto List

def bigEndian : Nat → Nat → Bytes
  | 0, _ => []
  | k + 1, n => bigEndian k (n / 256) ++ [UInt8.ofNat n]

def ofBigEndian (bytes : Bytes) : Nat :=
  bytes.foldl (fun n b => n * 256 + b.toNat) 0

def encodeOrderPreservingVarUint64 (number : UInt64) : Bytes :=
  let bytes := (bigEndian 8 number.toNat).dropWhile fun b => b = 0x00
  UInt8.ofNat bytes.length :: bytes

/-- The number and how many bytes it took. A size of more than one byte is an error, as is one of more
than eight or than what is left. -/
def decodeOrderPreservingVarUint64 : Bytes → Option (UInt64 × Nat)
  | [] => none
  | s :: bytes =>
    if s < 0x80 ∧ s ≤ 8 ∧ s.toNat ≤ bytes.length then
      some (UInt64.ofNat (ofBigEndian (bytes.take s.toNat)), s.toNat + 1)
    else none

def heightToBytes (h : Version) : Bytes :=
  encodeOrderPreservingVarUint64 h.blockNum ++ encodeOrderPreservingVarUint64 h.txNum

def newHeightFromBytes (b : Bytes) : Option Version := do
  let (blockNum, n₁) ← decodeOrderPreservingVarUint64 b
  let (txNum, _) ← decodeOrderPreservingVarUint64 (b.drop n₁)
  return ⟨blockNum, txNum⟩

theorem length_bigEndian (k n : Nat) : (bigEndian k n).length = k := by
  induction k generalizing n with
  | zero => rfl
  | succ k ih => rw [bigEndian, length_append, ih, length_singleton]

theorem ofBigEndian_bigEndian (k n : Nat) : ofBigEndian (bigEndian k n) = n % 256 ^ k := by
  induction k generalizing n with
  | zero => simp [bigEndian, ofBigEndian, Nat.mod_one]
  | succ k ih =>
    have hst : ofBigEndian (bigEndian (k + 1) n) = ofBigEndian (bigEndian k (n / 256)) * 256 + n % 256 := by
      rw [bigEndian, ofBigEndian]
      simp [ofBigEndian]
    rw [hst, ih, Nat.pow_succ', Nat.mod_mul]
    omega

theorem ofBigEndian_dropWhile (bytes : Bytes) : ofBigEndian (bytes.dropWhile fun b => b = 0x00) = ofBigEndian bytes := by
  induction bytes with
  | nil => rfl
  | cons b bytes ih =>
    by_cases hb : b = 0x00
    · subst hb
      rw [dropWhile_cons_of_pos (by decide), ih]
      rfl
    · rw [dropWhile_cons_of_neg (by simpa using hb)]

theorem ofBigEndian_cons (b : UInt8) (bytes : Bytes) :
    ofBigEndian (b :: bytes) = b.toNat * 256 ^ bytes.length + ofBigEndian bytes := by
  have hf : ∀ n, bytes.foldl (fun n b => n * 256 + b.toNat) n = n * 256 ^ bytes.length + ofBigEndian bytes := by
    induction bytes with
    | nil => simp [ofBigEndian]
    | cons b bytes ih =>
      intro n
      rw [ofBigEndian, foldl_cons, foldl_cons, ih, ih (0 * 256 + b.toNat), length_cons]
      ring
  rw [ofBigEndian, foldl_cons, hf, Nat.zero_add]

theorem ofBigEndian_lt (bytes : Bytes) : ofBigEndian bytes < 256 ^ bytes.length := by
  induction bytes with
  | nil => exact Nat.one_pos
  | cons b bytes ih =>
    have hb : (b.toNat + 1) * 256 ^ bytes.length ≤ 256 * 256 ^ bytes.length := Nat.mul_le_mul_right _ b.toNat_lt
    rw [ofBigEndian_cons, length_cons, Nat.pow_succ]
    linarith

theorem append_lt_append_of_ofBigEndian_lt {bytes bytes' : Bytes} (hlen : bytes.length = bytes'.length)
    (h : ofBigEndian bytes < ofBigEndian bytes') (rest rest' : Bytes) : bytes ++ rest < bytes' ++ rest' := by
  induction bytes generalizing bytes' with
  | nil =>
    cases bytes' with
    | nil => cases h
    | cons => cases hlen
  | cons b bytes ih =>
    cases bytes' with
    | nil => cases hlen
    | cons b' bytes' =>
      have hlen' : bytes.length = bytes'.length := Nat.succ.inj hlen
      rw [ofBigEndian_cons, ofBigEndian_cons, hlen'] at h
      rw [cons_append, cons_append, cons_lt_cons_iff]
      rcases lt_trichotomy b.toNat b'.toNat with hb | hb | hb
      · exact .inl hb
      · rw [hb, Nat.add_lt_add_iff_left] at h
        exact .inr ⟨UInt8.toNat_inj.mp hb, ih hlen' h⟩
      · have hm : (b'.toNat + 1) * 256 ^ bytes'.length ≤ b.toNat * 256 ^ bytes'.length := Nat.mul_le_mul_right _ hb
        have hlt := ofBigEndian_lt bytes'
        linarith

theorem head?_dropWhile_ne {s : UInt8} (l : Bytes) : (l.dropWhile fun b => b = s).head? ≠ some s := by
  intro h
  have hd := head?_dropWhile_not (fun b => decide (b = s)) l
  rw [h] at hd
  simp at hd

theorem encodeOrderPreservingVarUint64_eq (number : UInt64) :
    ∃ bytes : Bytes, encodeOrderPreservingVarUint64 number = UInt8.ofNat bytes.length :: bytes ∧ bytes.length ≤ 8 ∧
      ofBigEndian bytes = number.toNat ∧ bytes.head? ≠ some 0x00 := by
  refine ⟨_, rfl, ?_, ?_, head?_dropWhile_ne _⟩
  · have h := (dropWhile_sublist (l := bigEndian 8 number.toNat) fun b => b = 0x00).length_le
    rwa [length_bigEndian] at h
  · rw [ofBigEndian_dropWhile, ofBigEndian_bigEndian]
    exact Nat.mod_eq_of_lt (by have := number.toNat_lt; omega)

theorem decode_encodeOrderPreservingVarUint64 (number : UInt64) (rest : Bytes) :
    decodeOrderPreservingVarUint64 (encodeOrderPreservingVarUint64 number ++ rest) =
      some (number, (encodeOrderPreservingVarUint64 number).length) := by
  obtain ⟨bytes, he, hlen, hvl, -⟩ := encodeOrderPreservingVarUint64_eq number
  rw [he]
  have hsz : (UInt8.ofNat bytes.length).toNat = bytes.length := Varint.toNat_ofNat_of_lt (by omega)
  have hg : UInt8.ofNat bytes.length < 0x80 ∧ UInt8.ofNat bytes.length ≤ 8 ∧
      (UInt8.ofNat bytes.length).toNat ≤ (bytes ++ rest).length := by
    rw [UInt8.lt_iff_toNat_lt, UInt8.le_iff_toNat_le, hsz, length_append]
    refine ⟨?_, hlen, by omega⟩
    exact Nat.lt_of_le_of_lt hlen (by decide)
  rw [cons_append, decodeOrderPreservingVarUint64, if_pos hg, hsz, take_left, hvl, UInt64.ofNat_toNat, length_cons]

/-- A number with more bytes is greater, because its first byte is not zero. -/
theorem encodeOrderPreservingVarUint64_lt {number number' : UInt64} (h : number < number') (rest rest' : Bytes) :
    encodeOrderPreservingVarUint64 number ++ rest < encodeOrderPreservingVarUint64 number' ++ rest' := by
  obtain ⟨bytes, he, hlen, hvl, hz⟩ := encodeOrderPreservingVarUint64_eq number
  obtain ⟨bytes', he', hlen', hvl', -⟩ := encodeOrderPreservingVarUint64_eq number'
  rw [UInt64.lt_iff_toNat_lt, ← hvl, ← hvl'] at h
  have hle : bytes.length ≤ bytes'.length := by
    by_contra hgt
    cases bytes with
    | nil => simp at hgt
    | cons b bytes =>
      have hb : b.toNat ≠ 0 := fun hb => hz (congrArg some (UInt8.toNat_inj.mp hb))
      have hp : 256 ^ bytes'.length ≤ 256 ^ bytes.length := Nat.pow_le_pow_right (by decide) (by simp at hgt; omega)
      have hm : 1 * 256 ^ bytes.length ≤ b.toNat * 256 ^ bytes.length := Nat.mul_le_mul_right _ (by omega)
      have hlt := ofBigEndian_lt bytes'
      rw [ofBigEndian_cons] at h
      omega
  rw [he, he', cons_append, cons_append, cons_lt_cons_iff, UInt8.lt_iff_toNat_lt,
    Varint.toNat_ofNat_of_lt (by omega), Varint.toNat_ofNat_of_lt (by omega)]
  rcases hle.lt_or_eq with hlt | heq
  · exact .inl hlt
  · exact .inr ⟨by rw [heq], append_lt_append_of_ofBigEndian_lt heq h rest rest'⟩

theorem newHeightFromBytes_heightToBytes (h : Version) : newHeightFromBytes (heightToBytes h) = some h := by
  have hr := decode_encodeOrderPreservingVarUint64 h.txNum []
  rw [append_nil] at hr
  rw [newHeightFromBytes, heightToBytes, decode_encodeOrderPreservingVarUint64]
  simp only [Option.bind_eq_bind, Option.bind_some, drop_left, hr]
  rfl

end Drunix.Ledger
