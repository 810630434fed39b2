import Drunix.Lib.Outcome
import Drunix.Ledger.VarUint

namespace Drunix.Ledger

open Lib Proto List

inductive VarUintError where
  | numBytes (consumed : Nat)
  | size (s : UInt64)
  | available (s : UInt64) (bytes : Nat)
  deriving DecidableEq

/-- `proto.DecodeVarint`: the number and how many bytes it took, both zero for an error. -/
def decodeVarint (bytes : Bytes) : UInt64 × Nat :=
  (Varint.consume bytes).elim (0, 0) fun r => (r.1, bytes.length - r.2.length)

/-- The expression `bytes[low:high]`. -/
def slice {ε : Type} (bytes : Bytes) (low high : Nat) : Outcome ε Bytes :=
  if low ≤ high ∧ high ≤ bytes.length then .ok ((bytes.take high).drop low) else .panic

/-- `DecodeOrderPreservingVarUint64` with its errors and the bounds of its slices. -/
def decodeOrderPreserving (bytes : Bytes) : Outcome VarUintError (UInt64 × Nat) :=
  let (s, numBytes) := decodeVarint bytes
  if numBytes ≠ 1 then .err (.numBytes numBytes)
  else if 8 < s then .err (.size s)
  else if bytes.length - 1 < s.toNat then .err (.available s (bytes.length - 1))
  else do
    let decodedBytes ← slice bytes 1 (s.toNat + 1)
    return (UInt64.ofNat (ofBigEndian decodedBytes), s.toNat + 1)

/-- The leading `0xff` bytes of the difference to the greatest number are trimmed, and their number is put in front. -/
def encodeReverseOrderVarUint64 (number : UInt64) : Bytes :=
  let bytes := (bigEndian 8 (0xffffffffffffffff - number).toNat).dropWhile fun b => b = 0xff
  UInt8.ofNat (8 - bytes.length) :: bytes

def decodeReverseOrderVarUint64 (bytes : Bytes) : Outcome Unit (UInt64 × Nat) :=
  let numFFBytes := (decodeVarint bytes).1.toNat
  if 8 < numFFBytes then .panic
  else do
    let realBytes ← slice bytes 1 (8 - numFFBytes + 1)
    let decodedBytes := replicate numFFBytes 0xff ++ realBytes
    return (0xffffffffffffffff - UInt64.ofNat (ofBigEndian decodedBytes), 8 - numFFBytes + 1)

/-- The bytes start with a size of at most eight and that many bytes. -/
def StartsWithVarUint (bytes : Bytes) : Prop :=
  ∃ size rest, bytes = size :: rest ∧ size ≤ 8 ∧ size.toNat ≤ rest.length

section

variable {s : UInt8} {number number' : UInt64} {bytes rest rest' : Bytes} {ε : Type} {n k : Nat}

theorem length_lt_of_consumeRounds {r : Nat × Bytes} (h : Varint.consumeRounds n bytes = some r) :
    r.2.length < bytes.length := by
  induction n generalizing bytes r with
  | zero => cases h
  | succ n ih =>
    cases bytes with
    | nil => cases h
    | cons b bytes =>
      rw [Varint.consumeRounds] at h
      split_ifs at h
      · cases h
        exact Nat.lt_succ_self _
      · obtain ⟨r', hr, rfl⟩ := Option.map_eq_some_iff.mp h
        exact (ih hr).trans (Nat.lt_succ_self _)

theorem decodeVarint_of_lt (h : s < 0x80) : decodeVarint (s :: bytes) = (s.toUInt64, 1) := by
  have hs : s.toNat < 128 := UInt8.lt_iff_toNat_lt.mp h
  simp [decodeVarint, Varint.consume, Varint.consumeRounds, hs]

theorem decodeVarint_of_le (h : ¬ s < 0x80) : (decodeVarint (s :: bytes)).2 ≠ 1 := by
  have hs : ¬ s.toNat < 128 := fun hs => h (UInt8.lt_iff_toNat_lt.mpr hs)
  rw [decodeVarint, Varint.consume, Varint.consumeRounds, if_neg hs]
  cases hc : Varint.consumeRounds 9 bytes with
  | none => exact Nat.zero_ne_one
  | some r =>
    have hlt := length_lt_of_consumeRounds hc
    simp only [Option.map_some, Option.elim_some, length_cons]
    omega

theorem slice_cons (h : n ≤ bytes.length) : (slice (s :: bytes) 1 (n + 1) : Outcome ε Bytes) = .ok (bytes.take n) := by
  rw [slice, if_pos ⟨Nat.le_add_left 1 n, Nat.succ_le_succ h⟩]
  rfl

/-- Each of the three errors is a case where nothing is decoded, and the slice is within bounds after them. -/
theorem decodeOrderPreserving_cases (bytes : Bytes) :
    (∃ e, decodeOrderPreserving bytes = .err e) ∧ decodeOrderPreservingVarUint64 bytes = none ∨
      ∃ r, decodeOrderPreserving bytes = .ok r ∧ decodeOrderPreservingVarUint64 bytes = some r := by
  cases bytes with
  | nil => exact .inl ⟨⟨_, rfl⟩, rfl⟩
  | cons s bytes =>
    rw [decodeOrderPreservingVarUint64]
    by_cases hs : s < 0x80
    swap
    · rw [if_neg fun h => hs h.1]
      exact .inl ⟨⟨_, if_pos (decodeVarint_of_le hs)⟩, rfl⟩
    have hs₈ : (8 : UInt64) < s.toUInt64 ↔ ¬ s ≤ 8 := by
      rw [UInt8.le_iff_toNat_le, Nat.not_le]
      rfl
    simp only [decodeOrderPreserving, decodeVarint_of_lt hs, ne_eq, not_true_eq_false, if_false, hs₈, length_cons,
      Nat.add_sub_cancel, hs, true_and, UInt8.toNat_toUInt64]
    by_cases h₈ : s ≤ 8
    swap
    · rw [if_pos h₈, if_neg fun hd => h₈ hd.1]
      exact .inl ⟨⟨_, rfl⟩, rfl⟩
    rw [if_neg (not_not.mpr h₈)]
    by_cases hlen : s.toNat ≤ bytes.length
    · rw [if_neg (Nat.not_lt.mpr hlen), if_pos ⟨h₈, hlen⟩, slice_cons hlen]
      exact .inr ⟨_, rfl, rfl⟩
    · rw [if_pos (Nat.lt_of_not_le hlen), if_neg fun hd => hlen hd.2]
      exact .inl ⟨⟨_, rfl⟩, rfl⟩

theorem decodeOrderPreservingVarUint64_eq_none_iff :
    decodeOrderPreservingVarUint64 bytes = none ↔ ¬ StartsWithVarUint bytes := by
  cases bytes with
  | nil =>
    refine iff_of_true rfl ?_
    rintro ⟨_, _, h, -⟩
    cases h
  | cons s bytes =>
    have hst : StartsWithVarUint (s :: bytes) ↔ s ≤ 8 ∧ s.toNat ≤ bytes.length := by
      refine ⟨?_, fun h => ⟨s, bytes, rfl, h⟩⟩
      rintro ⟨_, _, h, h'⟩
      cases h
      exact h'
    have h₈ : s ≤ 8 → s < 0x80 := fun h => UInt8.lt_of_le_of_lt h (by decide)
    rw [hst, decodeOrderPreservingVarUint64]
    split_ifs with hd
    · exact iff_of_false not_false fun hn => hn hd.2
    · exact iff_of_true rfl fun hn => hd ⟨h₈ hn.1, hn⟩

theorem replicate_append_lt : replicate k s ++ bytes < replicate k s ++ rest ↔ bytes < rest := by
  induction k with
  | zero => exact Iff.rfl
  | succ k ih =>
    rw [replicate_succ, cons_append, cons_append, cons_lt_cons_iff, ih]
    exact or_iff_right (UInt8.lt_irrefl s) |>.trans (and_iff_right rfl)

theorem replicate_append_dropWhile (l : Bytes) :
    replicate (l.length - (l.dropWhile fun b => b = s).length) s ++ l.dropWhile (fun b => b = s) = l := by
  induction l with
  | nil => rfl
  | cons b l ih =>
    by_cases hb : b = s
    · have hle := (dropWhile_sublist (l := l) fun b => b = s).length_le
      rw [dropWhile_cons_of_pos (by simpa using hb), length_cons, Nat.succ_sub hle, replicate_succ, cons_append, ih, hb]
    · rw [dropWhile_cons_of_neg (by simpa using hb), Nat.sub_self]
      rfl

theorem encodeReverseOrderVarUint64_eq (number : UInt64) :
    ∃ k bytes, encodeReverseOrderVarUint64 number = UInt8.ofNat k :: bytes ∧ k + bytes.length = 8 ∧
      replicate k 0xff ++ bytes = bigEndian 8 (0xffffffffffffffff - number).toNat ∧ bytes.head? ≠ some 0xff := by
  have hlen := length_bigEndian 8 (0xffffffffffffffff - number).toNat
  rw [encodeReverseOrderVarUint64]
  generalize bigEndian 8 (0xffffffffffffffff - number).toNat = l at hlen ⊢
  have happ := replicate_append_dropWhile (s := 0xff) l
  rw [hlen] at happ
  refine ⟨_, _, rfl, ?_, happ, head?_dropWhile_ne l⟩
  have hsum := congrArg length happ
  rwa [length_append, length_replicate, hlen] at hsum

/-- Of two differences to the greatest number the greater one has more leading `0xff` bytes, or as many and greater
bytes after them. -/
theorem encodeReverseOrderVarUint64_lt (h : number < number') (rest rest' : Bytes) :
    encodeReverseOrderVarUint64 number' ++ rest' < encodeReverseOrderVarUint64 number ++ rest := by
  obtain ⟨k, bytes, he, hlen, hb, hh⟩ := encodeReverseOrderVarUint64_eq number
  obtain ⟨k', bytes', he', hlen', hb', -⟩ := encodeReverseOrderVarUint64_eq number'
  have hv : ofBigEndian (bigEndian 8 (0xffffffffffffffff - number').toNat) <
      ofBigEndian (bigEndian 8 (0xffffffffffffffff - number).toNat) := by
    rw [UInt64.lt_iff_toNat_lt] at h
    have hn := number'.toNat_lt
    rw [ofBigEndian_bigEndian, ofBigEndian_bigEndian, UInt64.toNat_sub, UInt64.toNat_sub]
    simp only [UInt64.reduceToNat]
    omega
  have hlt := append_lt_append_of_ofBigEndian_lt (by rw [length_bigEndian, length_bigEndian]) hv rest' rest
  rw [← hb, ← hb', append_assoc, append_assoc] at hlt
  rw [he, he', cons_append, cons_append, cons_lt_cons_iff, UInt8.lt_iff_toNat_lt,
    Varint.toNat_ofNat_of_lt (by omega), Varint.toNat_ofNat_of_lt (by omega)]
  rcases lt_trichotomy k' k with hk | rfl | hk
  · exact .inl hk
  · exact .inr ⟨rfl, replicate_append_lt.mp hlt⟩
  · obtain ⟨d, rfl⟩ := Nat.exists_eq_add_of_lt hk
    rw [Nat.add_assoc, ← replicate_append_replicate, append_assoc, replicate_append_lt] at hlt
    cases bytes with
    | nil => simp at hlen; omega
    | cons b bytes =>
      rw [replicate_succ, cons_append, cons_append, cons_lt_cons_iff] at hlt
      rcases hlt with hlt | ⟨heq, -⟩
      · have hb := b.toNat_lt
        exact absurd (UInt8.lt_iff_toNat_lt.mp hlt) (Nat.not_lt.mpr (Nat.le_of_lt_succ hb))
      · exact absurd (congrArg some heq.symm) hh

theorem decode_encodeReverseOrderVarUint64 (number : UInt64) (rest : Bytes) :
    decodeReverseOrderVarUint64 (encodeReverseOrderVarUint64 number ++ rest) =
      .ok (number, (encodeReverseOrderVarUint64 number).length) := by
  obtain ⟨k, bytes, he, hlen, hb, -⟩ := encodeReverseOrderVarUint64_eq number
  have hk : (UInt8.ofNat k).toNat = k := Varint.toNat_ofNat_of_lt (by omega)
  have hs : UInt8.ofNat k < 0x80 := by
    rw [UInt8.lt_iff_toNat_lt, hk]
    exact Nat.lt_of_le_of_lt (Nat.le.intro hlen) (by decide)
  have h₈ : 8 - k = bytes.length := by omega
  have hv : UInt64.ofNat (ofBigEndian (replicate k 0xff ++ bytes)) = 0xffffffffffffffff - number := by
    rw [hb, ofBigEndian_bigEndian]
    exact UInt64.toNat_inj.mp (by simp)
  rw [he, cons_append, decodeReverseOrderVarUint64]
  simp only [decodeVarint_of_lt hs, UInt8.toNat_toUInt64, hk, h₈]
  rw [if_neg (by omega), slice_cons (by simp), take_left, Outcome.ok_bind, hv]
  have hsub : 0xffffffffffffffff - (0xffffffffffffffff - number) = number := by grind
  rw [hsub]
  rfl

end

theorem varUint64_encodings (number number' : UInt64) (rest bytes : Bytes) :
    (number < number' → encodeOrderPreservingVarUint64 number < encodeOrderPreservingVarUint64 number') ∧
      decodeOrderPreserving (encodeOrderPreservingVarUint64 number ++ rest) =
        .ok (number, (encodeOrderPreservingVarUint64 number).length) ∧
      (¬ StartsWithVarUint bytes → ∃ e, decodeOrderPreserving bytes = .err e) ∧
      (number < number' → encodeReverseOrderVarUint64 number' < encodeReverseOrderVarUint64 number) ∧
      decodeReverseOrderVarUint64 (encodeReverseOrderVarUint64 number ++ rest) =
        .ok (number, (encodeReverseOrderVarUint64 number).length) := by
  refine ⟨fun h => ?_, ?_, fun h => ?_, fun h => ?_, decode_encodeReverseOrderVarUint64 number rest⟩
  · have hlt := encodeOrderPreservingVarUint64_lt h [] []
    rwa [append_nil, append_nil] at hlt
  · rcases decodeOrderPreserving_cases (encodeOrderPreservingVarUint64 number ++ rest) with ⟨-, hn⟩ | ⟨r, hok, hs⟩
    · rw [decode_encodeOrderPreservingVarUint64] at hn
      cases hn
    · rw [decode_encodeOrderPreservingVarUint64] at hs
      cases hs
      exact hok
  · rcases decodeOrderPreserving_cases bytes with ⟨he, -⟩ | ⟨r, -, hs⟩
    · exact he
    · rw [decodeOrderPreservingVarUint64_eq_none_iff.mpr h] at hs
      cases hs
  · have hlt := encodeReverseOrderVarUint64_lt h [] []
    rwa [append_nil, append_nil] at hlt

end Drunix.Ledger
