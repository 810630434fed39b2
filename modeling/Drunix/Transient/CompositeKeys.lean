import Mathlib.Data.List.Infix
import Drunix.Ledger.VarUint
import Drunix.Lib.Outcome

namespace Drunix.Transient

open Lib Proto Ledger List

def prwsetPrefix : UInt8 := 0x50

def purgeIndexByHeightPrefix : UInt8 := 0x48

def purgeIndexByTxidPrefix : UInt8 := 0x54

def compositeKeySep : UInt8 := 0x00

/-- What `GenerateUUID` returns: 36 hexadecimal digits and dashes. -/
structure Uuid where
  bytes : Bytes
  length_eq : bytes.length = 36
  digits : ∀ b ∈ bytes, b ∈ ascii "0123456789abcdef-"

theorem Uuid.sep_notMem (uuid : Uuid) : compositeKeySep ∉ uuid.bytes := by
  intro h
  have := uuid.digits _ h
  revert this
  decide

theorem zeroDigits : ∀ b ∈ List.replicate 36 (0x30 : UInt8), b ∈ ascii "0123456789abcdef-" := by
  intro b hb
  rw [(mem_replicate.mp hb).2]
  decide

def Uuid.zero : Uuid :=
  ⟨List.replicate 36 0x30, rfl, zeroDigits⟩

def createCompositeKeyWithoutPrefixForTxid (txid : Bytes) (uuid : Uuid) (blockHeight : UInt64) : Bytes :=
  txid ++ compositeKeySep :: (uuid.bytes ++ compositeKeySep :: encodeOrderPreservingVarUint64 blockHeight)

def createCompositeKeyForPvtRWSet (txid : Bytes) (uuid : Uuid) (blockHeight : UInt64) : Bytes :=
  prwsetPrefix :: compositeKeySep :: createCompositeKeyWithoutPrefixForTxid txid uuid blockHeight

def createCompositeKeyForPurgeIndexByTxid (txid : Bytes) (uuid : Uuid) (blockHeight : UInt64) : Bytes :=
  purgeIndexByTxidPrefix :: compositeKeySep :: createCompositeKeyWithoutPrefixForTxid txid uuid blockHeight

def createCompositeKeyForPurgeIndexByHeight (blockHeight : UInt64) (txid : Bytes) (uuid : Uuid) : Bytes :=
  purgeIndexByHeightPrefix :: compositeKeySep ::
    (encodeOrderPreservingVarUint64 blockHeight ++ compositeKeySep :: (txid ++ compositeKeySep :: uuid.bytes))

def createTxidRangeStartKey (txid : Bytes) : Bytes :=
  prwsetPrefix :: compositeKeySep :: (txid ++ [compositeKeySep])

def createTxidRangeEndKey (txid : Bytes) : Bytes :=
  prwsetPrefix :: compositeKeySep :: (txid ++ [0xff])

def afterSep : Bytes → Option Bytes
  | [] => none
  | b :: rest => if b = compositeKeySep then some rest else afterSep rest

inductive ReadError
  | blockHeight
  | proto
  | unexpectedCollectionType
  deriving DecidableEq

/-- A key with fewer than two separators makes the slice expressions panic. -/
def splitCompositeKeyWithoutPrefixForTxid (compositeKey : Bytes) : Outcome ReadError (Bytes × UInt64) := do
  let afterTxid ← .deref (afterSep compositeKey)
  let afterUuid ← .deref (afterSep afterTxid)
  let (blockHeight, _) ← .orErr .blockHeight (decodeOrderPreservingVarUint64 afterUuid)
  return (afterTxid.takeWhile fun b => b ≠ compositeKeySep, blockHeight)

def splitCompositeKeyOfPvtRWSet (compositeKey : Bytes) : Outcome ReadError (Bytes × UInt64) :=
  splitCompositeKeyWithoutPrefixForTxid (compositeKey.drop 2)

def InTxidRange (txid key : Bytes) : Prop :=
  createTxidRangeStartKey txid ≤ key ∧ key < createTxidRangeEndKey txid

instance instDecidableInTxidRange (txid key : Bytes) : Decidable (InTxidRange txid key) :=
  inferInstanceAs (Decidable (_ ∧ _))

theorem range_iff (l key : Bytes) :
    l ++ [0x00] ≤ key ∧ key < l ++ [0xff] ↔ ∃ b rest, b ≠ 0xff ∧ key = l ++ b :: rest := by
  induction l generalizing key with
  | nil =>
    cases key with
    | nil => simp
    | cons b rest =>
      have hmax : b < 0xff ↔ b ≠ 0xff := by
        rw [UInt8.lt_iff_toNat_lt, Ne, ← UInt8.toNat_inj]
        have := b.toNat_lt
        simp only [UInt8.reduceToNat]
        omega
      have hz : ¬ b < 0x00 := UInt8.not_lt.mpr UInt8.zero_le
      simp [List.cons_lt_cons_iff, ← List.not_lt, hmax, hz]
  | cons a l ih =>
    cases key with
    | nil => simp
    | cons b rest =>
      simp only [List.cons_append, ← List.not_lt, List.cons_lt_cons_iff, List.cons.injEq]
      constructor
      · rintro ⟨hl, hh⟩
        rcases hh with hlt | ⟨rfl, hh⟩
        · exact absurd (Or.inl hlt) hl
        · obtain ⟨c, rest', hc, rfl⟩ := (ih rest).mp ⟨List.not_lt.mp fun h => hl (Or.inr ⟨rfl, h⟩), hh⟩
          exact ⟨c, rest', hc, rfl, rfl⟩
      · rintro ⟨c, rest', hc, rfl, rfl⟩
        obtain ⟨hl, hh⟩ := (ih _).mpr ⟨c, rest', hc, rfl⟩
        refine ⟨?_, Or.inr ⟨rfl, hh⟩⟩
        rintro (hlt | ⟨-, hlt⟩)
        · exact UInt8.lt_irrefl _ hlt
        · exact List.not_lt.mpr hl hlt

variable {txid : Bytes}

theorem inTxidRange_iff {key : Bytes} :
    InTxidRange txid key ↔ ∃ b rest, b ≠ 0xff ∧ key = prwsetPrefix :: compositeKeySep :: (txid ++ b :: rest) :=
  range_iff (prwsetPrefix :: compositeKeySep :: txid) key

section

variable (txid : Bytes) (uuid : Uuid) (blockHeight : UInt64)

theorem createTxidRangeStartKey_isInfix :
    createTxidRangeStartKey txid <:+: createCompositeKeyForPvtRWSet txid uuid blockHeight :=
  ⟨[], uuid.bytes ++ compositeKeySep :: encodeOrderPreservingVarUint64 blockHeight, by
    simp [createTxidRangeStartKey, createCompositeKeyForPvtRWSet, createCompositeKeyWithoutPrefixForTxid]⟩

end

theorem length_encodeOrderPreservingVarUint64_le (number : UInt64) :
    (encodeOrderPreservingVarUint64 number).length ≤ 9 := by
  have h := (dropWhile_sublist (l := Ledger.bigEndian 8 number.toNat) fun b => b = 0x00).length_le
  rw [Ledger.length_bigEndian] at h
  rw [encodeOrderPreservingVarUint64, length_cons]
  omega

variable {uuid uuid' : Uuid} {height height' : UInt64}

/-- A longer transaction id would push its separator into the uuid of the shorter one. -/
theorem eq_nil_of_key_eq {more : Bytes}
    (h : compositeKeySep :: (uuid.bytes ++ compositeKeySep :: encodeOrderPreservingVarUint64 height) =
      more ++ compositeKeySep :: (uuid'.bytes ++ compositeKeySep :: encodeOrderPreservingVarUint64 height')) :
    more = [] := by
  cases more with
  | nil => rfl
  | cons b more =>
    rw [cons_append, List.cons.injEq] at h
    obtain ⟨-, h⟩ := h
    have hlen := congrArg List.length h
    have hle := length_encodeOrderPreservingVarUint64_le height
    simp only [length_append, length_cons, uuid.length_eq, uuid'.length_eq] at hlen
    have hsh : more.length < uuid.bytes.length := by
      rw [uuid.length_eq]
      omega
    have hsp : uuid.bytes[more.length] = compositeKeySep := by
      have hg := congrArg (fun l => l[more.length]?) h
      simp only [getElem?_append_left hsh, getElem?_append_right (Nat.le_refl _), Nat.sub_self,
        getElem?_cons_zero, getElem?_eq_getElem hsh, Option.some.injEq] at hg
      exact hg
    exact absurd (hsp ▸ getElem_mem hsh) uuid.sep_notMem

theorem createCompositeKeyForPvtRWSet_txid_inj {txid' : Bytes}
    (h : createCompositeKeyForPvtRWSet txid uuid height = createCompositeKeyForPvtRWSet txid' uuid' height') :
    txid = txid' := by
  have hb : createCompositeKeyWithoutPrefixForTxid txid uuid height =
      createCompositeKeyWithoutPrefixForTxid txid' uuid' height' :=
    (List.cons.inj (List.cons.inj h).2).2
  rcases append_eq_append_iff.mp hb with ⟨more, rfl, hr⟩ | ⟨more, rfl, hr⟩
  · rw [eq_nil_of_key_eq hr, append_nil]
  · rw [eq_nil_of_key_eq hr, append_nil]

theorem encodeOrderPreservingVarUint64_eq_concat {number : UInt64} {b : UInt8} (hb : b ≠ 0x00)
    (h : UInt8.ofNat number.toNat = b) : ∃ front, encodeOrderPreservingVarUint64 number = front ++ [b] := by
  have hd : (Ledger.bigEndian 8 number.toNat).dropWhile (fun c => c = 0x00) =
      (Ledger.bigEndian 7 (number.toNat / 256)).dropWhile (fun c => c = 0x00) ++ [b] := by
    rw [Ledger.bigEndian, h, dropWhile_append]
    split_ifs with he
    · rw [dropWhile_cons_of_neg (by simpa using hb), isEmpty_iff.mp he, nil_append]
    · rfl
  exact ⟨_, by rw [encodeOrderPreservingVarUint64, hd, ← cons_append]⟩

/-- The index key of a height with the low byte 0x50 reads like the start of a key of private data. -/
theorem createTxidRangeStartKey_isInfix_heightKey (txid : Bytes) (uuid : Uuid) {blockHeight : UInt64}
    (h : UInt8.ofNat blockHeight.toNat = prwsetPrefix) :
    createTxidRangeStartKey txid <:+: createCompositeKeyForPurgeIndexByHeight blockHeight txid uuid := by
  obtain ⟨front, hf⟩ := encodeOrderPreservingVarUint64_eq_concat (by decide) h
  exact ⟨purgeIndexByHeightPrefix :: compositeKeySep :: front, uuid.bytes, by
    simp [createTxidRangeStartKey, createCompositeKeyForPurgeIndexByHeight, hf]⟩

end Drunix.Transient
