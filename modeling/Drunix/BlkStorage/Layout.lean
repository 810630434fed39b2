import Drunix.BlkStorage.BlockfileMgr

namespace Drunix.BlkStorage

open Lib Proto List Outcome

def maxBlockBytes : ℕ :=
  64 * Varint.bound 7

structure StoredBlock where
  header : BlockHeader
  data : List Bytes
  metadata : List Bytes
  deriving DecidableEq

namespace StoredBlock

def bytes (b : StoredBlock) : Bytes :=
  blockBytes b.header b.data b.metadata

def toBlock (b : StoredBlock) : Block :=
  ⟨some b.header, some b.data, some b.metadata, .message⟩

structure Readable (b : StoredBlock) : Prop where
  hashes : Fits b.header.dataHash ∧ Fits b.header.previousHash
  data : Fits b.data ∧ ∀ tx ∈ b.data, Fits tx
  metadata : Fits b.metadata ∧ ∀ entry ∈ b.metadata, Fits entry
  size : b.bytes.length < maxBlockBytes

section

variable {codec : Codec} {computeTxID : Bytes → Bytes → Bytes} {b : StoredBlock} (h : b.Readable)
include h

theorem Readable.deserializeBlock : BlkStorage.deserializeBlock codec computeTxID b.bytes = .ok b.toBlock :=
  (extract_blockBytes codec computeTxID h.hashes h.data h.metadata).1

theorem Readable.extractSerializedBlockInfo : BlkStorage.extractSerializedBlockInfo codec computeTxID b.bytes =
      .ok (blockInfo codec computeTxID b.header b.data b.metadata) :=
  (extract_blockBytes codec computeTxID h.hashes h.data h.metadata).2

end

end StoredBlock

def lengthBytes (bytes : Bytes) : Bytes :=
  Varint.encode (UInt64.ofNat bytes.length)

theorem frame_eq (bytes : Bytes) : frame bytes = lengthBytes bytes ++ bytes := rfl

section

variable {bytes : Bytes} (h : bytes.length < maxBlockBytes)
include h

theorem toNat_length :
    (UInt64.ofNat bytes.length).toNat = bytes.length :=
  UInt64.toNat_ofNat_of_lt' (h.trans (by decide))

theorem length_lengthBytes_le : (lengthBytes bytes).length ≤ 8 := by
  rw [lengthBytes, Varint.encode, toNat_length h]
  exact Varint.length_encodeRounds_le h

end

theorem length_lengthBytes_pos (bytes : Bytes) : 0 < (lengthBytes bytes).length :=
  length_pos_iff.mpr (Varint.encode_ne_nil _)

theorem length_frame (bytes : Bytes) : (frame bytes).length = (lengthBytes bytes).length + bytes.length := by
  rw [frame_eq, length_append]

theorem nextBlockBytes_append (pre rest : Bytes) :
    nextBlockBytes (pre ++ rest) pre.length = nextBlockBytes rest 0 := by
  have hd : (pre ++ rest).drop pre.length = rest := drop_left
  have hlen : pre.length = (pre ++ rest).length ↔ 0 = rest.length := by
    rw [length_append]
    omega
  have hlt : ¬ (pre ++ rest).length < pre.length := by
    rw [length_append]
    omega
  rw [nextBlockBytes, nextBlockBytes, hd, drop_zero]
  simp only [hlen, hlt, if_false, Nat.not_lt_zero]

section

variable {bytes : Bytes} (hbytes : bytes.length < maxBlockBytes)
include hbytes

theorem nextBlockBytes_of_lengthBytes (rest : Bytes) :
    nextBlockBytes (lengthBytes bytes ++ rest) 0 =
      if rest.length < bytes.length then .err .unexpectedEndOfBlockfile
      else .ok (some (rest.take bytes.length, (lengthBytes bytes).length)) := by
  have hpos := length_lengthBytes_pos bytes
  have hle := length_lengthBytes_le hbytes
  have ht : (lengthBytes bytes ++ rest).take 8 =
      lengthBytes bytes ++ rest.take (8 - (lengthBytes bytes).length) := by
    rw [take_append, take_of_length_le hle]
  have hc : Varint.consume (lengthBytes bytes ++ rest.take (8 - (lengthBytes bytes).length)) =
      some (UInt64.ofNat bytes.length, rest.take (8 - (lengthBytes bytes).length)) :=
    Varint.consume_encode_append _ _
  have hn : (lengthBytes bytes ++ rest.take (8 - (lengthBytes bytes).length)).length -
      (rest.take (8 - (lengthBytes bytes).length)).length = (lengthBytes bytes).length := by
    rw [length_append]
    omega
  rw [nextBlockBytes, if_neg (by rw [length_append]; omega), if_neg (Nat.not_lt_zero _), drop_zero]
  dsimp only
  rw [ht, hc]
  dsimp only
  rw [hn, toNat_length hbytes, drop_left, length_append]
  simp only [Nat.add_lt_add_iff_left]

theorem nextBlockBytes_frame (rest : Bytes) :
    nextBlockBytes (frame bytes ++ rest) 0 = .ok (some (bytes, (lengthBytes bytes).length)) := by
  rw [frame_eq, append_assoc, nextBlockBytes_of_lengthBytes hbytes, if_neg (by rw [length_append]; omega),
    take_left]

theorem nextBlockBytes_torn {n : ℕ} (hpos : 0 < n) (hn : n < (frame bytes).length) :
    nextBlockBytes ((frame bytes).take n) 0 = .err .unexpectedEndOfBlockfile := by
  rw [length_frame] at hn
  rw [frame_eq, take_append]
  by_cases hlen : n < (lengthBytes bytes).length
  · -- The length itself is cut off.
    have hle := length_lengthBytes_le hbytes
    have hsz : ((lengthBytes bytes).take n).length = n := length_take_of_le hlen.le
    rw [Nat.sub_eq_zero_of_le hlen.le, take_zero, append_nil]
    rw [nextBlockBytes, if_neg (by omega), if_neg (Nat.not_lt_zero _), drop_zero]
    dsimp only
    have hnn : Varint.consume ((lengthBytes bytes).take n) = none := by
      apply Varint.consume_of_prefix (List.take_prefix n _)
      intro heq
      have hln : ((lengthBytes bytes).take n).length = (lengthBytes bytes).length := congrArg List.length heq
      omega
    rw [take_of_length_le (by omega), hnn]
    rw [if_pos (by omega)]
  · rw [take_of_length_le (by omega), nextBlockBytes_of_lengthBytes hbytes, if_pos]
    rw [length_take]
    omega

end

/-- The end of a file after a crash: nothing, or the beginning of a block. -/
def Torn (tail : Bytes) : Prop :=
  ∃ bytes n, bytes.length < maxBlockBytes ∧ n < (frame bytes).length ∧ tail = (frame bytes).take n

theorem torn_nil : Torn [] :=
  ⟨[], 0, by decide, by decide, rfl⟩

theorem Torn.nextBlockBytes {tail : Bytes} (h : Torn tail) (hne : tail ≠ []) :
    nextBlockBytes tail 0 = .err .unexpectedEndOfBlockfile := by
  obtain ⟨bytes, n, hbytes, hn, rfl⟩ := h
  refine nextBlockBytes_torn hbytes (Nat.pos_of_ne_zero ?_) hn
  rintro rfl
  exact hne rfl

structure Place where
  fileNum : ℕ
  offset : ℕ
  deriving DecidableEq

def frames (bs : List StoredBlock) : Bytes :=
  bs.flatMap fun b => frame b.bytes

@[simp] theorem frames_nil : frames [] = [] := rfl

@[simp] theorem frames_cons (b : StoredBlock) (bs : List StoredBlock) :
    frames (b :: bs) = frame b.bytes ++ frames bs := rfl

@[simp] theorem frames_append (bs bs' : List StoredBlock) : frames (bs ++ bs') = frames bs ++ frames bs' := by
  simp [frames]

theorem length_le_length_frames (bs : List StoredBlock) : bs.length ≤ (frames bs).length := by
  induction bs with
  | nil => exact Nat.zero_le _
  | cons b bs ih =>
    have hpos := length_lengthBytes_pos b.bytes
    rw [frames_cons, length_append, length_frame, length_cons]
    omega

def placedIn (fileNum : ℕ) : ℕ → List StoredBlock → List (Place × StoredBlock)
  | _, [] => []
  | offset, b :: bs => (⟨fileNum, offset⟩, b) :: placedIn fileNum (offset + (frame b.bytes).length) bs

def placedFrom : ℕ → List (List StoredBlock) → List (Place × StoredBlock)
  | _, [] => []
  | fileNum, bs :: segments => placedIn fileNum 0 bs ++ placedFrom (fileNum + 1) segments

def streamed (p : Place × StoredBlock) : BlockPlacementInfo × Bytes :=
  (⟨p.1.fileNum, p.1.offset, p.1.offset + (lengthBytes p.2.bytes).length⟩, p.2.bytes)

section

variable (fileNum : ℕ)

theorem map_snd_placedIn (offset : ℕ) (bs : List StoredBlock) : (placedIn fileNum offset bs).map Prod.snd = bs := by
  induction bs generalizing offset with
  | nil => rfl
  | cons b bs ih => rw [placedIn, map_cons, ih]

theorem map_snd_placedFrom (segments : List (List StoredBlock)) :
    (placedFrom fileNum segments).map Prod.snd = segments.flatten := by
  induction segments generalizing fileNum with
  | nil => rfl
  | cons bs segments ih => rw [placedFrom, map_append, map_snd_placedIn, ih, flatten_cons]

theorem placedIn_append (offset : ℕ) (bs bs' : List StoredBlock) :
    placedIn fileNum offset (bs ++ bs') =
      placedIn fileNum offset bs ++ placedIn fileNum (offset + (frames bs).length) bs' := by
  induction bs generalizing offset with
  | nil => rfl
  | cons b bs ih => simp [placedIn, ih, Nat.add_assoc]

theorem placedFrom_append (segments segments' : List (List StoredBlock)) :
    placedFrom fileNum (segments ++ segments') =
      placedFrom fileNum segments ++ placedFrom (fileNum + segments.length) segments' := by
  induction segments generalizing fileNum with
  | nil => rfl
  | cons bs segments ih => simp [placedFrom, ih, Nat.add_assoc, Nat.add_comm 1]

/-- The scan reads the complete blocks and stops at the torn end. By induction on the blocks; the bytes before the
offset play no part. -/
theorem scanRounds_frames {bs : List StoredBlock} (hbs : ∀ b ∈ bs, b.Readable) {tail : Bytes} (ht : Torn tail)
    (pre : Bytes) {rounds : ℕ} (hrn : bs.length < rounds) :
    scanRounds fileNum (pre ++ (frames bs ++ tail)) rounds pre.length =
      ⟨(placedIn fileNum pre.length bs).map streamed, pre.length + (frames bs).length,
        if tail = [] then .ok () else .err .unexpectedEndOfBlockfile⟩ := by
  induction bs generalizing pre rounds with
  | nil =>
    obtain ⟨rounds, rfl⟩ : ∃ r, rounds = r + 1 := ⟨rounds - 1, by simp at hrn; omega⟩
    rw [scanRounds, nextBlockBytes_append, frames_nil, nil_append]
    by_cases hne : tail = []
    · subst hne
      rfl
    · rw [ht.nextBlockBytes hne, if_neg hne]
      rfl
  | cons b bs ih =>
    obtain ⟨rounds, rfl⟩ : ∃ r, rounds = r + 1 := ⟨rounds - 1, by omega⟩
    have hb := hbs b mem_cons_self
    have hof : pre.length + (lengthBytes b.bytes).length + b.bytes.length = (pre ++ frame b.bytes).length := by
      rw [length_append, length_frame]
      omega
    rw [scanRounds, nextBlockBytes_append, frames_cons, append_assoc, nextBlockBytes_frame hb.size]
    dsimp only
    rw [hof, ← append_assoc, ih (fun b' hb' => hbs b' (mem_cons_of_mem _ hb')) (pre ++ frame b.bytes)
      (Nat.lt_of_succ_lt_succ hrn)]
    simp [placedIn, streamed, Nat.add_assoc]

theorem scanFile_frames (pre : List StoredBlock) {bs : List StoredBlock} (hbs : ∀ b ∈ bs, b.Readable) {tail : Bytes}
    (ht : Torn tail) :
    scanFile fileNum (frames (pre ++ bs) ++ tail) (frames pre).length =
      ⟨(placedIn fileNum (frames pre).length bs).map streamed, (frames (pre ++ bs)).length,
        if tail = [] then .ok () else .err .unexpectedEndOfBlockfile⟩ := by
  have hrn : bs.length < (frames (pre ++ bs) ++ tail).length + 1 := by
    have := length_le_length_frames bs
    simp only [frames_append, length_append]
    omega
  rw [scanFile]
  have h := scanRounds_frames fileNum hbs ht (frames pre) hrn
  simpa [append_assoc] using h

end

def FilesHold (files : AMap ℕ Bytes) (fileNum : ℕ) (segments : List (List StoredBlock)) : Prop :=
  ∀ i bs, segments[i]? = some bs → files.lookup (fileNum + i) = some (frames bs)

section

variable {files : AMap ℕ Bytes} {fileNum : ℕ} {bs : List StoredBlock} {segments : List (List StoredBlock)}
  (h : FilesHold files fileNum (bs :: segments))
include h

theorem FilesHold.head :
    files.lookup fileNum = some (frames bs) :=
  h 0 bs rfl

theorem FilesHold.tail : FilesHold files (fileNum + 1) segments := by
  intro i bs' hi
  rw [Nat.add_assoc, Nat.add_comm 1]
  exact h (i + 1) bs' hi

end

variable {files : AMap ℕ Bytes} {fileNum : ℕ} {segments : List (List StoredBlock)}

theorem streamBlocks_of_filesHold {pre bs : List StoredBlock} (h : FilesHold files fileNum ((pre ++ bs) :: segments))
    (hbs : ∀ b ∈ bs, b.Readable) (hsg : ∀ bs ∈ segments, ∀ b ∈ bs, b.Readable) :
    streamBlocks files segments.length fileNum (frames pre).length =
      .ok ((placedIn fileNum (frames pre).length bs ++ placedFrom (fileNum + 1) segments).map streamed) := by
  have hsc := scanFile_frames fileNum pre hbs torn_nil
  rw [append_nil] at hsc
  induction segments generalizing fileNum pre bs with
  | nil =>
    rw [length_nil, streamBlocks, openStream, h.head, orErr, ok_bind, hsc]
    simp [placedFrom]
  | cons bs' segments ih =>
    have hs' := scanFile_frames (fileNum + 1) [] (hsg bs' mem_cons_self) torn_nil
    rw [append_nil] at hs'
    have hn := @ih _ [] bs' h.tail (hsg bs' mem_cons_self)
      (fun bs hbs => hsg bs (mem_cons_of_mem _ hbs)) hs'
    rw [frames_nil, length_nil] at hn
    rw [length_cons, streamBlocks, openStream, h.head, orErr, ok_bind, hsc, hn]
    simp [placedFrom]

variable {before after : List (Place × StoredBlock)} {p : Place × StoredBlock}

theorem exists_of_placedIn_eq {offset : ℕ} {bs : List StoredBlock}
    (h : placedIn fileNum offset bs = before ++ p :: after) :
    ∃ pre post, bs = pre ++ p.2 :: post ∧ p.1 = ⟨fileNum, offset + (frames pre).length⟩ ∧
      after = placedIn fileNum (offset + (frames (pre ++ [p.2])).length) post := by
  induction bs generalizing offset before with
  | nil => simp [placedIn] at h
  | cons b bs ih =>
    cases before with
    | nil =>
      obtain ⟨rfl, rfl⟩ := cons_eq_cons.mp h
      exact ⟨[], bs, rfl, rfl, by simp⟩
    | cons q before =>
      obtain ⟨-, ht⟩ := cons_eq_cons.mp h
      obtain ⟨pre, post, rfl, hp, ha⟩ := ih ht
      refine ⟨b :: pre, post, rfl, ?_, ?_⟩
      · simp [hp, Nat.add_assoc]
      · simp [ha, Nat.add_assoc]

theorem streamBlocks_of_placedFrom_eq (h : FilesHold files fileNum segments)
    (hsg : ∀ bs ∈ segments, ∀ b ∈ bs, b.Readable) (hpl : placedFrom fileNum segments = before ++ p :: after) :
    streamBlocks files (fileNum + segments.length - 1 - p.1.fileNum) p.1.fileNum p.1.offset =
      .ok ((p :: after).map streamed) := by
  induction segments generalizing fileNum before with
  | nil => simp [placedFrom] at hpl
  | cons bs segments ih =>
    have hlt : ∀ {before : List (Place × StoredBlock)},
        placedFrom (fileNum + 1) segments = before ++ p :: after →
        streamBlocks files (fileNum + (bs :: segments).length - 1 - p.1.fileNum) p.1.fileNum p.1.offset =
          .ok ((p :: after).map streamed) := by
      intro before hlt
      have hm : fileNum + (bs :: segments).length - 1 - p.1.fileNum =
          fileNum + 1 + segments.length - 1 - p.1.fileNum := by
        rw [length_cons]
        omega
      rw [hm]
      exact ih h.tail (fun bs hbs => hsg bs (mem_cons_of_mem _ hbs)) hlt
    obtain ⟨rest, -, hr⟩ | ⟨rest, hin, hr⟩ := append_eq_append_iff.mp hpl
    · exact hlt hr
    · cases rest with
      | nil => exact @hlt [] hr.symm
      | cons q rest =>
        obtain ⟨rfl, rfl⟩ := cons_eq_cons.mp hr
        obtain ⟨pre, post, rfl, hp, rfl⟩ := exists_of_placedIn_eq hin
        have hrd := hsg _ mem_cons_self
        have hst := streamBlocks_of_filesHold h
          (fun b hb => hrd b (mem_append_right _ hb))
          (fun bs hbs => hsg bs (mem_cons_of_mem _ hbs))
        have hm : fileNum + ((pre ++ p.2 :: post) :: segments).length - 1 - fileNum = segments.length := by
          rw [length_cons]
          omega
        obtain ⟨place, b⟩ := p
        cases hp
        rw [hm, Nat.zero_add, hst]
        simp [placedIn]

end Drunix.BlkStorage
