import Drunix.BlkStorage.Recovery

namespace Drunix.BlkStorage

open Lib Proto Outcome List Option

variable {block : Block} {complete : Bool}

section

variable (codec : Codec) (sha256 : Bytes → Bytes) (computeTxID : Bytes → Bytes → Bytes) (conf : Conf)

structure Healthy (disk₀ : Disk) (full : List (List StoredBlock)) (cur : List StoredBlock) (mgr : BlockfileMgr) :
    Prop extends Synced codec sha256 computeTxID conf disk₀ full cur mgr where
  storable : ∀ b ∈ full.flatten ++ cur, Storable conf b
  firstFile : FirstFileUsed full cur

variable {codec sha256 computeTxID conf} {disk₀ disk : Disk} {full : List (List StoredBlock)} {cur : List StoredBlock}
  {mgr mgr' : BlockfileMgr} {b : StoredBlock}

namespace FirstFileUsed

section

variable (h : FirstFileUsed full cur)
include h

theorem eq_nil (he : full.flatten ++ cur = []) : full = [] ∧ cur = [] := by
  obtain hnil | ⟨b, bs, segments, hsg⟩ := h
  · exact hnil
  · have hc := congrArg List.flatten hsg
    rw [flatten_append, flatten_singleton, he] at hc
    simp at hc

theorem append (b : StoredBlock) : FirstFileUsed full (cur ++ [b]) := by
  right
  obtain ⟨rfl, rfl⟩ | ⟨b₀, bs, segments, hsg⟩ := h
  · exact ⟨b, [], [], rfl⟩
  · cases full with
    | nil =>
      obtain ⟨rfl, -⟩ := cons_eq_cons.mp hsg
      exact ⟨b₀, bs ++ [b], [], rfl⟩
    | cons bs' full =>
      obtain ⟨rfl, -⟩ := cons_eq_cons.mp hsg
      exact ⟨b₀, bs, full ++ [cur ++ [b]], rfl⟩

theorem next (hne : full.flatten ++ cur ≠ []) : FirstFileUsed (full ++ [cur]) [] := by
  right
  obtain ⟨rfl, rfl⟩ | ⟨b₀, bs, segments, hsg⟩ := h
  · exact absurd rfl hne
  · exact ⟨b₀, bs, segments ++ [[]], by rw [hsg]; rfl⟩

end

end FirstFileUsed

theorem nextBlockfilesInfo_eq (h : Synced codec sha256 computeTxID conf disk₀ full cur mgr)
    (hne : full.flatten ++ cur ≠ []) : mgr.nextBlockfilesInfo = infoOf (full ++ [cur]) [] := by
  have he : (full.flatten ++ cur).isEmpty = false := by simpa using hne
  rw [BlockfileMgr.nextBlockfilesInfo, h.info, infoOf, infoOf, append_nil, flatten_append, flatten_singleton, he]
  simp

theorem Ready.exists_appendBlock (h : Ready codec sha256 computeTxID conf disk₀ full cur mgr) (hb : Storable conf b) :
    ∃ mgr', mgr.appendBlock sha256 conf b.header b.bytes (blockInfo codec computeTxID b.header b.data b.metadata) =
      .ok mgr' := by
  obtain ⟨index, hi⟩ := @Storable.exists_indexPlaced codec sha256 computeTxID conf
    (⟨full.length, (frames cur).length⟩, b) hb mgr.disk.index
  rw [indexPlaced, ← h.blockIdxInfo_eq] at hi
  exact ⟨_, bind_eq_ok.mpr ⟨index, hi, rfl⟩⟩

@[simp] theorem blkMgrInfo_appended (mgr : BlockfileMgr) (bytes : Bytes) :
    (mgr.appended bytes).blkMgrInfo = mgr.disk.blkMgrInfo := rfl

theorem CrashedIn.snapshot (h : CrashedIn codec sha256 computeTxID conf mgr block complete disk) :
    disk.bootstrappingSnapshotInfo = mgr.disk.bootstrappingSnapshotInfo := by
  have hf : ∀ bytes, (mgr.inFile conf bytes).disk.bootstrappingSnapshotInfo =
      mgr.disk.bootstrappingSnapshotInfo := by
    intro bytes
    unfold BlockfileMgr.inFile
    split <;> rfl
  cases h with
  | untouched => rfl
  | nextFileOpened => rfl
  | appending => exact hf _
  | infoSaved => exact hf _
  | indexed had =>
    obtain ⟨_, _, ha⟩ := bind_eq_ok.mp had
    obtain ⟨index, _, hok⟩ := bind_eq_ok.mp ha
    cases hok
    exact hf _

namespace Healthy

section

variable (h : Healthy codec sha256 computeTxID conf disk₀ full cur mgr)
include h

theorem inFile {blockBytes : Bytes}
    (hfits : full.flatten ++ cur = [] → (frame blockBytes).length ≤ conf.maxBlockfileSize) :
    ∃ full' cur', full'.flatten ++ cur' = full.flatten ++ cur ∧
      Healthy codec sha256 computeTxID conf disk₀ full' cur' (mgr.inFile conf blockBytes) := by
  unfold BlockfileMgr.inFile
  split
  next hn =>
    have hne : full.flatten ++ cur ≠ [] := by
      intro he
      obtain ⟨rfl, rfl⟩ := h.firstFile.eq_nil he
      have hsz := h.fileSize
      have hle := hfits rfl
      rw [BlockfileMgr.NeedsNextFile, hsz, frames_nil, length_nil] at hn
      omega
    have hc : (full ++ [cur]).flatten ++ [] = full.flatten ++ cur := by simp
    have hi := nextBlockfilesInfo_eq h.toSynced hne
    exact ⟨full ++ [cur], [], hc, ⟨⟨h.moveToNextFile, hi, congrArg some hi⟩, by rw [hc]; exact h.storable,
      h.firstFile.next hne⟩⟩
  next => exact ⟨full, cur, rfl, h⟩

theorem recoverable :
    Recoverable codec sha256 computeTxID conf disk₀ full cur mgr.disk where
  files := fun i bs hi => h.files i bs (by rwa [List.getElem?_append_left (List.getElem?_eq_some_iff.mp hi).1])
  current := ⟨[], torn_nil, by
    rw [append_nil]
    exact h.files.lookup (by simp)⟩
  beyond := h.beyond
  snapshot := h.snapshot
  saved := ⟨cur, [], (append_nil cur).symm, h.saved, fun _ hne => absurd rfl hne⟩
  index := ⟨_, [], (append_nil _).symm, h.index⟩
  numbered := h.numbered
  storable := h.storable
  firstFile := h.firstFile

theorem recoverable_nextFileOpened :
    Recoverable codec sha256 computeTxID conf disk₀ full cur
      (mgr.disk.openFile mgr.nextBlockfilesInfo.latestFileNumber) := by
  have hn : mgr.nextBlockfilesInfo.latestFileNumber = full.length + 1 := congrArg (· + 1) h.fileNumber
  have hlk : ∀ k, ((mgr.disk.openFile mgr.nextBlockfilesInfo.latestFileNumber).files.lookup k).getD [] =
        (mgr.disk.files.lookup k).getD [] ∧
      (k ≤ full.length → (mgr.disk.openFile mgr.nextBlockfilesInfo.latestFileNumber).files.lookup k =
        mgr.disk.files.lookup k) := by
    intro k
    rw [Disk.openFile, AMap.lookup_modify]
    constructor
    · split
      next heq => rw [heq]; rfl
      next => rfl
    · exact fun hk => if_neg (by omega)
  have hbs := h.recoverable
  obtain ⟨tail, ht, hc⟩ := hbs.current
  exact { hbs with
    files := fun i bs hi => by
      have hlt := (List.getElem?_eq_some_iff.mp hi).1
      rw [(hlk _).2 (by omega)]
      exact hbs.files i bs hi
    current := ⟨tail, ht, by rw [(hlk _).2 le_rfl]; exact hc⟩
    beyond := fun k hk => by rw [(hlk k).1]; exact hbs.beyond k hk }

theorem lookup_appended (bytes : Bytes) :
    FilesHold (mgr.appended bytes).files 0 full ∧
      (mgr.appended bytes).files.lookup full.length = some (frames cur ++ bytes) := by
  have hc : (full ++ [cur])[full.length]? = some cur := by simp
  have hlk : ∀ k, (mgr.appended bytes).files.lookup k =
      if k = full.length then some (frames cur ++ bytes) else mgr.disk.files.lookup k := by
    intro k
    rw [BlockfileMgr.appended, h.fileNumber, Disk.append, AMap.lookup_modify, h.files.lookup hc, getD_some]
  refine ⟨fun i bs hi => ?_, by rw [hlk, if_pos rfl]⟩
  have hlt := (List.getElem?_eq_some_iff.mp hi).1
  rw [Nat.zero_add, hlk, if_neg hlt.ne]
  exact h.recoverable.files.lookup hi

theorem recoverable_torn {tail : Bytes} (ht : Torn tail) :
    Recoverable codec sha256 computeTxID conf disk₀ full cur (mgr.appended tail) := by
  obtain ⟨hf, hc⟩ := h.lookup_appended tail
  exact { h.recoverable with
    files := hf
    current := ⟨tail, ht, hc⟩
    beyond := h.beyond_appended tail }

theorem saveBlkfilesInfo_appended (bytes : Bytes) :
    (mgr.appended bytes).saveBlkfilesInfo (infoOf full cur) = mgr.appended bytes := by
  rw [Disk.saveBlkfilesInfo, ← h.saved]
  rfl

theorem storable_concat (hb : Storable conf b) : ∀ b' ∈ full.flatten ++ (cur ++ [b]), Storable conf b' := by
  intro b' hb'
  rw [← append_assoc, mem_append, mem_singleton] at hb'
  obtain hb' | rfl := hb'
  · exact h.storable b' hb'
  · exact hb

theorem recoverable_complete (hb : Storable conf b) (hnm : b.header.number = mgr.bcInfo.height)
    (hbound : b.header.number.toNat + 1 < UInt64.size) {info : BlockfilesInfo}
    (hi : info = infoOf full (cur ++ [b]) ∨ info = infoOf full cur ∧ (full.flatten ++ cur = [] → disk₀.firstPossibleBlockNumberInBlockFiles = 0)) :
    Recoverable codec sha256 computeTxID conf disk₀ full (cur ++ [b])
      ((mgr.appended (frame b.bytes)).saveBlkfilesInfo info) := by
  obtain ⟨hf, hc⟩ := h.lookup_appended (frame b.bytes)
  have hfr : frames cur ++ frame b.bytes = frames (cur ++ [b]) := by simp
  refine ⟨hf, ⟨[], torn_nil, ?_⟩, h.beyond_appended _, h.snapshot, ?_, ?_, h.numbered_concat hnm hbound,
    h.storable_concat hb, h.firstFile.append b⟩
  · rw [append_nil, ← hfr]
    exact hc
  · obtain rfl | ⟨rfl, hfi⟩ := hi
    · exact ⟨cur ++ [b], [], (append_nil _).symm, rfl, fun _ hne => absurd rfl hne⟩
    · exact ⟨cur, [b], rfl, rfl, fun he _ => hfi he⟩
  · exact ⟨placedFrom 0 (full ++ [cur]), [(⟨full.length, (frames cur).length⟩, b)], placedFrom_snoc full cur b, h.index⟩

theorem inFile_of_blockToAppend (hb : block = ⟨some b.header, some b.data, some b.metadata, block.blockType⟩)
    (hfits : full.flatten ++ cur = [] → (frame b.bytes).length ≤ conf.maxBlockfileSize) {header : BlockHeader}
    {bytes : Bytes} {info : SerializedBlockInfo}
    (hbl : blockToAppend codec computeTxID mgr block = .ok (header, bytes, info)) :
    header = b.header ∧ bytes = b.bytes ∧ info = blockInfo codec computeTxID b.header b.data b.metadata ∧
      ∃ full' cur', full'.flatten ++ cur' = full.flatten ++ cur ∧
        Healthy codec sha256 computeTxID conf disk₀ full' cur' (mgr.inFile conf b.bytes) ∧
        b.header.number = (mgr.inFile conf b.bytes).bcInfo.height := by
  obtain ⟨b', hb', rfl, rfl, rfl, hnm, -⟩ := blockToAppend_eq_ok hbl
  obtain rfl : b' = b := by
    rw [hb] at hb'
    cases b'
    cases hb'
    rfl
  obtain ⟨full', cur', hc, hh⟩ := h.inFile hfits
  refine ⟨rfl, rfl, rfl, full', cur', hc, hh, ?_⟩
  rw [hnm, hh.bcInfo, h.bcInfo, hc]

theorem appendBlock (hb : Storable conf b) (hnm : b.header.number = mgr.bcInfo.height)
    (hbound : b.header.number.toNat + 1 < UInt64.size)
    (ha : mgr.appendBlock sha256 conf b.header b.bytes (blockInfo codec computeTxID b.header b.data b.metadata) = .ok mgr') :
    Healthy codec sha256 computeTxID conf disk₀ full (cur ++ [b]) mgr' :=
  ⟨h.toReady.appendBlock hnm hbound ha, h.storable_concat hb, h.firstFile.append b⟩

end

section

variable (h : Healthy codec sha256 computeTxID conf disk₀ full cur mgr)
  (hb : block = ⟨some b.header, some b.data, some b.metadata, block.blockType⟩) (hstorable : Storable conf b)
  (hbound : b.header.number.toNat + 1 < UInt64.size)
  (hfits : full.flatten ++ cur = [] → (frame b.bytes).length ≤ conf.maxBlockfileSize)
include h hb hstorable hbound hfits

theorem addBlock (had : mgr.addBlock codec sha256 computeTxID conf block = .ok mgr') :
    ∃ full' cur', full'.flatten ++ cur' = full.flatten ++ cur ++ [b] ∧
      Healthy codec sha256 computeTxID conf disk₀ full' cur' mgr' := by
  obtain ⟨⟨header, bytes, info⟩, hbl, ha⟩ := bind_eq_ok.mp had
  obtain ⟨rfl, rfl, rfl, full', cur', hc, hh, hnm⟩ := h.inFile_of_blockToAppend hb hfits hbl
  exact ⟨full', cur' ++ [b], by rw [← append_assoc, hc],
    hh.appendBlock hstorable hnm hbound ha⟩

theorem recoverable_of_crashedIn (hcr : CrashedIn codec sha256 computeTxID conf mgr block complete disk)
    (hf : full.flatten ++ cur = [] → complete = true → (∀ info ∈ disk.blkMgrInfo, info.noBlockFiles = false) ∨ disk₀.firstPossibleBlockNumberInBlockFiles = 0) :
    ∃ full' cur', full'.flatten ++ cur' = full.flatten ++ cur ++ (if complete then [b] else []) ∧
      Recoverable codec sha256 computeTxID conf disk₀ full' cur' disk := by
  cases hcr with
  | untouched => exact ⟨full, cur, by simp, h.recoverable⟩
  | nextFileOpened hbl hnx => exact ⟨full, cur, by simp, h.recoverable_nextFileOpened⟩
  | appending n hbl hn =>
    obtain ⟨rfl, rfl, rfl, full', cur', hc, hh, hnm⟩ := h.inFile_of_blockToAppend hb hfits hbl
    by_cases hcm : n = (frame b.bytes).length
    · rw [decide_eq_true hcm] at hf ⊢
      rw [hcm, take_length] at hf ⊢
      refine ⟨full', cur' ++ [b], by rw [← append_assoc, hc]; rfl, ?_⟩
      have hbs : full'.flatten ++ cur' = [] → disk₀.firstPossibleBlockNumberInBlockFiles = 0 := by
        intro he
        refine (hf (by rw [← hc]; exact he) rfl).resolve_left fun hi => ?_
        -- The record still says that there is no block.
        rw [blkMgrInfo_appended, hh.saved] at hi
        have hfl : (full'.flatten ++ cur').isEmpty = false := hi (infoOf full' cur') rfl
        rw [he] at hfl
        cases hfl
      rw [← hh.saveBlkfilesInfo_appended]
      exact hh.recoverable_complete hstorable hnm hbound (.inr ⟨rfl, hbs⟩)
    · rw [decide_eq_false hcm]
      exact ⟨full', cur', by simp [hc],
        hh.recoverable_torn ⟨b.bytes, n, hstorable.size, lt_of_le_of_ne hn hcm, rfl⟩⟩
  | infoSaved hbl =>
    obtain ⟨rfl, rfl, rfl, full', cur', hc, hh, hnm⟩ := h.inFile_of_blockToAppend hb hfits hbl
    refine ⟨full', cur' ++ [b], by rw [← append_assoc, hc]; rfl, ?_⟩
    exact hh.recoverable_complete hstorable hnm hbound (.inl (hh.newBlkfilesInfo_eq b))
  | indexed ha =>
    obtain ⟨full', cur', hc, hh⟩ := h.addBlock hb hstorable hbound hfits ha
    exact ⟨full', cur', hc, hh.recoverable⟩

end

theorem exists_addBlock (h : Healthy codec sha256 computeTxID conf disk₀ full cur mgr) (hb : Storable conf b)
    (hnm : b.header.number = mgr.bcInfo.height) (hpr : b.header.previousHash = mgr.bcInfo.currentBlockHash)
    (blockType : HeaderType) :
    ∃ mgr', mgr.addBlock codec sha256 computeTxID conf ⟨some b.header, some b.data, some b.metadata, blockType⟩ =
      .ok mgr' := by
  have hbl : blockToAppend codec computeTxID mgr ⟨some b.header, some b.data, some b.metadata, blockType⟩ =
      .ok (b.header, b.bytes, blockInfo codec computeTxID b.header b.data b.metadata) := by
    rw [blockToAppend, Outcome.deref, ok_bind, if_neg (not_not.mpr hnm), if_neg (not_not.mpr hpr), serializeBlock_mk]
    rfl
  obtain ⟨full', cur', -, -, hr⟩ := h.toReady.inFile b.bytes
  obtain ⟨mgr', ha⟩ := hr.exists_appendBlock hb
  exact ⟨mgr', bind_eq_ok.mpr ⟨_, hbl, ha⟩⟩

end Healthy

section

variable (conf)

/-- A block that the store can take: no part is nil, it is read back and indexed, its number is not the last one, and
the first block of a store fits into a file. -/
def Acceptable (written : List Block) (block : Block) : Prop :=
  ∃ b : StoredBlock, block = ⟨some b.header, some b.data, some b.metadata, block.blockType⟩ ∧ Storable conf b ∧
    b.header.number.toNat + 1 < UInt64.size ∧ (written = [] → (frame b.bytes).length ≤ conf.maxBlockfileSize)

end

structure Store where
  written : List Block := []
  disk : Disk
  mgr : Option BlockfileMgr := none

inductive StoreEvent
  | opened
  | added (block : Block)
  | crashed (block : Block) (complete : Bool) (disk : Disk)

section

variable (codec sha256 computeTxID conf)

inductive StoreStep (s : Store) : StoreEvent → Store → Prop
  | opened {mgr : BlockfileMgr} (hclosed : s.mgr = none)
      (hopen : newBlockfileMgr codec sha256 computeTxID conf s.disk = .ok mgr) :
      StoreStep s .opened ⟨s.written, mgr.disk, some mgr⟩
  | added {mgr mgr' : BlockfileMgr} {block : Block} (hmgr : s.mgr = some mgr)
      (hadd : mgr.addBlock codec sha256 computeTxID conf block = .ok mgr') :
      StoreStep s (.added block) ⟨s.written ++ [block], mgr'.disk, some mgr'⟩
  | crashed {mgr : BlockfileMgr} {block : Block} {complete : Bool} {disk : Disk} (hmgr : s.mgr = some mgr)
      (hcrash : CrashedIn codec sha256 computeTxID conf mgr block complete disk) :
      StoreStep s (.crashed block complete disk) ⟨if complete then s.written ++ [block] else s.written, disk, none⟩

/-- The blocks can be stored; and a store from a snapshot does not crash when its first block is complete and the
record still says that there is none. -/
def Store.Allowed (s : Store) : StoreEvent → Prop
  | .opened => True
  | .added block => Acceptable conf s.written block
  | .crashed block complete disk => Acceptable conf s.written block ∧
      (s.written = [] → complete = true → disk.bootstrappingSnapshotInfo ≠ none →
        ∀ info ∈ disk.blkMgrInfo, info.noBlockFiles = false)

def StoreRun (disk₀ : Disk) : Store → Prop :=
  Reachable (fun s => s = { disk := disk₀ }) fun s t => ∃ event, StoreStep codec sha256 computeTxID conf s event t

def AllowedRun (disk₀ : Disk) : Store → Prop :=
  Reachable (fun s => s = { disk := disk₀ }) fun s t =>
    ∃ event, StoreStep codec sha256 computeTxID conf s event t ∧ s.Allowed conf event

end

def Block.untyped (block : Block) : Block :=
  { block with blockType := .message }

theorem untyped_eq_toBlock (h : block = ⟨some b.header, some b.data, some b.metadata, block.blockType⟩) :
    block.untyped = b.toBlock := by
  rw [h]
  rfl

section

variable (codec sha256 computeTxID conf)

/-- The blocks in the files are those that were written, and the store is open and sound, or a start makes it so. -/
structure StoreInv (disk₀ : Disk) (full : List (List StoredBlock)) (cur : List StoredBlock) (s : Store) : Prop where
  written : s.written.map Block.untyped = (full.flatten ++ cur).map StoredBlock.toBlock
  opened : ∀ mgr ∈ s.mgr, Healthy codec sha256 computeTxID conf disk₀ full cur mgr
  closed : s.mgr = none →
    s.disk = disk₀ ∧ full = [] ∧ cur = [] ∨ Recoverable codec sha256 computeTxID conf disk₀ full cur s.disk

def Store.Recovers (disk₀ : Disk) (s : Store) : Prop :=
  ∃ mgr full cur, newBlockfileMgr codec sha256 computeTxID conf s.disk = .ok mgr ∧
    (full.flatten ++ cur).map StoredBlock.toBlock = s.written.map Block.untyped ∧
    mgr.bcInfo.height = (s.written.getLast?.bind Block.header).elim disk₀.firstPossibleBlockNumberInBlockFiles
      (fun header => header.number + 1) ∧
    FilesHold mgr.disk.files 0 (full ++ [cur]) ∧ (∀ k, full.length < k → (mgr.disk.files.lookup k).getD [] = []) ∧
    (placedFrom 0 (full ++ [cur])).foldlM (indexPlaced codec sha256 computeTxID conf) disk₀.index =
      .ok mgr.disk.index ∧
    (∀ block ∈ s.written, ∀ header ∈ block.header,
      mgr.retrieveBlockByNumber codec computeTxID conf header.number = .ok block.untyped) ∧
    ∀ b : StoredBlock, Storable conf b → b.header.number = mgr.bcInfo.height →
      b.header.previousHash = mgr.bcInfo.currentBlockHash → ∀ blockType, ∃ mgr',
        mgr.addBlock codec sha256 computeTxID conf ⟨some b.header, some b.data, some b.metadata, blockType⟩ = .ok mgr'

end

namespace StoreInv

variable {s t : Store}

theorem written_eq_nil_iff (h : StoreInv codec sha256 computeTxID conf disk₀ full cur s) :
    s.written = [] ↔ full.flatten ++ cur = [] := by
  rw [← map_eq_nil_iff, h.written, map_eq_nil_iff]

theorem exists_newBlockfileMgr (hf : Fresh disk₀) (ha : .blockNum ∈ conf.attrsToIndex)
    (h : StoreInv codec sha256 computeTxID conf disk₀ full cur s) (hc : s.mgr = none) :
    ∃ mgr, newBlockfileMgr codec sha256 computeTxID conf s.disk = .ok mgr ∧
      Healthy codec sha256 computeTxID conf disk₀ full cur mgr := by
  obtain ⟨hd, rfl, rfl⟩ | hrc := h.closed hc
  · rw [hd]
    exact ⟨_, hf.newBlockfileMgr_eq, hf.synced, by simp, .inl ⟨rfl, rfl⟩⟩
  · obtain ⟨mgr, ho, hsy⟩ := hrc.newBlockfileMgr hf ha
    exact ⟨mgr, ho, hsy, hrc.storable, hrc.firstFile⟩

theorem of_healthy {written : List Block}
    (hw : written.map Block.untyped = (full.flatten ++ cur).map StoredBlock.toBlock)
    (h : Healthy codec sha256 computeTxID conf disk₀ full cur mgr) :
    StoreInv codec sha256 computeTxID conf disk₀ full cur ⟨written, mgr.disk, some mgr⟩ :=
  ⟨hw, fun mgr' hm' => Option.some.inj hm' ▸ h, fun hc => by cases hc⟩

theorem step (hf : Fresh disk₀) (hat : .blockNum ∈ conf.attrsToIndex)
    (h : StoreInv codec sha256 computeTxID conf disk₀ full cur s) {event : StoreEvent}
    (hst : StoreStep codec sha256 computeTxID conf s event t) (ha : s.Allowed conf event) :
    ∃ full' cur', StoreInv codec sha256 computeTxID conf disk₀ full' cur' t := by
  cases hst with
  | opened hcl ho =>
    obtain ⟨mgr, ho', hh⟩ := h.exists_newBlockfileMgr hf hat hcl
    rw [ho] at ho'
    cases ho'
    exact ⟨full, cur, of_healthy h.written hh⟩
  | added hm had =>
    obtain ⟨b, hb, hstorable, hbound, hfits⟩ := ha
    rw [h.written_eq_nil_iff] at hfits
    obtain ⟨full', cur', hc, hh⟩ := (h.opened _ hm).addBlock hb hstorable hbound hfits had
    refine ⟨full', cur', of_healthy ?_ hh⟩
    rw [hc, map_append, map_append, h.written, map_singleton, map_singleton, untyped_eq_toBlock hb]
  | @crashed _ _ complete disk hm hcr =>
    obtain ⟨⟨b, hb, hstorable, hbound, hfits⟩, hfr⟩ := ha
    rw [h.written_eq_nil_iff] at hfits hfr
    have hh := h.opened _ hm
    obtain ⟨full', cur', hc, hrc⟩ :=
      hh.recoverable_of_crashedIn hb hstorable hbound hfits hcr fun he hcm => by
        by_cases hsn : disk.bootstrappingSnapshotInfo = none
        · right
          rw [hcr.snapshot, hh.snapshot] at hsn
          rw [Disk.firstPossibleBlockNumberInBlockFiles, hsn]
          rfl
        · exact .inl (hfr he hcm hsn)
    refine ⟨full', cur', ?_, fun mgr hm => (by cases hm), fun _ => .inr hrc⟩
    rw [hc, map_append, ← h.written]
    cases complete with
    | false => simp
    | true => simp [untyped_eq_toBlock hb]

section

variable (h : StoreInv codec sha256 computeTxID conf disk₀ full cur s)
include h

theorem getLast?_written :
    s.written.getLast?.bind Block.header = (full.flatten ++ cur).getLast?.map StoredBlock.header := by
  have hl := congrArg List.getLast? h.written
  rw [getLast?_map, getLast?_map] at hl
  cases hc : (full.flatten ++ cur).getLast? with
  | none =>
    rw [hc, map_none, map_eq_none_iff] at hl
    rw [hl]
    rfl
  | some b =>
    rw [hc, map_some, map_eq_some_iff] at hl
    obtain ⟨block, hbl, hu⟩ := hl
    rw [hbl]
    exact congrArg Block.header hu

end

theorem recovers (hf : Fresh disk₀) (ha : .blockNum ∈ conf.attrsToIndex)
    (h : StoreInv codec sha256 computeTxID conf disk₀ full cur s) (hc : s.mgr = none) :
    s.Recovers codec sha256 computeTxID conf disk₀ := by
  obtain ⟨mgr, ho, hh⟩ := h.exists_newBlockfileMgr hf ha hc
  refine ⟨mgr, full, cur, ho, h.written.symm, ?_, hh.files, hh.beyond, hh.index, ?_, ?_⟩
  · rw [h.getLast?_written, hh.bcInfo, bcInfoOf]
    cases (full.flatten ++ cur).getLast? with
    | none => exact height_bootstrappedInfo disk₀
    | some b => rfl
  · intro block hbl header hhd
    have hm := mem_map_of_mem (f := Block.untyped) hbl
    rw [h.written] at hm
    obtain ⟨b, hb, hu⟩ := mem_map.mp hm
    have hsm : some b.header = some header := (congrArg Block.header hu).trans hhd
    cases hsm
    rw [← hu]
    exact hh.retrieveBlock ha hb (hh.storable b hb).toReadable
  · intro b hb hnm hpr blockType
    exact hh.exists_addBlock hb hnm hpr blockType

end StoreInv

end

/-- Whatever blocks are added and wherever the store crashes, a start recovers it; but the first block has to fit into
the first file, and after a snapshot its record has to be saved with it. -/
theorem recovers_of_allowedRun {codec : Codec} {sha256 : Bytes → Bytes} {computeTxID : Bytes → Bytes → Bytes}
    {conf : Conf} {disk₀ : Disk} (hfresh : Fresh disk₀) (hattr : .blockNum ∈ conf.attrsToIndex) {s : Store}
    (hrun : AllowedRun codec sha256 computeTxID conf disk₀ s) (hclosed : s.mgr = none) :
    s.Recovers codec sha256 computeTxID conf disk₀ := by
  have hi : ∃ full cur, StoreInv codec sha256 computeTxID conf disk₀ full cur s := by
    refine hrun.invariant (fun s => ∃ full cur, StoreInv codec sha256 computeTxID conf disk₀ full cur s) ?_ ?_
    · rintro s rfl
      exact ⟨[], [], rfl, fun mgr hm => (by cases hm), fun _ => .inl ⟨rfl, rfl, rfl⟩⟩
    · rintro s t ⟨full, cur, h⟩ ⟨event, hst, ha⟩
      exact h.step hfresh hattr hst ha
  obtain ⟨full, cur, h⟩ := hi
  exact h.recovers hfresh hattr hclosed

def exampleConf : Conf where
  maxBlockfileSize := 64
  attrsToIndex := [.blockNum, .blockNumTranNum]

def exampleStored (number : UInt64) (previousHash : Bytes) : StoredBlock where
  header := { number, previousHash, dataHash := [0x0a] }
  data := [[0x01, 0x02]]
  metadata := [[], [], [0x00]]

def snapshotDisk : Disk where
  index := { indexSavePoint := some 4 }
  bootstrappingSnapshotInfo := some ⟨4, [0x01], [0x02]⟩

theorem fresh_snapshotDisk : Fresh snapshotDisk :=
  ⟨rfl, rfl, rfl, by rintro _ ⟨⟩; decide⟩

def snapshotMgr : BlockfileMgr :=
  ⟨snapshotDisk.started, ⟨0, 0, true, 0⟩, bootstrappedInfo snapshotDisk.bootstrappingSnapshotInfo⟩

def firstAdded : BlockfileMgr :=
  match snapshotMgr.addBlock Codec.none id (fun _ _ => []) exampleConf (exampleStored 5 [0x01]).toBlock with
  | .ok mgr => mgr
  | _ => snapshotMgr

theorem storable_exampleStored {n : UInt64} {hash : Bytes} (h : (exampleStored n hash).Readable) :
    Storable exampleConf (exampleStored n hash) :=
  ⟨h, [0x00], rfl, fun h => by simp [exampleConf] at h⟩

/-- The store from a snapshot crashes three bytes into its second block. -/
theorem recovers_of_allowedRun_torn_block :
    ∃ s : Store, Fresh snapshotDisk ∧ AllowedRun Codec.none id (fun _ _ => []) exampleConf snapshotDisk s ∧
      s.mgr = none ∧ s.written.length = 1 ∧ ((s.disk.files.lookup 0).getD []).drop 15 = [0x18, 0x06, 0x01] ∧
      s.Recovers Codec.none id (fun _ _ => []) exampleConf snapshotDisk := by
  have hbl : blockToAppend Codec.none (fun _ _ => []) firstAdded
      (exampleStored 6 (blockHeaderHash id (exampleStored 5 [0x01]).header)).toBlock = .ok _ := rfl
  have hcr : CrashedIn Codec.none id (fun _ _ => []) exampleConf _ _ _ _ := .appending 3 hbl (by decide)
  have hop : AllowedRun Codec.none id (fun _ _ => []) exampleConf snapshotDisk ⟨[], _, some snapshotMgr⟩ :=
    .step (.init rfl) ⟨_, .opened rfl fresh_snapshotDisk.newBlockfileMgr_eq, trivial⟩
  have had : AllowedRun Codec.none id (fun _ _ => []) exampleConf snapshotDisk ⟨_, _, some firstAdded⟩ :=
    hop.step ⟨.added (exampleStored 5 [0x01]).toBlock, .added rfl rfl, _, rfl,
      storable_exampleStored (by constructor <;> decide), by decide, fun _ => by decide⟩
  have hrn := had.step ⟨_, .crashed rfl hcr, ⟨_, rfl, storable_exampleStored (by constructor <;> decide), by decide,
    fun _ => by decide⟩, fun _ hc => absurd hc (by decide)⟩
  refine ⟨_, fresh_snapshotDisk, hrn, rfl, rfl, by decide, ?_⟩
  exact recovers_of_allowedRun fresh_snapshotDisk (by decide) hrn rfl

def CrashedInFirst (conf : Conf) (disk₀ : Disk) (s : Store) : Prop :=
  StoreRun Codec.none id (fun _ _ => []) conf disk₀ s ∧ s.mgr = none ∧ ∃ mgr block complete,
    newBlockfileMgr Codec.none id (fun _ _ => []) conf disk₀ = .ok mgr ∧
      CrashedIn Codec.none id (fun _ _ => []) conf mgr block complete s.disk ∧
      s.written = if complete then [block] else []

theorem CrashedInFirst.intro {conf : Conf} {disk₀ disk : Disk} {mgr : BlockfileMgr}
    (ho : newBlockfileMgr Codec.none id (fun _ _ => []) conf disk₀ = .ok mgr)
    (hc : CrashedIn Codec.none id (fun _ _ => []) conf mgr block complete disk) :
    CrashedInFirst conf disk₀ ⟨if complete then [block] else [], disk, none⟩ :=
  ⟨.step (.step (.init rfl) ⟨_, .opened rfl ho⟩) ⟨_, .crashed rfl hc⟩, rfl, mgr, block, complete, ho, hc,
    rfl⟩

/-- A store cannot be opened again: after a snapshot, if the first block is complete and its record is not saved; if the
first block is larger than a file, with nothing of it written; and if its metadata has no flags. -/
theorem reopening_fails_after_crash_in_first_block :
    (∃ s, CrashedInFirst exampleConf snapshotDisk s ∧ s.written ≠ [] ∧
      newBlockfileMgr Codec.none id (fun _ _ => []) exampleConf s.disk = .panic) ∧
    (∃ s, CrashedInFirst { exampleConf with maxBlockfileSize := 4 } {} s ∧ s.written = [] ∧
      ∃ e, newBlockfileMgr Codec.none id (fun _ _ => []) { exampleConf with maxBlockfileSize := 4 } s.disk = .err e) ∧
    ∃ s, CrashedInFirst exampleConf {} s ∧ s.written ≠ [] ∧
      newBlockfileMgr Codec.none id (fun _ _ => []) exampleConf s.disk = .panic := by
  have hf : Fresh {} := ⟨rfl, rfl, rfl, by rintro _ ⟨⟩⟩
  refine ⟨?_, ?_, ?_⟩
  · have hbl : blockToAppend Codec.none (fun _ _ => [])
        snapshotMgr (exampleStored 5 [0x01]).toBlock = .ok _ := rfl
    exact ⟨_, .intro fresh_snapshotDisk.newBlockfileMgr_eq (.appending 15 hbl (by decide)), by decide, rfl⟩
  · have hbl : blockToAppend Codec.none (fun _ _ => []) ⟨Disk.started {}, ⟨0, 0, true, 0⟩, bootstrappedInfo none⟩
        (exampleStored 0 []).toBlock = .ok _ := rfl
    exact ⟨_, .intro hf.newBlockfileMgr_eq (.appending 0 hbl (by decide)), rfl, _, rfl⟩
  · have hbl : blockToAppend Codec.none (fun _ _ => []) ⟨Disk.started {}, ⟨0, 0, true, 0⟩, bootstrappedInfo none⟩
        { exampleStored 0 [] with metadata := [] }.toBlock = .ok _ := rfl
    exact ⟨_, .intro hf.newBlockfileMgr_eq (.infoSaved hbl), by decide, rfl⟩

end Drunix.BlkStorage
