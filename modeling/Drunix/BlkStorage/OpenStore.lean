import Drunix.BlkStorage.Layout
import Drunix.Lib.Lists
import Drunix.Lib.Transition

namespace Drunix.BlkStorage

open Lib Proto Outcome List

theorem indexTxs_pure {σ : Type} (put : σ → UInt64 → TxIndexInfo → σ) (s : σ) (txOffsets : List TxIndexInfo) :
    indexTxs (fun s i tx => .ok (put s i tx)) s txOffsets =
      .ok (txOffsets.zipIdx.foldl (fun s tx => put s (UInt64.ofNat tx.2) tx.1) s) :=
  foldlM_eq_ok_foldl fun _ _ _ => rfl

def putTxs (n : UInt64) (loc : TxIndexInfo → FileLocPointer) (txs : List TxIndexInfo)
    (entries : UInt64 × UInt64 → Option FileLocPointer) : UInt64 × UInt64 → Option FileLocPointer :=
  txs.zipIdx.foldl (fun s tx => Function.update s (n, UInt64.ofNat tx.2) (some (loc tx.1))) entries

theorem putTxs_append_singleton (n : UInt64) (loc : TxIndexInfo → FileLocPointer) (txs : List TxIndexInfo)
    (last : TxIndexInfo) (entries : UInt64 × UInt64 → Option FileLocPointer) :
    putTxs n loc (txs ++ [last]) entries =
      Function.update (putTxs n loc txs entries) (n, UInt64.ofNat txs.length) (some (loc last)) := by
  simp [putTxs, zipIdx_append]

variable {n : UInt64}

theorem putTxs_of_ne {m : UInt64} (hm : m ≠ n) (loc : TxIndexInfo → FileLocPointer) (txs : List TxIndexInfo)
    (entries : UInt64 × UInt64 → Option FileLocPointer) (i : UInt64) :
    putTxs n loc txs entries (m, i) = entries (m, i) := by
  induction txs using List.reverseRecOn with
  | nil => rfl
  | append_singleton txs last ih =>
    rw [putTxs_append_singleton, Function.update_of_ne (fun heq => hm (congrArg Prod.fst heq)), ih]

variable {i : ℕ}

theorem putTxs_self {loc : TxIndexInfo → FileLocPointer} {txs : List TxIndexInfo} (ht : Fits txs)
    (entries : UInt64 × UInt64 → Option FileLocPointer) {tx : TxIndexInfo} (hi : txs[i]? = some tx) :
    putTxs n loc txs entries (n, UInt64.ofNat i) = some (loc tx) := by
  induction txs using List.reverseRecOn with
  | nil => simp at hi
  | append_singleton txs last ih =>
    have hlen : txs.length + 1 < UInt64.size := by simpa [Fits] using ht
    rw [putTxs_append_singleton]
    obtain hi | ⟨rfl, rfl⟩ := getElem?_concat_eq_some hi
    · have hlt := (List.getElem?_eq_some_iff.mp hi).1
      have hne : (n, UInt64.ofNat i) ≠ (n, UInt64.ofNat txs.length) := by
        intro heq
        have hn := congrArg (fun p : UInt64 × UInt64 => p.2.toNat) heq
        simp only [UInt64.toNat_ofNat_of_lt' (show i < UInt64.size by omega),
          UInt64.toNat_ofNat_of_lt' (show txs.length < UInt64.size by omega)] at hn
        omega
      rw [Function.update_of_ne hne]
      exact ih (Nat.lt_of_succ_lt hlen) hi
    · rw [Function.update_self]

section

variable (codec : Codec) (sha256 : Bytes → Bytes) (computeTxID : Bytes → Bytes → Bytes) (conf : Conf)

def entry (p : Place × StoredBlock) : BlockIdxInfo where
  blockNum := p.2.header.number
  blockHash := blockHeaderHash sha256 p.2.header
  flp := ⟨p.1.fileNum, p.1.offset, 0⟩
  txOffsets := (txOffsetsFrom codec computeTxID (headerBytes p.2.header p.2.data).length p.2.data).map fun tx =>
    { tx with loc := { tx.loc with offset := tx.loc.offset + (lengthBytes p.2.bytes).length } }
  metadata := p.2.metadata

def indexPlaced (index : Index) (p : Place × StoredBlock) : Outcome StoreError Index :=
  indexBlock conf index (entry codec sha256 computeTxID p)

def txPlace (p : Place × StoredBlock) (i : ℕ) (tx : Bytes) : FileLocPointer :=
  ⟨p.1.fileNum,
    p.1.offset + ((headerBytes p.2.header p.2.data).length + ((p.2.data.take i).flatMap Varint.encodeBytes).length +
      (lengthBytes p.2.bytes).length),
    (Varint.encodeBytes tx).length⟩

variable {codec sha256 computeTxID conf} {index : Index}

theorem indexBlock_eq_ok {index' : Index} {info : BlockIdxInfo} (h : indexBlock conf index info = .ok index')
    (ha : conf.attrsToIndex ≠ []) :
    index'.indexSavePoint = some info.blockNum ∧
      (.blockNum ∈ conf.attrsToIndex →
        index'.blockNum = Function.update index.blockNum info.blockNum (some info.flp)) ∧
      (.blockNumTranNum ∈ conf.attrsToIndex →
        index'.blockNumTranNum = putTxs info.blockNum
          (fun tx => newFileLocationPointer info.flp.fileSuffixNum info.flp.offset tx.loc) info.txOffsets
          index.blockNumTranNum) := by
  rw [indexBlock, if_neg ha, bind_eq_ok] at h
  obtain ⟨txsfltr, -, h⟩ := h
  obtain ⟨txID, -, h⟩ := bind_eq_ok.mp h
  obtain ⟨tranNums, htn, h⟩ := bind_eq_ok.mp h
  cases h
  refine ⟨rfl, fun hm => if_pos hm, fun hm => ?_⟩
  rw [putTranNums, if_pos hm, indexTxs_pure] at htn
  cases htn
  rfl

structure Indexed (conf : Conf) (placed : List (Place × StoredBlock)) (index : Index) : Prop where
  blockNum : .blockNum ∈ conf.attrsToIndex → ∀ p ∈ placed,
    index.blockNum p.2.header.number = some ⟨p.1.fileNum, p.1.offset, 0⟩
  blockNumTranNum : .blockNumTranNum ∈ conf.attrsToIndex → ∀ p ∈ placed, Fits p.2.data → ∀ (i : ℕ) tx,
    p.2.data[i]? = some tx → index.blockNumTranNum (p.2.header.number, UInt64.ofNat i) = some (txPlace p i tx)

theorem length_txOffsetsFrom (offset : ℕ) (txs : List Bytes) :
    (txOffsetsFrom codec computeTxID offset txs).length = txs.length := by
  induction txs generalizing offset with
  | nil => rfl
  | cons tx txs ih => rw [txOffsetsFrom, length_cons, ih, length_cons]

variable {p : Place × StoredBlock} {tx : Bytes} {placed : List (Place × StoredBlock)} {index₀ : Index}

theorem getElem?_txOffsets_entry (hi : p.2.data[i]? = some tx) :
    (entry codec sha256 computeTxID p).txOffsets[i]? =
      some ⟨txIDOrEmpty codec computeTxID tx,
        ⟨(headerBytes p.2.header p.2.data).length + ((p.2.data.take i).flatMap Varint.encodeBytes).length +
          (lengthBytes p.2.bytes).length, (Varint.encodeBytes tx).length⟩⟩ := by
  rw [entry, getElem?_map, getElem?_txOffsetsFrom hi, Option.map_some]

theorem indexed_of_foldlM (hnm : (placed.map fun p => p.2.header.number).Nodup)
    (h : placed.foldlM (indexPlaced codec sha256 computeTxID conf) index₀ = .ok index) : Indexed conf placed index := by
  induction placed using List.reverseRecOn generalizing index with
  | nil => exact ⟨by simp, by simp⟩
  | append_singleton placed last ih =>
    rw [foldlM_append, bind_eq_ok] at h
    obtain ⟨index₁, h₁, hl⟩ := h
    obtain ⟨index₂, hl, hok⟩ := bind_eq_ok.mp hl
    cases hok
    rw [map_append, nodup_append] at hnm
    obtain ⟨hnd, -, hd⟩ := hnm
    have hih := ih hnd h₁
    have hne : ∀ p ∈ placed, p.2.header.number ≠ last.2.header.number := fun p hp =>
      hd _ (mem_map_of_mem hp) _ (by simp)
    constructor
    · intro hm p hp
      have hsp := (indexBlock_eq_ok hl (ne_nil_of_mem hm)).2.1 hm
      rw [hsp]
      obtain hp | hp := mem_append.mp hp
      · exact (Function.update_of_ne (hne p hp) _ _).trans (hih.blockNum hm p hp)
      · cases mem_singleton.mp hp
        exact Function.update_self ..
    · intro hm p hp hf i tx hi
      have hsp := (indexBlock_eq_ok hl (ne_nil_of_mem hm)).2.2 hm
      rw [hsp]
      obtain hp | hp := mem_append.mp hp
      · exact (putTxs_of_ne (hne p hp) _ _ _ _).trans (hih.blockNumTranNum hm p hp hf i tx hi)
      · cases mem_singleton.mp hp
        have ht : Fits (entry codec sha256 computeTxID last).txOffsets := by
          simpa [Fits, entry, length_txOffsetsFrom] using hf
        exact putTxs_self ht _ (getElem?_txOffsets_entry hi)

theorem indexSavePoint_of_foldlM (ha : conf.attrsToIndex ≠ [])
    (h : placed.foldlM (indexPlaced codec sha256 computeTxID conf) index₀ = .ok index) :
    index.indexSavePoint = ((placed.getLast?.map fun p => p.2.header.number) <|> index₀.indexSavePoint) := by
  induction placed using List.reverseRecOn generalizing index with
  | nil =>
    cases h
    simp
  | append_singleton placed last ih =>
    rw [foldlM_append, bind_eq_ok] at h
    obtain ⟨index₁, h₁, hl⟩ := h
    obtain ⟨index₂, hl, hok⟩ := bind_eq_ok.mp hl
    cases hok
    rw [(indexBlock_eq_ok hl ha).1]
    simp [entry]

variable {segments : List (List StoredBlock)}

theorem exists_of_mem_placedFrom {fileNum : ℕ} (hp : p ∈ placedFrom fileNum segments) :
    ∃ i pre post, segments[i]? = some (pre ++ p.2 :: post) ∧ p.1 = ⟨fileNum + i, (frames pre).length⟩ := by
  induction segments generalizing fileNum with
  | nil => simp [placedFrom] at hp
  | cons bs segments ih =>
    rw [placedFrom, mem_append] at hp
    obtain hp | hp := hp
    · obtain ⟨before, after, hsp⟩ := append_of_mem hp
      obtain ⟨pre, post, hbs, hpl, -⟩ := exists_of_placedIn_eq hsp
      exact ⟨0, pre, post, by rw [hbs]; rfl, by rw [hpl, Nat.zero_add]; rfl⟩
    · obtain ⟨i, pre, post, hi, hpl⟩ := ih hp
      exact ⟨i + 1, pre, post, hi, by rw [hpl, Nat.add_assoc, Nat.add_comm 1]⟩

variable {files : AMap ℕ Bytes} {bytes : Bytes} {block : Block} {header : BlockHeader}

theorem fetchBlockBytes_of_placed (hf : FilesHold files 0 segments) (hp : p ∈ placedFrom 0 segments)
    (hsz : p.2.bytes.length < maxBlockBytes) :
    fetchBlockBytes files ⟨p.1.fileNum, p.1.offset, 0⟩ = .ok p.2.bytes := by
  obtain ⟨i, pre, post, hi, hpl⟩ := exists_of_mem_placedFrom hp
  rw [hpl, fetchBlockBytes, openStream]
  rw [hf i _ hi, frames_append, frames_cons, orErr, ok_bind, nextBlockBytes_append, nextBlockBytes_frame hsz]
  rfl

theorem fetchRawBytes_eq {lp : FileLocPointer} {pre post : Bytes}
    (hf : files.lookup lp.fileSuffixNum = some (pre ++ (bytes ++ post))) (hof : lp.offset = pre.length)
    (hln : lp.bytesLength = bytes.length) : fetchRawBytes files lp = .ok bytes := by
  rw [fetchRawBytes, openStream, hf, orErr, ok_bind, if_neg, hof, hln, drop_left, take_left]
  simp only [length_append, hof, hln]
  omega

theorem fetchRawBytes_of_placed (hf : FilesHold files 0 segments) (hp : p ∈ placedFrom 0 segments)
    (hi : p.2.data[i]? = some tx) : fetchRawBytes files (txPlace p i tx) = .ok (Varint.encodeBytes tx) := by
  obtain ⟨k, pre, post, hk, hpl⟩ := exists_of_mem_placedFrom hp
  have hd : p.2.data = p.2.data.take i ++ tx :: p.2.data.drop (i + 1) := by
    obtain ⟨hlt, rfl⟩ := List.getElem?_eq_some_iff.mp hi
    rw [List.getElem_cons_drop, List.take_append_drop]
  -- The file, cut at both ends of the envelope.
  obtain ⟨rest, hfl⟩ : ∃ rest, frames (pre ++ p.2 :: post) =
      (frames pre ++ (lengthBytes p.2.bytes ++ (headerBytes p.2.header p.2.data ++
        (p.2.data.take i).flatMap Varint.encodeBytes))) ++ (Varint.encodeBytes tx ++ rest) := by
    have hfla : p.2.data.flatMap Varint.encodeBytes = (p.2.data.take i).flatMap Varint.encodeBytes ++
        (Varint.encodeBytes tx ++ (p.2.data.drop (i + 1)).flatMap Varint.encodeBytes) := by
      conv_lhs => rw [hd]
      rw [flatMap_append, flatMap_cons]
    refine ⟨(p.2.data.drop (i + 1)).flatMap Varint.encodeBytes ++
      ((Varint.encode (UInt64.ofNat p.2.metadata.length) ++ p.2.metadata.flatMap Varint.encodeBytes) ++ frames post), ?_⟩
    rw [frames_append, frames_cons, frame_eq]
    simp only [append_assoc, StoredBlock.bytes, blockBytes, hfla]
  have hlk := (hf k _ hk).trans (congrArg some hfl)
  refine fetchRawBytes_eq ((congrArg files.lookup ?_).trans hlk) ?_ rfl
  · rw [txPlace, hpl]
  · simp only [txPlace, hpl, length_append]
    omega

def infoOf (full : List (List StoredBlock)) (cur : List StoredBlock) : BlockfilesInfo :=
  ⟨full.length, (frames cur).length, (full.flatten ++ cur).isEmpty,
    ((full.flatten ++ cur).getLast?.map fun b => b.header.number).getD 0⟩

variable (sha256) in
def bcInfoOf (bsi : Option BootstrappingSnapshotInfo) (chain : List StoredBlock) : BlockchainInfo :=
  (chain.getLast?.map fun b =>
    ⟨b.header.number + 1, blockHeaderHash sha256 b.header, b.header.previousHash⟩).getD (bootstrappedInfo bsi)

structure Numbered (base : UInt64) (chain : List StoredBlock) : Prop where
  number : ∀ (i : ℕ) b, chain[i]? = some b → b.header.number = base + UInt64.ofNat i
  bound : base.toNat + chain.length < UInt64.size

structure Fresh (disk : Disk) : Prop where
  files : disk.files = ∅
  blkMgrInfo : disk.blkMgrInfo = none
  indexSavePoint : disk.index.indexSavePoint = disk.bootstrappingSnapshotInfo.map fun bsi => bsi.lastBlockNum
  lastBlockNum : ∀ bsi ∈ disk.bootstrappingSnapshotInfo, bsi.lastBlockNum.toNat + 1 < UInt64.size

section

variable (codec sha256 computeTxID conf)

/-- A store that began with the disk `disk₀`, before a block is appended to its current file: the files hold the
blocks, and the index is up to date. -/
structure Ready (disk₀ : Disk) (full : List (List StoredBlock)) (cur : List StoredBlock) (mgr : BlockfileMgr) :
    Prop where
  files : FilesHold mgr.disk.files 0 (full ++ [cur])
  beyond : ∀ k, full.length < k → (mgr.disk.files.lookup k).getD [] = []
  snapshot : mgr.disk.bootstrappingSnapshotInfo = disk₀.bootstrappingSnapshotInfo
  fileNumber : mgr.blockfilesInfo.latestFileNumber = full.length
  fileSize : mgr.blockfilesInfo.latestFileSize = (frames cur).length
  index : (placedFrom 0 (full ++ [cur])).foldlM (indexPlaced codec sha256 computeTxID conf) disk₀.index =
    .ok mgr.disk.index
  bcInfo : mgr.bcInfo = bcInfoOf sha256 disk₀.bootstrappingSnapshotInfo (full.flatten ++ cur)
  numbered : Numbered disk₀.firstPossibleBlockNumberInBlockFiles (full.flatten ++ cur)

structure Synced (disk₀ : Disk) (full : List (List StoredBlock)) (cur : List StoredBlock) (mgr : BlockfileMgr) :
    Prop extends Ready codec sha256 computeTxID conf disk₀ full cur mgr where
  info : mgr.blockfilesInfo = infoOf full cur
  saved : mgr.disk.blkMgrInfo = some (infoOf full cur)

end

theorem blockToAppend_eq_ok {mgr : BlockfileMgr} {info : SerializedBlockInfo}
    (h : blockToAppend codec computeTxID mgr block = .ok (header, bytes, info)) :
    ∃ b : StoredBlock, block = ⟨some b.header, some b.data, some b.metadata, block.blockType⟩ ∧ header = b.header ∧
      bytes = b.bytes ∧ info = blockInfo codec computeTxID b.header b.data b.metadata ∧
      b.header.number = mgr.bcInfo.height ∧ b.header.previousHash = mgr.bcInfo.currentBlockHash := by
  obtain ⟨header', hhd, h⟩ := bind_eq_ok.mp h
  split at h
  next => cases h
  next hnm =>
    split at h
    next => cases h
    next hpr =>
      obtain ⟨⟨bytes', info'⟩, hsr, hok⟩ := bind_eq_ok.mp h
      cases hok
      rw [mapErr_eq_ok] at hsr
      obtain ⟨h', data, metadata, hh, hd, hmt, hr⟩ := serializeBlock_eq_ok_iff.mp hsr
      obtain ⟨_, _, _, blockType⟩ := block
      cases hh
      cases hd
      cases hmt
      cases hhd
      cases hr
      exact ⟨⟨header, data, metadata⟩, rfl, rfl, rfl, rfl, not_not.mp hnm, not_not.mp hpr⟩

variable {b : StoredBlock} {chain : List StoredBlock} {base : UInt64} {blocks : List Block}

namespace Numbered

variable {base : UInt64} {chain : List StoredBlock}

theorem toNat_next (h : Numbered base chain) {n : ℕ} (hn : n ≤ chain.length) :
    (base + UInt64.ofNat n).toNat = base.toNat + n := by
  have hb := h.bound
  rw [UInt64.toNat_add, UInt64.toNat_ofNat_of_lt' (by omega)]
  exact Nat.mod_eq_of_lt (show base.toNat + n < UInt64.size by omega)

theorem toNat_number (h : Numbered base chain) (hi : chain[i]? = some b) :
    b.header.number.toNat = base.toNat + i := by
  rw [h.number i b hi, h.toNat_next (List.getElem?_eq_some_iff.mp hi).1.le]

theorem nodup (h : Numbered base chain) : (chain.map fun b => b.header.number).Nodup := by
  rw [nodup_iff_getElem?_ne_getElem?]
  intro i j hij hj heq
  rw [length_map] at hj
  rw [getElem?_map, getElem?_map, getElem?_eq_getElem (hij.trans hj), getElem?_eq_getElem hj] at heq
  have hn := congrArg UInt64.toNat (Option.some.inj heq)
  rw [h.toNat_number (getElem?_eq_getElem (hij.trans hj)), h.toNat_number (getElem?_eq_getElem hj)] at hn
  omega

theorem nil (hb : base.toNat < UInt64.size) : Numbered base [] :=
  ⟨by simp, hb⟩

end Numbered

theorem FilesHold.lookup (h : FilesHold files 0 segments) {bs : List StoredBlock} (hi : segments[i]? = some bs) :
    files.lookup i = some (frames bs) := by
  have := h i bs hi
  rwa [Nat.zero_add] at this

theorem FilesHold.append {full : List (List StoredBlock)} {cur cur' : List StoredBlock}
    (h : FilesHold files 0 (full ++ [cur])) (hc : frames cur ++ bytes = frames cur') :
    FilesHold (files.modify full.length fun file => file.getD [] ++ bytes) 0 (full ++ [cur']) := by
  intro i bs hi
  rw [Nat.zero_add, AMap.lookup_modify]
  have hl : files.lookup full.length = some (frames cur) := h.lookup (by simp)
  obtain hi | ⟨rfl, rfl⟩ := getElem?_concat_eq_some hi
  · have hlt := (List.getElem?_eq_some_iff.mp hi).1
    rw [if_neg hlt.ne]
    exact h.lookup (by rwa [getElem?_append_left hlt])
  · rw [if_pos rfl, hl, Option.getD_some, hc]

theorem placedFrom_snoc (full : List (List StoredBlock)) (cur : List StoredBlock) (b : StoredBlock) :
    placedFrom 0 (full ++ [cur ++ [b]]) =
      placedFrom 0 (full ++ [cur]) ++ [(⟨full.length, (frames cur).length⟩, b)] := by
  simp [placedFrom_append, placedFrom, placedIn_append, placedIn]

theorem placedFrom_nil_snoc (full : List (List StoredBlock)) :
    placedFrom 0 (full ++ [[]]) = placedFrom 0 full := by
  simp [placedFrom_append, placedFrom, placedIn]

theorem height_bootstrappedInfo (disk₀ : Disk) :
    (bootstrappedInfo disk₀.bootstrappingSnapshotInfo).height = disk₀.firstPossibleBlockNumberInBlockFiles := by
  rw [Disk.firstPossibleBlockNumberInBlockFiles]
  cases disk₀.bootstrappingSnapshotInfo <;> rfl

theorem height_bcInfoOf {disk₀ : Disk} (h : Numbered disk₀.firstPossibleBlockNumberInBlockFiles chain) :
    (bcInfoOf sha256 disk₀.bootstrappingSnapshotInfo chain).height =
      disk₀.firstPossibleBlockNumberInBlockFiles + UInt64.ofNat chain.length := by
  induction chain using List.reverseRecOn with
  | nil => exact (height_bootstrappedInfo disk₀).trans (by simp)
  | append_singleton chain last =>
    have hl := h.number chain.length last (by simp)
    rw [bcInfoOf, getLast?_concat, length_append]
    simp only [Option.map_some, Option.getD_some]
    rw [hl, UInt64.ofNat_add, UInt64.add_assoc]
    rfl

theorem Numbered.concat (h : Numbered base chain) (hnm : b.header.number = base + UInt64.ofNat chain.length)
    (hb : b.header.number.toNat + 1 < UInt64.size) : Numbered base (chain ++ [b]) := by
  have hn : b.header.number.toNat = base.toNat + chain.length := by rw [hnm, h.toNat_next le_rfl]
  constructor
  · intro i b' hi
    obtain hi | ⟨rfl, rfl⟩ := getElem?_concat_eq_some hi
    · exact h.number i b' hi
    · exact hnm
  · rw [length_append, length_singleton]
    omega

section

variable {disk₀ disk : Disk} {full : List (List StoredBlock)} {cur : List StoredBlock} {mgr mgr' : BlockfileMgr}

section

variable (h : Ready codec sha256 computeTxID conf disk₀ full cur mgr)
include h

theorem Ready.moveToNextFile : Ready codec sha256 computeTxID conf disk₀ (full ++ [cur]) [] mgr.moveToNextFile := by
  have hn : mgr.nextBlockfilesInfo.latestFileNumber = (full ++ [cur]).length := by
    rw [length_append, length_singleton]
    exact congrArg (· + 1) h.fileNumber
  have hlk : ∀ k, mgr.moveToNextFile.disk.files.lookup k =
      if k = (full ++ [cur]).length then some [] else mgr.disk.files.lookup k := by
    intro k
    rw [← hn]
    refine (AMap.lookup_modify _ _ _ _).trans ?_
    rw [h.beyond _ (by rw [hn]; simp)]
  refine ⟨?_, ?_, h.snapshot, hn, rfl, ?_, ?_, ?_⟩
  · intro i bs hi
    rw [Nat.zero_add, hlk]
    obtain hi | ⟨rfl, rfl⟩ := getElem?_concat_eq_some hi
    · rw [if_neg (List.getElem?_eq_some_iff.mp hi).1.ne]
      exact h.files.lookup hi
    · exact if_pos rfl
  · intro k hk
    rw [hlk, if_neg hk.ne']
    exact h.beyond k (by rw [length_append] at hk; omega)
  · rw [placedFrom_nil_snoc]
    exact h.index
  · rw [append_nil, flatten_append, flatten_singleton]
    exact h.bcInfo
  · rw [append_nil, flatten_append, flatten_singleton]
    exact h.numbered

theorem Ready.inFile (blockBytes : Bytes) :
    ∃ full' cur', full'.flatten ++ cur' = full.flatten ++ cur ∧ (full' = full ∧ cur' = cur ∨
        full' = full ++ [cur] ∧ cur' = [] ∧ mgr.NeedsNextFile conf blockBytes) ∧
      Ready codec sha256 computeTxID conf disk₀ full' cur' (mgr.inFile conf blockBytes) := by
  unfold BlockfileMgr.inFile
  split
  next hn => exact ⟨full ++ [cur], [], by simp, .inr ⟨rfl, rfl, hn⟩, h.moveToNextFile⟩
  next => exact ⟨full, cur, rfl, .inl ⟨rfl, rfl⟩, h⟩

theorem Ready.blockIdxInfo_eq (b : StoredBlock) :
    mgr.blockIdxInfo sha256 b.bytes (blockInfo codec computeTxID b.header b.data b.metadata) =
      entry codec sha256 computeTxID (⟨full.length, (frames cur).length⟩, b) := by
  rw [BlockfileMgr.blockIdxInfo, h.fileNumber, h.fileSize]
  rfl

theorem Ready.files_appended (b : StoredBlock) :
    FilesHold (mgr.appended (frame b.bytes)).files 0 (full ++ [cur ++ [b]]) := by
  rw [BlockfileMgr.appended, h.fileNumber]
  exact h.files.append (by simp)

theorem Ready.beyond_appended (bytes : Bytes) (k : ℕ) (hk : full.length < k) :
    ((mgr.appended bytes).files.lookup k).getD [] = [] := by
  rw [BlockfileMgr.appended, h.fileNumber, Disk.append, AMap.lookup_modify, if_neg hk.ne']
  exact h.beyond k hk

theorem Ready.numbered_concat (hnm : b.header.number = mgr.bcInfo.height)
    (hb : b.header.number.toNat + 1 < UInt64.size) :
    Numbered disk₀.firstPossibleBlockNumberInBlockFiles (full.flatten ++ (cur ++ [b])) := by
  rw [← append_assoc]
  apply h.numbered.concat _ hb
  rw [hnm, h.bcInfo, height_bcInfoOf h.numbered]

theorem Ready.newBlkfilesInfo_eq (b : StoredBlock) :
    mgr.newBlkfilesInfo b.bytes b.header.number = infoOf full (cur ++ [b]) := by
  rw [BlockfileMgr.newBlkfilesInfo, h.fileNumber, h.fileSize, infoOf, ← append_assoc]
  simp

theorem Ready.appendBlock (hnm : b.header.number = mgr.bcInfo.height)
    (hb : b.header.number.toNat + 1 < UInt64.size)
    (ha : mgr.appendBlock sha256 conf b.header b.bytes (blockInfo codec computeTxID b.header b.data b.metadata) = .ok mgr') :
    Synced codec sha256 computeTxID conf disk₀ full (cur ++ [b]) mgr' := by
  obtain ⟨index, hi, hok⟩ := bind_eq_ok.mp ha
  cases hok
  rw [h.blockIdxInfo_eq] at hi
  have hin := h.newBlkfilesInfo_eq b
  refine ⟨⟨h.files_appended b, h.beyond_appended _, h.snapshot, ?_, ?_, ?_, ?_, h.numbered_concat hnm hb⟩,
    hin, congrArg some hin⟩
  · exact h.fileNumber
  · exact (congrArg BlockfilesInfo.latestFileSize hin).trans rfl
  · rw [placedFrom_snoc, foldlM_append, h.index, ok_bind, foldlM_cons]
    exact (congrArg (· >>= _) hi).trans rfl
  · rw [bcInfoOf, ← append_assoc]
    simp [hnm]

end

section

variable (h : Synced codec sha256 computeTxID conf disk₀ full cur mgr)
include h

theorem Synced.addBlock (hbn : ∀ header ∈ block.header, header.number.toNat + 1 < UInt64.size)
    (had : mgr.addBlock codec sha256 computeTxID conf block = .ok mgr') :
    ∃ b full' cur', block = ⟨some b.header, some b.data, some b.metadata, block.blockType⟩ ∧
      full'.flatten ++ cur' = full.flatten ++ cur ++ [b] ∧
      Synced codec sha256 computeTxID conf disk₀ full' cur' mgr' := by
  obtain ⟨⟨header, bytes, info⟩, hbl, ha⟩ := bind_eq_ok.mp had
  obtain ⟨b, hb, rfl, rfl, rfl, hnm, -⟩ := blockToAppend_eq_ok hbl
  obtain ⟨full', cur', hc, -, hr⟩ := h.inFile b.bytes
  have hh : (mgr.inFile conf b.bytes).bcInfo = mgr.bcInfo := by rw [hr.bcInfo, h.bcInfo, hc]
  refine ⟨b, full', cur' ++ [b], hb, by rw [← append_assoc, hc], ?_⟩
  apply hr.appendBlock _ _ ha
  · rw [hh, hnm]
  · exact hbn b.header (by rw [hb]; rfl)

theorem Synced.nodup : ((placedFrom 0 (full ++ [cur])).map fun p => p.2.header.number).Nodup := by
  have hm : (placedFrom 0 (full ++ [cur])).map (fun p => p.2.header.number) =
      (full.flatten ++ cur).map fun b => b.header.number := by
    have hsn := map_snd_placedFrom 0 (full ++ [cur])
    rw [flatten_append, flatten_singleton] at hsn
    rw [← hsn, map_map]
    rfl
  rw [hm]
  exact h.numbered.nodup

end

theorem Numbered.le_number (h : Numbered base chain) (hb : b ∈ chain) : ¬ b.header.number < base := by
  obtain ⟨i, hi⟩ := mem_iff_getElem?.mp hb
  rw [UInt64.lt_iff_toNat_lt, h.toNat_number hi]
  omega

theorem Ready.firstPossible_eq (h : Ready codec sha256 computeTxID conf disk₀ full cur mgr) :
    mgr.disk.firstPossibleBlockNumberInBlockFiles = disk₀.firstPossibleBlockNumberInBlockFiles := by
  rw [Disk.firstPossibleBlockNumberInBlockFiles, h.snapshot]
  rfl

theorem exists_placed (hb : b ∈ full.flatten ++ cur) : ∃ p ∈ placedFrom 0 (full ++ [cur]), p.2 = b := by
  have hm := map_snd_placedFrom 0 (full ++ [cur])
  rw [flatten_append, flatten_singleton] at hm
  rw [← hm] at hb
  exact mem_map.mp hb

section

variable (h : Synced codec sha256 computeTxID conf disk₀ full cur mgr)
include h

theorem Synced.retrieveTransaction (ha : .blockNumTranNum ∈ conf.attrsToIndex) (hb : b ∈ full.flatten ++ cur)
    (hf : Fits b.data) (hi : b.data[i]? = some tx) :
    mgr.retrieveTransactionByBlockNumTranNum codec conf b.header.number (UInt64.ofNat i) =
      .orErr .envelope (getEnvelopeFromBlock codec tx) := by
  obtain ⟨p, hp, rfl⟩ := exists_placed hb
  have hl := (indexed_of_foldlM h.nodup h.index).blockNumTranNum ha p hp hf i tx hi
  rw [BlockfileMgr.retrieveTransactionByBlockNumTranNum, h.firstPossible_eq, if_neg (h.numbered.le_number hb),
    getTXLocByBlockNumTranNum, if_pos ha, hl, orErr, ok_bind, fetchTransactionEnvelope,
    fetchRawBytes_of_placed h.files hp hi, ok_bind, Varint.encodeBytes, Varint.consume_encode_append]
  rfl

theorem Synced.retrieveBlock (ha : .blockNum ∈ conf.attrsToIndex) (hb : b ∈ full.flatten ++ cur) (hr : b.Readable) :
    mgr.retrieveBlockByNumber codec computeTxID conf b.header.number = .ok b.toBlock := by
  obtain ⟨p, hp, rfl⟩ := exists_placed hb
  have hmax : p.2.header.number ≠ -1 := by
    obtain ⟨i, hi⟩ := List.mem_iff_getElem?.mp hb
    have hlt := (List.getElem?_eq_some_iff.mp hi).1
    have hbn := h.numbered.bound
    have hn := h.numbered.toNat_number hi
    intro heq
    have : (-1 : UInt64).toNat = UInt64.size - 1 := rfl
    rw [heq] at hn
    omega
  have hl := (indexed_of_foldlM h.nodup h.index).blockNum ha p hp
  rw [BlockfileMgr.retrieveBlockByNumber, if_neg hmax, h.firstPossible_eq, if_neg (h.numbered.le_number hb),
    getBlockLocByBlockNum, if_pos ha, hl, orErr, ok_bind, fetchBlockBytes_of_placed h.files hp hr.size, ok_bind, hr.deserializeBlock]
  rfl

end

def Disk.started (disk : Disk) : Disk :=
  ((disk.saveBlkfilesInfo ⟨0, 0, true, 0⟩).openFile 0).truncate 0 0

theorem Fresh.newBlockfileMgr_eq (h : Fresh disk) :
    newBlockfileMgr codec sha256 computeTxID conf disk =
      .ok ⟨disk.started, ⟨0, 0, true, 0⟩, bootstrappedInfo disk.bootstrappingSnapshotInfo⟩ := by
  have hc : constructBlockfilesInfo codec computeTxID disk.files = .ok ⟨0, 0, true, 0⟩ := by
    rw [h.files]
    rfl
  have hsy : syncIndex codec sha256 computeTxID conf disk.started ⟨0, 0, true, 0⟩ = .ok disk.started.index := by
    rw [syncIndex]
    rw [if_neg, if_pos rfl]
    rintro ⟨hn, hps⟩
    change disk.index.indexSavePoint.elim 0 (· + 1) = 0 at hn
    change 0 < disk.firstPossibleBlockNumberInBlockFiles at hps
    rw [h.indexSavePoint] at hn
    rw [Disk.firstPossibleBlockNumberInBlockFiles] at hps
    cases hb : disk.bootstrappingSnapshotInfo with
    | none =>
      rw [hb] at hps
      exact UInt64.lt_irrefl _ hps
    | some bsi =>
      rw [hb] at hn hps
      exact UInt64.ne_of_lt hps hn.symm
  rw [newBlockfileMgr, h.blkMgrInfo]
  rw [hc]
  dsimp only
  change (syncIndex codec sha256 computeTxID conf disk.started ⟨0, 0, true, 0⟩ >>= _) = _
  rw [hsy]
  rfl

theorem Fresh.synced (h : Fresh disk) :
    Synced codec sha256 computeTxID conf disk [] []
      ⟨disk.started, ⟨0, 0, true, 0⟩, bootstrappedInfo disk.bootstrappingSnapshotInfo⟩ := by
  have hlk : ∀ k, disk.started.files.lookup k = if k = 0 then some [] else none := by
    intro k
    refine (AMap.lookup_modify _ _ _ _).trans ?_
    split
    next => simp
    next hk =>
      refine (AMap.lookup_modify _ _ _ _).trans ?_
      rw [if_neg hk]
      change disk.files.lookup k = none
      rw [h.files]
      rfl
  refine ⟨⟨?_, ?_, rfl, rfl, rfl, rfl, rfl, .nil (UInt64.toNat_lt_size _)⟩, rfl, rfl⟩
  · intro i bs hi
    rw [nil_append, getElem?_singleton] at hi
    split at hi
    next hz =>
      cases hi
      rw [Nat.zero_add, hlk, if_pos hz]
      rfl
    next => cases hi
  · intro k hk
    have hne : k ≠ 0 := Nat.ne_of_gt hk
    rw [hlk, if_neg hne]
    rfl

end

section

variable (codec sha256 computeTxID conf)

inductive AddRun (disk₀ : Disk) : List Block → BlockfileMgr → Prop
  | opened {mgr : BlockfileMgr} (hopen : newBlockfileMgr codec sha256 computeTxID conf disk₀ = .ok mgr) :
      AddRun disk₀ [] mgr
  | added {blocks : List Block} {mgr mgr' : BlockfileMgr} {block : Block} (hrun : AddRun disk₀ blocks mgr)
      (hbound : ∀ header ∈ block.header, header.number.toNat + 1 < UInt64.size)
      (hadd : mgr.addBlock codec sha256 computeTxID conf block = .ok mgr') :
      AddRun disk₀ (blocks ++ [block]) mgr'

end

theorem AddRun.exists_synced {disk₀ : Disk} (hf : Fresh disk₀) {mgr : BlockfileMgr}
    (h : AddRun codec sha256 computeTxID conf disk₀ blocks mgr) :
    ∃ full cur, Synced codec sha256 computeTxID conf disk₀ full cur mgr ∧ ∀ block ∈ blocks,
      ∃ b ∈ full.flatten ++ cur, block = ⟨some b.header, some b.data, some b.metadata, block.blockType⟩ := by
  induction h with
  | opened ho =>
    rw [hf.newBlockfileMgr_eq] at ho
    cases ho
    exact ⟨[], [], hf.synced, by simp⟩
  | added hr hbn ha ih =>
    obtain ⟨full, cur, hsy, hbl⟩ := ih
    obtain ⟨b, full', cur', hb, hc, hs'⟩ := hsy.addBlock hbn ha
    refine ⟨full', cur', hs', fun block hblo => ?_⟩
    rw [hc]
    obtain hblo | hblo := mem_append.mp hblo
    · obtain ⟨b', hb', heq⟩ := hbl block hblo
      exact ⟨b', mem_append_left _ hb', heq⟩
    · cases mem_singleton.mp hblo
      exact ⟨b, by simp, hb⟩

/-- The block comes back from its bytes, the offsets are those that the reader finds, and every store that has the
block returns its envelopes. -/
def FaithfullyStored (codec : Codec) (sha256 : Bytes → Bytes) (computeTxID : Bytes → Bytes → Bytes) (block : Block) :
    Prop :=
  ∃ bytes info, serializeBlock codec computeTxID block = .ok (bytes, info) ∧
    deserializeBlock codec computeTxID bytes = .ok block ∧
    (∃ info', extractSerializedBlockInfo codec computeTxID bytes = .ok info' ∧ info'.txOffsets = info.txOffsets) ∧
    ∀ conf disk blocks mgr, Fresh disk → .blockNumTranNum ∈ conf.attrsToIndex →
      AddRun codec sha256 computeTxID conf disk blocks mgr → block ∈ blocks →
      ∀ header data, block.header = some header → block.data = some data → ∀ (i : ℕ) tx, data[i]? = some tx →
        mgr.retrieveTransactionByBlockNumTranNum codec conf header.number (UInt64.ofNat i) =
          .orErr .envelope (getEnvelopeFromBlock codec tx)

theorem AddRun.retrieveTransaction {disk₀ : Disk} (hf : Fresh disk₀) (ha : .blockNumTranNum ∈ conf.attrsToIndex)
    {mgr : BlockfileMgr} (h : AddRun codec sha256 computeTxID conf disk₀ blocks mgr) (hblo : block ∈ blocks)
    (hmm : block.InMemory) {data : List Bytes} (hh : block.header = some header)
    (hd : block.data = some data) (hi : data[i]? = some tx) :
    mgr.retrieveTransactionByBlockNumTranNum codec conf header.number (UInt64.ofNat i) =
      .orErr .envelope (getEnvelopeFromBlock codec tx) := by
  obtain ⟨full, cur, hsy, hbl⟩ := h.exists_synced hf
  obtain ⟨b, hb, heq⟩ := hbl block hblo
  obtain rfl : b.header = header := by
    rw [heq] at hh
    exact Option.some.inj hh
  obtain rfl : b.data = data := by
    rw [heq] at hd
    exact Option.some.inj hd
  exact hsy.retrieveTransaction ha hb (hmm.data b.data hd).1 hi

/-- A block is stored faithfully exactly if no part of it is nil and it has no type. -/
theorem faithfullyStored_iff (codec : Codec) (sha256 : Bytes → Bytes) (computeTxID : Bytes → Bytes → Bytes)
    (block : Block) (hmemory : block.InMemory) :
    FaithfullyStored codec sha256 computeTxID block ↔
      block.header ≠ none ∧ block.data ≠ none ∧ block.metadata ≠ none ∧ block.blockType = .message := by
  constructor
  · rintro ⟨bytes, info, hsr, hd, -⟩
    obtain ⟨header, data, metadata, hh, hdt, hmt, hr⟩ := serializeBlock_eq_ok_iff.mp hsr
    cases hr
    have hbc := (extract_blockBytes codec computeTxID (hmemory.hashes header hh) (hmemory.data data hdt)
      (hmemory.metadata metadata hmt)).1
    have hb := ok.inj (hbc.symm.trans hd)
    rw [hdt, hmt, ← hb]
    simp
  · rintro ⟨hh, hdt, hmt, ht⟩
    obtain ⟨header, hh⟩ := Option.ne_none_iff_exists'.mp hh
    obtain ⟨data, hdt⟩ := Option.ne_none_iff_exists'.mp hdt
    obtain ⟨metadata, hmt⟩ := Option.ne_none_iff_exists'.mp hmt
    have hb : block = ⟨some header, some data, some metadata, .message⟩ := by
      rw [← hh, ← hdt, ← hmt, ← ht]
    obtain ⟨hbc, he⟩ := extract_blockBytes codec computeTxID (hmemory.hashes header hh)
      (hmemory.data data hdt) (hmemory.metadata metadata hmt)
    refine ⟨_, _, serializeBlock_eq_ok_iff.mpr ⟨header, data, metadata, hh, hdt, hmt, rfl⟩,
      hbc.trans (congrArg _ hb.symm), ⟨_, he, rfl⟩, ?_⟩
    intro conf disk blocks mgr hf ha hrn hm header' data' hh' hd' i tx hi
    exact hrn.retrieveTransaction hf ha hm hmemory hh' hd' hi

end

def exampleBlock : Block where
  header := some { number := 0, dataHash := [0x0a] }
  data := some [[0x01, 0x02]]
  metadata := some [[], [], [0x00]]

theorem faithfullyStored_iff_exampleBlock :
    exampleBlock.InMemory ∧ FaithfullyStored Codec.none id (fun _ _ => []) exampleBlock := by
  have hmm : exampleBlock.InMemory := by
    constructor
    · rintro _ ⟨⟩
      exact ⟨by decide, by decide⟩
    · rintro _ ⟨⟩
      exact ⟨by decide, by decide⟩
    · rintro _ ⟨⟩
      exact ⟨by decide, by decide⟩
  refine ⟨hmm, (faithfullyStored_iff Codec.none id (fun _ _ => []) exampleBlock hmm).mpr ?_⟩
  exact ⟨by simp [exampleBlock], by simp [exampleBlock], by simp [exampleBlock], rfl⟩

/-- The block of an approve transaction comes back without its type, and a block without metadata is counted as one
with no entry and then read through the nil pointer. -/
theorem approve_type_lost_and_nil_metadata_panics :
    (∃ bytes info, serializeBlock Codec.none (fun _ _ => []) { exampleBlock with blockType := .approve } =
        .ok (bytes, info) ∧ deserializeBlock Codec.none (fun _ _ => []) bytes = .ok exampleBlock) ∧
      serializeBlock Codec.none (fun _ _ => []) { exampleBlock with metadata := none } = .panic := by
  refine ⟨⟨_, _, serializeBlock_mk _ _ _ _, ?_⟩, rfl⟩
  decide

end Drunix.BlkStorage
