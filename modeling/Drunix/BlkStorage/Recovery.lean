import Drunix.BlkStorage.OpenStore

namespace Drunix.BlkStorage

open Lib Proto Outcome List

structure Storable (conf : Conf) (b : StoredBlock) : Prop extends b.Readable where
  flags : ∃ txsfltr, b.metadata[BlockMetadataIndex.transactionsFilter.index]? = some txsfltr ∧
    (.txID ∈ conf.attrsToIndex → b.data.length ≤ txsfltr.length)

section

variable {codec : Codec} {sha256 : Bytes → Bytes} {computeTxID : Bytes → Bytes → Bytes} {conf : Conf}
  {p : Place × StoredBlock} {placed : List (Place × StoredBlock)}

theorem exists_indexTxs {σ : Type} {put : σ → UInt64 → TxIndexInfo → Outcome StoreError σ} {txs : List TxIndexInfo}
    (hp : ∀ s, ∀ i < txs.length, ∀ tx, ∃ s', put s (UInt64.ofNat i) tx = .ok s') (s : σ) :
    ∃ s', indexTxs put s txs = .ok s' := by
  induction txs using List.reverseRecOn with
  | nil => exact ⟨s, rfl⟩
  | append_singleton txs last ih =>
    rw [length_append, length_singleton] at hp
    obtain ⟨s₁, hs₁⟩ := ih fun s i hi tx => hp s i (by omega) tx
    obtain ⟨s₂, hs₂⟩ := hp s₁ txs.length (by omega) last
    refine ⟨s₂, ?_⟩
    rw [indexTxs] at hs₁ ⊢
    rw [zipIdx_append, foldlM_append, hs₁]
    simp [hs₂]

theorem Storable.exists_indexPlaced (h : Storable conf p.2) (index : Index) :
    ∃ index', indexPlaced codec sha256 computeTxID conf index p = .ok index' := by
  obtain ⟨txsfltr, hf, hfl⟩ := h.flags
  have hln : (entry codec sha256 computeTxID p).txOffsets.length = p.2.data.length := by
    simp [entry, length_txOffsetsFrom]
  obtain ⟨txID, ht⟩ : ∃ txID, putTxIDs conf (entry codec sha256 computeTxID p) txsfltr index.txID = .ok txID := by
    rw [putTxIDs]
    split
    next hm =>
      refine exists_indexTxs (fun entries i hi tx => ?_) _
      have hle := hfl hm
      have hft : p.2.data.length < UInt64.size := h.data.1
      rw [UInt64.toNat_ofNat_of_lt' (by omega), getElem?_eq_getElem (by omega)]
      exact ⟨_, rfl⟩
    next => exact ⟨_, rfl⟩
  obtain ⟨tranNums, htn⟩ : ∃ tranNums,
      putTranNums conf (entry codec sha256 computeTxID p) index.blockNumTranNum = .ok tranNums := by
    rw [putTranNums]
    split
    next => exact ⟨_, indexTxs_pure _ _ _⟩
    next => exact ⟨_, rfl⟩
  unfold indexPlaced indexBlock
  split
  next => exact ⟨_, rfl⟩
  next =>
    have he : (entry codec sha256 computeTxID p).metadata = p.2.metadata := rfl
    rw [he, hf, deref, ok_bind, ht, htn, ok_bind]
    exact ⟨_, rfl⟩

variable (codec sha256 computeTxID) in
theorem exists_foldlM_indexPlaced (h : ∀ p ∈ placed, Storable conf p.2) (index : Index) :
    ∃ index', placed.foldlM (indexPlaced codec sha256 computeTxID conf) index = .ok index' := by
  refine exists_foldlM_eq_ok (fun _ => True) (fun p hp index _ => ?_) trivial
  obtain ⟨index', hi⟩ := (h p hp).exists_indexPlaced index
  exact ⟨index', hi, trivial⟩

theorem indexStreamed_streamed (h : p.2.Readable) (index : Index) :
    indexStreamed codec sha256 computeTxID conf index (streamed p) =
      indexPlaced codec sha256 computeTxID conf index p := by
  have hi : blockIdxInfoOf sha256 (streamed p).1 (blockInfo codec computeTxID p.2.header p.2.data p.2.metadata) =
      entry codec sha256 computeTxID p := by
    simp [blockIdxInfoOf, streamed, entry, blockInfo]
  rw [indexStreamed, streamed, h.extractSerializedBlockInfo]
  exact congrArg (indexBlock conf index) hi

theorem foldlM_indexStreamed (h : ∀ p ∈ placed, p.2.Readable) (index : Index) :
    (placed.map streamed).foldlM (indexStreamed codec sha256 computeTxID conf) index =
      placed.foldlM (indexPlaced codec sha256 computeTxID conf) index := by
  induction placed generalizing index with
  | nil => rfl
  | cons p placed ih =>
    rw [map_cons, foldlM_cons, indexStreamed_streamed (h p mem_cons_self)]
    congr 1
    funext index₁
    exact ih (fun q hq => h q (mem_cons_of_mem _ hq)) index₁

def FirstFileUsed (full : List (List StoredBlock)) (cur : List StoredBlock) : Prop :=
  full = [] ∧ cur = [] ∨ ∃ b bs segments, full ++ [cur] = (b :: bs) :: segments

section

variable (codec sha256 computeTxID conf)

/-- What a crash leaves, for the blocks that are completely written. The record of the files may know only some of the
blocks in the current file, and the index only some of all blocks. -/
structure Recoverable (disk₀ : Disk) (full : List (List StoredBlock)) (cur : List StoredBlock) (disk : Disk) : Prop where
  files : FilesHold disk.files 0 full
  current : ∃ tail, Torn tail ∧ disk.files.lookup full.length = some (frames cur ++ tail)
  beyond : ∀ k, full.length < k → (disk.files.lookup k).getD [] = []
  snapshot : disk.bootstrappingSnapshotInfo = disk₀.bootstrappingSnapshotInfo
  saved : ∃ pre post, cur = pre ++ post ∧ disk.blkMgrInfo = some (infoOf full pre) ∧
    (full.flatten ++ pre = [] → post ≠ [] → disk₀.firstPossibleBlockNumberInBlockFiles = 0)
  index : ∃ before after, placedFrom 0 (full ++ [cur]) = before ++ after ∧
    before.foldlM (indexPlaced codec sha256 computeTxID conf) disk₀.index = .ok disk.index
  numbered : Numbered disk₀.firstPossibleBlockNumberInBlockFiles (full.flatten ++ cur)
  storable : ∀ b ∈ full.flatten ++ cur, Storable conf b
  firstFile : FirstFileUsed full cur

end

variable {post pre : List StoredBlock} {tail : Bytes}

theorem frames_length_eq_iff : (frames (pre ++ post) ++ tail).length = (frames pre).length ↔ post = [] ∧ tail = [] := by
  have := length_le_length_frames post
  rw [frames_append, length_append, length_append]
  constructor
  · intro h
    exact ⟨length_eq_zero_iff.mp (by omega), length_eq_zero_iff.mp (by omega)⟩
  · rintro ⟨rfl, rfl⟩
    simp

variable {files : AMap ℕ Bytes}

theorem scanForLastCompleteBlock_eq {fileNum : ℕ} (hfile : files.lookup fileNum = some (frames (pre ++ post) ++ tail))
    (ht : Torn tail) (hp : ∀ b ∈ post, b.Readable) :
    ∃ last, scanForLastCompleteBlock files fileNum (frames pre).length =
      .ok (last, (frames (pre ++ post)).length, post.length) := by
  have hln : ((placedIn fileNum (frames pre).length post).map streamed).length = post.length := by
    rw [length_map, ← length_map, map_snd_placedIn]
  rw [scanForLastCompleteBlock, openStream, hfile, orErr, ok_bind, scanFile_frames fileNum pre hp ht]
  dsimp only
  split_ifs with hne
  · rw [hln]
    exact ⟨_, rfl⟩
  · rw [hln]
    exact ⟨_, rfl⟩

variable {chain : List StoredBlock} {base : UInt64}

theorem lastPersistedBlock_eq (h : Numbered base (chain ++ post)) (hp : post ≠ []) (hbs : chain = [] → base = 0) :
    (if chain.isEmpty then UInt64.ofNat (post.length - 1)
      else ((chain.getLast?.map fun b => b.header.number).getD 0) + UInt64.ofNat post.length) =
      ((chain ++ post).getLast?.map fun b => b.header.number).getD 0 := by
  obtain ⟨front, last, rfl⟩ := eq_nil_or_concat' post |>.resolve_left hp
  have hl := h.number (chain ++ front).length last (by simp)
  rw [← append_assoc, getLast?_concat, Option.map_some, Option.getD_some, hl]
  induction chain using List.reverseRecOn with
  | nil => simp [hbs rfl]
  | append_singleton chain b =>
    have hb := h.number chain.length b (by simp)
    rw [if_neg (by simp), getLast?_concat, Option.map_some, Option.getD_some, hb]
    simp only [length_append, length_singleton, UInt64.ofNat_add, UInt64.add_assoc]
    rw [UInt64.add_comm (UInt64.ofNat front.length)]

section

variable {disk₀ disk : Disk} {full segments : List (List StoredBlock)} {cur bs : List StoredBlock} {b : StoredBlock}
  {before : List (Place × StoredBlock)}

section

variable (h : Recoverable codec sha256 computeTxID conf disk₀ full cur disk)
include h

theorem Recoverable.syncBlockfilesInfoFromFS :
    ∃ info, disk.blkMgrInfo = some info ∧
      BlkStorage.syncBlockfilesInfoFromFS disk.files info = .ok (infoOf full cur) := by
  obtain ⟨pre, post, rfl, hsv, hf⟩ := h.saved
  obtain ⟨tail, ht, hfile⟩ := h.current
  refine ⟨_, hsv, ?_⟩
  rw [BlkStorage.syncBlockfilesInfoFromFS, infoOf]
  rw [hfile]
  dsimp only
  by_cases heq : (frames (pre ++ post) ++ tail).length = (frames pre).length
  · rw [if_pos heq, (frames_length_eq_iff.mp heq).1, append_nil, infoOf]
  · obtain ⟨last, hsc⟩ := scanForLastCompleteBlock_eq hfile ht fun b hb =>
      (h.storable b (by simp [hb])).toReadable
    rw [if_neg heq, hsc]
    dsimp only
    by_cases hp : post = []
    · subst hp
      simp [infoOf]
    · have hnm := h.numbered
      rw [← append_assoc] at hnm
      have hl := lastPersistedBlock_eq hnm hp fun hnil => hf hnil hp
      rw [append_assoc] at hl
      have he : false = (full.flatten ++ (pre ++ post)).isEmpty := by simp [hp]
      rw [if_neg (length_pos_iff.mpr hp).ne', hl, he]
      rfl

theorem Recoverable.filesHold_truncate (info : BlockfilesInfo) :
    FilesHold (((disk.saveBlkfilesInfo info).openFile full.length).truncate full.length (frames cur).length).files 0
      (full ++ [cur]) := by
  obtain ⟨tail, -, hfile⟩ := h.current
  intro i bs hi
  rw [Nat.zero_add]
  refine (AMap.lookup_modify _ _ _ _).trans ?_
  have hop : ∀ k, ((disk.saveBlkfilesInfo info).openFile full.length).files.lookup k =
      if k = full.length then some (frames cur ++ tail) else disk.files.lookup k := by
    intro k
    refine (AMap.lookup_modify _ _ _ _).trans ?_
    rw [show (disk.saveBlkfilesInfo info).files = disk.files from rfl, hfile, Option.getD_some]
  obtain hi | ⟨rfl, rfl⟩ := getElem?_concat_eq_some hi
  · have hne := (List.getElem?_eq_some_iff.mp hi).1.ne
    rw [if_neg hne, hop, if_neg hne]
    exact h.files.lookup hi
  · rw [if_pos rfl, hop, if_pos rfl, Option.getD_some, take_left]

theorem Recoverable.beyond_truncate (info : BlockfilesInfo) (k : ℕ) (hk : full.length < k) :
    ((((disk.saveBlkfilesInfo info).openFile full.length).truncate full.length (frames cur).length).files.lookup
      k).getD [] = [] := by
  have hlk : (((disk.saveBlkfilesInfo info).openFile full.length).truncate full.length
      (frames cur).length).files.lookup k = disk.files.lookup k := by
    refine (AMap.lookup_modify _ _ _ _).trans ((if_neg hk.ne').trans ?_)
    exact (AMap.lookup_modify _ _ _ _).trans (if_neg hk.ne')
  rw [hlk]
  exact h.beyond k hk

end

theorem mem_flatten_of_mem_segments (hbs : bs ∈ full ++ [cur]) (hb : b ∈ bs) : b ∈ full.flatten ++ cur := by
  have hm : b ∈ (full ++ [cur]).flatten := mem_flatten.mpr ⟨bs, hbs, hb⟩
  rwa [flatten_append, flatten_singleton] at hm

theorem Recoverable.storable_placed (h : Recoverable codec sha256 computeTxID conf disk₀ full cur disk)
    (p : Place × StoredBlock) (hp : p ∈ placedFrom 0 (full ++ [cur])) : Storable conf p.2 := by
  obtain ⟨i, pre, post, hi, -⟩ := exists_of_mem_placedFrom hp
  exact h.storable p.2 (mem_flatten_of_mem_segments (mem_of_getElem? hi) (by simp))

theorem retrieveFirstBlockNumFromFile_eq (hf : FilesHold files 0 ((b :: bs) :: segments)) (hr : b.Readable) :
    retrieveFirstBlockNumFromFile codec computeTxID files 0 = .ok b.header.number := by
  have hft := fetchBlockBytes_of_placed hf (p := (⟨0, 0⟩, b)) (by simp [placedFrom, placedIn]) hr.size
  rw [retrieveFirstBlockNumFromFile, hft, ok_bind, hr.extractSerializedBlockInfo]
  rfl

theorem nextIndexableBlock_eq (hf : Fresh disk₀) (ha : conf.attrsToIndex ≠ []) {index : Index}
    (hnm : Numbered disk₀.firstPossibleBlockNumberInBlockFiles (before.map Prod.snd))
    (h : before.foldlM (indexPlaced codec sha256 computeTxID conf) disk₀.index = .ok index) :
    index.indexSavePoint.elim 0 (· + 1) = disk₀.firstPossibleBlockNumberInBlockFiles + UInt64.ofNat before.length := by
  rw [indexSavePoint_of_foldlM ha h]
  induction before using List.reverseRecOn with
  | nil =>
    rw [hf.indexSavePoint, Disk.firstPossibleBlockNumberInBlockFiles]
    cases disk₀.bootstrappingSnapshotInfo <;> simp
  | append_singleton before last =>
    have hl := hnm.number before.length last.2 (by simp)
    simp [hl, UInt64.ofNat_add, UInt64.add_assoc]

theorem Numbered.left {chain' : List StoredBlock} (h : Numbered base (chain ++ chain')) :
    Numbered base chain := by
  constructor
  · intro i b hi
    exact h.number i b (List.getElem?_append_left (List.getElem?_eq_some_iff.mp hi).1 ▸ hi)
  · have := h.bound
    rw [length_append] at this
    omega

theorem lastPersistedBlock_add_one (h : Numbered base (full.flatten ++ cur)) (hne : full.flatten ++ cur ≠ []) :
    (infoOf full cur).lastPersistedBlock + 1 = base + UInt64.ofNat (full.flatten ++ cur).length := by
  rw [infoOf]
  generalize full.flatten ++ cur = chain at h hne
  obtain ⟨front, last, rfl⟩ := eq_nil_or_concat' chain |>.resolve_left hne
  have hl := h.number front.length last (by simp)
  simp [hl, UInt64.ofNat_add, UInt64.add_assoc]

theorem Recoverable.retrieveFirstBlockNumFromFile (h : Recoverable codec sha256 computeTxID conf disk₀ full cur disk)
    (he : full.flatten ++ cur ≠ []) (hf : FilesHold files 0 (full ++ [cur])) :
    BlkStorage.retrieveFirstBlockNumFromFile codec computeTxID files 0 =
      .ok disk₀.firstPossibleBlockNumberInBlockFiles := by
  obtain ⟨rfl, rfl⟩ | ⟨b, bs, segments, hsg⟩ := h.firstFile
  · exact absurd rfl he
  · have hc : full.flatten ++ cur = b :: (bs ++ segments.flatten) := by
      have := congrArg List.flatten hsg
      rwa [flatten_append, flatten_singleton, flatten_cons] at this
    have hnm := h.numbered.number 0 b (by rw [hc]; rfl)
    rw [hsg] at hf
    rw [retrieveFirstBlockNumFromFile_eq hf (h.storable b (by rw [hc]; simp)).toReadable, hnm]
    simp

theorem unindexedBlocks_eq (ha : .blockNum ∈ conf.attrsToIndex) (hf : FilesHold disk.files 0 (full ++ [cur]))
    (hr : ∀ bs ∈ full ++ [cur], ∀ b ∈ bs, b.Readable)
    (hnm : Numbered disk₀.firstPossibleBlockNumberInBlockFiles (full.flatten ++ cur))
    {after : List (Place × StoredBlock)} (hpl : placedFrom 0 (full ++ [cur]) = before ++ after)
    (hb : before.foldlM (indexPlaced codec sha256 computeTxID conf) disk₀.index = .ok disk.index) :
    unindexedBlocks conf disk full.length disk₀.firstPossibleBlockNumberInBlockFiles
        (disk₀.firstPossibleBlockNumberInBlockFiles + UInt64.ofNat before.length) = .ok (after.map streamed) := by
  have hc : before.map Prod.snd ++ after.map Prod.snd = full.flatten ++ cur := by
    rw [← map_append, ← hpl, map_snd_placedFrom, flatten_append, flatten_singleton]
  rw [← hc] at hnm
  have hlt : disk₀.firstPossibleBlockNumberInBlockFiles <
      disk₀.firstPossibleBlockNumberInBlockFiles + UInt64.ofNat before.length ↔ before ≠ [] := by
    rw [UInt64.lt_iff_toNat_lt, hnm.toNat_next (by simp), ← length_pos_iff]
    omega
  rw [unindexedBlocks]
  induction before using List.reverseRecOn with
  | nil =>
    rw [if_neg (fun h => hlt.mp h rfl)]
    obtain ⟨bs, segments, hsg⟩ := exists_cons_of_ne_nil (l := full ++ [cur]) (by simp)
    have hfl : full.length = segments.length := by
      have := congrArg List.length hsg
      rw [length_append, length_singleton, length_cons] at this
      omega
    rw [hsg] at hf hr hpl
    have hf : FilesHold disk.files 0 (([] ++ bs) :: segments) := hf
    have hst := streamBlocks_of_filesHold hf (hr bs mem_cons_self)
      (fun bs' hbs' => hr bs' (mem_cons_of_mem _ hbs'))
    rw [hfl]
    refine hst.trans (congrArg (fun l => ok (List.map streamed l)) ?_)
    exact hpl
  | append_singleton before last =>
    rw [if_pos (hlt.mpr (by simp))]
    have hnd : ((before ++ [last]).map fun p => p.2.header.number).Nodup := by
      have := hnm.left.nodup
      rwa [map_map] at this
    have hl := (indexed_of_foldlM hnd hb).blockNum ha last (by simp)
    have hsv : disk.index.indexSavePoint = some last.2.header.number := by
      rw [indexSavePoint_of_foldlM (ne_nil_of_mem ha) hb]
      simp
    have hst := streamBlocks_of_placedFrom_eq hf hr
      (hpl.trans (append_assoc before [last] after))
    have hm : 0 + (full ++ [cur]).length - 1 - last.1.fileNum = full.length - last.1.fileNum := by
      rw [length_append, length_singleton]
      omega
    rw [hm] at hst
    rw [hsv, Option.getD_some, getBlockLocByBlockNum, if_pos ha, hl, orErr, ok_bind]
    rw [hst]
    rfl

theorem Recoverable.syncIndex (hf : Fresh disk₀) (hat : .blockNum ∈ conf.attrsToIndex)
    (h : Recoverable codec sha256 computeTxID conf disk₀ full cur disk) {disk' : Disk}
    (hfl : FilesHold disk'.files 0 (full ++ [cur])) (hi : disk'.index = disk.index)
    (hsn : disk'.bootstrappingSnapshotInfo = disk₀.bootstrappingSnapshotInfo) :
    ∃ index, BlkStorage.syncIndex codec sha256 computeTxID conf disk' (infoOf full cur) = .ok index ∧
      (placedFrom 0 (full ++ [cur])).foldlM (indexPlaced codec sha256 computeTxID conf) disk₀.index = .ok index := by
  obtain ⟨before, after, hpl, hbf⟩ := h.index
  rw [← hi] at hbf
  have hst := h.storable_placed
  rw [hpl] at hst
  obtain ⟨index, ha⟩ := exists_foldlM_indexPlaced codec sha256 computeTxID
    (fun p hp => hst p (mem_append_right _ hp)) disk'.index
  refine ⟨index, ?_, by rw [hpl, foldlM_append, hbf, ok_bind, ha]⟩
  have hc : before.map Prod.snd ++ after.map Prod.snd = full.flatten ++ cur := by
    rw [← map_append, ← hpl, map_snd_placedFrom, flatten_append, flatten_singleton]
  have hln : before.length + after.length = (full.flatten ++ cur).length := by
    rw [← hc, length_append, length_map, length_map]
  have hnm := h.numbered
  have hnb : Numbered disk₀.firstPossibleBlockNumberInBlockFiles (before.map Prod.snd) := by
    rw [← hc] at hnm
    exact hnm.left
  have hn := nextIndexableBlock_eq hf (ne_nil_of_mem hat) hnb hbf
  have hnn := hnm.toNat_next (show before.length ≤ (full.flatten ++ cur).length by omega)
  have hfr : disk'.firstPossibleBlockNumberInBlockFiles = disk₀.firstPossibleBlockNumberInBlockFiles := by
    rw [Disk.firstPossibleBlockNumberInBlockFiles, hsn]
    rfl
  have hd : after = [] → disk'.index = index := by
    rintro rfl
    cases ha
    rfl
  rw [BlkStorage.syncIndex, hn, hfr, if_neg]
  · by_cases he : full.flatten ++ cur = []
    · have hnil : after = [] := by
        rw [he, length_nil] at hln
        exact length_eq_zero_iff.mp (by omega)
      rw [if_pos (by simpa [infoOf] using he), hd hnil]
    · rw [if_neg (by simpa [infoOf] using he), lastPersistedBlock_add_one hnm he]
      by_cases han : after = []
      · rw [if_pos, hd han]
        rw [← hln, han, length_nil, Nat.add_zero]
      · rw [if_neg, h.retrieveFirstBlockNumFromFile he hfl, ok_bind]
        · have hr : ∀ bs ∈ full ++ [cur], ∀ b ∈ bs, b.Readable := fun bs hbs b hb =>
            (h.storable b (mem_flatten_of_mem_segments hbs hb)).toReadable
          rw [show (infoOf full cur).latestFileNumber = full.length from rfl,
            unindexedBlocks_eq hat hfl hr hnm hpl hbf, ok_bind, foldlM_indexStreamed, ha]
          exact fun p hp => (hst p (mem_append_right _ hp)).toReadable
        · intro heq
          have hnt := congrArg UInt64.toNat heq
          rw [hnm.toNat_next le_rfl] at hnt
          have := length_pos_iff.mpr han
          omega
  · rintro ⟨hz, hps⟩
    rw [UInt64.lt_iff_toNat_lt] at hps
    rw [hz] at hnn
    omega

theorem retrieveBlockHeaderByNumber_eq (ha : .blockNum ∈ conf.attrsToIndex)
    (hf : FilesHold disk.files 0 segments) (hi : Indexed conf (placedFrom 0 segments) disk.index)
    (hp : p ∈ placedFrom 0 segments) (hr : p.2.Readable)
    (hfr : ¬ p.2.header.number < disk.firstPossibleBlockNumberInBlockFiles) :
    retrieveBlockHeaderByNumber codec computeTxID conf disk p.2.header.number = .ok p.2.header := by
  rw [retrieveBlockHeaderByNumber, if_neg hfr, getBlockLocByBlockNum, if_pos ha, hi.blockNum ha p hp,
    orErr, ok_bind, fetchBlockBytes_of_placed hf hp hr.size, ok_bind,
    hr.extractSerializedBlockInfo]
  rfl

/-- Reopening brings the record and the index up to date with the complete blocks, and cuts off the rest. -/
theorem Recoverable.newBlockfileMgr (hf : Fresh disk₀) (ha : .blockNum ∈ conf.attrsToIndex)
    (h : Recoverable codec sha256 computeTxID conf disk₀ full cur disk) :
    ∃ mgr, BlkStorage.newBlockfileMgr codec sha256 computeTxID conf disk = .ok mgr ∧
      Synced codec sha256 computeTxID conf disk₀ full cur mgr := by
  obtain ⟨saved, hsv, hsyn⟩ := h.syncBlockfilesInfoFromFS
  have hfl := h.filesHold_truncate (infoOf full cur)
  set disk' := ((disk.saveBlkfilesInfo (infoOf full cur)).openFile full.length).truncate full.length (frames cur).length
    with hd'
  obtain ⟨index, hin, hfo⟩ := h.syncIndex hf ha hfl rfl h.snapshot
  have hfr : ({ disk' with index } : Disk).firstPossibleBlockNumberInBlockFiles =
      disk₀.firstPossibleBlockNumberInBlockFiles := by
    rw [show ({ disk' with index } : Disk).bootstrappingSnapshotInfo =
      disk₀.bootstrappingSnapshotInfo from h.snapshot]
    rfl
  have hsy : ∀ bcInfo, bcInfo = bcInfoOf sha256 disk₀.bootstrappingSnapshotInfo (full.flatten ++ cur) →
      Synced codec sha256 computeTxID conf disk₀ full cur ⟨{ disk' with index }, infoOf full cur, bcInfo⟩ :=
    fun bcInfo hbi =>
      ⟨⟨hfl, h.beyond_truncate _, h.snapshot, rfl, rfl, hfo, hbi, h.numbered⟩, rfl, rfl⟩
  rw [BlkStorage.newBlockfileMgr, hsv]
  dsimp only
  rw [hsyn, ok_bind]
  rw [show ((disk.saveBlkfilesInfo (infoOf full cur)).openFile (infoOf full cur).latestFileNumber).truncate
    (infoOf full cur).latestFileNumber (infoOf full cur).latestFileSize = disk' from rfl, hin, ok_bind]
  by_cases he : full.flatten ++ cur = []
  · rw [if_pos (by simpa [infoOf] using he)]
    refine ⟨_, rfl, hsy _ ?_⟩
    rw [he]
    exact congrArg bootstrappedInfo h.snapshot
  · rw [if_neg (by simpa [infoOf] using he)]
    obtain ⟨front, last, hc⟩ := eq_nil_or_concat' (full.flatten ++ cur) |>.resolve_left he
    have hm : last ∈ full.flatten ++ cur := by rw [hc]; simp
    have hl : (infoOf full cur).lastPersistedBlock = last.header.number := by
      rw [infoOf, hc]
      simp
    obtain ⟨p, hp, rfl⟩ := exists_placed hm
    have hi := indexed_of_foldlM (hsy _ rfl).nodup hfo
    have hh : retrieveBlockHeaderByNumber codec computeTxID conf { disk' with index } p.2.header.number =
        .ok p.2.header := by
      refine retrieveBlockHeaderByNumber_eq ha ?_ ?_ hp (h.storable _ hm).toReadable ?_
      · exact hfl
      · exact hi
      · rw [hfr]
        exact h.numbered.le_number hm
    rw [hl, hh]
    refine ⟨_, rfl, hsy _ ?_⟩
    rw [hc, bcInfoOf, getLast?_concat]
    rfl

end

end

end Drunix.BlkStorage
