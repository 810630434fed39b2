import Drunix.BlkStorage.Serialization
import Drunix.Lib.AMap

namespace Drunix.BlkStorage

open Lib Proto

inductive IndexableAttr
  | blockNum
  | blockHash
  | txID
  | blockNumTranNum
  deriving DecidableEq

structure FileLocPointer where
  fileSuffixNum : ℕ
  offset : ℕ
  bytesLength : ℕ := 0
  deriving DecidableEq

structure TxIDIndexValue where
  blkLocation : FileLocPointer
  txLocation : FileLocPointer
  txValidationCode : UInt8

/-- The keys of the index in the database; a transaction id that came with a snapshot has the empty value. -/
structure Index where
  blockHash : Bytes → Option FileLocPointer := fun _ => none
  blockNum : UInt64 → Option FileLocPointer := fun _ => none
  txID : Bytes × UInt64 × UInt64 → Option (Option TxIDIndexValue) := fun _ => none
  blockNumTranNum : UInt64 × UInt64 → Option FileLocPointer := fun _ => none
  indexSavePoint : Option UInt64 := none

structure BlockfilesInfo where
  latestFileNumber : ℕ
  latestFileSize : ℕ
  noBlockFiles : Bool
  lastPersistedBlock : UInt64
  deriving DecidableEq

structure BootstrappingSnapshotInfo where
  lastBlockNum : UInt64
  lastBlockHash : Bytes
  previousBlockHash : Bytes

structure Disk where
  files : AMap ℕ Bytes := ∅
  blkMgrInfo : Option BlockfilesInfo := none
  index : Index := {}
  bootstrappingSnapshotInfo : Option BootstrappingSnapshotInfo := none

structure Conf where
  maxBlockfileSize : ℕ
  attrsToIndex : List IndexableAttr

structure BlockchainInfo where
  height : UInt64 := 0
  currentBlockHash : Bytes := []
  previousBlockHash : Bytes := []
  deriving DecidableEq

structure BlockfileMgr where
  disk : Disk
  blockfilesInfo : BlockfilesInfo
  bcInfo : BlockchainInfo

inductive StoreError
  | decode (e : DecodeError)
  | unexpectedEndOfBlockfile
  | openFile (fileNum : ℕ)
  | peek
  | read
  | blockNumber (expected actual : UInt64)
  | previousHash
  | cannotSyncIndex
  | skippedBlockMissing
  | bootstrappedFromSnapshot (firstAvailable : UInt64)
  | attrNotIndexed (attr : IndexableAttr)
  | noSuchBlockNumber (blockNum : UInt64)
  | noSuchTransaction (blockNum tranNum : UInt64)
  | envelope
  deriving DecidableEq

namespace Disk

variable (disk : Disk)

def openFile (fileNum : ℕ) : Disk :=
  { disk with files := disk.files.modify fileNum fun file => file.getD [] }

def append (fileNum : ℕ) (bytes : Bytes) : Disk :=
  { disk with files := disk.files.modify fileNum fun file => file.getD [] ++ bytes }

def truncate (fileNum targetSize : ℕ) : Disk :=
  { disk with files := disk.files.modify fileNum fun file => (file.getD []).take targetSize }

def saveBlkfilesInfo (info : BlockfilesInfo) : Disk :=
  { disk with blkMgrInfo := some info }

def firstPossibleBlockNumberInBlockFiles : UInt64 :=
  disk.bootstrappingSnapshotInfo.elim 0 fun bsi => bsi.lastBlockNum + 1

end Disk

/-- The block that starts at an offset, with the number of bytes of its length. Eight bytes are enough for the length
of a block. -/
def nextBlockBytes (file : Bytes) (currentOffset : ℕ) : Outcome StoreError (Option (Bytes × ℕ)) :=
  if currentOffset = file.length then .ok none
  else if file.length < currentOffset then .err .peek
  else
    let remaining := file.drop currentOffset
    let lenBytes := remaining.take 8
    match Varint.consume lenBytes with
    | none => if remaining.length < 8 then .err .unexpectedEndOfBlockfile else .panic
    | some (length, rest) =>
      let n := lenBytes.length - rest.length
      if remaining.length < n + length.toNat then .err .unexpectedEndOfBlockfile
      else .ok (some ((remaining.drop n).take length.toNat, n))

structure BlockPlacementInfo where
  fileNum : ℕ
  blockStartOffset : ℕ
  blockBytesOffset : ℕ
  deriving DecidableEq

structure Scan where
  blocks : List (BlockPlacementInfo × Bytes)
  endOffset : ℕ
  stop : Outcome StoreError Unit

/-- A block takes at least one byte, so that as many rounds as the file has bytes are enough. -/
def scanRounds (fileNum : ℕ) (file : Bytes) : ℕ → ℕ → Scan
  | 0, offset => ⟨[], offset, .ok ()⟩
  | rounds + 1, offset =>
    match nextBlockBytes file offset with
    | .ok none => ⟨[], offset, .ok ()⟩
    | .err e => ⟨[], offset, .err e⟩
    | .panic => ⟨[], offset, .panic⟩
    | .ok (some (blockBytes, n)) =>
      let s := scanRounds fileNum file rounds (offset + n + blockBytes.length)
      { s with blocks := (⟨fileNum, offset, offset + n⟩, blockBytes) :: s.blocks }

def scanFile (fileNum : ℕ) (file : Bytes) (startOffset : ℕ) : Scan :=
  scanRounds fileNum file (file.length + 1) startOffset

def openStream (files : AMap ℕ Bytes) (fileNum : ℕ) : Outcome StoreError Bytes :=
  .orErr (.openFile fileNum) (files.lookup fileNum)

/-- A block cut off at the end of the file is what a crash leaves, and no error. -/
def scanForLastCompleteBlock (files : AMap ℕ Bytes) (fileNum startingOffset : ℕ) :
    Outcome StoreError (Option Bytes × ℕ × ℕ) := do
  let file ← openStream files fileNum
  let s := scanFile fileNum file startingOffset
  match s.stop with
  | .ok () | .err .unexpectedEndOfBlockfile =>
    .ok (s.blocks.getLast?.map Prod.snd, s.endOffset, s.blocks.length)
  | .err e => .err e
  | .panic => .panic

/-- `blockStream`: the blocks from a place on, through as many further files. -/
def streamBlocks (files : AMap ℕ Bytes) : ℕ → ℕ → ℕ → Outcome StoreError (List (BlockPlacementInfo × Bytes))
  | 0, fileNum, startOffset => do
      let file ← openStream files fileNum
      let s := scanFile fileNum file startOffset
      s.stop
      .ok s.blocks
  | more + 1, fileNum, startOffset => do
      let file ← openStream files fileNum
      let s := scanFile fileNum file startOffset
      s.stop
      let next ← streamBlocks files more (fileNum + 1) 0
      .ok (s.blocks ++ next)

structure BlockIdxInfo where
  blockNum : UInt64
  blockHash : Bytes
  flp : FileLocPointer
  txOffsets : List TxIndexInfo
  metadata : List Bytes

def newFileLocationPointer (fileSuffixNum beginningOffset : ℕ) (relativeLP : LocPointer) : FileLocPointer :=
  ⟨fileSuffixNum, beginningOffset + relativeLP.offset, relativeLP.bytesLength⟩

def indexTxs {σ : Type} (put : σ → UInt64 → TxIndexInfo → Outcome StoreError σ) (s : σ) (txOffsets : List TxIndexInfo) :
    Outcome StoreError σ :=
  txOffsets.zipIdx.foldlM (fun s tx => put s (UInt64.ofNat tx.2) tx.1) s

section

variable (conf : Conf)

/-- `Index3`: a transaction is found by its id, with the flag it got. -/
def putTxIDs (info : BlockIdxInfo) (txsfltr : Bytes) (entries : Bytes × UInt64 × UInt64 → Option (Option TxIDIndexValue)) :
    Outcome StoreError (Bytes × UInt64 × UInt64 → Option (Option TxIDIndexValue)) :=
  if .txID ∈ conf.attrsToIndex then
    indexTxs (fun entries i tx => do
      let flag ← .deref (txsfltr[i.toNat]?)
      let txFlp := newFileLocationPointer info.flp.fileSuffixNum info.flp.offset tx.loc
      .ok (Function.update entries (tx.txID, info.blockNum, i) (some (some ⟨info.flp, txFlp, flag⟩))))
      entries info.txOffsets
  else .ok entries

/-- `Index4`: a transaction is found by the numbers of its block and of itself. -/
def putTranNums (info : BlockIdxInfo) (entries : UInt64 × UInt64 → Option FileLocPointer) :
    Outcome StoreError (UInt64 × UInt64 → Option FileLocPointer) :=
  if .blockNumTranNum ∈ conf.attrsToIndex then
    indexTxs (fun entries i tx =>
      .ok (Function.update entries (info.blockNum, i)
        (some (newFileLocationPointer info.flp.fileSuffixNum info.flp.offset tx.loc))))
      entries info.txOffsets
  else .ok entries

def indexBlock (index : Index) (info : BlockIdxInfo) : Outcome StoreError Index :=
  if conf.attrsToIndex = [] then .ok index
  else do
    let txsfltr ← .deref (info.metadata[BlockMetadataIndex.transactionsFilter.index]?)
    let txID ← putTxIDs conf info txsfltr index.txID
    let blockNumTranNum ← putTranNums conf info index.blockNumTranNum
    .ok
      { blockHash :=
          if .blockHash ∈ conf.attrsToIndex then Function.update index.blockHash info.blockHash (some info.flp)
          else index.blockHash
        blockNum :=
          if .blockNum ∈ conf.attrsToIndex then Function.update index.blockNum info.blockNum (some info.flp)
          else index.blockNum
        txID
        blockNumTranNum
        indexSavePoint := some info.blockNum }

def getBlockLocByBlockNum (index : Index) (blockNum : UInt64) : Outcome StoreError FileLocPointer :=
  if .blockNum ∈ conf.attrsToIndex then .orErr (.noSuchBlockNumber blockNum) (index.blockNum blockNum)
  else .err (.attrNotIndexed .blockNum)

def getTXLocByBlockNumTranNum (index : Index) (blockNum tranNum : UInt64) : Outcome StoreError FileLocPointer :=
  if .blockNumTranNum ∈ conf.attrsToIndex then
    .orErr (.noSuchTransaction blockNum tranNum) (index.blockNumTranNum (blockNum, tranNum))
  else .err (.attrNotIndexed .blockNumTranNum)

end

def fetchBlockBytes (files : AMap ℕ Bytes) (lp : FileLocPointer) : Outcome StoreError Bytes := do
  let file ← openStream files lp.fileSuffixNum
  let block ← nextBlockBytes file lp.offset
  .ok ((block.map Prod.fst).getD [])

def fetchRawBytes (files : AMap ℕ Bytes) (lp : FileLocPointer) : Outcome StoreError Bytes := do
  let file ← openStream files lp.fileSuffixNum
  if file.length < lp.offset + lp.bytesLength then .err .read
  else .ok ((file.drop lp.offset).take lp.bytesLength)

def fetchTransactionEnvelope (codec : Codec) (files : AMap ℕ Bytes) (lp : FileLocPointer) :
    Outcome StoreError Envelope := do
  let txEnvelopeBytes ← fetchRawBytes files lp
  let envelopeBytes := ((Varint.consume txEnvelopeBytes).map Prod.snd).getD txEnvelopeBytes
  .orErr .envelope (getEnvelopeFromBlock codec envelopeBytes)

section

variable (codec : Codec) (sha256 : Bytes → Bytes) (computeTxID : Bytes → Bytes → Bytes) (conf : Conf)

def retrieveFirstBlockNumFromFile (files : AMap ℕ Bytes) (fileNum : ℕ) : Outcome StoreError UInt64 := do
  let bb ← fetchBlockBytes files ⟨fileNum, 0, 0⟩
  let blockInfo ← (extractSerializedBlockInfo codec computeTxID bb).mapErr .decode
  .ok blockInfo.blockHeader.number

def retrieveLastFileSuffix (files : AMap ℕ Bytes) : Option ℕ :=
  files.keys.max?

/-- `constructBlockfilesInfo`, for a database without the record. -/
def constructBlockfilesInfo (files : AMap ℕ Bytes) : Outcome StoreError BlockfilesInfo :=
  match retrieveLastFileSuffix files with
  | none => .ok ⟨0, 0, true, 0⟩
  | some lastFileNum => do
      let (lastBlockBytes, endOffsetLastBlock, numBlocksInFile) ← scanForLastCompleteBlock files lastFileNum 0
      let lastBlockBytes ←
        if numBlocksInFile = 0 ∧ 0 < lastFileNum then do
          let _ ← .deref (files.lookup (lastFileNum - 1))
          let (lastBlockBytes, _, _) ← scanForLastCompleteBlock files (lastFileNum - 1) 0
          .ok lastBlockBytes
        else .ok lastBlockBytes
      let lastBlockNumber ← lastBlockBytes.elim (.ok 0) fun bytes => do
        let lastBlock ← (deserializeBlock codec computeTxID bytes).mapErr StoreError.decode
        let header ← .deref lastBlock.header
        .ok header.number
      .ok ⟨lastFileNum, endOffsetLastBlock, lastFileNum = 0 ∧ numBlocksInFile = 0, lastBlockNumber⟩

/-- What the saved record becomes when it is compared with its file; an error in the scan panics. -/
def syncBlockfilesInfoFromFS (files : AMap ℕ Bytes) (info : BlockfilesInfo) : Outcome StoreError BlockfilesInfo :=
  match files.lookup info.latestFileNumber with
  | none => .ok info
  | some file =>
    if file.length = info.latestFileSize then .ok info
    else
      match scanForLastCompleteBlock files info.latestFileNumber info.latestFileSize with
      | .ok (_, endOffsetLastBlock, numBlocks) =>
        let info := { info with latestFileSize := endOffsetLastBlock }
        .ok (if numBlocks = 0 then info
          else
            { info with
              lastPersistedBlock :=
                if info.noBlockFiles then UInt64.ofNat (numBlocks - 1)
                else info.lastPersistedBlock + UInt64.ofNat numBlocks
              noBlockFiles := false })
      | .err _ | .panic => .panic

def blockIdxInfoOf (placement : BlockPlacementInfo) (info : SerializedBlockInfo) : BlockIdxInfo where
  blockNum := info.blockHeader.number
  blockHash := blockHeaderHash sha256 info.blockHeader
  flp := ⟨placement.fileNum, placement.blockStartOffset, 0⟩
  txOffsets := info.txOffsets.map fun tx =>
    { tx with loc := { tx.loc with
        offset := tx.loc.offset + (placement.blockBytesOffset - placement.blockStartOffset) } }
  metadata := info.metadata

def indexStreamed (index : Index) (block : BlockPlacementInfo × Bytes) : Outcome StoreError Index := do
  let info ← (extractSerializedBlockInfo codec computeTxID block.2).mapErr .decode
  indexBlock conf index (blockIdxInfoOf sha256 block.1 info)

def unindexedBlocks (disk : Disk) (latestFileNumber : ℕ) (firstAvailableBlkNum nextIndexableBlock : UInt64) :
    Outcome StoreError (List (BlockPlacementInfo × Bytes)) :=
  if firstAvailableBlkNum < nextIndexableBlock then do
    let flp ← getBlockLocByBlockNum conf disk.index (disk.index.indexSavePoint.getD 0)
    let blocks ← streamBlocks disk.files (latestFileNumber - flp.fileSuffixNum) flp.fileSuffixNum flp.offset
    match blocks with
    | [] => .err .skippedBlockMissing
    | _ :: blocks => .ok blocks
  else streamBlocks disk.files latestFileNumber 0 0

def syncIndex (disk : Disk) (info : BlockfilesInfo) : Outcome StoreError Index :=
  let nextIndexableBlock := disk.index.indexSavePoint.elim 0 (· + 1)
  if nextIndexableBlock = 0 ∧ 0 < disk.firstPossibleBlockNumberInBlockFiles then .err .cannotSyncIndex
  else if info.noBlockFiles then .ok disk.index
  else if nextIndexableBlock = info.lastPersistedBlock + 1 then .ok disk.index
  else do
    let firstAvailableBlkNum ← retrieveFirstBlockNumFromFile codec computeTxID disk.files 0
    let blocks ← unindexedBlocks conf disk info.latestFileNumber firstAvailableBlkNum nextIndexableBlock
    blocks.foldlM (indexStreamed codec sha256 computeTxID conf) disk.index

def retrieveBlockHeaderByNumber (disk : Disk) (blockNum : UInt64) : Outcome StoreError BlockHeader :=
  if blockNum < disk.firstPossibleBlockNumberInBlockFiles then
    .err (.bootstrappedFromSnapshot disk.firstPossibleBlockNumberInBlockFiles)
  else do
    let loc ← getBlockLocByBlockNum conf disk.index blockNum
    let blockBytes ← fetchBlockBytes disk.files loc
    let info ← (extractSerializedBlockInfo codec computeTxID blockBytes).mapErr .decode
    .ok info.blockHeader

def bootstrappedInfo : Option BootstrappingSnapshotInfo → BlockchainInfo
  | none => {}
  | some bsi => ⟨bsi.lastBlockNum + 1, bsi.lastBlockHash, bsi.previousBlockHash⟩

def newBlockfileMgr (disk : Disk) : Outcome StoreError BlockfileMgr := do
  let info ←
    match disk.blkMgrInfo with
    | none =>
      match constructBlockfilesInfo codec computeTxID disk.files with
      | .ok info => .ok info
      | .err _ | .panic => .panic
    | some info => syncBlockfilesInfoFromFS disk.files info
  let disk := ((disk.saveBlkfilesInfo info).openFile info.latestFileNumber).truncate info.latestFileNumber
    info.latestFileSize
  let index ← syncIndex codec sha256 computeTxID conf disk info
  let disk := { disk with index }
  let bcInfo := bootstrappedInfo disk.bootstrappingSnapshotInfo
  if info.noBlockFiles then .ok ⟨disk, info, bcInfo⟩
  else
    match retrieveBlockHeaderByNumber codec computeTxID conf disk info.lastPersistedBlock with
    | .ok lastBlockHeader =>
      .ok ⟨disk, info,
        ⟨info.lastPersistedBlock + 1, blockHeaderHash sha256 lastBlockHeader, lastBlockHeader.previousHash⟩⟩
    | .err _ | .panic => .panic

def blockToAppend (mgr : BlockfileMgr) (block : Block) :
    Outcome StoreError (BlockHeader × Bytes × SerializedBlockInfo) := do
  let header ← .deref block.header
  if header.number ≠ mgr.bcInfo.height then .err (.blockNumber mgr.bcInfo.height header.number)
  else if header.previousHash ≠ mgr.bcInfo.currentBlockHash then .err .previousHash
  else do
    let (blockBytes, info) ← (serializeBlock codec computeTxID block).mapErr .decode
    .ok (header, blockBytes, info)

def BlockfileMgr.nextBlockfilesInfo (mgr : BlockfileMgr) : BlockfilesInfo :=
  ⟨mgr.blockfilesInfo.latestFileNumber + 1, 0, false, mgr.blockfilesInfo.lastPersistedBlock⟩

def BlockfileMgr.moveToNextFile (mgr : BlockfileMgr) : BlockfileMgr :=
  { mgr with
    disk := (mgr.disk.openFile mgr.nextBlockfilesInfo.latestFileNumber).saveBlkfilesInfo mgr.nextBlockfilesInfo
    blockfilesInfo := mgr.nextBlockfilesInfo }

abbrev frame (blockBytes : Bytes) : Bytes :=
  Varint.encodeBytes blockBytes

def BlockfileMgr.NeedsNextFile (mgr : BlockfileMgr) (blockBytes : Bytes) : Prop :=
  conf.maxBlockfileSize < mgr.blockfilesInfo.latestFileSize + (frame blockBytes).length

instance BlockfileMgr.decidableNeedsNextFile (mgr : BlockfileMgr) (blockBytes : Bytes) :
    Decidable (mgr.NeedsNextFile conf blockBytes) :=
  inferInstanceAs (Decidable (_ < _))

def BlockfileMgr.inFile (mgr : BlockfileMgr) (blockBytes : Bytes) : BlockfileMgr :=
  if mgr.NeedsNextFile conf blockBytes then mgr.moveToNextFile else mgr

def BlockfileMgr.appended (mgr : BlockfileMgr) (bytes : Bytes) : Disk :=
  mgr.disk.append mgr.blockfilesInfo.latestFileNumber bytes

def BlockfileMgr.newBlkfilesInfo (mgr : BlockfileMgr) (blockBytes : Bytes) (number : UInt64) : BlockfilesInfo :=
  ⟨mgr.blockfilesInfo.latestFileNumber, mgr.blockfilesInfo.latestFileSize + (frame blockBytes).length, false, number⟩

def BlockfileMgr.blockIdxInfo (mgr : BlockfileMgr) (blockBytes : Bytes) (info : SerializedBlockInfo) : BlockIdxInfo where
  blockNum := info.blockHeader.number
  blockHash := blockHeaderHash sha256 info.blockHeader
  flp := ⟨mgr.blockfilesInfo.latestFileNumber, mgr.blockfilesInfo.latestFileSize, 0⟩
  txOffsets := info.txOffsets.map fun tx =>
    { tx with loc := { tx.loc with
        offset := tx.loc.offset + (Varint.encode (UInt64.ofNat blockBytes.length)).length } }
  metadata := info.metadata

def BlockfileMgr.appendBlock (mgr : BlockfileMgr) (header : BlockHeader) (blockBytes : Bytes)
    (info : SerializedBlockInfo) : Outcome StoreError BlockfileMgr := do
  let newBlkfilesInfo := mgr.newBlkfilesInfo blockBytes header.number
  let disk := (mgr.appended (frame blockBytes)).saveBlkfilesInfo newBlkfilesInfo
  let index ← indexBlock conf disk.index (mgr.blockIdxInfo sha256 blockBytes info)
  .ok ⟨{ disk with index }, newBlkfilesInfo,
    ⟨mgr.bcInfo.height + 1, blockHeaderHash sha256 header, header.previousHash⟩⟩

def BlockfileMgr.addBlock (mgr : BlockfileMgr) (block : Block) : Outcome StoreError BlockfileMgr := do
  let (header, blockBytes, info) ← blockToAppend codec computeTxID mgr block
  (mgr.inFile conf blockBytes).appendBlock sha256 conf header blockBytes info

/-- The disk that a crash inside `addBlock` leaves, and whether the block is completely written. The length is appended
without a sync, so that any part of the bytes may be there; the record of the files is saved without a sync, and the
batch of the index is written at once. -/
inductive CrashedIn (mgr : BlockfileMgr) (block : Block) : Bool → Disk → Prop
  | untouched : CrashedIn mgr block false mgr.disk
  | nextFileOpened {header : BlockHeader} {blockBytes : Bytes} {info : SerializedBlockInfo}
      (hblock : blockToAppend codec computeTxID mgr block = .ok (header, blockBytes, info))
      (hnext : mgr.NeedsNextFile conf blockBytes) :
      CrashedIn mgr block false (mgr.disk.openFile mgr.nextBlockfilesInfo.latestFileNumber)
  | appending {header : BlockHeader} {blockBytes : Bytes} {info : SerializedBlockInfo} (n : ℕ)
      (hblock : blockToAppend codec computeTxID mgr block = .ok (header, blockBytes, info))
      (hn : n ≤ (frame blockBytes).length) :
      CrashedIn mgr block (decide (n = (frame blockBytes).length))
        ((mgr.inFile conf blockBytes).appended ((frame blockBytes).take n))
  | infoSaved {header : BlockHeader} {blockBytes : Bytes} {info : SerializedBlockInfo}
      (hblock : blockToAppend codec computeTxID mgr block = .ok (header, blockBytes, info)) :
      CrashedIn mgr block true
        (((mgr.inFile conf blockBytes).appended (frame blockBytes)).saveBlkfilesInfo
          ((mgr.inFile conf blockBytes).newBlkfilesInfo blockBytes header.number))
  | indexed {mgr' : BlockfileMgr} (hadd : mgr.addBlock codec sha256 computeTxID conf block = .ok mgr') :
      CrashedIn mgr block true mgr'.disk

/-- The greatest number asks for the last block. -/
def BlockfileMgr.retrieveBlockByNumber (mgr : BlockfileMgr) (blockNum : UInt64) : Outcome StoreError Block :=
  let blockNum := if blockNum = -1 then mgr.bcInfo.height - 1 else blockNum
  if blockNum < mgr.disk.firstPossibleBlockNumberInBlockFiles then
    .err (.bootstrappedFromSnapshot mgr.disk.firstPossibleBlockNumberInBlockFiles)
  else do
    let loc ← getBlockLocByBlockNum conf mgr.disk.index blockNum
    let blockBytes ← fetchBlockBytes mgr.disk.files loc
    (deserializeBlock codec computeTxID blockBytes).mapErr .decode

def BlockfileMgr.retrieveTransactionByBlockNumTranNum (mgr : BlockfileMgr) (blockNum tranNum : UInt64) :
    Outcome StoreError Envelope :=
  if blockNum < mgr.disk.firstPossibleBlockNumberInBlockFiles then
    .err (.bootstrappedFromSnapshot mgr.disk.firstPossibleBlockNumberInBlockFiles)
  else do
    let loc ← getTXLocByBlockNumTranNum conf mgr.disk.index blockNum tranNum
    fetchTransactionEnvelope codec mgr.disk.files loc

end

end Drunix.BlkStorage
