import Drunix.Orderer.Sparse.Aggregate

namespace Drunix.Orderer.Sparse

open Lib Proto

structure LastBlockMapping where
  lastOrgBlockNum : UInt64
  lastOrgBlockHash : Bytes
  sourceFatBlockNum : UInt64
  lastConfigBlockNum : UInt64
  deriving DecidableEq

structure ChannelHeadInfo where
  lastFatBlockNumberProcessed : UInt64 := 0
  orgHeadPostion : AMap Bytes LastBlockMapping := ∅

structure OrgBlockDetails where
  orgBlockNumber : UInt64
  hash : Bytes
  txnIndexList : List UInt64
  previoushHash : Bytes
  prevFatblockNumber : UInt64
  lastConfigBlockNum : UInt64
  sparseBlockFilter : Bytes
  metadataLastConfig : Bytes
  metadataSignature : Bytes
  deriving DecidableEq

structure Signer where
  signatureHeader : SignatureHeader
  sign : Bytes → Bytes

/-- What `createOrgBlocks` reads from outside: the fat block two below the ledger height, and the
signing identity, used once for each org block. -/
structure ChainSupport where
  channelID : Bytes
  lastProcessedBlk : Option Block
  signer : Bytes → Signer

structure OrgBlock where
  block : Block
  txnIdxList : List UInt64
  deriving DecidableEq

def createNextBlock (sha256 : Bytes → Bytes) (txnDetailsList : List TxnDetails) (previousHash : Bytes)
    (orgBlockNumber : UInt64) : OrgBlock :=
  let data := txnDetailsList.map TxnDetails.txnEnvBytes
  let block := newBlock orgBlockNumber previousHash
  { block := { block with header := { block.header with dataHash := blockDataHash sha256 data }, data }
    txnIdxList := txnDetailsList.map TxnDetails.indx }

def setMetadata (block : Block) (index : BlockMetadataIndex) (value : Bytes) : Block :=
  { block with metadata := block.metadata.set index.index value }

section

variable (codec : Codec) (sha256 : Bytes → Bytes)

def lastConfigMetadata (lastConfigBlockNum : UInt64) : Bytes :=
  codec.metadata.marshal { value := codec.lastConfig.marshal lastConfigBlockNum }

def orgBlockSignature (signer : Signer) (header : BlockHeader) (consenterMetadata : Bytes)
    (lastConfigBlockNum : UInt64) : Bytes :=
  let signatureHeader := codec.signatureHeader.marshal signer.signatureHeader
  let value := codec.ordererBlockMetadata.marshal {
    lastConfig := some lastConfigBlockNum
    consenterMetadata := codec.metadata.marshal { value := consenterMetadata } }
  codec.metadata.marshal {
    value
    signatures := [{ signatureHeader, signature := signer.sign (value ++ signatureHeader ++ blockHeaderBytes header) }] }

/-- `addMetadataFields`: the filter is wrapped in a metadata message in the block. -/
def addMetadataFields (signer : Signer) (orgBlock : Block) (sparseFilter : Bytes) (lastConfigBlockNum : UInt64) :
    Outcome Unit Block :=
  let orgBlock := setMetadata orgBlock .sparseTxnFilter (codec.metadata.marshal { value := sparseFilter })
  let orgBlock := setMetadata orgBlock .lastConfig (lastConfigMetadata codec lastConfigBlockNum)
  match getConsenterMetadataFromBlock codec orgBlock.metadata with
  | .ok consenter =>
    .ok (setMetadata orgBlock .signatures
      (orgBlockSignature codec signer orgBlock.header consenter.value lastConfigBlockNum))
  | _ => .panic

structure OrgRecord where
  head : LastBlockMapping
  details : OrgBlockDetails
  block : Block
  deriving DecidableEq

def lastConfigBlockNumber (configBlockCheck : Bool) (orgBlockNum : UInt64) (head : Option LastBlockMapping) :
    Outcome Unit UInt64 :=
  if configBlockCheck then .ok orgBlockNum
  -- a chain without a head has no entry to read here
  else LastBlockMapping.lastConfigBlockNum <$> Outcome.deref head

/-- The body of the loop of `storeOrgBlockSkeleton`; the details keep the filter bytes unwrapped. -/
def orgRecord (chainSupport : ChainSupport) (configBlockCheck : Bool) (fatBlockNum : UInt64)
    (sparseFilter : Option SparseTxnFilter) (head : Option LastBlockMapping) (orgId : Bytes) (orgBlock : OrgBlock) :
    Outcome Unit OrgRecord := do
  let sparseFilterBytes := sparseFilter.elim [] codec.sparseTxnFilter.marshal
  let header := orgBlock.block.header
  let lastConfigBlockNum ← lastConfigBlockNumber configBlockCheck header.number head
  let block ← addMetadataFields codec (chainSupport.signer orgId) orgBlock.block sparseFilterBytes lastConfigBlockNum
  return {
    head := {
      lastOrgBlockNum := header.number
      lastOrgBlockHash := blockHeaderHash sha256 header
      sourceFatBlockNum := fatBlockNum
      lastConfigBlockNum }
    details := {
      orgBlockNumber := header.number
      hash := header.dataHash
      txnIndexList := orgBlock.txnIdxList
      previoushHash := header.previousHash
      prevFatblockNumber := fatBlockNum
      lastConfigBlockNum
      sparseBlockFilter := sparseFilterBytes
      metadataLastConfig := block.metadata.getD BlockMetadataIndex.lastConfig.index []
      metadataSignature := block.metadata.getD BlockMetadataIndex.signatures.index [] }
    block }

structure Skeleton where
  orgHeadPostion : AMap Bytes LastBlockMapping
  orgHashMap : AMap Bytes OrgBlockDetails := ∅
  localOrgBlocks : AMap Bytes Block := ∅

def Skeleton.insert (s : Skeleton) (orgId : Bytes) (r : OrgRecord) : Skeleton where
  orgHeadPostion := s.orgHeadPostion.insert orgId r.head
  orgHashMap := s.orgHashMap.insert orgId r.details
  localOrgBlocks := s.localOrgBlocks.insert orgId r.block

def storeOrgBlockSkeleton (chainSupport : ChainSupport) (configBlockCheck : Bool) (fatBlockNum : UInt64)
    (filters : AMap Bytes SparseTxnFilter) (heads : AMap Bytes LastBlockMapping) (orgBlocks : AMap Bytes OrgBlock) :
    Outcome Unit Skeleton :=
  orgBlocks.entries.foldlM (fun s e => do
    let r ← orgRecord codec sha256 chainSupport configBlockCheck fatBlockNum (filters.lookup e.1)
      (s.orgHeadPostion.lookup e.1) e.1 e.2
    return s.insert e.1 r) { orgHeadPostion := heads }

def lastConfigOrZero (metadata : List Bytes) : Outcome Unit UInt64 :=
  match getLastConfigIndexFromBlock codec metadata with
  | .ok index => .ok index
  -- an error is logged, and the index stays zero
  | .err _ => .ok 0
  | .panic => .panic

/-- When the fat block at the save point is a config block, the number of the block being processed
is taken as last config. -/
def switchLastConfig (fatblock blk : Block) : Outcome Unit UInt64 :=
  if isConfigBlock codec fatblock.data then .ok blk.header.number
  else lastConfigOrZero codec fatblock.metadata

def savepointHead (fatblock : Block) (lastConfigValue : UInt64) : LastBlockMapping where
  lastOrgBlockNum := fatblock.header.number
  lastOrgBlockHash := blockHeaderHash sha256 fatblock.header
  sourceFatBlockNum := fatblock.header.number
  lastConfigBlockNum := lastConfigValue

def switchHeads (chainSupport : ChainSupport) (blk : Block) : Outcome Unit (UInt64 × AMap Bytes LastBlockMapping) := do
  let fatblock ← .deref chainSupport.lastProcessedBlk
  let lastConfigValue ← switchLastConfig codec fatblock blk
  return (fatblock.header.number, (configOrgList chainSupport.channelID).foldl
    (fun m org => m.insert org (savepointHead sha256 fatblock lastConfigValue)) ∅)

def startHeads (chainSupport : ChainSupport) (chHeader : ChannelHeadInfo) (blk : Block) :
    Outcome Unit (Option UInt64 × AMap Bytes LastBlockMapping) :=
  if chHeader.orgHeadPostion.entries.length = 0 then
    if blk.header.number ≠ 0 then do
      let (savepoint, heads) ← switchHeads codec sha256 chainSupport blk
      return (some savepoint, heads)
    else .ok (none, ∅)
  else .ok (none, chHeader.orgHeadPostion)

def nextOrgBlock (configBlockCheck : Bool) (blockType : HeaderType) (head : Option LastBlockMapping)
    (txnDetailsList : List TxnDetails) : OrgBlock :=
  let orgBlock := createNextBlock sha256 txnDetailsList (head.elim [] LastBlockMapping.lastOrgBlockHash)
    (head.elim 0 fun h => h.lastOrgBlockNum + 1)
  { orgBlock with block := { orgBlock.block with blockType := if configBlockCheck then .config else blockType } }

structure Created where
  localOrgBlocks : AMap Bytes Block
  orgHashMap : AMap Bytes OrgBlockDetails
  chHeader : ChannelHeadInfo
  versionDB : VersionDB
  savepoint : Option UInt64

def createOrgBlocks (chainSupport : ChainSupport) (mvccApplicable : Bool) (versionDB : VersionDB)
    (chHeader : ChannelHeadInfo) (blk : Block) : Outcome Unit Created := do
  let (savepoint, heads) ← startHeads codec sha256 chainSupport chHeader blk
  let agg ← aggregateOrgEnvelope codec chainSupport.channelID mvccApplicable versionDB blk
  let configBlockCheck := isConfigBlock codec blk.data
  let blockType := agg.approveCommitType.getD blk.blockType
  let orgBlocks := agg.orgTxnEnvelopeMap.filterMap fun orgId txnDetailsList =>
    some (nextOrgBlock sha256 configBlockCheck blockType (heads.lookup orgId) txnDetailsList)
  let s ← storeOrgBlockSkeleton codec sha256 chainSupport configBlockCheck blk.header.number
    agg.sparseTxnFilterMap heads orgBlocks
  return {
    localOrgBlocks := s.localOrgBlocks
    orgHashMap := s.orgHashMap
    chHeader := { lastFatBlockNumberProcessed := blk.header.number, orgHeadPostion := s.orgHeadPostion }
    versionDB := if mvccApplicable then applyBatch agg.fatTxnDetailsMVCCMap versionDB else versionDB
    savepoint }

end

end Drunix.Orderer.Sparse
