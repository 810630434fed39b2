import Drunix.Orderer.Sparse.ChainRun

namespace Drunix.Orderer.Sparse

open Lib Proto Outcome Option

def retrieveTxnListForOrgBlock (blk : Block) (txnIdxList : List UInt64) : Outcome Unit (List Bytes) :=
  txnIdxList.mapM fun txnIdx => .deref blk.data[txnIdx.toNat]?

/-- The org block put together again from the fat block and the skeleton. The filter slot gets the
bytes of the skeleton as they are, and the block type is left at zero. -/
def assembleOrgBlock (fatblockMerkleInfo : AMap Bytes OrgBlockDetails) (orgId : Bytes) (fatBlock : Option Block) :
    Outcome Unit Block := do
  let fatBlock ← .deref fatBlock
  let orgBlockDetails ← .deref (fatblockMerkleInfo.lookup orgId)
  let data ← retrieveTxnListForOrgBlock fatBlock orgBlockDetails.txnIndexList
  let orgBlock := newBlock orgBlockDetails.orgBlockNumber orgBlockDetails.previoushHash
  let orgBlock := { orgBlock with header := { orgBlock.header with dataHash := orgBlockDetails.hash }, data }
  let orgBlock := setMetadata orgBlock .lastConfig orgBlockDetails.metadataLastConfig
  let orgBlock := setMetadata orgBlock .signatures orgBlockDetails.metadataSignature
  return setMetadata orgBlock .sparseTxnFilter orgBlockDetails.sparseBlockFilter

/-- `retriveOrgBlockByNum`: an evicted cache entry may also read as empty bytes. A missing index or
skeleton is read as an empty one, in which the details of the chain are nil. -/
def retriveOrgBlockByNum (codec : Codec) (s : ChannelOrgChains) (fatBlockReader : UInt64 → Option Block)
    (orgId : Bytes) (blockNum : UInt64) : Outcome Unit Block :=
  let blockBytes := (s.cache orgId blockNum).getD []
  if blockBytes ≠ [] then .deref (codec.block.unmarshal blockBytes)
  else if blockNum ≤ s.savepoint.getD 0 then .orErr () (fatBlockReader blockNum)
  else
    let fatBlockNumber := (s.orgBlockIndex orgId blockNum).getD 0
    let fatBlockMerkleInfo := ((s.orgBlockIndex orgId blockNum).bind s.orgMerkleInfo).getD ∅
    assembleOrgBlock fatBlockMerkleInfo orgId (fatBlockReader fatBlockNumber)

/-- In the wire format a filter starts with a field tag that no wrapped value starts with. -/
def FilterTagged (codec : Codec) : Prop :=
  ∀ filter wrapped : SparseTxnFilter, wrapped.txnInfoList ≠ [] →
    codec.sparseTxnFilter.marshal filter ≠
      codec.metadata.marshal { value := codec.sparseTxnFilter.marshal wrapped }

section

variable {codec : Codec} {sha256 : Bytes → Bytes} {channelID org : Bytes} {chainSupport : ChainSupport}
  {mvccApplicable : Bool} {blk : Block} {out : Created}

structure StoreInv (codec : Codec) (outs : List Created) (s : ChannelOrgChains) : Prop where
  cached : ∀ org n bytes, s.cache org n = some bytes →
    ∃ b ∈ orgChain outs org, b.2.header.number = n ∧ bytes = codec.block.marshal b.2
  skeletons : ∀ n info org details, s.orgMerkleInfo n = some info → info.lookup org = some details →
    ∃ filter, details.sparseBlockFilter = codec.sparseTxnFilter.marshal filter
  wrapped : ∀ org, ∀ b ∈ orgChain outs org, ∃ filter : SparseTxnFilter, filter.txnInfoList ≠ [] ∧
    b.2.metadata[BlockMetadataIndex.sparseTxnFilter.index]? =
      some (codec.metadata.marshal { value := codec.sparseTxnFilter.marshal filter })

theorem createOrgBlocks_filter {versionDB : VersionDB} {chHeader : ChannelHeadInfo}
    (h : createOrgBlocks codec sha256 chainSupport mvccApplicable versionDB chHeader blk = .ok out) (org : Bytes) :
    (out.localOrgBlocks.lookup org = none ∧ out.orgHashMap.lookup org = none) ∨
      ∃ block details, ∃ filter : SparseTxnFilter, out.localOrgBlocks.lookup org = some block ∧
        out.orgHashMap.lookup org = some details ∧ filter.txnInfoList ≠ [] ∧
        details.sparseBlockFilter = codec.sparseTxnFilter.marshal filter ∧
        block.metadata[BlockMetadataIndex.sparseTxnFilter.index]? =
          some (codec.metadata.marshal { value := codec.sparseTxnFilter.marshal filter }) := by
  obtain ⟨heads, agg, hc⟩ := createOrgBlocks_eq_ok h
  obtain ⟨txns, -, hcl, -⟩ := aggregateOrgEnvelope_eq_ok hc.aggregate
  cases hd : agg.orgTxnEnvelopeMap.lookup org with
  | none =>
    obtain ⟨hb, hdt, _⟩ := hc.skipped org hd
    exact Or.inl ⟨hb, hdt⟩
  | some list =>
    obtain ⟨r, hr, hb, hdt, _⟩ := hc.produced org list hd
    obtain ⟨_, hne, hf⟩ := hcl.lookup hd
    obtain ⟨he, hby⟩ := nextRecord_extends hr
    rw [hf, elim_some] at hby
    refine Or.inr ⟨r.block, r.details, _, hb, hdt, ?_, hby, ?_⟩
    · simpa using hne
    · rw [he.filterSlot, hby]

variable {outs : List Created} {b : UInt64 × Block}

theorem mem_orgChain_append :
    b ∈ orgChain (outs ++ [out]) org ↔ b ∈ orgChain outs org ∨
      ∃ block, out.localOrgBlocks.lookup org = some block ∧ (out.chHeader.lastFatBlockNumberProcessed, block) = b := by
  rw [orgChain_append, List.mem_append, mem_toList, map_eq_some_iff]

variable {s : ChannelOrgChains}

theorem StoreInv.process (hi : StoreInv codec outs s)
    (h : createOrgBlocks codec sha256 chainSupport mvccApplicable s.versionDB s.chHeader blk = .ok out) :
    StoreInv codec (outs ++ [out]) (storeBlockData codec s blk out) where
  cached := by
    intro org n bytes hby
    have ho : s.cache org n = some bytes → ∃ b ∈ orgChain (outs ++ [out]) org,
        b.2.header.number = n ∧ bytes = codec.block.marshal b.2 := by
      intro hb
      obtain ⟨b, hm, hr⟩ := hi.cached org n bytes hb
      exact ⟨b, mem_orgChain_append.mpr (Or.inl hm), hr⟩
    simp only [storeBlockData, storePerBlock] at hby
    cases hl : out.localOrgBlocks.lookup org with
    | none =>
      rw [hl] at hby
      exact ho hby
    | some block =>
      simp only [hl] at hby
      by_cases hn : block.header.number = n
      · rw [if_pos hn] at hby
        exact ⟨_, mem_orgChain_append.mpr (Or.inr ⟨block, hl, rfl⟩), hn, (Option.some.inj hby).symm⟩
      · rw [if_neg hn] at hby
        exact ho hby
  skeletons := by
    intro n info org details hin hdt
    by_cases hn : n = out.chHeader.lastFatBlockNumberProcessed
    · subst hn
      simp only [storeBlockData, Function.update_self, Option.some.injEq] at hin
      subst hin
      rcases createOrgBlocks_filter h org with ⟨_, hnn⟩ | ⟨_, d, filter, _, hd, _, hby, _⟩
      · rw [hnn] at hdt
        cases hdt
      · rw [hd] at hdt
        exact ⟨filter, Option.some.inj hdt ▸ hby⟩
    · simp only [storeBlockData, Function.update_of_ne hn] at hin
      exact hi.skeletons n info org details hin hdt
  wrapped := by
    intro org b hb
    rcases mem_orgChain_append.mp hb with hb | ⟨block, hl, rfl⟩
    · exact hi.wrapped org b hb
    · rcases createOrgBlocks_filter h org with ⟨hnn, _⟩ | ⟨block', _, filter, hl', _, hne, _, hsl⟩
      · rw [hnn] at hl
        cases hl
      · rw [hl'] at hl
        exact ⟨filter, hne, Option.some.inj hl ▸ hsl⟩

theorem Run.storeInv {base : Option BlockHeader} (h : Run codec sha256 channelID outs base s) :
    StoreInv codec outs s := by
  induction h with
  | init versionDB => exact ⟨by simp, by simp, by simp [orgChain]⟩
  | process chainSupport mvccApplicable blk out _ _ ho ih => exact ih.process ho
  | evict cache _ hc ih =>
    refine ⟨?_, ih.skeletons, ih.wrapped⟩
    intro org n bytes hb
    change cache org n = some bytes at hb
    rcases hc org n with hn | hsm
    · rw [hn] at hb
      cases hb
    · exact ih.cached org n bytes (hsm ▸ hb)

/-- A block put together again is never the block that was produced. -/
theorem StoreInv.assembled_ne (hi : StoreInv codec outs s) (ht : FilterTagged codec) (hb : b ∈ orgChain outs org)
    (n : Option UInt64) (fatBlock : Option Block) :
    assembleOrgBlock ((n.bind s.orgMerkleInfo).getD ∅) org fatBlock ≠ .ok b.2 := by
  intro h
  simp only [assembleOrgBlock, bind_eq_ok, deref_eq_ok, pure_eq, Outcome.ok.injEq] at h
  obtain ⟨_, _, details, hd, _, _, hbl⟩ := h
  obtain ⟨wrapped, hne, hs'⟩ := hi.wrapped org b hb
  rw [← hbl] at hs'
  have hsl := Option.some.inj hs'
  cases hin : n.bind s.orgMerkleInfo with
  | none =>
    rw [hin] at hd
    cases hd
  | some info =>
    obtain ⟨num, _, hn⟩ := bind_eq_some_iff.mp hin
    rw [hin] at hd
    obtain ⟨filter, hf⟩ := hi.skeletons num info org details hn hd
    exact ht filter wrapped hne (hf ▸ hsl)

end

/-- Retrieval returns the block that was produced exactly when its bytes are still in the cache, or
when the number is within the save point and the fat ledger holds that very block. -/
theorem retrieve_eq_produced_iff (codec : Codec) (sha256 : Bytes → Bytes) (channelID : Bytes) (outs : List Created)
    (base : Option BlockHeader) (s : ChannelOrgChains) (h : Run codec sha256 channelID outs base s)
    (htag : FilterTagged codec) (fatBlockReader : UInt64 → Option Block) (org : Bytes)
    (hwire : ∀ b ∈ orgChain outs org, codec.block.RoundTrips b.2 ∧ codec.block.marshal b.2 ≠ [])
    (b : UInt64 × Block) (hb : b ∈ orgChain outs org) :
    retriveOrgBlockByNum codec s fatBlockReader org b.2.header.number = .ok b.2 ↔
      s.cache org b.2.header.number = some (codec.block.marshal b.2) ∨
        s.cache org b.2.header.number = none ∧ b.2.header.number ≤ s.savepoint.getD 0 ∧
          fatBlockReader b.2.header.number = some b.2 := by
  have hi := h.storeInv
  simp only [retriveOrgBlockByNum]
  cases hc : s.cache org b.2.header.number with
  | none =>
    by_cases hsv : b.2.header.number ≤ s.savepoint.getD 0
    · simp [hsv]
    · simp [hi.assembled_ne htag hb, hsv]
  | some bytes =>
    obtain ⟨c, hcm, _, rfl⟩ := hi.cached org _ bytes hc
    obtain ⟨hrt, hne⟩ := hwire c hcm
    rw [getD_some, if_pos hne, deref_eq_ok, hrt]
    constructor
    · intro he
      rw [Option.some.inj he]
      exact Or.inl rfl
    · rintro (he | ⟨he, _⟩)
      · rw [Wire.marshal_injOn hrt (hwire b hb).1 (Option.some.inj he)]
      · cases he

def approveEnvelope : Envelope where
  type := .approve
  leanEnv := some { channelId := ascii "ch", results := some ⟨[]⟩ }

def approveFat : Block where
  header := { number := 5 }
  data := [[0x01]]

def approveBlock : Block where
  header := { number := 5, previousHash := blockHeaderHash id { number := 4 }, dataHash := [0x01] }
  data := [[0x01]]
  metadata := [[0x0a], [0x0a], [], [], [], [], [], [], [0x0a]]
  blockType := .approve

def approveCodec : Codec :=
  { Codec.none with
    envelope := .ofTable [] [(approveEnvelope, [0x01])]
    block := .ofTable [] [(approveBlock, [0x2a])]
    metadata := .ofTable [0x0a] [({}, [])]
    lastConfig := .ofTable [0x08] []
    sparseTxnFilter := .ofTable [0x08] [] }

theorem approveCodec_filterTagged : FilterTagged approveCodec := by
  intro filter wrapped _
  change ([0x08] : Bytes) ≠ [0x0a]
  decide

theorem retrieve_eq_produced_iff_cached :
    ∃ outs base s, Run approveCodec id (ascii "ch") outs base s ∧ FilterTagged approveCodec ∧
      (∀ b ∈ orgChain outs (ascii "ch"), approveCodec.block.RoundTrips b.2 ∧ approveCodec.block.marshal b.2 ≠ []) ∧
      (5, approveBlock) ∈ orgChain outs (ascii "ch") ∧
      retriveOrgBlockByNum approveCodec s (fun _ => none) (ascii "ch") 5 = .ok approveBlock := by
  have h₀ : Run approveCodec id (ascii "ch") [] none {} := .init fun _ => none
  have h₁ := Run.process payChain true approveFat _ h₀ rfl rfl
  have hw := retrieve_eq_produced_iff approveCodec id (ascii "ch") _ _ _ h₁ approveCodec_filterTagged
    (fun _ => none) (ascii "ch") (by decide) (5, approveBlock) (by decide)
  exact ⟨_, _, _, h₁, approveCodec_filterTagged, by decide, by decide, hw.mpr (Or.inl (by decide))⟩

/-- Once evicted, the approve block comes back with an unwrapped filter and without its type. -/
theorem evicted_block_differs :
    ∃ outs base s block, Run approveCodec id (ascii "ch") outs base s ∧
      (5, approveBlock) ∈ orgChain outs (ascii "ch") ∧
      retriveOrgBlockByNum approveCodec s (fun n => if n = 5 then some approveFat else none) (ascii "ch") 5 =
        .ok block ∧
      block.header = approveBlock.header ∧ block.data = approveBlock.data ∧
      block.metadata[BlockMetadataIndex.sparseTxnFilter.index]? = some [0x08] ∧
      approveBlock.metadata[BlockMetadataIndex.sparseTxnFilter.index]? = some [0x0a] ∧
      block.blockType = .message ∧ approveBlock.blockType = .approve := by
  have h₀ : Run approveCodec id (ascii "ch") [] none {} := .init fun _ => none
  have h₁ := Run.process payChain true approveFat _ h₀ rfl rfl
  have h₂ := Run.evict (fun _ _ => none) h₁ fun _ _ => Or.inl rfl
  exact ⟨_, _, _, _, h₂, by decide, rfl, by decide, by decide, by decide, by decide, by decide, by decide⟩

end Drunix.Orderer.Sparse
