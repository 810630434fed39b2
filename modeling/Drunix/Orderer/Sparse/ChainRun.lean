import Mathlib.Data.List.Chain
import Drunix.Orderer.Sparse.OrgBlockSpec

namespace Drunix.Orderer.Sparse

open Lib Proto Outcome List Option

structure ChannelOrgChains where
  chHeader : ChannelHeadInfo := {}
  versionDB : VersionDB := fun _ => none
  savepoint : Option UInt64 := none
  cache : Bytes → UInt64 → Option Bytes := fun _ _ => none
  orgBlockIndex : Bytes → UInt64 → Option UInt64 := fun _ _ => none
  orgMerkleInfo : UInt64 → Option (AMap Bytes OrgBlockDetails) := fun _ => none

def storePerBlock {α : Type} (orgBlocks : AMap Bytes Block) (value : Block → α) (store : Bytes → UInt64 → Option α)
    (org : Bytes) (n : UInt64) : Option α :=
  match orgBlocks.lookup org with
  | some block => if block.header.number = n then some (value block) else store org n
  | none => store org n

def storeBlockData (codec : Codec) (s : ChannelOrgChains) (blk : Block) (out : Created) : ChannelOrgChains where
  chHeader := out.chHeader
  versionDB := out.versionDB
  savepoint := out.savepoint <|> s.savepoint
  cache := storePerBlock out.localOrgBlocks codec.block.marshal s.cache
  orgBlockIndex := storePerBlock out.localOrgBlocks (fun _ => blk.header.number) s.orgBlockIndex
  orgMerkleInfo := Function.update s.orgMerkleInfo out.chHeader.lastFatBlockNumberProcessed (some out.orgHashMap)

def switchBlock (chainSupport : ChainSupport) (chHeader : ChannelHeadInfo) (blk : Block) : Option Block :=
  if chHeader.orgHeadPostion.entries.length = 0 ∧ blk.header.number ≠ 0 then chainSupport.lastProcessedBlk else none

/-- Runs of fat-block processing on a channel: what was created at each step so far, the header of
the fat block at the save point, and the state reached. Caches may lose entries at any time. -/
inductive Run (codec : Codec) (sha256 : Bytes → Bytes) (channelID : Bytes) :
    List Created → Option BlockHeader → ChannelOrgChains → Prop
  | init (versionDB : VersionDB) : Run codec sha256 channelID [] none { versionDB }
  | process {outs base s} (chainSupport : ChainSupport) (mvccApplicable : Bool) (blk : Block) (out : Created) :
      Run codec sha256 channelID outs base s → chainSupport.channelID = channelID →
      createOrgBlocks codec sha256 chainSupport mvccApplicable s.versionDB s.chHeader blk = .ok out →
      Run codec sha256 channelID (outs ++ [out])
        ((switchBlock chainSupport s.chHeader blk).map Block.header <|> base) (storeBlockData codec s blk out)
  | evict {outs base s} (cache : Bytes → UInt64 → Option Bytes) :
      Run codec sha256 channelID outs base s → (∀ org n, cache org n = none ∨ cache org n = s.cache org n) →
      Run codec sha256 channelID outs base { s with cache }

def orgChain (outs : List Created) (org : Bytes) : List (UInt64 × Block) :=
  outs.filterMap fun out => (out.localOrgBlocks.lookup org).map (out.chHeader.lastFatBlockNumberProcessed, ·)

def orgBase (channelID : Bytes) (base : Option BlockHeader) (org : Bytes) : Option BlockHeader :=
  if org ∈ configOrgList channelID then base else none

def headersFrom (base : Option BlockHeader) (chain : List (UInt64 × Block)) : List BlockHeader :=
  base.toList ++ chain.map fun b => b.2.header

def Follows (sha256 : Bytes → Bytes) (b next : BlockHeader) : Prop :=
  next.number = b.number + 1 ∧ next.previousHash = blockHeaderHash sha256 b

structure LastBlockMapping.Describes (codec : Codec) (sha256 : Bytes → Bytes) (head : LastBlockMapping)
    (fatBlockNum : UInt64) (block : Block) : Prop where
  number : head.lastOrgBlockNum = block.header.number
  hash : head.lastOrgBlockHash = blockHeaderHash sha256 block.header
  source : head.sourceFatBlockNum = fatBlockNum
  lastConfig : block.metadata[BlockMetadataIndex.lastConfig.index]? =
    some (lastConfigMetadata codec head.lastConfigBlockNum)

/-- A chain is well formed: linked from its base or from block zero, with the data hashes of its
blocks, and described by its head. -/
structure ChainWellFormed (codec : Codec) (sha256 : Bytes → Bytes) (base : Option BlockHeader)
    (chain : List (UInt64 × Block)) (head : Option LastBlockMapping) : Prop where
  linked : (headersFrom base chain).IsChain (Follows sha256)
  first : base = none → ∀ b ∈ chain.head?, b.2.header.number = 0 ∧ b.2.header.previousHash = []
  dataHash : ∀ b ∈ chain, b.2.header.dataHash = blockDataHash sha256 b.2.data
  tracks : head.map (fun h => (h.lastOrgBlockNum, h.lastOrgBlockHash)) =
    (headersFrom base chain).getLast?.map fun b => (b.number, blockHeaderHash sha256 b)
  describes : ∀ b ∈ chain.getLast?, ∃ h, head = some h ∧ h.Describes codec sha256 b.1 b.2

section

variable {codec : Codec} {sha256 : Bytes → Bytes} {base : Option BlockHeader} {chain : List (UInt64 × Block)}
  {head : Option LastBlockMapping} {blk : Block} {details : List TxnDetails} {r : OrgRecord}

theorem headersFrom_append (base : Option BlockHeader) (chain : List (UInt64 × Block)) (b : UInt64 × Block) :
    headersFrom base (chain ++ [b]) = headersFrom base chain ++ [b.2.header] := by
  simp [headersFrom]

theorem ChainWellFormed.empty : ChainWellFormed codec sha256 none [] none :=
  ⟨.nil, by simp, by simp, rfl, by simp⟩

theorem OrgRecord.Extends.describes (h : r.Extends codec sha256 blk head details) :
    r.head.Describes codec sha256 blk.header.number r.block :=
  ⟨h.headNum, h.headHash, h.headSource, h.lastConfig⟩

section

variable (hw : ChainWellFormed codec sha256 base chain head)
include hw

theorem ChainWellFormed.follows (h : r.Extends codec sha256 blk head details) {last : BlockHeader}
    (hl : last ∈ (headersFrom base chain).getLast?) : Follows sha256 last r.block.header := by
  have ht := hw.tracks
  rw [mem_def.mp hl, map_some, map_eq_some_iff] at ht
  obtain ⟨m, hm, he⟩ := ht
  obtain ⟨hn, hh⟩ := Prod.mk.inj he
  refine ⟨?_, ?_⟩
  · rw [h.number, hm, elim_some, hn]
  · rw [h.previousHash, hm, elim_some, hh]

theorem ChainWellFormed.head_eq_none (he : headersFrom base chain = []) : head = none := by
  have ht := hw.tracks
  rw [he] at ht
  exact map_eq_none_iff.mp ht

end

theorem ChainWellFormed.headersFrom_eq_nil (hw : ChainWellFormed codec sha256 base chain none) :
    base = none ∧ chain = [] := by
  have hl := hw.tracks
  rw [map_none, eq_comm, map_eq_none_iff, getLast?_eq_none_iff] at hl
  obtain ⟨hb, hc⟩ := append_eq_nil_iff.mp hl
  exact ⟨toList_eq_nil_iff.mp hb, map_eq_nil_iff.mp hc⟩

theorem ChainWellFormed.extend (hw : ChainWellFormed codec sha256 base chain head)
    (h : r.Extends codec sha256 blk head details) :
    ChainWellFormed codec sha256 base (chain ++ [(blk.header.number, r.block)]) (some r.head) where
  linked := by
    rw [headersFrom_append, isChain_append]
    refine ⟨hw.linked, .singleton _, ?_⟩
    intro last hl next hn
    obtain rfl : r.block.header = next := by simpa using hn
    exact hw.follows h hl
  first := by
    intro hbs b hb
    cases chain with
    | nil =>
      obtain rfl : (blk.header.number, r.block) = b := by simpa using hb
      have hh : head = none := hw.head_eq_none (by simp [headersFrom, hbs])
      exact ⟨by rw [h.number, hh, elim_none], by rw [h.previousHash, hh, elim_none]⟩
    | cons c chain => exact hw.first hbs b (by simpa using hb)
  dataHash := forall_mem_append.mpr ⟨hw.dataHash, forall_mem_singleton.mpr h.dataHash⟩
  tracks := by
    rw [headersFrom_append, getLast?_concat, map_some, map_some, h.headNum, h.headHash]
  describes := by
    intro b hb
    obtain rfl : (blk.header.number, r.block) = b := by simpa using hb
    exact ⟨r.head, rfl, h.describes⟩

end

section

variable {codec : Codec} {sha256 : Bytes → Bytes} {chainSupport : ChainSupport} {chHeader : ChannelHeadInfo}
  {blk : Block} {heads : AMap Bytes LastBlockMapping}

/-- The heads a step builds on: at the switch those of the save point, else the ones there are. -/
theorem startHeads_eq_ok {savepoint : Option UInt64}
    (h : startHeads codec sha256 chainSupport chHeader blk = .ok (savepoint, heads)) :
    (savepoint = none ∧ ¬(chHeader.orgHeadPostion.entries.length = 0 ∧ blk.header.number ≠ 0) ∧
        ∀ org, heads.lookup org = chHeader.orgHeadPostion.lookup org) ∨
      (chHeader.orgHeadPostion.entries.length = 0 ∧ blk.header.number ≠ 0) ∧ ∃ fatblock index,
        chainSupport.lastProcessedBlk = some fatblock ∧ switchLastConfig codec fatblock blk = .ok index ∧
        savepoint = some fatblock.header.number ∧ ∀ org, heads.lookup org =
          if org ∈ configOrgList chainSupport.channelID then some (savepointHead sha256 fatblock index) else none := by
  unfold startHeads at h
  split_ifs at h with he hn
  · simp only [switchHeads, bind_eq_ok, deref_eq_ok, pure_eq, ok.injEq, Prod.mk.injEq] at h
    obtain ⟨⟨_, _⟩, ⟨fatblock, hf, index, hi, rfl, rfl⟩, rfl, rfl⟩ := h
    refine .inr ⟨⟨he, hn⟩, fatblock, index, hf, hi, rfl, fun org => ?_⟩
    rw [AMap.lookup_foldl_insert]
    congr
  · obtain ⟨rfl, rfl⟩ := Prod.mk.inj (ok.inj h)
    exact .inl ⟨rfl, fun hc => hn hc.2, fun org => ((AMap.length_eq_zero_iff _).mp he org).symm⟩
  · obtain ⟨rfl, rfl⟩ := Prod.mk.inj (ok.inj h)
    exact .inl ⟨rfl, fun hc => he hc.1, fun _ => rfl⟩

theorem startHeads_wellFormed {savepoint : Option UInt64} {base : Option BlockHeader}
    {chain : Bytes → List (UInt64 × Block)}
    (h : startHeads codec sha256 chainSupport chHeader blk = .ok (savepoint, heads))
    (hw : ∀ org, ChainWellFormed codec sha256 (orgBase chainSupport.channelID base org) (chain org)
      (chHeader.orgHeadPostion.lookup org)) (org : Bytes) :
    ChainWellFormed codec sha256 (orgBase chainSupport.channelID
      ((switchBlock chainSupport chHeader blk).map Block.header <|> base) org) (chain org) (heads.lookup org) := by
  rcases startHeads_eq_ok h with ⟨-, hsw, hlk⟩ | ⟨hsw, fatblock, index, hf, -, -, hlk⟩
  · rw [switchBlock, if_neg hsw, hlk]
    exact hw org
  · have hwr := hw org
    rw [(AMap.length_eq_zero_iff _).mp hsw.1 org] at hwr
    obtain ⟨_, hc⟩ := hwr.headersFrom_eq_nil
    rw [switchBlock, if_pos hsw, hf, hlk, hc, orgBase]
    by_cases ho : org ∈ configOrgList chainSupport.channelID
    · rw [if_pos ho, if_pos ho]
      exact ⟨.singleton _, by simp, by simp, by simp [headersFrom, savepointHead], by simp⟩
    · rw [if_neg ho, if_neg ho]
      exact .empty

theorem orgChain_append (outs : List Created) (out : Created) (org : Bytes) :
    orgChain (outs ++ [out]) org = orgChain outs org ++
      ((out.localOrgBlocks.lookup org).map (out.chHeader.lastFatBlockNumberProcessed, ·)).toList := by
  rw [orgChain, orgChain]
  cases h : out.localOrgBlocks.lookup org <;> simp [h]

/-- Every org chain is well formed in every state a run of fat-block processing reaches. -/
theorem orgChains_wellFormed (codec : Codec) (sha256 : Bytes → Bytes) (channelID : Bytes) (outs : List Created)
    (base : Option BlockHeader) (s : ChannelOrgChains) (h : Run codec sha256 channelID outs base s) (org : Bytes) :
    ChainWellFormed codec sha256 (orgBase channelID base org) (orgChain outs org)
      (s.chHeader.orgHeadPostion.lookup org) := by
  induction h generalizing org with
  | init versionDB =>
    simp only [orgBase, ite_self]
    exact .empty
  | @process outs base s chainSupport mvccApplicable blk out _ hch ho ih =>
    subst hch
    obtain ⟨heads, agg, hc⟩ := createOrgBlocks_eq_ok ho
    have hw := startHeads_wellFormed hc.start ih org
    rw [orgChain_append]
    change ChainWellFormed codec sha256 _ _ (out.chHeader.orgHeadPostion.lookup org)
    cases hd : agg.orgTxnEnvelopeMap.lookup org with
    | none =>
      obtain ⟨hb, _, hh⟩ := hc.skipped org hd
      rw [hb, hh]
      simpa using hw
    | some details =>
      obtain ⟨r, hr, hb, _, hh⟩ := hc.produced org details hd
      rw [hb, hh, hc.processed]
      exact hw.extend (nextRecord_extends hr).1
  | evict _ _ _ ih => exact ih org

end

def payEnvelope : Envelope where
  type := .endorserTransaction
  leanEnv := some { channelId := ascii "ch", results := some ⟨[]⟩ }

def payCodec : Codec :=
  { Codec.none with
    envelope := .ofTable [] [(payEnvelope, [0x01])]
    metadata := .ofTable [0x02] [({}, [])] }

def payChain : ChainSupport where
  channelID := ascii "ch"
  lastProcessedBlk := some { header := { number := 4 } }
  signer := fun _ => ⟨{}, id⟩

def payBlock (number : UInt64) : Block where
  header := { number }
  data := [[0x01]]

theorem orgChains_wellFormed_switch :
    ∃ outs base s, Run payCodec id (ascii "ch") outs base s ∧
      (orgChain outs (ascii "ch")).map (fun b => b.2.header.number) = [5, 6] ∧
      ChainWellFormed payCodec id (orgBase (ascii "ch") base (ascii "ch")) (orgChain outs (ascii "ch"))
        (s.chHeader.orgHeadPostion.lookup (ascii "ch")) := by
  have h₀ : Run payCodec id (ascii "ch") [] none {} := .init fun _ => none
  have h₁ := Run.process payChain true (payBlock 5) _ h₀ rfl rfl
  have h₂ := Run.process payChain true (payBlock 6) _ h₁ rfl rfl
  exact ⟨_, _, _, h₂, by decide, orgChains_wellFormed payCodec id (ascii "ch") _ _ _ h₂ (ascii "ch")⟩

end Drunix.Orderer.Sparse
