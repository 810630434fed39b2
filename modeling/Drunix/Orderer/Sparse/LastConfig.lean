import Drunix.Lib.Varint
import Drunix.Orderer.Sparse.AcceptedBlocks
import Drunix.Orderer.Sparse.Split

namespace Drunix.Orderer.Sparse

open Lib Proto Outcome List

structure FatLedger (codec : Codec) where
  blocks : List Block
  number : ∀ (i : Nat) (b : Block), blocks[i]? = some b → b.header.number.toNat = i
  genesis : ∀ b : Block, blocks[0]? = some b → isConfigBlock codec b.data = true
  lastConfig : ∀ (i : Nat) (b : Block) (index : UInt64), blocks[i]? = some b →
    getLastConfigIndexFromBlock codec b.metadata = .ok index →
    index.toNat ≤ i ∧ ∃ c : Block, blocks[index.toNat]? = some c ∧ isConfigBlock codec c.data = true

def FatLedger.lastProcessedBlk {codec : Codec} (ledger : FatLedger codec) (height : Nat) : Option Block :=
  if 2 ≤ height then ledger.blocks[height - 2]? else none

def storedLastConfig (codec : Codec) (block : Block) : Option UInt64 := do
  let md ← block.metadata[BlockMetadataIndex.lastConfig.index]?
  let m ← codec.metadata.unmarshal md
  codec.lastConfig.unmarshal m.value

section

variable (codec : Codec) (sha256 : Bytes → Bytes) (channelID : Bytes) (ledger : FatLedger codec)

/-- Runs over the fat blocks of a ledger. The save point is looked up at the height the ledger has in that
moment, which blocks appended meanwhile may have moved on. -/
inductive LedgerRun (allowed : ChainSupport → ChannelHeadInfo → Block → Prop) :
    List Created → Option BlockHeader → ChannelOrgChains → Prop
  | init (versionDB : VersionDB) : LedgerRun allowed [] none { versionDB }
  | process {outs base s} (chainSupport : ChainSupport) (mvccApplicable : Bool) (blk : Block) (out : Created)
      (height : Nat) : LedgerRun allowed outs base s → chainSupport.channelID = channelID →
      ledger.blocks[blk.header.number.toNat]? = some blk → blk.header.number.toNat < height →
      height ≤ ledger.blocks.length → chainSupport.lastProcessedBlk = ledger.lastProcessedBlk height →
      allowed chainSupport s.chHeader blk →
      createOrgBlocks codec sha256 chainSupport mvccApplicable s.versionDB s.chHeader blk = .ok out →
      LedgerRun allowed (outs ++ [out]) ((switchBlock chainSupport s.chHeader blk).map Block.header <|> base)
        (storeBlockData codec s blk out)
  | evict {outs base s} (cache : Bytes → UInt64 → Option Bytes) :
      LedgerRun allowed outs base s → (∀ org n, cache org n = none ∨ cache org n = s.cache org n) →
      LedgerRun allowed outs base { s with cache }

/-- The chain has a config block with this number: one of its org blocks, or a fat block up to the
save point for a chain that goes on from there. -/
def ConfigBlockAt (outs : List Created) (base : Option BlockHeader) (org : Bytes) (number : UInt64) : Prop :=
  (∃ b ∈ orgChain outs org, b.2.header.number = number ∧ isConfigBlock codec b.2.data = true) ∨
    ∃ header ∈ orgBase channelID base org, number.toNat ≤ header.number.toNat ∧
      ∃ fatblock, ledger.blocks[number.toNat]? = some fatblock ∧ isConfigBlock codec fatblock.data = true

def LastConfigSound (outs : List Created) (base : Option BlockHeader) (org : Bytes) (block : Block) : Prop :=
  ∃ index, storedLastConfig codec block = some index ∧ index.toNat ≤ block.header.number.toNat ∧
    ConfigBlockAt codec channelID ledger outs base org index

variable (chainSupport : ChainSupport) (chHeader : ChannelHeadInfo) (blk : Block)

structure KeepsLastConfig : Prop where
  savepoint : chHeader.orgHeadPostion.entries.length = 0 → blk.header.number ≠ 0 →
    ∀ fatblock ∈ chainSupport.lastProcessedBlk, isConfigBlock codec fatblock.data = true →
      isConfigBlock codec blk.data = true ∧ (blk.header.number.toNat ≤ fatblock.header.number.toNat ∨
        ∀ org ∈ configOrgList chainSupport.channelID, ∃ b ∈ blk.data, ∃ t, readTxnEnvelope codec b = .ok t ∧
          org ∈ t.orgList chainSupport.channelID)
  once : isConfigBlock codec blk.data = true → ∀ b ∈ blk.data, ∀ t, readTxnEnvelope codec b = .ok t →
    (t.orgList chainSupport.channelID).Nodup
  room : ∀ org, ∀ head ∈ chHeader.orgHeadPostion.lookup org, head.lastOrgBlockNum + 1 ≠ 0

end

section

variable {codec : Codec} {sha256 : Bytes → Bytes} {channelID : Bytes} {ledger : FatLedger codec}
  {allowed : ChainSupport → ChannelHeadInfo → Block → Prop} {outs : List Created} {base : Option BlockHeader}
  {s : ChannelOrgChains}

theorem LedgerRun.run (h : LedgerRun codec sha256 channelID ledger allowed outs base s) :
    Run codec sha256 channelID outs base s := by
  induction h with
  | init versionDB => exact .init versionDB
  | process chainSupport mvccApplicable blk out height _ hch _ _ _ _ _ ho ih =>
    exact .process chainSupport mvccApplicable blk out ih hch ho
  | evict cache _ hc ih => exact .evict cache ih hc

theorem eq_singleton_of_isConfigBlock {data : List Bytes} (h : isConfigBlock codec data = true) : ∃ b, data = [b] := by
  rcases data with _ | ⟨b, _ | ⟨b', data⟩⟩
  · cases h
  · exact ⟨b, rfl⟩
  · cases h

end

variable {mvccApplicable : Bool} {heads : AMap Bytes LastBlockMapping}

section

variable {codec : Codec} {sha256 : Bytes → Bytes} {chainSupport : ChainSupport} {chHeader : ChannelHeadInfo}
  {blk : Block} {agg : Aggregate} {org : Bytes} {details : List TxnDetails}

/-- An org block made of a config block that names the chain once holds the config envelope alone. -/
theorem data_eq_of_isConfigBlock {versionDB : VersionDB} (hk : KeepsLastConfig codec chainSupport chHeader blk)
    (hc : isConfigBlock codec blk.data = true)
    (ha : aggregateOrgEnvelope codec chainSupport.channelID mvccApplicable versionDB blk = .ok agg)
    (hd : agg.orgTxnEnvelopeMap.lookup org = some details) : details.map TxnDetails.txnEnvBytes = blk.data := by
  obtain ⟨b, hda⟩ := eq_singleton_of_isConfigBlock hc
  obtain ⟨txns, hrd, hcl, -⟩ := aggregateOrgEnvelope_eq_ok ha
  obtain ⟨hdt, hne, -⟩ := hcl.lookup hd
  have hb := hrd.bytes
  rw [hda] at hb ⊢
  obtain ⟨e, rfl, he⟩ := map_eq_singleton_iff.mp hb
  rw [delivered_deliveries, flatMap_singleton] at hdt
  have hcn : (e.1.orgList chainSupport.channelID).count org ≤ 1 := by
    have hh := hrd.heads e mem_cons_self
    rw [he] at hh
    exact nodup_iff_count_le_one.mp (hk.once hc b (by simp [hda]) e.1 hh) org
  have hpos : (e.1.orgList chainSupport.channelID).count org ≠ 0 := by
    intro hz
    rw [hz] at hdt
    exact hne hdt
  rw [hdt, show (e.1.orgList chainSupport.channelID).count org = 1 by omega]
  simp [he]

theorem nextRecord_lastConfig {r : OrgRecord}
    (h : nextRecord codec sha256 chainSupport blk agg heads org details = .ok r) :
    isConfigBlock codec blk.data = true ∧ r.head.lastConfigBlockNum = r.head.lastOrgBlockNum ∨
      isConfigBlock codec blk.data = false ∧ ∃ head, heads.lookup org = some head ∧
        r.head.lastConfigBlockNum = head.lastConfigBlockNum := by
  simp only [nextRecord, orgRecord, lastConfigBlockNumber, bind_eq_ok, pure_eq, ok.injEq] at h
  obtain ⟨index, hi, block, -, rfl⟩ := h
  cases hc : isConfigBlock codec blk.data with
  | true =>
    rw [hc] at hi
    exact .inl ⟨rfl, (ok.inj hi).symm⟩
  | false =>
    rw [hc] at hi
    cases hh : heads.lookup org with
    | none =>
      rw [hh] at hi
      cases hi
    | some head =>
      rw [hh] at hi
      exact .inr ⟨rfl, head, rfl, (ok.inj hi).symm⟩

end

section

variable {codec : Codec} {sha256 : Bytes → Bytes} {ledger : FatLedger codec} {outs : List Created}
  {base : Option BlockHeader} {s : ChannelOrgChains} {chainSupport : ChainSupport} {blk fatblock : Block} {height : Nat}
  {channelID org : Bytes} {index : UInt64}

theorem FatLedger.number_add_one_ne_zero (hh : height ≤ ledger.blocks.length)
    (h : ledger.lastProcessedBlk height = some fatblock) :
    ledger.blocks[fatblock.header.number.toNat]? = some fatblock ∧ fatblock.header.number + 1 ≠ 0 := by
  unfold lastProcessedBlk at h
  split at h
  case isFalse => cases h
  case isTrue ht =>
    have hnm := ledger.number _ _ h
    refine ⟨by rw [hnm, h], ?_⟩
    -- the block above it exists, and its number is a number
    have hn : ledger.blocks[height - 1]? = some (ledger.blocks[height - 1]) := getElem?_eq_getElem (by omega)
    have hlt := (ledger.blocks[height - 1]).header.number.toNat_lt
    rw [ledger.number _ _ hn] at hlt
    intro hz
    have hw := congrArg UInt64.toNat hz
    rw [UInt64.toNat_add, UInt64.toNat_one, Nat.mod_eq_of_lt (by omega), UInt64.toNat_zero] at hw
    omega

structure HeadSound (channelID : Bytes) (ledger : FatLedger codec) (outs : List Created) (base : Option BlockHeader)
    (org : Bytes) (head : LastBlockMapping) : Prop where
  le : head.lastConfigBlockNum.toNat ≤ head.lastOrgBlockNum.toNat
  configBlock : ConfigBlockAt codec channelID ledger outs base org head.lastConfigBlockNum

structure LastConfigInv (channelID : Bytes) (ledger : FatLedger codec) (outs : List Created)
    (base : Option BlockHeader) (s : ChannelOrgChains) : Prop where
  blocks : ∀ org, ∀ b ∈ orgChain outs org, ∃ index,
    b.2.metadata[BlockMetadataIndex.lastConfig.index]? = some (lastConfigMetadata codec index) ∧
      index.toNat ≤ b.2.header.number.toNat ∧ ConfigBlockAt codec channelID ledger outs base org index
  heads : ∀ org head, s.chHeader.orgHeadPostion.lookup org = some head →
    HeadSound channelID ledger outs base org head

theorem ConfigBlockAt.append (h : ConfigBlockAt codec channelID ledger outs base org index) (out : Created) :
    ConfigBlockAt codec channelID ledger (outs ++ [out]) base org index := by
  rcases h with ⟨b, hb, hc⟩ | hf
  · refine .inl ⟨b, ?_, hc⟩
    rw [orgChain_append]
    exact mem_append_left _ hb
  · exact .inr hf

theorem switchLastConfig_sound (hf : ledger.blocks[fatblock.header.number.toNat]? = some fatblock)
    (h : switchLastConfig codec fatblock blk = .ok index) :
    isConfigBlock codec fatblock.data = true ∧ index = blk.header.number ∨
      index.toNat ≤ fatblock.header.number.toNat ∧
        ∃ c, ledger.blocks[index.toNat]? = some c ∧ isConfigBlock codec c.data = true := by
  unfold switchLastConfig at h
  split at h
  case isTrue hc => exact .inl ⟨hc, (ok.inj h).symm⟩
  case isFalse =>
    unfold lastConfigOrZero at h
    split at h
    case h_1 index' hi =>
      obtain rfl := ok.inj h
      exact .inr (ledger.lastConfig _ _ _ hf hi)
    case h_2 =>
      obtain rfl := ok.inj h
      have hlen : 0 < ledger.blocks.length := by
        have := (List.getElem?_eq_some_iff.mp hf).1
        omega
      exact .inr ⟨Nat.zero_le _, ledger.blocks[0], getElem?_eq_getElem hlen,
        ledger.genesis _ (getElem?_eq_getElem hlen)⟩
    case h_3 => cases h

/-- The heads the step builds on are sound with the base it leaves, except for a chain that receives a config
block in the same step. -/
theorem startHeads_sound {savepoint : Option UInt64} (hin : LastConfigInv chainSupport.channelID ledger outs base s)
    (hbl : ledger.blocks[blk.header.number.toNat]? = some blk) (hh : height ≤ ledger.blocks.length)
    (hl : chainSupport.lastProcessedBlk = ledger.lastProcessedBlk height)
    (hk : KeepsLastConfig codec chainSupport s.chHeader blk)
    (hst : startHeads codec sha256 chainSupport s.chHeader blk = .ok (savepoint, heads)) {head : LastBlockMapping}
    (hhd : heads.lookup org = some head) :
    head.lastOrgBlockNum + 1 ≠ 0 ∧
      (HeadSound chainSupport.channelID ledger outs
          ((switchBlock chainSupport s.chHeader blk).map Block.header <|> base) org head ∨
        isConfigBlock codec blk.data = true ∧ ∃ b ∈ blk.data, ∃ t, readTxnEnvelope codec b = .ok t ∧
          org ∈ t.orgList chainSupport.channelID) := by
  rcases startHeads_eq_ok hst with ⟨-, hsw, hlk⟩ | ⟨hsw, fatblock, index, hf, hi, -, hlk⟩
  · rw [hlk] at hhd
    rw [switchBlock, if_neg hsw]
    exact ⟨hk.room org head hhd, .inl (hin.heads org head hhd)⟩
  · obtain ⟨hsto, hr⟩ := ledger.number_add_one_ne_zero hh (hl.symm.trans hf)
    rw [hlk] at hhd
    split at hhd
    case isFalse => cases hhd
    case isTrue ho =>
      obtain rfl := Option.some.inj hhd
      refine ⟨hr, ?_⟩
      have hm : fatblock.header ∈ orgBase chainSupport.channelID (some fatblock.header) org := by
        rw [orgBase, if_pos ho]
        rfl
      have hsn : index.toNat ≤ fatblock.header.number.toNat →
          (∃ c, ledger.blocks[index.toNat]? = some c ∧ isConfigBlock codec c.data = true) →
          HeadSound chainSupport.channelID ledger outs (some fatblock.header) org
            (savepointHead sha256 fatblock index) :=
        fun hle hc => ⟨hle, .inr ⟨fatblock.header, hm, hle, hc⟩⟩
      rw [switchBlock, if_pos hsw, hf]
      rcases switchLastConfig_sound hsto hi with ⟨hcn, rfl⟩ | ⟨hle, hc⟩
      · obtain ⟨hbc, hle | hrc⟩ := hk.savepoint hsw.1 hsw.2 fatblock hf hcn
        · exact .inl (hsn hle ⟨blk, hbl, hbc⟩)
        · exact .inr ⟨hbc, hrc org ho⟩
      · exact .inl (hsn hle hc)

/-- A step keeps what was said about the blocks already there: the switch, which sets the base anew, comes
before the first of them. -/
theorem LastConfigInv.blocks_append (hr : Run codec sha256 chainSupport.channelID outs base s)
    (hi : LastConfigInv chainSupport.channelID ledger outs base s) (out : Created) {b : UInt64 × Block}
    (hb : b ∈ orgChain outs org) : ∃ index,
      b.2.metadata[BlockMetadataIndex.lastConfig.index]? = some (lastConfigMetadata codec index) ∧
        index.toNat ≤ b.2.header.number.toNat ∧ ConfigBlockAt codec chainSupport.channelID ledger (outs ++ [out])
          ((switchBlock chainSupport s.chHeader blk).map Block.header <|> base) org index := by
  by_cases hsw : s.chHeader.orgHeadPostion.entries.length = 0 ∧ blk.header.number ≠ 0
  · have hw := orgChains_wellFormed codec sha256 chainSupport.channelID outs base s hr org
    rw [(AMap.length_eq_zero_iff _).mp hsw.1 org] at hw
    obtain ⟨-, he⟩ := hw.headersFrom_eq_nil
    rw [he] at hb
    cases hb
  · rw [switchBlock, if_neg hsw]
    obtain ⟨index, hst, hle, hc⟩ := hi.blocks org b hb
    exact ⟨index, hst, hle, hc.append out⟩

theorem LastConfigInv.process {out : Created} (hrn : Run codec sha256 chainSupport.channelID outs base s)
    (hin : LastConfigInv chainSupport.channelID ledger outs base s)
    (hbl : ledger.blocks[blk.header.number.toNat]? = some blk) (hhg : height ≤ ledger.blocks.length)
    (hl : chainSupport.lastProcessedBlk = ledger.lastProcessedBlk height)
    (hk : KeepsLastConfig codec chainSupport s.chHeader blk)
    (ho : createOrgBlocks codec sha256 chainSupport mvccApplicable s.versionDB s.chHeader blk = .ok out) :
    LastConfigInv chainSupport.channelID ledger (outs ++ [out])
      ((switchBlock chainSupport s.chHeader blk).map Block.header <|> base) (storeBlockData codec s blk out) := by
  obtain ⟨heads, agg, hc⟩ := createOrgBlocks_eq_ok ho
  have hsn := fun org head (hhd : heads.lookup org = some head) =>
    startHeads_sound hin hbl hhg hl hk hc.start hhd
  -- the record of a chain that receives something is sound
  have hrc : ∀ org details r, agg.orgTxnEnvelopeMap.lookup org = some details →
      nextRecord codec sha256 chainSupport blk agg heads org details = .ok r →
      out.localOrgBlocks.lookup org = some r.block →
      HeadSound chainSupport.channelID ledger (outs ++ [out])
        ((switchBlock chainSupport s.chHeader blk).map Block.header <|> base) org r.head := by
    intro org details r hd hr hb
    have he := (nextRecord_extends hr).1
    rcases nextRecord_lastConfig hr with ⟨hcn, hi⟩ | ⟨hcn, head, hhd, hi⟩
    · refine ⟨le_of_eq (by rw [hi]), .inl ⟨(out.chHeader.lastFatBlockNumberProcessed, r.block), ?_, ?_, ?_⟩⟩
      · rw [orgChain_append, hb]
        simp
      · rw [hi, he.headNum]
      · rw [he.data, data_eq_of_isConfigBlock hk hcn hc.aggregate hd, hcn]
    · obtain ⟨hrm, hg | ⟨hc', -⟩⟩ := hsn org head hhd
      · refine ⟨?_, hi ▸ hg.configBlock.append out⟩
        rw [hi, he.headNum, he.number, hhd, Option.elim_some, toNat_add_one hrm]
        exact Nat.le_succ_of_le hg.le
      · rw [hcn] at hc'
        cases hc'
  refine ⟨?_, ?_⟩
  · intro org b hb
    rw [orgChain_append, mem_append] at hb
    rcases hb with hb | hb
    · exact hin.blocks_append hrn out hb
    · cases hd : agg.orgTxnEnvelopeMap.lookup org with
      | none =>
        rw [(hc.skipped org hd).1] at hb
        cases hb
      | some details =>
        obtain ⟨r, hr, hb', -, -⟩ := hc.produced org details hd
        rw [hb'] at hb
        obtain rfl := mem_singleton.mp hb
        have hg := hrc org details r hd hr hb'
        have he := (nextRecord_extends hr).1
        exact ⟨r.head.lastConfigBlockNum, he.lastConfig, he.headNum ▸ hg.le, hg.configBlock⟩
  · intro org head hhd
    change out.chHeader.orgHeadPostion.lookup org = some head at hhd
    cases hd : agg.orgTxnEnvelopeMap.lookup org with
    | none =>
      rw [(hc.skipped org hd).2.2] at hhd
      obtain ⟨-, hg | ⟨-, hre⟩⟩ := hsn org head hhd
      · exact ⟨hg.le, hg.configBlock.append out⟩
      · exact absurd hd ((lookup_orgTxnEnvelopeMap_ne_none_iff hc.aggregate org).mpr hre)
    | some details =>
      obtain ⟨r, hr, hb, -, hh⟩ := hc.produced org details hd
      rw [hh] at hhd
      obtain rfl := Option.some.inj hhd
      exact hrc org details r hd hr hb

theorem LedgerRun.lastConfigInv (h : LedgerRun codec sha256 channelID ledger (KeepsLastConfig codec) outs base s) :
    LastConfigInv channelID ledger outs base s := by
  induction h with
  | init versionDB => exact ⟨by simp [orgChain], by simp⟩
  | process chainSupport mvccApplicable blk out height hr hch hb _ hh hl hk ho ih =>
    subst hch
    exact ih.process hr.run hb hh hl hk ho
  | evict cache _ _ ih => exact ⟨ih.blocks, ih.heads⟩

end

/-- In a run whose steps all keep the last config, the index in the metadata of every org block is the number of
a config block of its chain, not above its own. -/
theorem lastConfig_sound (codec : Codec) (sha256 : Bytes → Bytes) (channelID : Bytes) (ledger : FatLedger codec)
    (outs : List Created) (base : Option BlockHeader) (s : ChannelOrgChains)
    (hcodec : ∀ index, (codec.metadata.unmarshal (lastConfigMetadata codec index)).bind
      (fun m => codec.lastConfig.unmarshal m.value) = some index)
    (h : LedgerRun codec sha256 channelID ledger (KeepsLastConfig codec) outs base s) (org : Bytes) :
    ∀ b ∈ orgChain outs org, LastConfigSound codec channelID ledger outs base org b.2 := by
  intro b hb
  obtain ⟨index, hst, hle, hc⟩ := h.lastConfigInv.blocks org b hb
  refine ⟨index, ?_, hle, hc⟩
  simp only [storedLastConfig, hst]
  exact hcodec index

def indexCodec : Codec :=
  { acceptCodec with
    metadata := { marshal := Metadata.value, unmarshal := fun b => some { value := b } }
    lastConfig := {
      marshal := fun index => List.replicate index.toNat 0
      unmarshal := fun b => some (UInt64.ofNat b.length) } }

theorem indexCodec_reads (index : UInt64) : (indexCodec.metadata.unmarshal (lastConfigMetadata indexCodec index)).bind
    (fun m => indexCodec.lastConfig.unmarshal m.value) = some index := by
  change some (UInt64.ofNat (List.replicate index.toNat (0 : UInt8)).length) = some index
  rw [length_replicate, UInt64.ofNat_toNat]

def switchLedger (data : List Bytes) : FatLedger indexCodec where
  blocks := [{ header := { number := 0 }, data := [[0x04]] }, { header := { number := 1 }, data }, payBlock 2]
  number := by
    intro i b h
    rcases i with _ | _ | _ | i
    · cases h; rfl
    · cases h; rfl
    · cases h; rfl
    · cases h
  genesis := by
    intro b h
    cases h
    rfl
  lastConfig := by
    intro i b index h hindex
    rcases i with _ | _ | _ | i
    · cases h; cases hindex
    · cases h; cases hindex
    · cases h; cases hindex
    · cases h

def switchChain (data : List Bytes) : ChainSupport :=
  { payChain with lastProcessedBlk := (switchLedger data).lastProcessedBlk 3 }

theorem lastConfig_sound_switch :
    ∃ outs base s, LedgerRun indexCodec id (ascii "ch") (switchLedger [[0x01]]) (KeepsLastConfig indexCodec) outs base s ∧
      (orgChain outs (ascii "ch")).map (fun b => (b.2.header.number, storedLastConfig indexCodec b.2)) = [(2, some 0)] ∧
      ∀ b ∈ orgChain outs (ascii "ch"),
        LastConfigSound indexCodec (ascii "ch") (switchLedger [[0x01]]) outs base (ascii "ch") b.2 := by
  have h₀ : LedgerRun indexCodec id (ascii "ch") (switchLedger [[0x01]]) (KeepsLastConfig indexCodec) [] none {} :=
    .init fun _ => none
  have hk : KeepsLastConfig indexCodec (switchChain [[0x01]]) {} (payBlock 2) := by
    refine ⟨?_, ?_, by simp⟩
    · rintro - - fatblock hf hc
      cases hf
      cases hc
    · intro hc
      cases hc
  have h₁ := LedgerRun.process (switchChain [[0x01]]) false (payBlock 2) _ 3 h₀ rfl rfl (by decide) (by decide) rfl
    hk rfl
  exact ⟨_, _, _, h₁, by decide, lastConfig_sound indexCodec id (ascii "ch") _ _ _ _ indexCodec_reads h₁ (ascii "ch")⟩

/-- When the fat block at the save point is a config block, the payment that follows it names its own number. -/
theorem lastConfig_unsound_after_config_savepoint :
    ∃ outs base s, LedgerRun indexCodec id (ascii "ch") (switchLedger [[0x04]]) (fun _ _ _ => True) outs base s ∧
      ∃ b ∈ orgChain outs (ascii "ch"), storedLastConfig indexCodec b.2 = some 2 ∧ b.2.header.number = 2 ∧
        ¬LastConfigSound indexCodec (ascii "ch") (switchLedger [[0x04]]) outs base (ascii "ch") b.2 := by
  have h₀ : LedgerRun indexCodec id (ascii "ch") (switchLedger [[0x04]]) (fun _ _ _ => True) [] none {} :=
    .init fun _ => none
  have h₁ := LedgerRun.process (switchChain [[0x04]]) false (payBlock 2) _ 3 h₀ rfl rfl (by decide) (by decide) rfl
    trivial rfl
  refine ⟨_, _, _, h₁, _, mem_cons_self, by decide, by decide, ?_⟩
  rintro ⟨index, hst, -, hc⟩
  obtain rfl : index = 2 := (Option.some.inj hst).symm
  rcases hc with ⟨b, hb, -, hc⟩ | ⟨header, hh, hle, -⟩
  · obtain rfl := mem_singleton.mp hb
    cases hc
  · cases hh
    exact absurd hle (by decide)

end Drunix.Orderer.Sparse
