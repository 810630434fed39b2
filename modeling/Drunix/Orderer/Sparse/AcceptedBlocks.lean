import Drunix.Orderer.RaftChain
import Drunix.Orderer.Sparse.ChainRun

namespace Drunix.Orderer.Sparse

open Lib Proto Outcome List

def Accepted {κ : Type} (c : Chain κ) (env : Envelope) : Prop :=
  ∃ r msg chdr isConfig config req, broadcastChannelSupport c.codec r msg = .ok (chdr, isConfig, c.support.channelID) ∧
    c.processMessage config isConfig msg = .ok req ∧ req.payload = env

/-- A config envelope that the channel signs decodes as one. -/
def ReadsSigned {κ : Type} (c : Chain κ) : Prop :=
  ∀ txType data env, isConfigType txType = true →
    createSignedEnvelope c.codec c.support.signer txType c.support.channelID data = some env →
    carriesConfig c.codec env = true

def CompleteRWSet (txRWSet : TxReadWriteSet) : Prop :=
  ∀ nsRwSet ∈ txRWSet.nsRwset, nsRwSet.rwset.isSome ∧
    ∀ collHashedRWSet ∈ nsRwSet.collectionHashedRwset, collHashedRWSet.hashedRwset.isSome

section

variable (codec : Codec) (chainSupport : ChainSupport) (chHeader : ChannelHeadInfo) (blk : Block)

def HasHead (org : Bytes) : Prop :=
  (chHeader.orgHeadPostion.lookup org).isSome ∨
    chHeader.orgHeadPostion.entries.length = 0 ∧ blk.header.number ≠ 0 ∧ org ∈ configOrgList chainSupport.channelID

structure Processable : Prop where
  savepoint : chHeader.orgHeadPostion.entries.length = 0 → blk.header.number ≠ 0 →
    ∃ fatblock, chainSupport.lastProcessedBlk = some fatblock ∧
      (isConfigBlock codec fatblock.data = false → getLastConfigIndexFromBlock codec fatblock.metadata ≠ .panic)
  converts : ∀ b ∈ blk.data, ∀ env, getEnvelopeFromBlock codec b = some env → env.leanEnv = none →
    ∀ chdr, payloadChannelHeader codec env = .ok chdr → carriesRWSet (vanillaTxType env chdr) = true →
      ∃ leanEnv, getLeanEnvFromCommonEnv codec env = .ok leanEnv
  heads : isConfigBlock codec blk.data = false → ∀ b ∈ blk.data, ∀ t, readTxnEnvelope codec b = .ok t →
    ∀ org ∈ t.orgList chainSupport.channelID, HasHead chainSupport chHeader blk org

def CompleteRWSets : Prop :=
  ∀ b ∈ blk.data, ∀ t, readTxnEnvelope codec b = .ok t → ∀ txRWSet ∈ t.txRWSet, CompleteRWSet txRWSet

def Legible : Prop :=
  ∀ b ∈ blk.data, ∃ env, getEnvelopeFromBlock codec b = some env ∧
    (env.leanEnv = none → ∃ chdr, payloadChannelHeader codec env = .ok chdr)

end

section

variable {κ : Type} {c : Chain κ} {env msg : Envelope} {config : κ} {configSeq : UInt64}

theorem carriesConfig_of_standard (hsg : ReadsSigned c)
    (h : StandardChannel.processConfigUpdateMsg c.codec c.support config msg = .ok (env, configSeq)) :
    carriesConfig c.codec env = true := by
  simp only [StandardChannel.processConfigUpdateMsg, bind_eq_ok, require_eq_ok, orErr_eq_ok,
    ok.injEq, Prod.mk.injEq] at h
  obtain ⟨-, -, data, -, signed, hsi, -, -, -, -, rfl, -⟩ := h
  exact hsg .config data signed rfl hsi

theorem carriesConfig_of_configUpdate (hsg : ReadsSigned c)
    (h : c.processor.processConfigUpdateMsg config msg = .ok (env, configSeq)) : carriesConfig c.codec env = true := by
  cases hsy : c.isSystemChannel with
  | false =>
    simp only [Chain.processor, hsy, Bool.false_eq_true, if_false] at h
    exact carriesConfig_of_standard hsg h
  | true =>
    simp only [Chain.processor, hsy, if_true] at h
    obtain ⟨id, -, h⟩ := bind_eq_ok.mp h
    split at h
    · exact carriesConfig_of_standard hsg h
    · simp only [SystemChannel.processNewChannel, bind_eq_ok, require_eq_ok, orErr_eq_ok, ok.injEq, Prod.mk.injEq] at h
      obtain ⟨_, -, inner, -, wrapped, hw, -, -, rfl, -⟩ := h
      exact hsg .ordererTransaction _ wrapped rfl hw

theorem Accepted.exists_header (h : Accepted c env) (hsg : ReadsSigned c) (hl : env.leanEnv = none) :
    ∃ chdr, payloadChannelHeader c.codec env = .ok chdr := by
  obtain ⟨r, msg, chdr, isConfig, config, req, hc, hrq, rfl⟩ := h
  cases isConfig with
  | true =>
    obtain ⟨⟨signed, configSeq⟩, hu, h⟩ := bind_eq_ok.mp hrq
    cases h
    have hcn := carriesConfig_of_configUpdate hsg hu
    unfold carriesConfig at hcn
    split at hcn
    · exact ⟨_, ‹_›⟩
    · cases hcn
  | false =>
    rw [Chain.orderRequest_payload hrq] at hl ⊢
    simp only [broadcastChannelSupport, hl] at hc
    obtain ⟨hdr, hh, hr⟩ := bind_eq_ok.mp hc
    obtain ⟨hdr', hd, -⟩ := bind_eq_ok.mp hr
    rw [deref_eq_ok] at hd
    subst hd
    exact ⟨hdr', channelHeader_eq_ok hh⟩

/-- What Broadcast checks of an envelope is that it can be read, and no more. -/
theorem legible_of_accepted {blk : Block} (hsg : ReadsSigned c)
    (h : c.MadeOf (fun env => c.codec.envelope.RoundTrips env ∧ Accepted c env) blk.data) : Legible c.codec blk := by
  obtain ⟨envs, hd, he⟩ := h
  intro b hb
  rw [hd] at hb
  obtain ⟨env, hen, rfl⟩ := mem_map.mp hb
  obtain ⟨hw, ha⟩ := he env hen
  exact ⟨env, hw, ha.exists_header hsg⟩

end

section

section

variable (m : MvccMap) (db : VersionDB) (nsRwSet : NsReadWriteSet)

theorem validateNsHashedReadSets_noError : (validateNsHashedReadSets m db nsRwSet).NoError := by
  apply noError_all
  intro coll
  exact (noError_deref coll.hashedRwset).bind fun _ => noError_ok _

theorem validateNameSpaceReadSet_noError : (validateNameSpaceReadSet m db nsRwSet).NoError := by
  refine Outcome.NoError.bind ((noError_deref nsRwSet.rwset).bind fun _ => noError_ok _) ?_
  intro valid
  cases valid with
  | true => exact validateNsHashedReadSets_noError m db nsRwSet
  | false => exact noError_ok false

end

theorem validateEndorserTxn_noError (txRWSet : TxReadWriteSet) (m : MvccMap) (db : VersionDB) (num txnIdx : UInt64) :
    (validateEndorserTxn txRWSet m db num txnIdx).NoError := by
  refine (noError_all (validateNameSpaceReadSet_noError m db) _).bind ?_
  intro valid
  cases valid with
  | true =>
    refine (noError_foldlM (fun _ (ns : NsReadWriteSet) => (noError_deref ns.rwset).bind fun _ => ?_) _ _).bind
      fun _ => noError_ok _
    exact noError_foldlM (fun _ _ => (noError_deref _).bind fun _ => noError_ok _) _ _
  | false => exact noError_ok _

variable {codec : Codec} {sha256 : Bytes → Bytes} {chainSupport : ChainSupport}

theorem readTxnEnvelope_noError (b : Bytes) : (readTxnEnvelope codec b).NoError := by
  unfold readTxnEnvelope
  split
  · exact noError_ok _
  · split
    · exact noError_ok _
    · refine (noError_deref _).bind fun _ => (noError_deref _).bind fun _ => (noError_deref _).bind fun _ =>
        Outcome.NoError.bind ?_ fun _ => noError_ok _
      unfold vanillaRWSet
      split
      · split
        · exact noError_ok _
        · exact noError_panic
      · exact noError_ok _

theorem aggregateFrom_noError (channelID : Bytes) (mvccApplicable : Bool) (db : VersionDB) (num : UInt64) (n : Nat)
    (agg : Aggregate) (data : List Bytes) :
    (aggregateFrom codec channelID mvccApplicable db num n agg data).NoError := by
  induction data generalizing n agg with
  | nil => exact noError_ok agg
  | cons b data ih =>
    refine Outcome.NoError.bind ?_ fun agg => ih (n + 1) agg
    refine (readTxnEnvelope_noError b).bind fun t => Outcome.NoError.bind ?_ fun _ => noError_ok _
    unfold mvccStep
    split
    · exact noError_ok _
    · split
      · exact (validateEndorserTxn_noError _ _ db num _).bind fun _ => noError_ok _
      · exact noError_ok _

theorem startHeads_noError (chHeader : ChannelHeadInfo) (blk : Block) :
    (startHeads codec sha256 chainSupport chHeader blk).NoError := by
  have hl : ∀ fatblock, (switchLastConfig codec fatblock blk).NoError := by
    intro fatblock
    unfold switchLastConfig lastConfigOrZero
    split
    · exact noError_ok _
    · split
      · exact noError_ok _
      · exact noError_ok _
      · exact noError_panic
  unfold startHeads
  split
  · split
    · refine Outcome.NoError.bind ?_ fun _ => noError_ok _
      exact (noError_deref _).bind fun fatblock => (hl fatblock).bind fun _ => noError_ok _
    · exact noError_ok _
  · exact noError_ok _

theorem orgRecord_noError (config : Bool) (num : UInt64) (filter : Option SparseTxnFilter)
    (head : Option LastBlockMapping) (orgId : Bytes) (orgBlock : OrgBlock) :
    (orgRecord codec sha256 chainSupport config num filter head orgId orgBlock).NoError := by
  have hi : (lastConfigBlockNumber config orgBlock.block.header.number head).NoError := by
    unfold lastConfigBlockNumber
    split
    · exact noError_ok _
    · cases head with
      | none => exact noError_panic
      | some head => exact noError_ok _
  refine hi.bind fun _ => Outcome.NoError.bind ?_ fun _ => noError_ok _
  unfold addMetadataFields
  simp only
  split
  · exact noError_ok _
  · exact noError_panic

theorem createOrgBlocks_noError (mvccApplicable : Bool) (db : VersionDB) (chHeader : ChannelHeadInfo) (blk : Block) :
    (createOrgBlocks codec sha256 chainSupport mvccApplicable db chHeader blk).NoError := by
  refine (startHeads_noError chHeader blk).bind ?_
  rintro ⟨savepoint, heads⟩
  refine (aggregateFrom_noError _ mvccApplicable db _ 0 {} blk.data).bind fun agg => ?_
  refine Outcome.NoError.bind ?_ fun _ => noError_ok _
  apply noError_foldlM
  intro s e
  exact (orgRecord_noError _ _ _ _ e.1 e.2).bind fun _ => noError_ok _

end

variable {env : Envelope}

section

variable {codec : Codec} {sha256 : Bytes → Bytes} {chainSupport : ChainSupport} {mvccApplicable : Bool}
  {versionDB : VersionDB} {chHeader : ChannelHeadInfo} {blk : Block} {b : Bytes} {data : List Bytes} {num : UInt64}
  {heads : AMap Bytes LastBlockMapping}

theorem exists_readTxnEnvelope_iff (hb : getEnvelopeFromBlock codec b = some env)
    (hr : env.leanEnv = none → ∃ chdr, payloadChannelHeader codec env = .ok chdr) :
    (∃ t, readTxnEnvelope codec b = .ok t) ↔
      (env.leanEnv = none → ∀ chdr, payloadChannelHeader codec env = .ok chdr →
        carriesRWSet (vanillaTxType env chdr) = true → ∃ leanEnv, getLeanEnvFromCommonEnv codec env = .ok leanEnv) := by
  cases hl : env.leanEnv with
  | some leanEnv => simp [readTxnEnvelope, hb, hl]
  | none =>
    obtain ⟨chdr, hch⟩ := hr hl
    have hpr := hch
    simp only [payloadChannelHeader, bind_eq_ok, orErr_eq_ok] at hpr
    obtain ⟨payload, hp, header, hh, hr'⟩ := hpr
    have heq : readTxnEnvelope codec b = (vanillaRWSet codec env (vanillaTxType env chdr)) >>= fun txRWSet =>
        .ok { txType := vanillaTxType env chdr, txRWSet, orgsInvolved := chdr.orgsInvolved } := by
      simp [readTxnEnvelope, hb, hl, hp, hh, hr', deref]
    simp only [heq, bind_eq_ok, hch, ok.injEq, forall_eq', forall_const]
    constructor
    · rintro ⟨t, txRWSet, hrw, -⟩ hc
      rw [vanillaRWSet, if_pos hc] at hrw
      split at hrw
      · exact ⟨_, ‹_›⟩
      · cases hrw
    · intro hcn
      cases hc : carriesRWSet (vanillaTxType env chdr) with
      | false => exact ⟨_, none, by simp [vanillaRWSet, hc], rfl⟩
      | true =>
        obtain ⟨leanEnv, hle⟩ := hcn hc
        exact ⟨_, leanEnv.results, by simp [vanillaRWSet, hc, hle], rfl⟩

theorem exists_validateEndorserTxn {txRWSet : TxReadWriteSet} (h : CompleteRWSet txRWSet) (m : MvccMap)
    (db : VersionDB) (num txnIdx : UInt64) : ∃ r, validateEndorserTxn txRWSet m db num txnIdx = .ok r := by
  have hr : ∀ ns ∈ txRWSet.nsRwset, ∃ valid, validateNameSpaceReadSet m db ns = .ok valid := by
    intro ns hns
    obtain ⟨hrw, hc⟩ := h ns hns
    obtain ⟨rwset, hrw⟩ := Option.isSome_iff_exists.mp hrw
    have hh : ∃ valid, validateNsHashedReadSets m db ns = .ok valid := by
      refine exists_all_eq_ok ?_
      intro coll hcl
      obtain ⟨hashed, hh⟩ := Option.isSome_iff_exists.mp (hc coll hcl)
      exact ⟨_, by rw [hh]; rfl⟩
    obtain ⟨valid, hvl⟩ := hh
    simp only [validateNameSpaceReadSet, validateReadSet, hrw, deref, pure_eq, ok_bind]
    split
    · exact ⟨valid, hvl⟩
    · exact ⟨false, rfl⟩
  have hw : ∃ m', txRWSet.nsRwset.foldlM (fun m ns => applyNameSpaceWriteSet m ⟨num, txnIdx⟩ ns) m = .ok m' := by
    refine exists_foldlM_eq_ok (fun _ => True) ?_ trivial
    intro ns hns m _
    obtain ⟨hrw, hc⟩ := h ns hns
    obtain ⟨rwset, hrw⟩ := Option.isSome_iff_exists.mp hrw
    have hf : ∀ m, ∃ m', applyWriteHashSet m ns.nameSpace ns.collectionHashedRwset ⟨num, txnIdx⟩ = .ok m' := by
      intro m
      refine exists_foldlM_eq_ok (fun _ => True) ?_ trivial
      intro coll hcl m _
      obtain ⟨hashed, hh⟩ := Option.isSome_iff_exists.mp (hc coll hcl)
      exact ⟨_, by rw [hh]; rfl, trivial⟩
    obtain ⟨m', hm'⟩ := hf (applyWriteSet m ns.nameSpace rwset.writes ⟨num, txnIdx⟩)
    exact ⟨m', by rw [applyNameSpaceWriteSet, hrw]; exact hm', trivial⟩
  obtain ⟨valid, hvl⟩ := exists_all_eq_ok hr
  obtain ⟨m', hm'⟩ := hw
  rw [validateEndorserTxn, hvl, ok_bind]
  cases valid with
  | true => exact ⟨_, by rw [hm']; rfl⟩
  | false => exact ⟨_, rfl⟩

theorem exists_mvccStep {t : TxnHead} (h : mvccApplicable = true → ∀ txRWSet ∈ t.txRWSet, CompleteRWSet txRWSet)
    (versionDB : VersionDB) (num : UInt64) (m : MvccMap) (txnIdx : UInt64) :
    ∃ r, mvccStep mvccApplicable versionDB num m txnIdx t = .ok r := by
  unfold mvccStep
  split
  · exact ⟨_, rfl⟩
  · split
    · obtain ⟨r, hr⟩ := exists_validateEndorserTxn (h ‹_› _ ‹_›) m versionDB num txnIdx
      exact ⟨_, by rw [hr]; rfl⟩
    · exact ⟨_, rfl⟩

theorem exists_aggregateFrom {channelID : Bytes} (h : ∀ b ∈ data, ∃ t, readTxnEnvelope codec b = .ok t ∧
      (mvccApplicable = true → ∀ txRWSet ∈ t.txRWSet, CompleteRWSet txRWSet)) (num : UInt64) (n : Nat) (agg : Aggregate) :
    ∃ agg', aggregateFrom codec channelID mvccApplicable versionDB num n agg data = .ok agg' := by
  induction data generalizing n agg with
  | nil => exact ⟨agg, rfl⟩
  | cons b data ih =>
    rw [forall_mem_cons] at h
    obtain ⟨t, ht, hc⟩ := h.1
    obtain ⟨r, hr⟩ := exists_mvccStep hc versionDB num agg.fatTxnDetailsMVCCMap (UInt64.ofNat n)
    rw [aggregateFrom, aggregateTxn, ht]
    simp only [hr, ok_bind, pure_eq]
    exact ih h.2 (n + 1) _

theorem exists_addMetadataFields (hm : codec.metadata.unmarshal [] = some {}) (signer : Signer) (orgBlock : Block)
    (hb : orgBlock.metadata = List.replicate 9 []) (sparseFilter : Bytes) (index : UInt64) :
    ∃ block, addMetadataFields codec signer orgBlock sparseFilter index = .ok block := by
  have hc : getConsenterMetadataFromBlock codec (setMetadata (setMetadata orgBlock .sparseTxnFilter
      (codec.metadata.marshal { value := sparseFilter })) .lastConfig (lastConfigMetadata codec index)).metadata =
      .ok {} := by
    simp [getConsenterMetadataFromBlock, getMetadataFromBlock, setMetadata, hb, BlockMetadataIndex.index, hm,
      orErr, List.replicate]
  rw [addMetadataFields]
  simp only [hc]
  exact ⟨_, rfl⟩

variable {config : Bool}

theorem exists_orgRecord_iff (hm : codec.metadata.unmarshal [] = some {}) {filter : Option SparseTxnFilter}
    {head : Option LastBlockMapping} {orgId : Bytes} {orgBlock : OrgBlock}
    (hb : orgBlock.block.metadata = List.replicate 9 []) :
    (∃ r, orgRecord codec sha256 chainSupport config num filter head orgId orgBlock = .ok r) ↔
      (config = false → head.isSome) := by
  have ha := exists_addMetadataFields hm (chainSupport.signer orgId) orgBlock.block hb
    (filter.elim [] codec.sparseTxnFilter.marshal)
  simp only [orgRecord, lastConfigBlockNumber]
  cases config with
  | true =>
    obtain ⟨block, hok⟩ := ha orgBlock.block.header.number
    simp [hok]
  | false =>
    cases head with
    | none => simp [deref]
    | some head =>
      obtain ⟨block, hok⟩ := ha head.lastConfigBlockNum
      simp [deref, hok]

theorem exists_storeOrgBlockSkeleton (hm : codec.metadata.unmarshal [] = some {})
    {filters : AMap Bytes SparseTxnFilter} {orgBlocks : AMap Bytes OrgBlock}
    (hb : ∀ e ∈ orgBlocks.entries, e.2.block.metadata = List.replicate 9 [])
    (hh : config = false → ∀ e ∈ orgBlocks.entries, (heads.lookup e.1).isSome) :
    ∃ s, storeOrgBlockSkeleton codec sha256 chainSupport config num filters heads orgBlocks = .ok s := by
  -- a round only adds heads, so the chains still to come keep theirs
  refine exists_foldlM_eq_ok
    (fun s : Skeleton => config = false → ∀ e ∈ orgBlocks.entries, (s.orgHeadPostion.lookup e.1).isSome) ?_ hh
  intro e he s hs
  obtain ⟨r, hr⟩ := (exists_orgRecord_iff hm (hb e he)).mpr fun hc => hs hc e he
  refine ⟨s.insert e.1 r, by rw [hr]; rfl, ?_⟩
  intro hc e' he'
  by_cases heq : e'.1 = e.1
  · rw [heq, (s.holds_insert e.1 r).head]
    rfl
  · rw [(s.sameAt_insert r heq).head]
    exact hs hc e' he'

theorem exists_startHeads_iff : (∃ r, startHeads codec sha256 chainSupport chHeader blk = .ok r) ↔
    (chHeader.orgHeadPostion.entries.length = 0 → blk.header.number ≠ 0 →
      ∃ fatblock, chainSupport.lastProcessedBlk = some fatblock ∧
        (isConfigBlock codec fatblock.data = false →
          getLastConfigIndexFromBlock codec fatblock.metadata ≠ .panic)) := by
  by_cases he : chHeader.orgHeadPostion.entries.length = 0
  · by_cases hn : blk.header.number = 0
    · simp [startHeads, he, hn]
    · cases hl : chainSupport.lastProcessedBlk with
      | none => simp [startHeads, switchHeads, he, hn, hl, deref]
      | some fatblock =>
        cases hc : isConfigBlock codec fatblock.data with
        | true => simp [startHeads, switchHeads, he, hn, hl, deref, switchLastConfig, hc]
        | false =>
          cases hi : getLastConfigIndexFromBlock codec fatblock.metadata <;>
            simp [startHeads, switchHeads, he, hn, hl, deref, switchLastConfig, hc, lastConfigOrZero, hi]
  · simp [startHeads, he]

theorem isSome_lookup_startHeads {savepoint : Option UInt64}
    (h : startHeads codec sha256 chainSupport chHeader blk = .ok (savepoint, heads)) (org : Bytes) :
    (heads.lookup org).isSome ↔ HasHead chainSupport chHeader blk org := by
  unfold HasHead
  rcases startHeads_eq_ok h with ⟨-, hsw, hlk⟩ | ⟨⟨he, hn⟩, _, _, _, _, _, hlk⟩
  · rw [hlk]
    tauto
  · rw [hlk, (AMap.length_eq_zero_iff _).mp he org]
    by_cases ho : org ∈ configOrgList chainSupport.channelID <;> simp [he, hn, ho]

theorem ReadsAs.mem_of_mem {n : Nat} {txns : List (TxnHead × TxnDetails)} (h : ReadsAs codec n data txns)
    (hb : b ∈ data) : ∃ e ∈ txns, e.2.txnEnvBytes = b := by
  rw [← h.bytes] at hb
  exact mem_map.mp hb

/-- A chain receives something exactly when some envelope of the block is addressed to it. -/
theorem lookup_orgTxnEnvelopeMap_ne_none_iff {agg : Aggregate}
    (h : aggregateOrgEnvelope codec chainSupport.channelID mvccApplicable versionDB blk = .ok agg) (org : Bytes) :
    agg.orgTxnEnvelopeMap.lookup org ≠ none ↔
      ∃ b ∈ blk.data, ∃ t, readTxnEnvelope codec b = .ok t ∧ org ∈ t.orgList chainSupport.channelID := by
  obtain ⟨txns, hrd, hc, -⟩ := aggregateOrgEnvelope_eq_ok h
  have hm : agg.orgTxnEnvelopeMap.lookup org ≠ none ↔ ∃ e ∈ txns, org ∈ e.1.orgList chainSupport.channelID := by
    rw [hc.envelopes org]
    have hne : delivered (deliveries chainSupport.channelID txns) org ≠ [] ↔
        ∃ e ∈ txns, org ∈ e.1.orgList chainSupport.channelID := by
      simp only [delivered, deliveries, ne_eq, map_eq_nil_iff, filter_eq_nil_iff, mem_flatMap,
        mem_map, decide_eq_true_eq, not_forall, not_not]
      constructor
      · rintro ⟨d, ⟨e, he, o, ho, rfl⟩, rfl⟩
        exact ⟨e, he, ho⟩
      · rintro ⟨e, he, ho⟩
        exact ⟨(org, e.2), ⟨e, he, org, ho, rfl⟩, rfl⟩
    rw [← hne]
    by_cases hem : delivered (deliveries chainSupport.channelID txns) org = [] <;> simp [hem]
  rw [hm]
  constructor
  · rintro ⟨e, he, hor⟩
    refine ⟨e.2.txnEnvBytes, ?_, e.1, hrd.heads e he, hor⟩
    rw [← hrd.bytes]
    exact mem_map_of_mem he
  · rintro ⟨b, hb, t, ht, hor⟩
    obtain ⟨e, he, rfl⟩ := hrd.mem_of_mem hb
    have heads := hrd.heads e he
    rw [ht] at heads
    exact ⟨e, he, ok.inj heads ▸ hor⟩

theorem processable_of_ok {out : Created} (hlg : Legible codec blk)
    (h : createOrgBlocks codec sha256 chainSupport mvccApplicable versionDB chHeader blk = .ok out) :
    Processable codec chainSupport chHeader blk := by
  obtain ⟨heads, agg, hc⟩ := createOrgBlocks_eq_ok h
  obtain ⟨txns, hrd, -, -⟩ := aggregateOrgEnvelope_eq_ok hc.aggregate
  refine ⟨exists_startHeads_iff.mp ⟨_, hc.start⟩, ?_, ?_⟩
  · intro b hb env hen
    obtain ⟨env', he', hre⟩ := hlg b hb
    obtain rfl : env = env' := Option.some.inj (hen.symm.trans he')
    obtain ⟨e, he, rfl⟩ := hrd.mem_of_mem hb
    exact (exists_readTxnEnvelope_iff hen hre).mp ⟨e.1, hrd.heads e he⟩
  · intro hcn b hb t ht org ho
    have hne := (lookup_orgTxnEnvelopeMap_ne_none_iff hc.aggregate org).mpr ⟨b, hb, t, ht, ho⟩
    obtain ⟨details, hd⟩ := Option.ne_none_iff_exists'.mp hne
    obtain ⟨r, hr, -⟩ := hc.produced org details hd
    rw [← isSome_lookup_startHeads hc.start]
    simp only [nextRecord, orgRecord, lastConfigBlockNumber, hcn, bind_eq_ok] at hr
    obtain ⟨index, hi, -⟩ := hr
    cases hh : heads.lookup org with
    | some head => rfl
    | none =>
      rw [hh] at hi
      cases hi

theorem exists_ok_of_processable (hm : codec.metadata.unmarshal [] = some {}) (hlg : Legible codec blk)
    (h : Processable codec chainSupport chHeader blk) (hc : mvccApplicable = true → CompleteRWSets codec blk) :
    ∃ out, createOrgBlocks codec sha256 chainSupport mvccApplicable versionDB chHeader blk = .ok out := by
  obtain ⟨⟨savepoint, heads⟩, hst⟩ : ∃ r, startHeads codec sha256 chainSupport chHeader blk = .ok r :=
    exists_startHeads_iff.mpr h.savepoint
  have hr : ∀ b ∈ blk.data, ∃ t, readTxnEnvelope codec b = .ok t ∧
      (mvccApplicable = true → ∀ txRWSet ∈ t.txRWSet, CompleteRWSet txRWSet) := by
    intro b hb
    obtain ⟨env, henv, hr⟩ := hlg b hb
    obtain ⟨t, ht⟩ := (exists_readTxnEnvelope_iff henv hr).mpr (h.converts b hb env henv)
    exact ⟨t, ht, fun hmv => hc hmv b hb t ht⟩
  obtain ⟨agg, ha⟩ : ∃ agg, aggregateOrgEnvelope codec chainSupport.channelID mvccApplicable versionDB blk = .ok agg :=
    exists_aggregateFrom hr blk.header.number 0 {}
  set orgBlocks := agg.orgTxnEnvelopeMap.filterMap fun orgId txnDetailsList =>
    some (nextOrgBlock sha256 (isConfigBlock codec blk.data) (agg.approveCommitType.getD blk.blockType)
      (heads.lookup orgId) txnDetailsList) with hob
  have hen : ∀ e ∈ orgBlocks.entries, ∃ details, agg.orgTxnEnvelopeMap.lookup e.1 = some details ∧
      e.2 = nextOrgBlock sha256 (isConfigBlock codec blk.data) (agg.approveCommitType.getD blk.blockType)
        (heads.lookup e.1) details := by
    intro e he
    have hlk : orgBlocks.lookup e.1 = some e.2 := AList.mem_lookup_iff.mpr he
    rw [AMap.lookup_filterMap] at hlk
    obtain ⟨details, hd, heq⟩ := Option.bind_eq_some_iff.mp hlk
    exact ⟨details, hd, (Option.some.inj heq).symm⟩
  obtain ⟨s, hs⟩ : ∃ s, storeOrgBlockSkeleton codec sha256 chainSupport (isConfigBlock codec blk.data) blk.header.number
      agg.sparseTxnFilterMap heads orgBlocks = .ok s := by
    apply exists_storeOrgBlockSkeleton hm
    · intro e he
      obtain ⟨details, -, heq⟩ := hen e he
      rw [heq]
      rfl
    · intro hcn e he
      obtain ⟨details, hd, -⟩ := hen e he
      have hne : agg.orgTxnEnvelopeMap.lookup e.1 ≠ none := by
        rw [hd]
        exact Option.some_ne_none details
      obtain ⟨b, hb, t, ht, ho⟩ := (lookup_orgTxnEnvelopeMap_ne_none_iff ha e.1).mp hne
      exact (isSome_lookup_startHeads hst e.1).mpr (h.heads hcn b hb t ht e.1 ho)
  simp only [createOrgBlocks, bind_eq_ok, pure_eq, ok.injEq]
  exact ⟨_, (savepoint, heads), hst, agg, ha, s, hs, rfl⟩

end

section

variable {κ : Type}

/-- A block of envelopes that Broadcast accepts is processed without a panic only if it is
`Processable` on the stored heads, and always if moreover the read-write sets that are validated are
complete. -/
theorem createOrgBlocks_ne_panic_iff (c : Chain κ) (sha256 : Bytes → Bytes) (chainSupport : ChainSupport)
    (mvccApplicable : Bool) (versionDB : VersionDB) (chHeader : ChannelHeadInfo) (blk : Block)
    (hmeta : c.codec.metadata.unmarshal [] = some {}) (hsigned : ReadsSigned c)
    (hblk : c.MadeOf (fun env => c.codec.envelope.RoundTrips env ∧ Accepted c env) blk.data) :
    (createOrgBlocks c.codec sha256 chainSupport mvccApplicable versionDB chHeader blk ≠ .panic →
      Processable c.codec chainSupport chHeader blk) ∧
    (Processable c.codec chainSupport chHeader blk → (mvccApplicable = true → CompleteRWSets c.codec blk) →
      createOrgBlocks c.codec sha256 chainSupport mvccApplicable versionDB chHeader blk ≠ .panic) := by
  have hlg := legible_of_accepted hsigned hblk
  constructor
  · intro hne
    obtain ⟨out, ho⟩ := (createOrgBlocks_noError mvccApplicable versionDB chHeader blk).exists_ok hne
    exact processable_of_ok hlg ho
  · intro hp hc hpn
    obtain ⟨out, ho⟩ := exists_ok_of_processable hmeta hlg hp hc
    rw [ho] at hpn
    cases hpn

end

def genesisEnvelope : Envelope where
  payload := some [0x01]

def bareEnvelope : Envelope where
  payload := some [0x02]

def newOrgEnvelope : Envelope where
  type := .endorserTransaction
  leanEnv := some { channelId := ascii "ch", orgsInvolved := [ascii "org2"], results := some ⟨[]⟩ }

def acceptCodec : Codec :=
  { Codec.none with
    envelope := .ofTable []
      [(payEnvelope, [0x01]), (newOrgEnvelope, [0x02]), (bareEnvelope, [0x03]), (genesisEnvelope, [0x04])]
    payload := {
      marshal := fun p => (p.header.bind Header.channelHeader).getD []
      unmarshal := fun b => some { header := some { channelHeader := some b } } }
    channelHeader := {
      marshal := fun h => if isConfigType h.type then [0x01] else [0x02]
      unmarshal := fun b =>
        some { type := if b = [0x01] then .config else .endorserTransaction, channelId := ascii "ch" } }
    metadata := .ofTable [0x02] [({}, [])] }

def acceptChain : Chain Unit where
  codec := acceptCodec
  support := {
    channelID := ascii "ch"
    signer := { newSignatureHeader := some {}, sign := some }
    sequence := fun _ => 0
    batchSize := fun _ => { maxMessageCount := 1, preferredMaxBytes := 100 }
    consensusTypeMigration := fun _ => false
    consensusStateNormal := fun _ => true
    filters := fun _ _ => true
    maintenanceFilter := fun _ _ => true
    proposeConfigUpdate := fun _ _ => some []
    proposeNewChannel := fun _ _ => none
    lastUpdate := fun _ => none
    applyConfig := fun _ _ _ => some ()
    checkForEvictionNCertRotation := fun _ _ => false }
  isSystemChannel := false
  followerBatching := false
  maxBatchSize := 1

theorem readsSigned_acceptChain : ReadsSigned acceptChain := by
  intro txType data env ht he
  obtain rfl := Option.some.inj he
  cases txType with
  | config => rfl
  | ordererTransaction => rfl
  | _ => cases ht

theorem accepted_acceptChain (h : env = payEnvelope ∨ env = newOrgEnvelope ∨ env = bareEnvelope) :
    Accepted acceptChain env := by
  rcases h with rfl | rfl | rfl
  · exact ⟨⟨[ascii "ch"], none⟩, payEnvelope, _, false, (), ⟨payEnvelope, 0, false⟩, rfl, rfl, rfl⟩
  · exact ⟨⟨[ascii "ch"], none⟩, newOrgEnvelope, _, false, (), ⟨newOrgEnvelope, 0, false⟩, rfl, rfl, rfl⟩
  · exact ⟨⟨[ascii "ch"], none⟩, bareEnvelope, _, false, (), ⟨bareEnvelope, 0, false⟩, rfl, rfl, rfl⟩

theorem createOrgBlocks_ne_panic_switch :
    createOrgBlocks acceptCodec id payChain true (fun _ => none) {} (payBlock 5) ≠ .panic ∧
      Processable acceptCodec payChain {} (payBlock 5) := by
  have hne : createOrgBlocks acceptCodec id payChain true (fun _ => none) {} (payBlock 5) ≠ .panic := by
    intro h
    cases h
  refine ⟨hne, (createOrgBlocks_ne_panic_iff acceptChain id payChain true (fun _ => none) {} (payBlock 5) rfl
    readsSigned_acceptChain ⟨[payEnvelope], rfl, ?_⟩).1 hne⟩
  intro env he
  obtain rfl := mem_singleton.mp he
  exact ⟨by decide, accepted_acceptChain (.inl rfl)⟩

/-- After the genesis block, a transaction that names an organisation without a chain and one whose
payload does not convert each panic, though Broadcast accepts them. -/
theorem accepted_envelopes_panic :
    ∃ outs base s, Run acceptCodec id (ascii "ch") outs base s ∧ outs.length = 1 ∧ ReadsSigned acceptChain ∧
      ∀ env ∈ [newOrgEnvelope, bareEnvelope], acceptCodec.envelope.RoundTrips env ∧ Accepted acceptChain env ∧
        createOrgBlocks acceptCodec id payChain false s.versionDB s.chHeader
          { header := { number := 1 }, data := [acceptCodec.envelope.marshal env] } = .panic := by
  have h₀ : Run acceptCodec id (ascii "ch") [] none {} := .init fun _ => none
  have h₁ := Run.process payChain false { header := { number := 0 }, data := [[0x04]] } _ h₀ rfl rfl
  refine ⟨_, _, _, h₁, rfl, readsSigned_acceptChain, ?_⟩
  intro env he
  rcases mem_cons.mp he with rfl | he
  · exact ⟨by decide, accepted_acceptChain (.inr (.inl rfl)), rfl⟩
  · obtain rfl := mem_singleton.mp he
    exact ⟨by decide, accepted_acceptChain (.inr (.inr rfl)), rfl⟩

end Drunix.Orderer.Sparse
