import Drunix.Orderer.Sparse.OrgBlocks

namespace Drunix.Orderer.Sparse

open Lib Proto Outcome List

variable {codec : Codec} {sha256 : Bytes → Bytes} {chainSupport : ChainSupport} {org : Bytes} {s s' : Skeleton}
  {r : OrgRecord}

structure Skeleton.Holds (s : Skeleton) (orgId : Bytes) (r : OrgRecord) : Prop where
  head : s.orgHeadPostion.lookup orgId = some r.head
  details : s.orgHashMap.lookup orgId = some r.details
  block : s.localOrgBlocks.lookup orgId = some r.block

structure Skeleton.SameAt (s s' : Skeleton) (orgId : Bytes) : Prop where
  head : s'.orgHeadPostion.lookup orgId = s.orgHeadPostion.lookup orgId
  details : s'.orgHashMap.lookup orgId = s.orgHashMap.lookup orgId
  block : s'.localOrgBlocks.lookup orgId = s.localOrgBlocks.lookup orgId

theorem Skeleton.sameAt_insert (s : Skeleton) {orgId : Bytes} (r : OrgRecord) (h : org ≠ orgId) :
    s.SameAt (s.insert orgId r) org :=
  ⟨AList.lookup_insert_ne h, AList.lookup_insert_ne h, AList.lookup_insert_ne h⟩

theorem Skeleton.holds_insert (s : Skeleton) (orgId : Bytes) (r : OrgRecord) : (s.insert orgId r).Holds orgId r :=
  ⟨AList.lookup_insert _, AList.lookup_insert _, AList.lookup_insert _⟩

theorem Skeleton.SameAt.trans {s'' : Skeleton} (h : s.SameAt s' org) (h' : s'.SameAt s'' org) : s.SameAt s'' org :=
  ⟨h'.head.trans h.head, h'.details.trans h.details, h'.block.trans h.block⟩

theorem Skeleton.Holds.of_sameAt (h : s.Holds org r) (h' : s.SameAt s' org) : s'.Holds org r :=
  ⟨h'.head.trans h.head, h'.details.trans h.details, h'.block.trans h.block⟩

/-- The loop makes one record for each chain it visits, from the head found before the loop, and
changes nothing for the others. -/
theorem storeSkeletons_eq_ok {config : Bool} {num : UInt64} {filters : AMap Bytes SparseTxnFilter}
    {l : List (Sigma fun _ : Bytes => OrgBlock)} (hl : l.NodupKeys) (h : l.foldlM (fun s e => do
      let r ← orgRecord codec sha256 chainSupport config num (filters.lookup e.1) (s.orgHeadPostion.lookup e.1) e.1 e.2
      return s.insert e.1 r) s = .ok s') :
    (∀ org, org ∉ l.keys → s.SameAt s' org) ∧
      ∀ e ∈ l, ∃ r, orgRecord codec sha256 chainSupport config num (filters.lookup e.1)
        (s.orgHeadPostion.lookup e.1) e.1 e.2 = .ok r ∧ s'.Holds e.1 r := by
  induction l generalizing s with
  | nil =>
    simp only [foldlM_nil, pure_eq, ok.injEq] at h
    subst h
    exact ⟨fun _ _ => ⟨rfl, rfl, rfl⟩, by simp⟩
  | cons e l ih =>
    rw [nodupKeys_cons] at hl
    simp only [foldlM_cons, bind_eq_ok, pure_eq, ok.injEq] at h
    obtain ⟨s₁, ⟨r, hr, rfl⟩, h⟩ := h
    obtain ⟨hsm, hhl⟩ := ih hl.2 (by simpa only [pure_eq] using h)
    refine ⟨?_, ?_⟩
    · intro org ho
      rw [keys_cons, mem_cons, not_or] at ho
      exact (s.sameAt_insert r ho.1).trans (hsm org ho.2)
    · intro e' he'
      rcases mem_cons.mp he' with rfl | he'
      · exact ⟨r, hr, (s.holds_insert e'.1 r).of_sameAt (hsm e'.1 hl.1)⟩
      · have hne : e'.1 ≠ e.1 := by
          intro heq
          exact hl.1 (heq ▸ mem_keys_of_mem he')
        obtain ⟨r', hr', hh⟩ := hhl e' he'
        rw [(s.sameAt_insert r hne).head] at hr'
        exact ⟨r', hr', hh⟩

section

variable (codec sha256 chainSupport) (mvccApplicable : Bool) (versionDB : VersionDB) (chHeader : ChannelHeadInfo)
  (blk : Block)

def nextRecord (agg : Aggregate) (heads : AMap Bytes LastBlockMapping) (org : Bytes) (details : List TxnDetails) :
    Outcome Unit OrgRecord :=
  orgRecord codec sha256 chainSupport (isConfigBlock codec blk.data) blk.header.number
    (agg.sparseTxnFilterMap.lookup org) (heads.lookup org) org
    (nextOrgBlock sha256 (isConfigBlock codec blk.data) (agg.approveCommitType.getD blk.blockType)
      (heads.lookup org) details)

structure CreatedFrom (heads : AMap Bytes LastBlockMapping) (agg : Aggregate) (out : Created) : Prop where
  start : startHeads codec sha256 chainSupport chHeader blk = .ok (out.savepoint, heads)
  aggregate : aggregateOrgEnvelope codec chainSupport.channelID mvccApplicable versionDB blk = .ok agg
  processed : out.chHeader.lastFatBlockNumberProcessed = blk.header.number
  versions : out.versionDB = if mvccApplicable then applyBatch agg.fatTxnDetailsMVCCMap versionDB else versionDB
  produced : ∀ org details, agg.orgTxnEnvelopeMap.lookup org = some details →
    ∃ r, nextRecord codec sha256 chainSupport blk agg heads org details = .ok r ∧
      out.localOrgBlocks.lookup org = some r.block ∧ out.orgHashMap.lookup org = some r.details ∧
      out.chHeader.orgHeadPostion.lookup org = some r.head
  skipped : ∀ org, agg.orgTxnEnvelopeMap.lookup org = none →
    out.localOrgBlocks.lookup org = none ∧ out.orgHashMap.lookup org = none ∧
      out.chHeader.orgHeadPostion.lookup org = heads.lookup org

end

variable {mvccApplicable : Bool} {versionDB : VersionDB} {chHeader : ChannelHeadInfo} {blk : Block}

theorem createOrgBlocks_eq_ok {out : Created}
    (h : createOrgBlocks codec sha256 chainSupport mvccApplicable versionDB chHeader blk = .ok out) :
    ∃ heads agg, CreatedFrom codec sha256 chainSupport mvccApplicable versionDB chHeader blk heads agg out := by
  unfold createOrgBlocks at h
  simp only [bind_eq_ok, pure_eq, ok.injEq] at h
  obtain ⟨⟨savepoint, heads⟩, hst, agg, ha, s, hs, rfl⟩ := h
  set orgBlocks := agg.orgTxnEnvelopeMap.filterMap fun orgId txnDetailsList =>
    some (nextOrgBlock sha256 (isConfigBlock codec blk.data) (agg.approveCommitType.getD blk.blockType)
      (heads.lookup orgId) txnDetailsList)
  have hlk : ∀ org, orgBlocks.lookup org = (agg.orgTxnEnvelopeMap.lookup org).bind fun txnDetailsList =>
      some (nextOrgBlock sha256 (isConfigBlock codec blk.data) (agg.approveCommitType.getD blk.blockType)
        (heads.lookup org) txnDetailsList) := AMap.lookup_filterMap _ _
  obtain ⟨hsm, hhl⟩ := storeSkeletons_eq_ok orgBlocks.nodupKeys hs
  refine ⟨heads, agg, hst, ha, rfl, rfl, ?_, ?_⟩
  · intro org details hd
    have hm := hlk org
    rw [hd] at hm
    obtain ⟨r, hr, hh⟩ := hhl _ (AList.mem_lookup_iff.mp hm)
    exact ⟨r, hr, hh.block, hh.details, hh.head⟩
  · intro org hd
    have hn := hlk org
    rw [hd] at hn
    have hat := hsm org (AList.lookup_eq_none.mp hn)
    exact ⟨hat.block, hat.details, hat.head⟩

structure OrgRecord.Extends (codec : Codec) (sha256 : Bytes → Bytes) (blk : Block) (head : Option LastBlockMapping)
    (details : List TxnDetails) (r : OrgRecord) : Prop where
  number : r.block.header.number = head.elim 0 fun h => h.lastOrgBlockNum + 1
  previousHash : r.block.header.previousHash = head.elim [] LastBlockMapping.lastOrgBlockHash
  data : r.block.data = details.map TxnDetails.txnEnvBytes
  dataHash : r.block.header.dataHash = blockDataHash sha256 r.block.data
  headNum : r.head.lastOrgBlockNum = r.block.header.number
  headHash : r.head.lastOrgBlockHash = blockHeaderHash sha256 r.block.header
  headSource : r.head.sourceFatBlockNum = blk.header.number
  lastConfig : r.block.metadata[BlockMetadataIndex.lastConfig.index]? =
    some (lastConfigMetadata codec r.head.lastConfigBlockNum)
  filterSlot : r.block.metadata[BlockMetadataIndex.sparseTxnFilter.index]? =
    some (codec.metadata.marshal { value := r.details.sparseBlockFilter })

theorem nextRecord_extends {agg : Aggregate} {heads : AMap Bytes LastBlockMapping} {details : List TxnDetails}
    (h : nextRecord codec sha256 chainSupport blk agg heads org details = .ok r) :
    r.Extends codec sha256 blk (heads.lookup org) details ∧
      r.details.sparseBlockFilter = (agg.sparseTxnFilterMap.lookup org).elim [] codec.sparseTxnFilter.marshal := by
  simp only [nextRecord, orgRecord, bind_eq_ok, pure_eq, ok.injEq] at h
  obtain ⟨index, _, block, hb, rfl⟩ := h
  simp only [addMetadataFields] at hb
  split at hb
  · cases hb
    exact ⟨⟨rfl, rfl, rfl, rfl, rfl, rfl, rfl, rfl, rfl⟩, rfl⟩
  · cases hb

end Drunix.Orderer.Sparse
