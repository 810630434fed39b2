import Drunix.Orderer.Sparse.Addressing
import Drunix.Orderer.Sparse.ChainRun

namespace Drunix.Orderer.Sparse

open Lib Proto List Outcome

/-- A fat block is split as it is meant to be: every org block holds the envelopes meant for its
chain, each once and in order, its filter lists their positions, and every endorser transaction is in
some org block. -/
structure WellSplit (codec : Codec) (channelID : Bytes) (blk : Block) (ts : List TxnHead) (agg : Aggregate)
    (out : Created) : Prop where
  data : ∀ org block, out.localOrgBlocks.lookup org = some block →
    block.data = (addressed channelID ts org).filterMap fun i => blk.data[i]?
  filter : ∀ org block, out.localOrgBlocks.lookup org = some block →
    ∃ filter, agg.sparseTxnFilterMap.lookup org = some filter ∧
      block.metadata[BlockMetadataIndex.sparseTxnFilter.index]? =
        some (codec.metadata.marshal { value := codec.sparseTxnFilter.marshal filter }) ∧
      (filter.txnInfoList.map fun info => info.indexInFatBlock.toNat) = addressed channelID ts org ∧
      (filter.txnInfoList.map fun info => info.indexInFatBlock.toNat).Pairwise (· < ·)
  reached : ∀ i t, ts[i]? = some t → t.txType = .endorserTransaction →
    ∃ org filter, (out.localOrgBlocks.lookup org).isSome ∧ agg.sparseTxnFilterMap.lookup org = some filter ∧
      i ∈ filter.txnInfoList.map fun info => info.indexInFatBlock.toNat

variable {codec : Codec}

theorem vanillaRWSet_isSome {txnEnv : Envelope} {txType : HeaderType} {rwset : Option TxReadWriteSet}
    (h : vanillaRWSet codec txnEnv txType = .ok rwset) (hsm : rwset.isSome) : carriesRWSet txType = true := by
  unfold vanillaRWSet at h
  split at h
  · assumption
  · cases h
    cases hsm

theorem readTxnEnvelope_read {b : Bytes} {t : TxnHead} (h : readTxnEnvelope codec b = .ok t) : t.Read := by
  unfold readTxnEnvelope at h
  split at h
  · cases h
    simp [TxnHead.Read]
  · split at h
    · cases h
      intro hsm
      by_contra hn
      simp [hn] at hsm
    · simp only [bind_eq_ok, pure_eq, ok.injEq] at h
      obtain ⟨_, _, _, _, _, _, rwset, hrw, rfl⟩ := h
      exact vanillaRWSet_isSome hrw

theorem delivered_deliveries (channelID : Bytes) (txns : List (TxnHead × TxnDetails)) (org : Bytes) :
    delivered (deliveries channelID txns) org =
      txns.flatMap fun e => List.replicate ((e.1.orgList channelID).count org) e.2 := by
  induction txns with
  | nil => rfl
  | cons e txns ih =>
    rw [deliveries_cons, delivered, filter_append, map_append, map_snd_filter_map_pair, flatMap_cons, ← ih]
    rfl

section

variable {codec : Codec} {data : List Bytes} {txns : List (TxnHead × TxnDetails)}

section

variable (h : ReadsAs codec 0 data txns) (hlen : data.length ≤ UInt64.size)
include h hlen

theorem ReadsAs.zipIdx_eq : (txns.map fun e => (e.1, e.2.indx.toNat)) = (txns.map Prod.fst).zipIdx := by
  apply ext_getElem?
  intro i
  rw [getElem?_map, getElem?_zipIdx, getElem?_map]
  cases he : txns[i]? with
  | none => rfl
  | some e =>
    have hi : i < data.length := by
      rw [← h.length_eq]
      exact (List.getElem?_eq_some_iff.mp he).1
    simp only [Option.map_some, h.indx_eq he, Nat.zero_add]
    rw [UInt64.toNat_ofNat_of_lt' (by omega)]

theorem ReadsAs.getElem?_eq {e : TxnHead × TxnDetails} (he : e ∈ txns) :
    data[e.2.indx.toNat]? = some e.2.txnEnvBytes := by
  obtain ⟨i, hi⟩ := mem_iff_getElem?.mp he
  have hpos : e.2.indx.toNat = i := by
    have hz := congrArg (fun l => l[i]?) (h.zipIdx_eq hlen)
    simp only [getElem?_map, getElem?_zipIdx, hi, Option.map_some, Option.some.injEq, Prod.mk.injEq,
      true_and, Nat.zero_add] at hz
    exact hz
  rw [hpos, ← h.bytes, getElem?_map, hi]
  rfl

end

variable {channelID org : Bytes}

section

variable (h : ReadsAs codec 0 data txns) (hlen : data.length ≤ UInt64.size)
include h hlen

theorem ReadsAs.positions_eq :
    (delivered (deliveries channelID txns) org).map (fun d => d.indx.toNat) =
      positions channelID (txns.map Prod.fst) org := by
  rw [delivered_deliveries, positions, ← h.zipIdx_eq hlen, map_flatMap, flatMap_map]
  simp only [map_replicate]

theorem ReadsAs.data_eq :
    (delivered (deliveries channelID txns) org).map TxnDetails.txnEnvBytes =
      (positions channelID (txns.map Prod.fst) org).filterMap fun i => data[i]? := by
  rw [← h.positions_eq hlen, filterMap_map, eq_comm, filterMap_eq_map_iff_forall_eq_some]
  intro d hd
  rw [delivered_deliveries] at hd
  obtain ⟨e, he, hr⟩ := mem_flatMap.mp hd
  rw [eq_of_mem_replicate hr]
  exact h.getElem?_eq hlen he

end

theorem delivered_eq_nil_iff :
    delivered (deliveries channelID txns) org = [] ↔ ∀ t ∈ txns.map Prod.fst, org ∉ t.orgList channelID := by
  rw [delivered_deliveries, flatMap_eq_nil_iff, forall_mem_map]
  simp only [replicate_eq_nil_iff, count_eq_zero]

variable {sha256 : Bytes → Bytes} {chainSupport : ChainSupport} {mvccApplicable : Bool} {versionDB : VersionDB}
  {chHeader : ChannelHeadInfo} {blk : Block} {heads : AMap Bytes LastBlockMapping} {agg : Aggregate} {out : Created}

section

variable (hc : CreatedFrom codec sha256 chainSupport mvccApplicable versionDB chHeader blk heads agg out)
  (hr : ReadsAs codec 0 blk.data txns) (hlen : blk.data.length ≤ UInt64.size)
  (hcollects : agg.Collects blk.header.number (deliveries chainSupport.channelID txns))
include hc hr hlen hcollects

theorem CreatedFrom.orgBlock (org : Bytes) :
    (∀ block, out.localOrgBlocks.lookup org = some block →
      block.data = (positions chainSupport.channelID (txns.map Prod.fst) org).filterMap (fun i => blk.data[i]?) ∧
      ∃ filter, agg.sparseTxnFilterMap.lookup org = some filter ∧
        block.metadata[BlockMetadataIndex.sparseTxnFilter.index]? =
          some (codec.metadata.marshal { value := codec.sparseTxnFilter.marshal filter }) ∧
        (filter.txnInfoList.map fun info => info.indexInFatBlock.toNat) =
          positions chainSupport.channelID (txns.map Prod.fst) org) ∧
    ((out.localOrgBlocks.lookup org).isSome ↔ ∃ t ∈ txns.map Prod.fst, org ∈ t.orgList chainSupport.channelID) := by
  have hlk := hcollects.envelopes org
  cases hd : agg.orgTxnEnvelopeMap.lookup org with
  | none =>
    rw [hd] at hlk
    have hnil : delivered (deliveries chainSupport.channelID txns) org = [] := by
      by_contra hne
      rw [if_neg hne] at hlk
      cases hlk
    rw [(hc.skipped org hd).1]
    refine ⟨by simp, by simp, ?_⟩
    rintro ⟨t, ht, ho⟩
    exact absurd ho (delivered_eq_nil_iff.mp hnil t ht)
  | some details =>
    obtain ⟨rfl, hne, hf⟩ := hcollects.lookup hd
    obtain ⟨r, hrec, hb, _, _⟩ := hc.produced org _ hd
    obtain ⟨he, hby⟩ := nextRecord_extends hrec
    rw [hf, Option.elim_some] at hby
    rw [hb]
    refine ⟨?_, ?_⟩
    · intro block hbl
      obtain rfl := Option.some.inj hbl
      refine ⟨by rw [he.data, hr.data_eq hlen], _, hf, by rw [he.filterSlot, hby], ?_⟩
      rw [map_map, ← hr.positions_eq hlen]
      rfl
    · refine ⟨fun _ => ?_, fun _ => rfl⟩
      by_contra hn
      push Not at hn
      exact hne (delivered_eq_nil_iff.mpr hn)

theorem CreatedFrom.balanced_of_wellSplit (h : WellSplit codec chainSupport.channelID blk (txns.map Prod.fst) agg out) :
    Balanced chainSupport.channelID (txns.map Prod.fst) where
  once := by
    intro org hex
    obtain ⟨hbl, hm⟩ := hc.orgBlock hr hlen hcollects org
    obtain ⟨block, hb⟩ := Option.isSome_iff_exists.mp (hm.mpr hex)
    obtain ⟨_, filter, hf, _, hpos⟩ := hbl block hb
    obtain ⟨filter', hf', _, ha, _⟩ := h.filter org block hb
    obtain rfl := Option.some.inj (hf.symm.trans hf')
    exact positions_eq_addressed_iff.mp (hpos.symm.trans ha)
  delivered := by
    intro t ht he hnil
    obtain ⟨i, hi⟩ := mem_iff_getElem?.mp ht
    obtain ⟨org, filter, hsm, hf, hmm⟩ := h.reached i t hi he
    obtain ⟨block, hb⟩ := Option.isSome_iff_exists.mp hsm
    obtain ⟨_, filter', hf', _, hpos⟩ := (hc.orgBlock hr hlen hcollects org).1 block hb
    obtain rfl := Option.some.inj (hf.symm.trans hf')
    rw [hpos, mem_positions] at hmm
    obtain ⟨u, hu, ho⟩ := hmm
    obtain rfl := Option.some.inj (hi.symm.trans hu)
    rw [hnil] at ho
    cases ho

theorem CreatedFrom.wellSplit_of_balanced (h : Balanced chainSupport.channelID (txns.map Prod.fst)) :
    WellSplit codec chainSupport.channelID blk (txns.map Prod.fst) agg out := by
  have hbl := fun org => (hc.orgBlock hr hlen hcollects org).1
  have hm := fun org => (hc.orgBlock hr hlen hcollects org).2
  have ha : ∀ org block, out.localOrgBlocks.lookup org = some block →
      positions chainSupport.channelID (txns.map Prod.fst) org =
        addressed chainSupport.channelID (txns.map Prod.fst) org := by
    intro org block hb
    exact positions_eq_addressed_iff.mpr (h.once org ((hm org).mp (by rw [hb]; rfl)))
  refine ⟨?_, ?_, ?_⟩
  · intro org block hb
    rw [← ha org block hb]
    exact (hbl org block hb).1
  · intro org block hb
    obtain ⟨_, filter, hf, hsl, hpos⟩ := hbl org block hb
    rw [ha org block hb] at hpos
    exact ⟨filter, hf, hsl, hpos, hpos ▸ addressed_increasing _ _ _⟩
  · intro i t hi he
    obtain ⟨org, ho⟩ := exists_mem_of_ne_nil _ (h.delivered t (mem_of_getElem? hi) he)
    have hsm := (hm org).mpr ⟨t, mem_of_getElem? hi, ho⟩
    obtain ⟨block, hb⟩ := Option.isSome_iff_exists.mp hsm
    obtain ⟨_, filter, hf, _, hpos⟩ := hbl org block hb
    exact ⟨org, filter, hsm, hf, by rw [hpos, mem_positions]; exact ⟨t, hi, ho⟩⟩

end

end

/-- A fat block is split as it is meant to be exactly when its envelopes meet the condition. -/
theorem orgBlocks_wellSplit_iff (codec : Codec) (sha256 : Bytes → Bytes) (chainSupport : ChainSupport)
    (mvccApplicable : Bool) (versionDB : VersionDB) (chHeader : ChannelHeadInfo) (blk : Block) (out : Created)
    (hlen : blk.data.length ≤ UInt64.size)
    (h : createOrgBlocks codec sha256 chainSupport mvccApplicable versionDB chHeader blk = .ok out) :
    ∃ ts agg, blk.data.mapM (readTxnEnvelope codec) = .ok ts ∧
      aggregateOrgEnvelope codec chainSupport.channelID mvccApplicable versionDB blk = .ok agg ∧
      (WellSplit codec chainSupport.channelID blk ts agg out ↔ SplitCondition chainSupport.channelID ts) := by
  obtain ⟨heads, agg, hc⟩ := createOrgBlocks_eq_ok h
  obtain ⟨txns, hr, hcollects, -⟩ := aggregateOrgEnvelope_eq_ok hc.aggregate
  refine ⟨txns.map Prod.fst, agg, hr.mapM_eq, hc.aggregate, ?_⟩
  have hrd : ∀ t ∈ txns.map Prod.fst, t.Read := by
    intro t ht
    obtain ⟨e, he, rfl⟩ := mem_map.mp ht
    exact readTxnEnvelope_read (hr.heads e he)
  constructor
  · intro hsp
    exact (hc.balanced_of_wellSplit hr hlen hcollects hsp).splitCondition
  · intro hcn
    exact hc.wellSplit_of_balanced hr hlen hcollects (hcn.balanced hrd)

def sharedEnvelope : Envelope where
  type := .endorserTransaction
  leanEnv := some { channelId := ascii "ch", results := some ⟨[]⟩, orgsInvolved := [litePeerChainId] }

def sharedCodec : Codec :=
  { payCodec with envelope := .ofTable [] [(payEnvelope, [0x01]), (sharedEnvelope, [0x02])] }

def sharedBlock : Block where
  header := { number := 5 }
  data := [[0x01], [0x02]]

/-- A transaction for the chain of the channel, and one for the lite peer chain. -/
theorem orgBlocks_wellSplit_pay :
    ∃ out ts agg, createOrgBlocks sharedCodec id payChain true (fun _ => none) {} sharedBlock = .ok out ∧
      sharedBlock.data.length ≤ UInt64.size ∧ SplitCondition (ascii "ch") ts ∧
      addressed (ascii "ch") ts (ascii "ch") = [0] ∧ addressed (ascii "ch") ts litePeerChainId = [1] ∧
      WellSplit sharedCodec (ascii "ch") sharedBlock ts agg out := by
  have h : createOrgBlocks sharedCodec id payChain true (fun _ => none) {} sharedBlock = .ok _ := rfl
  have hlen : sharedBlock.data.length ≤ UInt64.size := by decide
  obtain ⟨ts, agg, hts, _, hi⟩ := orgBlocks_wellSplit_iff sharedCodec id payChain true (fun _ => none) {} sharedBlock _
    hlen h
  obtain rfl : [⟨.endorserTransaction, some ⟨[]⟩, []⟩, ⟨.endorserTransaction, some ⟨[]⟩, [litePeerChainId]⟩] = ts :=
    ok.inj hts
  have hs : SplitCondition (ascii "ch")
      [⟨.endorserTransaction, some ⟨[]⟩, []⟩, ⟨.endorserTransaction, some ⟨[]⟩, [litePeerChainId]⟩] :=
    ⟨by simp, by simp [TxnHead.toEveryChain]⟩
  exact ⟨_, _, agg, h, hlen, hs, by decide, by decide, hi.mpr hs⟩

def repeatEnvelope : Envelope where
  type := .endorserTransaction
  leanEnv := some { orgsInvolved := [ascii "ch", ascii "ch"], results := some ⟨[]⟩ }

def repeatCodec : Codec :=
  { payCodec with envelope := .ofTable [] [(repeatEnvelope, [0x01])] }

/-- The org block holds the only envelope of the fat block twice. -/
theorem repeated_name_delivered_twice :
    ∃ out ts agg, createOrgBlocks repeatCodec id payChain true (fun _ => none) {} (payBlock 5) = .ok out ∧
      (payBlock 5).data.mapM (readTxnEnvelope repeatCodec) = .ok ts ∧
      aggregateOrgEnvelope repeatCodec (ascii "ch") true (fun _ => none) (payBlock 5) = .ok agg ∧
      (payBlock 5).data = [[0x01]] ∧ (out.localOrgBlocks.lookup (ascii "ch")).map Block.data = some [[0x01], [0x01]] ∧
      (agg.sparseTxnFilterMap.lookup (ascii "ch")).map (fun f => f.txnInfoList.map TxnInfo.indexInFatBlock) =
        some [0, 0] ∧
      ¬ WellSplit repeatCodec (ascii "ch") (payBlock 5) ts agg out := by
  refine ⟨_, _, _, rfl, rfl, rfl, rfl, by decide, by decide, ?_⟩
  intro h
  exact absurd (h.data (ascii "ch") _ rfl) (by decide)

end Drunix.Orderer.Sparse
