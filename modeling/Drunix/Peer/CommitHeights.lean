import Drunix.Ledger.LtxMvcc
import Drunix.Peer.VerifyBlock

namespace Drunix.Peer

open Lib Proto Ledger List

section

variable (codec : Codec)

/-- The sparse filter of a block, absent when an error is reported. -/
def extractSparseFilter (number : UInt64) (metadata : List Bytes) : Option SparseTxnFilter :=
  if number = 0 then some ⟨0, []⟩
  else do
    let sparseTxnFilterProto ← metadata[BlockMetadataIndex.sparseTxnFilter.index]?
    let sparseTxnFilterProtoMetadata ← codec.metadata.unmarshal sparseTxnFilterProto
    let sparseTxnFilter ← codec.sparseTxnFilter.unmarshal sparseTxnFilterProtoMetadata.value
    if sparseTxnFilter.txnInfoList = [] then none else some sparseTxnFilter

def commitHeights (header : BlockHeader) (block : ReceivedBlock) : List (Outcome Unit Version) :=
  (List.range block.data.length).map
    (LtxBlock.committingTxHeight ⟨header.number, [], extractSparseFilter codec header.number block.metadata⟩)

variable (sha256 : Bytes → Bytes) (managers : PolicyManagers) (chainID : Bytes)

/-- Every verified block with the header, data and signature metadata of `block` has its commit heights. -/
def HeightsBound (header : BlockHeader) (block : ReceivedBlock) : Prop :=
  ∀ other, Verified codec sha256 managers chainID other → other.header = some header → other.data = block.data →
    other.metadata[BlockMetadataIndex.signatures.index]? = block.metadata[BlockMetadataIndex.signatures.index]? →
      commitHeights codec header other = commitHeights codec header block

structure Carries (filter : SparseTxnFilter) : Prop where
  filterRoundTrips : codec.sparseTxnFilter.RoundTrips filter
  metadataRoundTrips : codec.metadata.RoundTrips { value := codec.sparseTxnFilter.marshal filter }

end

variable {codec : Codec} {sha256 : Bytes → Bytes} {managers : PolicyManagers} {chainID : Bytes} {header : BlockHeader}
  {block : ReceivedBlock} {seqNum : UInt64} {filter : SparseTxnFilter}

theorem verifyBlock_congr_metadata {metadata : List Bytes} (hb : block.metadata ≠ [])
    (hsg : metadata[BlockMetadataIndex.signatures.index]? = block.metadata[BlockMetadataIndex.signatures.index]?) :
    verifyBlock codec sha256 managers chainID seqNum { block with metadata } =
      verifyBlock codec sha256 managers chainID seqNum block := by
  have hne : metadata ≠ [] := by
    rintro rfl
    obtain ⟨first, rest, hc⟩ := exists_cons_of_ne_nil hb
    rw [hc] at hsg
    cases hsg
  have hm : getMetadataFromBlock codec metadata .signatures = getMetadataFromBlock codec block.metadata .signatures := by
    rw [getMetadataFromBlock, getMetadataFromBlock, hsg]
  unfold verifyBlock
  simp only [hm, ne_eq, hne, hb, not_false_eq_true, decide_true]

theorem verifyBlock_metadata_ne_nil (h : verifyBlock codec sha256 managers chainID seqNum block = .ok ()) :
    block.metadata ≠ [] := by
  unfold verifyBlock at h
  simp only [Outcome.bind_eq_ok, Outcome.require_eq_ok, decide_eq_true_iff] at h
  obtain ⟨_, _, _, _, _, _, _, _, _, hne, _⟩ := h
  exact hne

def ReceivedBlock.withFilter (block : ReceivedBlock) (codec : Codec) (signatures : Bytes) (filter : SparseTxnFilter) :
    ReceivedBlock :=
  { block with
    metadata := signatures :: List.replicate 7 [] ++
      [codec.metadata.marshal { value := codec.sparseTxnFilter.marshal filter }] }

theorem extractSparseFilter_withFilter {signatures : Bytes} (hn : header.number ≠ 0) (hf : Carries codec filter)
    (hne : filter.txnInfoList ≠ []) :
    extractSparseFilter codec header.number (block.withFilter codec signatures filter).metadata = some filter := by
  have hsl : (block.withFilter codec signatures filter).metadata[BlockMetadataIndex.sparseTxnFilter.index]? =
      some (codec.metadata.marshal { value := codec.sparseTxnFilter.marshal filter }) := rfl
  have hm : codec.metadata.unmarshal (codec.metadata.marshal { value := codec.sparseTxnFilter.marshal filter }) =
      some { value := codec.sparseTxnFilter.marshal filter } := hf.metadataRoundTrips
  have hr : codec.sparseTxnFilter.unmarshal (codec.sparseTxnFilter.marshal filter) = some filter :=
    hf.filterRoundTrips
  rw [extractSparseFilter, if_neg hn]
  change (codec.metadata.unmarshal _).bind _ = _
  rw [hm]
  change (codec.sparseTxnFilter.unmarshal (codec.sparseTxnFilter.marshal filter)).bind _ = _
  rw [hr]
  change (if filter.txnInfoList = [] then none else some filter) = _
  rw [if_neg hne]

theorem commitHeights_genesis (h : header.number = 0) (other : ReceivedBlock) (hd : other.data = block.data) :
    commitHeights codec header other = commitHeights codec header block := by
  rw [commitHeights, hd]
  congr 1
  funext i
  rw [extractSparseFilter, extractSparseFilter, if_pos h, if_pos h]

theorem commitHeights_withFilter_head (signatures : Bytes) {info : TxnInfo} {infos : List TxnInfo}
    (hn : header.number ≠ 0) (hd : block.data ≠ []) (hf : Carries codec filter)
    (hi : filter.txnInfoList = info :: infos) :
    (commitHeights codec header (block.withFilter codec signatures filter)).head? =
      some (.ok ⟨filter.fatBlockNumber, info.indexInFatBlock⟩) := by
  obtain ⟨first, rest, hc⟩ := exists_cons_of_ne_nil hd
  have hlen : (block.withFilter codec signatures filter).data.length = rest.length + 1 := by
    change block.data.length = _
    rw [hc]
    rfl
  rw [commitHeights, extractSparseFilter_withFilter hn hf (by rw [hi]; exact cons_ne_nil _ _), hlen,
    range_succ_eq_map, map_cons, LtxBlock.committingTxHeight]
  simp only [hn, if_false, hi]
  rfl

/-- The heights of a verified block are bound by what is signed only if it is the genesis block. -/
theorem heightsBound_iff_genesis (hblock : Verified codec sha256 managers chainID block) (hheader : block.header = some header)
    (filter filter' : SparseTxnFilter) {info info' : TxnInfo} {infos infos' : List TxnInfo}
    (hfilter : Carries codec filter) (hinfos : filter.txnInfoList = info :: infos) (hfilter' : Carries codec filter')
    (hinfos' : filter'.txnInfoList = info' :: infos')
    (hne : (filter.fatBlockNumber, info.indexInFatBlock) ≠ (filter'.fatBlockNumber, info'.indexInFatBlock)) :
    HeightsBound codec sha256 managers chainID header block ↔ header.number = 0 := by
  constructor
  · intro hb
    by_contra hn
    obtain ⟨seqNum, hvr⟩ := hblock
    have hm := verifyBlock_metadata_ne_nil hvr
    obtain ⟨signatures, rest, hsg⟩ := exists_cons_of_ne_nil hm
    have hh : ∀ f, commitHeights codec header (block.withFilter codec signatures f) =
        commitHeights codec header block := by
      intro f
      have hsl : (block.withFilter codec signatures f).metadata[BlockMetadataIndex.signatures.index]? =
          block.metadata[BlockMetadataIndex.signatures.index]? := by
        rw [hsg]
        rfl
      exact hb _ ⟨seqNum, (verifyBlock_congr_metadata hm hsl).trans hvr⟩ hheader rfl hsl
    have hd := verifyBlock_data_ne_nil hvr
    have hhd := commitHeights_withFilter_head signatures hn hd hfilter hinfos
    have hh' := commitHeights_withFilter_head signatures hn hd hfilter' hinfos'
    rw [hh, ← hh filter', hh'] at hhd
    rw [Option.some.injEq, Outcome.ok.injEq, Version.mk.injEq] at hhd
    exact hne (Prod.ext hhd.1.symm hhd.2.symm)
  · intro hn other _ _ hd _
    exact commitHeights_genesis hn other hd

def filterAt (fatBlockNumber : UInt64) : SparseTxnFilter :=
  ⟨fatBlockNumber, [⟨0, .valid⟩]⟩

def filterCodec : Codec :=
  { liteCodec with
    sparseTxnFilter := .ofTable [] [(filterAt 1, [0x08, 0x01, 0x12, 0x00]), (filterAt 2, [0x08, 0x02, 0x12, 0x00])]
    metadata := .ofTable [] [(signedMetadata, [0x12, 0x03, 0x12, 0x01, 0x01]),
      ({ value := [0x08, 0x01, 0x12, 0x00] }, [0x0a, 0x04, 0x08, 0x01, 0x12, 0x00]),
      ({ value := [0x08, 0x02, 0x12, 0x00] }, [0x0a, 0x04, 0x08, 0x02, 0x12, 0x00])] }

def filteredBlock (fatBlockNumber : UInt64) : ReceivedBlock :=
  (signedBlock [liteEnvelopeBytes, liteEnvelopeBytes]).withFilter filterCodec [0x12, 0x03, 0x12, 0x01, 0x01]
    (filterAt fatBlockNumber)

def filteredHeader : BlockHeader :=
  { number := 7, dataHash := liteEnvelopeBytes ++ liteEnvelopeBytes }

theorem heightsBound_iff_genesis_filteredBlock :
    Verified filterCodec id oneSignature (ascii "c") (filteredBlock 1) ∧
      (HeightsBound filterCodec id oneSignature (ascii "c") filteredHeader (filteredBlock 1) ↔ filteredHeader.number = 0) := by
  have h : Verified filterCodec id oneSignature (ascii "c") (filteredBlock 1) := ⟨7, by decide⟩
  refine ⟨h, heightsBound_iff_genesis h rfl (filterAt 1) (filterAt 2) ⟨?_, ?_⟩ rfl ⟨?_, ?_⟩ rfl ?_⟩
  all_goals decide

/-- The filter of a verified block can be replaced: the signatures do not cover it. -/
theorem filteredBlock_heights_replaced :
    Verified filterCodec id oneSignature (ascii "c") (filteredBlock 1) ∧
      Verified filterCodec id oneSignature (ascii "c") (filteredBlock 2) ∧
      (filteredBlock 1).header = (filteredBlock 2).header ∧ (filteredBlock 1).data = (filteredBlock 2).data ∧
      (filteredBlock 1).metadata[0]? = (filteredBlock 2).metadata[0]? ∧
      (commitHeights filterCodec filteredHeader (filteredBlock 1)).head? = some (.ok ⟨1, 0⟩) ∧
      (commitHeights filterCodec filteredHeader (filteredBlock 2)).head? = some (.ok ⟨2, 0⟩) :=
  ⟨⟨7, by decide⟩, ⟨7, by decide⟩, rfl, rfl, rfl, by decide, by decide⟩

end Drunix.Peer
