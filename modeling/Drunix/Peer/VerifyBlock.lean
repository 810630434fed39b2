import Drunix.Proto.BlockUtils

namespace Drunix.Peer

open Lib Proto Outcome

/-- A block as gossip delivers it: the header may be missing. -/
structure ReceivedBlock where
  header : Option BlockHeader
  data : List Bytes
  metadata : List Bytes
  deriving DecidableEq

inductive VerifyBlockError where
  | nilHeader
  | wrongSeqNum (claimed actual : UInt64)
  | noChannelID (e : BlockError)
  | wrongChannelID (expected given : Bytes)
  | noMetadata
  | badSignaturesMetadata (e : BlockError)
  | malformedTransactions (e : BlockError)
  | dataHashMismatch
  | noPolicyManager (channelID : Bytes)
  | malformedSignatureHeader
  | policyNotSatisfied
  deriving DecidableEq

abbrev PolicyManagers := Bytes → Option (List SignedData → Bool)

section

variable (codec : Codec) (sha256 : Bytes → Bytes) (managers : PolicyManagers)

def blockSignature (header : BlockHeader) (metadata : Metadata) (ms : MetadataSignature) :
    Outcome VerifyBlockError SignedData := do
  let shdr ← .orErr .malformedSignatureHeader (codec.signatureHeader.unmarshal ms.signatureHeader)
  return { identity := shdr.creator
           data := metadata.value ++ ms.signatureHeader ++ blockHeaderBytes header
           signature := ms.signature }

def verifyBlock (chainID : Bytes) (seqNum : UInt64) (block : ReceivedBlock) :
    Outcome VerifyBlockError Unit := do
  let header ← .orErr .nilHeader block.header
  .require (seqNum = header.number) (.wrongSeqNum seqNum header.number)
  let channelID ← (getChannelIDFromBlock codec block.data).mapErr .noChannelID
  .require (channelID = chainID) (.wrongChannelID chainID channelID)
  .require (block.metadata ≠ []) .noMetadata
  let metadata ← (getMetadataFromBlock codec block.metadata .signatures).mapErr .badSignaturesMetadata
  (verifyTransactionsAreWellFormed codec block.data).mapErr .malformedTransactions
  .require (blockDataHash sha256 block.data = header.dataHash) .dataHashMismatch
  let policy ← .orErr (.noPolicyManager channelID) (managers channelID)
  let signatureSet ← metadata.signatures.mapM (blockSignature codec header metadata)
  .require (policy signatureSet) .policyNotSatisfied

def Verified (chainID : Bytes) (block : ReceivedBlock) : Prop :=
  ∃ seqNum, verifyBlock codec sha256 managers chainID seqNum block = .ok ()

def HeaderFixesData (chainID : Bytes) (block : ReceivedBlock) : Prop :=
  ∀ other, Verified codec sha256 managers chainID other → isConfigBlock codec other.data = false →
    other.header = block.header → other.data = block.data

end

variable {codec : Codec} {sha256 : Bytes → Bytes} {managers : PolicyManagers} {chainID : Bytes} {seqNum : UInt64}
  {block : ReceivedBlock}

theorem verifyBlock_congr_data {first : Bytes} {rest rest' : List Bytes} (hd : block.data = first :: rest)
    (hf : rest'.flatten = rest.flatten) :
    verifyBlock codec sha256 managers chainID seqNum { block with data := first :: rest' } =
      verifyBlock codec sha256 managers chainID seqNum block := by
  have hc : getChannelIDFromBlock codec (first :: rest') = getChannelIDFromBlock codec block.data := by
    rw [hd]
    rfl
  have hw : verifyTransactionsAreWellFormed codec (first :: rest') =
      verifyTransactionsAreWellFormed codec block.data := by
    rw [hd, verifyTransactionsAreWellFormed_eq, verifyTransactionsAreWellFormed_eq]
    simp
  have hh : blockDataHash sha256 (first :: rest') = blockDataHash sha256 block.data := by
    rw [hd, blockDataHash, blockDataHash, List.flatten_cons, List.flatten_cons, hf]
  unfold verifyBlock
  simp only [hc, hw, hh]

section

variable (h : verifyBlock codec sha256 managers chainID seqNum block = .ok ())
include h

theorem verifyBlock_data_ne_nil : block.data ≠ [] := by
  intro hd
  unfold verifyBlock at h
  simp only [hd, bind_eq_ok, mapErr_eq_ok, getChannelIDFromBlock] at h
  obtain ⟨_, _, _, _, _, hc, _⟩ := h
  cases hc

theorem verifyBlock_header : ∃ header, block.header = some header ∧ header.number = seqNum := by
  unfold verifyBlock at h
  simp only [bind_eq_ok, orErr_eq_ok, require_eq_ok, decide_eq_true_eq] at h
  obtain ⟨header, hh, _, hsq, _⟩ := h
  exact ⟨header, hh, hsq.symm⟩

end

theorem Verified.append_empty (h : Verified codec sha256 managers chainID block) :
    Verified codec sha256 managers chainID { block with data := block.data ++ [[]] } := by
  obtain ⟨seqNum, h⟩ := h
  refine ⟨seqNum, ?_⟩
  cases hd : block.data with
  | nil => exact absurd hd (verifyBlock_data_ne_nil h)
  | cons first rest =>
    rw [List.cons_append, verifyBlock_congr_data hd (by simp)]
    exact h

/-- No verified block has its transaction list fixed by its header: an empty transaction can
always be added. -/
theorem verified_not_headerFixesData (codec : Codec) (sha256 : Bytes → Bytes) (managers : PolicyManagers)
    (chainID : Bytes) (block : ReceivedBlock) (h : Verified codec sha256 managers chainID block) :
    ¬ HeaderFixesData codec sha256 managers chainID block := by
  intro hf
  obtain ⟨seqNum, hv⟩ := h
  obtain ⟨first, rest, hd⟩ := List.exists_cons_of_ne_nil (verifyBlock_data_ne_nil hv)
  have hc : isConfigBlock codec (block.data ++ [[]]) = false := by
    rw [hd]
    cases rest <;> rfl
  have he := hf { block with data := block.data ++ [[]] } (Verified.append_empty ⟨seqNum, hv⟩) hc rfl
  simp at he

def liteEnvelope : Envelope where
  leanEnv := some { channelId := ascii "c" }

def liteEnvelopeBytes : Bytes := [0x22, 0x03, 0x0a, 0x01, 0x63]

def signedMetadata : Metadata where
  signatures := [{ signature := [0x01] }]

def liteCodec : Codec :=
  { Codec.none with
    envelope := .ofTable [] [(liteEnvelope, liteEnvelopeBytes),
      (liteEnvelope, liteEnvelopeBytes ++ liteEnvelopeBytes)]
    payload := .ofTable [] [({}, [])]
    signatureHeader := .ofTable [] [({}, [])]
    metadata := .ofTable [] [(signedMetadata, [0x12, 0x03, 0x12, 0x01, 0x01])] }

def signedBlock (data : List Bytes) : ReceivedBlock where
  header := some { number := 7, dataHash := liteEnvelopeBytes ++ liteEnvelopeBytes }
  data := data
  metadata := [[0x12, 0x03, 0x12, 0x01, 0x01]]

def oneSignature : PolicyManagers := fun _ => some fun sds => sds.any fun sd => sd.signature = [0x01]

theorem verified_not_headerFixesData_lite :
    Verified liteCodec id oneSignature (ascii "c") (signedBlock [liteEnvelopeBytes, liteEnvelopeBytes]) ∧
      ¬ HeaderFixesData liteCodec id oneSignature (ascii "c")
        (signedBlock [liteEnvelopeBytes, liteEnvelopeBytes]) := by
  have h : Verified liteCodec id oneSignature (ascii "c")
      (signedBlock [liteEnvelopeBytes, liteEnvelopeBytes]) := ⟨7, by decide⟩
  exact ⟨h, verified_not_headerFixesData liteCodec id oneSignature (ascii "c") _ h⟩

/-- Two transactions merged into one pass verification under the header of the block they
were cut from. -/
theorem merged_transactions_verified :
    Function.Injective (id : Bytes → Bytes) ∧
      Verified liteCodec id oneSignature (ascii "c") (signedBlock [liteEnvelopeBytes, liteEnvelopeBytes]) ∧
      Verified liteCodec id oneSignature (ascii "c") (signedBlock [liteEnvelopeBytes ++ liteEnvelopeBytes]) ∧
      isConfigBlock liteCodec [liteEnvelopeBytes, liteEnvelopeBytes] = false ∧
      isConfigBlock liteCodec [liteEnvelopeBytes ++ liteEnvelopeBytes] = false ∧
      [liteEnvelopeBytes, liteEnvelopeBytes] ≠ [liteEnvelopeBytes ++ liteEnvelopeBytes] := by
  refine ⟨Function.injective_id, ⟨7, by decide⟩, ⟨7, by decide⟩, by decide, by decide, by decide⟩

end Drunix.Peer
