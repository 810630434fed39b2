import Drunix.Lib.Varint
import Drunix.Proto.BlockUtils

namespace Drunix.BlkStorage

open Lib Proto Outcome List

/-- `common.Block` with its pointers, which `serializeBlock` does not test. -/
structure Block where
  header : Option BlockHeader := none
  data : Option (List Bytes) := none
  metadata : Option (List Bytes) := none
  blockType : HeaderType := .message
  deriving DecidableEq

structure LocPointer where
  offset : ℕ
  bytesLength : ℕ
  deriving DecidableEq

structure TxIndexInfo where
  txID : Bytes
  loc : LocPointer
  deriving DecidableEq

structure SerializedBlockInfo where
  blockHeader : BlockHeader
  txOffsets : List TxIndexInfo
  metadata : List Bytes
  deriving DecidableEq

inductive DecodeError
  | blockNumber
  | dataHash
  | previousHash
  | dataLength
  | txEnvelope
  | metadataLength
  | metadata
  deriving DecidableEq

/-- `buffer` of the package: the bytes not yet read, and the offset that the package keeps itself. -/
structure Buffer where
  rest : Bytes
  position : ℕ
  deriving DecidableEq

namespace Buffer

def decodeVarint (e : DecodeError) (b : Buffer) : Outcome DecodeError (UInt64 × Buffer) := do
  let (val, rest) ← .orErr e (Varint.consume b.rest)
  .ok (val, ⟨rest, b.position + (Varint.encode val).length⟩)

def decodeRawBytes (e : DecodeError) (b : Buffer) : Outcome DecodeError (Bytes × Buffer) := do
  let (val, rest) ← .orErr e (Varint.consumeBytes b.rest)
  .ok (val, ⟨rest, b.position + ((Varint.encode (UInt64.ofNat val.length)).length + val.length)⟩)

end Buffer

section

variable (codec : Codec) (computeTxID : Bytes → Bytes → Bytes)

def getOrComputeTxIDFromEnvelope (txEnvelopBytes : Bytes) : Option Bytes := do
  let txEnvelope ← getEnvelopeFromBlock codec txEnvelopBytes
  match txEnvelope.leanEnv with
  | some leanEnv => some leanEnv.txId
  | none => do
      let txPayload ← unmarshalPayload codec txEnvelope.payload
      let header ← txPayload.header
      let chdr ← unmarshalChannelHeader codec header.channelHeader
      if chdr.txId ≠ [] then some chdr.txId
      else do
        let sighdr ← codec.signatureHeader.unmarshal header.signatureHeader
        some (computeTxID sighdr.nonce sighdr.creator)

/-- The error of a malformed transaction is logged and the id stays empty. -/
def txIDOrEmpty (txEnvelopBytes : Bytes) : Bytes :=
  (getOrComputeTxIDFromEnvelope codec computeTxID txEnvelopBytes).getD []

def addHeaderBytes (blockHeader : BlockHeader) (buf : Bytes) : Bytes :=
  buf ++ Varint.encode blockHeader.number ++ Varint.encodeBytes blockHeader.dataHash ++
    Varint.encodeBytes blockHeader.previousHash

def addTxBytes (buf : Bytes) : List Bytes → Bytes × List TxIndexInfo
  | [] => (buf, [])
  | txEnvelopeBytes :: txs =>
    let buf' := buf ++ Varint.encodeBytes txEnvelopeBytes
    let (buf'', txOffsets) := addTxBytes buf' txs
    (buf'', ⟨txIDOrEmpty codec computeTxID txEnvelopeBytes, ⟨buf.length, buf'.length - buf.length⟩⟩ :: txOffsets)

def addDataBytesAndConstructTxIndexInfo (data : List Bytes) (buf : Bytes) : Bytes × List TxIndexInfo :=
  addTxBytes codec computeTxID (buf ++ Varint.encode (UInt64.ofNat data.length)) data

/-- The count is taken behind a test for nil, and the loop then reads through the pointer all the same. -/
def addMetadataBytes (blockMetadata : Option (List Bytes)) (buf : Bytes) : Outcome DecodeError Bytes := do
  let numItems := (blockMetadata.map List.length).getD 0
  let metadata ← .deref blockMetadata
  .ok (metadata.foldl (fun buf b => buf ++ Varint.encodeBytes b) (buf ++ Varint.encode (UInt64.ofNat numItems)))

def serializeBlock (block : Block) : Outcome DecodeError (Bytes × SerializedBlockInfo) := do
  let header ← .deref block.header
  let data ← .deref block.data
  let (buf, txOffsets) := addDataBytesAndConstructTxIndexInfo codec computeTxID data (addHeaderBytes header [])
  let buf ← addMetadataBytes block.metadata buf
  let metadata ← .deref block.metadata
  .ok (buf, ⟨header, txOffsets, metadata⟩)

def extractHeader (buf : Buffer) : Outcome DecodeError (BlockHeader × Buffer) := do
  let (number, buf) ← buf.decodeVarint .blockNumber
  let (dataHash, buf) ← buf.decodeRawBytes .dataHash
  let (previousHash, buf) ← buf.decodeRawBytes .previousHash
  .ok ({ number, dataHash, previousHash }, buf)

def extractTxs : ℕ → Buffer → Outcome DecodeError (List Bytes × List TxIndexInfo × Buffer)
  | 0, buf => .ok ([], [], buf)
  | numItems + 1, buf => do
      let txOffset := buf.position
      let (txEnvBytes, buf) ← buf.decodeRawBytes .txEnvelope
      let idxInfo := ⟨txIDOrEmpty codec computeTxID txEnvBytes, ⟨txOffset, buf.position - txOffset⟩⟩
      let (data, txOffsets, buf) ← extractTxs numItems buf
      .ok (txEnvBytes :: data, idxInfo :: txOffsets, buf)

def extractData (buf : Buffer) : Outcome DecodeError (List Bytes × List TxIndexInfo × Buffer) := do
  let (numItems, buf) ← buf.decodeVarint .dataLength
  extractTxs codec computeTxID numItems.toNat buf

def extractEntries : ℕ → Buffer → Outcome DecodeError (List Bytes × Buffer)
  | 0, buf => .ok ([], buf)
  | numItems + 1, buf => do
      let (metadataEntry, buf) ← buf.decodeRawBytes .metadata
      let (metadata, buf) ← extractEntries numItems buf
      .ok (metadataEntry :: metadata, buf)

def extractMetadata (buf : Buffer) : Outcome DecodeError (List Bytes × Buffer) := do
  let (numItems, buf) ← buf.decodeVarint .metadataLength
  extractEntries numItems.toNat buf

def deserializeBlock (serializedBlockBytes : Bytes) : Outcome DecodeError Block := do
  let (header, buf) ← extractHeader ⟨serializedBlockBytes, 0⟩
  let (data, _, buf) ← extractData codec computeTxID buf
  let (metadata, _) ← extractMetadata buf
  .ok { header := some header, data := some data, metadata := some metadata }

def extractSerializedBlockInfo (serializedBlockBytes : Bytes) : Outcome DecodeError SerializedBlockInfo := do
  let (blockHeader, buf) ← extractHeader ⟨serializedBlockBytes, 0⟩
  let (_, txOffsets, buf) ← extractData codec computeTxID buf
  let (metadata, _) ← extractMetadata buf
  .ok ⟨blockHeader, txOffsets, metadata⟩

end

def Fits {α : Type} (l : List α) : Prop :=
  l.length < UInt64.size

instance decidableFits {α : Type} (l : List α) : Decidable (Fits l) :=
  inferInstanceAs (Decidable (_ < _))

structure Block.InMemory (block : Block) : Prop where
  hashes : ∀ header ∈ block.header, Fits header.dataHash ∧ Fits header.previousHash
  data : ∀ data ∈ block.data, Fits data ∧ ∀ tx ∈ data, Fits tx
  metadata : ∀ metadata ∈ block.metadata, Fits metadata ∧ ∀ entry ∈ metadata, Fits entry

theorem Buffer.decodeVarint_encode (e : DecodeError) (x : UInt64) (rest : Bytes) (position : ℕ) :
    (⟨Varint.encode x ++ rest, position⟩ : Buffer).decodeVarint e =
      .ok (x, ⟨rest, position + (Varint.encode x).length⟩) := by
  simp [Buffer.decodeVarint, orErr]

theorem Buffer.decodeRawBytes_encode (e : DecodeError) {bytes : Bytes} (hb : Fits bytes) (rest : Bytes)
    (position : ℕ) :
    (⟨Varint.encodeBytes bytes ++ rest, position⟩ : Buffer).decodeRawBytes e =
      .ok (bytes, ⟨rest, position + (Varint.encodeBytes bytes).length⟩) := by
  simp only [Buffer.decodeRawBytes, Varint.consumeBytes_encodeBytes_append hb, orErr, ok_bind]
  rw [Varint.encodeBytes, length_append]

section

variable (codec : Codec) (computeTxID : Bytes → Bytes → Bytes)

def txOffsetsFrom (offset : ℕ) : List Bytes → List TxIndexInfo
  | [] => []
  | tx :: txs =>
    ⟨txIDOrEmpty codec computeTxID tx, ⟨offset, (Varint.encodeBytes tx).length⟩⟩ ::
      txOffsetsFrom (offset + (Varint.encodeBytes tx).length) txs

def headerBytes (header : BlockHeader) (data : List Bytes) : Bytes :=
  Varint.encode header.number ++ (Varint.encodeBytes header.dataHash ++ (Varint.encodeBytes header.previousHash ++
    Varint.encode (UInt64.ofNat data.length)))

def blockBytes (header : BlockHeader) (data metadata : List Bytes) : Bytes :=
  headerBytes header data ++ (data.flatMap Varint.encodeBytes ++
    (Varint.encode (UInt64.ofNat metadata.length) ++ metadata.flatMap Varint.encodeBytes))

def blockInfo (header : BlockHeader) (data metadata : List Bytes) : SerializedBlockInfo :=
  ⟨header, txOffsetsFrom codec computeTxID (headerBytes header data).length data, metadata⟩

variable {codec computeTxID} {txs : List Bytes}

theorem addTxBytes_eq (buf : Bytes) (txs : List Bytes) :
    addTxBytes codec computeTxID buf txs =
      (buf ++ txs.flatMap Varint.encodeBytes, txOffsetsFrom codec computeTxID buf.length txs) := by
  induction txs generalizing buf with
  | nil => simp [addTxBytes, txOffsetsFrom]
  | cons tx txs ih => simp [addTxBytes, txOffsetsFrom, ih]

theorem serializeBlock_mk (header : BlockHeader) (data metadata : List Bytes) (blockType : HeaderType) :
    serializeBlock codec computeTxID ⟨some header, some data, some metadata, blockType⟩ =
      .ok (blockBytes header data metadata, blockInfo codec computeTxID header data metadata) := by
  simp [serializeBlock, deref, addDataBytesAndConstructTxIndexInfo, addTxBytes_eq, addMetadataBytes,
    flatMap_def, addHeaderBytes, blockBytes, blockInfo, headerBytes]

/-- `serializeBlock` returns for the blocks without a nil part; for the others it panics. -/
theorem serializeBlock_eq_ok_iff {block : Block} {r : Bytes × SerializedBlockInfo} :
    serializeBlock codec computeTxID block = .ok r ↔
      ∃ header data metadata, block.header = some header ∧ block.data = some data ∧ block.metadata = some metadata ∧
        r = (blockBytes header data metadata, blockInfo codec computeTxID header data metadata) := by
  obtain ⟨_ | header, _ | data, _ | metadata, blockType⟩ := block
  case some.some.some =>
    rw [serializeBlock_mk]
    simp [eq_comm]
  all_goals simp [serializeBlock, deref, addMetadataBytes]

theorem extractTxs_eq (ht : ∀ tx ∈ txs, Fits tx) (rest : Bytes) (position : ℕ) :
    extractTxs codec computeTxID txs.length ⟨txs.flatMap Varint.encodeBytes ++ rest, position⟩ =
      .ok (txs, txOffsetsFrom codec computeTxID position txs,
        ⟨rest, position + (txs.flatMap Varint.encodeBytes).length⟩) := by
  induction txs generalizing position with
  | nil => rfl
  | cons tx txs ih =>
    rw [length_cons, extractTxs, flatMap_cons, append_assoc,
      Buffer.decodeRawBytes_encode _ (ht tx mem_cons_self), ok_bind]
    dsimp only
    rw [ih fun tx' htx' => ht tx' (mem_cons_of_mem _ htx')]
    simp [txOffsetsFrom, Nat.add_assoc]

theorem extractEntries_eq {entries : List Bytes} (he : ∀ entry ∈ entries, Fits entry) (rest : Bytes)
    (position : ℕ) :
    extractEntries entries.length ⟨entries.flatMap Varint.encodeBytes ++ rest, position⟩ =
      .ok (entries, ⟨rest, position + (entries.flatMap Varint.encodeBytes).length⟩) := by
  induction entries generalizing position with
  | nil => rfl
  | cons entry entries ih =>
    rw [length_cons, extractEntries, flatMap_cons, append_assoc,
      Buffer.decodeRawBytes_encode _ (he entry mem_cons_self), ok_bind]
    dsimp only
    rw [ih fun entry' he' => he entry' (mem_cons_of_mem _ he')]
    simp [Nat.add_assoc]

variable {header : BlockHeader} {data metadata : List Bytes}

theorem extractHeader_eq (hh : Fits header.dataHash ∧ Fits header.previousHash) (rest : Bytes) (position : ℕ) :
    extractHeader
        ⟨Varint.encode header.number ++ (Varint.encodeBytes header.dataHash ++
          (Varint.encodeBytes header.previousHash ++ rest)), position⟩ =
      .ok (header, ⟨rest, position + ((Varint.encode header.number).length +
        ((Varint.encodeBytes header.dataHash).length + (Varint.encodeBytes header.previousHash).length))⟩) := by
  simp [extractHeader, Buffer.decodeVarint_encode, Buffer.decodeRawBytes_encode _ hh.1,
    Buffer.decodeRawBytes_encode _ hh.2, Nat.add_assoc]

theorem toNat_ofNat_length {α : Type} {l : List α} (hl : Fits l) : (UInt64.ofNat l.length).toNat = l.length :=
  UInt64.toNat_ofNat_of_lt' hl

variable (codec computeTxID) in
theorem extract_blockBytes (hh : Fits header.dataHash ∧ Fits header.previousHash)
    (hd : Fits data ∧ ∀ tx ∈ data, Fits tx) (hmt : Fits metadata ∧ ∀ entry ∈ metadata, Fits entry) :
    deserializeBlock codec computeTxID (blockBytes header data metadata) =
        .ok ⟨some header, some data, some metadata, .message⟩ ∧
      extractSerializedBlockInfo codec computeTxID (blockBytes header data metadata) =
        .ok (blockInfo codec computeTxID header data metadata) := by
  have hps : 0 + ((Varint.encode header.number).length + ((Varint.encodeBytes header.dataHash).length +
      (Varint.encodeBytes header.previousHash).length)) + (Varint.encode (UInt64.ofNat data.length)).length =
      (headerBytes header data).length := by
    simp only [headerBytes, length_append]
    omega
  have he := extractEntries_eq hmt.2 []
  simp only [append_nil] at he
  constructor
  · simp [deserializeBlock, blockBytes, headerBytes, extractHeader_eq hh, extractData,
      Buffer.decodeVarint_encode, toNat_ofNat_length hd.1, extractTxs_eq hd.2, extractMetadata,
      toNat_ofNat_length hmt.1, he]
  · simp only [extractSerializedBlockInfo, blockBytes, headerBytes, append_assoc, extractHeader_eq hh,
      ok_bind, extractData, Buffer.decodeVarint_encode, toNat_ofNat_length hd.1, extractTxs_eq hd.2,
      extractMetadata, toNat_ofNat_length hmt.1, he, hps, blockInfo]

theorem getElem?_txOffsetsFrom {offset i : ℕ} {tx : Bytes} (htx : txs[i]? = some tx) :
    (txOffsetsFrom codec computeTxID offset txs)[i]? =
      some ⟨txIDOrEmpty codec computeTxID tx,
        ⟨offset + ((txs.take i).flatMap Varint.encodeBytes).length, (Varint.encodeBytes tx).length⟩⟩ := by
  induction txs generalizing offset i with
  | nil => simp at htx
  | cons tx' txs ih =>
    cases i with
    | zero =>
      cases htx
      simp [txOffsetsFrom]
    | succ i =>
      rw [txOffsetsFrom, getElem?_cons_succ, ih htx]
      simp [Nat.add_assoc]

end

end Drunix.BlkStorage
