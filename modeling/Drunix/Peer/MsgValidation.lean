import Drunix.Proto.LiteUtils

namespace Drunix.Peer

open Lib Proto Outcome

def hexDigit (n : UInt8) : UInt8 :=
  if n < 10 then 0x30 + n else 0x57 + n

def hexEncodeToString (src : Bytes) : Bytes :=
  src.flatMap fun b => [hexDigit (b / 16), hexDigit (b % 16)]

/-- What message validation takes from the cryptography: the hash, and whether a creator known to the
channel signed a message. -/
structure CryptoProvider where
  sha256 : Bytes → Bytes
  verifiesCreator : Bytes → Bytes → Bytes → Bytes → Bool

def CryptoProvider.computeTxID (crypto : CryptoProvider) (nonce creator : Bytes) : Bytes :=
  hexEncodeToString (crypto.sha256 (nonce ++ creator))

def CryptoProvider.checkSignatureFromCreator (crypto : CryptoProvider) (creatorBytes sig : Bytes)
    (msg : Option Bytes) (channelID : Bytes) : Bool :=
  creatorBytes ≠ [] && sig ≠ [] && msg.any (crypto.verifiesCreator channelID creatorBytes sig)

def validateSignatureHeader (sHdr : SignatureHeader) : Bool :=
  sHdr.nonce ≠ [] && sHdr.creator ≠ []

def validateChannelHeader (cHdr : ChannelHeader) : Bool :=
  (cHdr.type = .endorserTransaction || cHdr.type = .configUpdate || cHdr.type = .config) && cHdr.epoch = 0

def CryptoProvider.getProposalHash2 (crypto : CryptoProvider) (channelHeader : Option Bytes)
    (signatureHeader ccPropPayl : Bytes) : Option Bytes := do
  let channelHeader ← channelHeader
  if signatureHeader = [] ∨ ccPropPayl = [] then none
  else some (crypto.sha256 (channelHeader ++ signatureHeader ++ ccPropPayl))

def theOnlyAction (tx : Vanilla.Transaction) : Option Vanilla.TransactionAction :=
  match tx.actions with
  | [act] => some act
  | _ => none

section

variable (codec : Codec) (crypto : CryptoProvider)

def validateCommonHeader (hdr : Option Header) : Outcome Unit (ChannelHeader × SignatureHeader) := do
  let hdr ← .orErr () hdr
  let chdr ← .orErr () (unmarshalChannelHeader codec hdr.channelHeader)
  let shdr ← .orErr () (codec.signatureHeader.unmarshal hdr.signatureHeader)
  require (validateChannelHeader chdr) ()
  require (validateSignatureHeader shdr) ()
  return (chdr, shdr)

def validateConfigTransaction (payload : Payload) : Outcome TxValidationCode Unit :=
  .require (payload.data.isSome && payload.header.isSome) .invalidConfigTransaction

def validateEndorserTransaction (payload : Payload) : Outcome Unit Unit := do
  let data ← .orErr () payload.data
  let hdr ← .orErr () payload.header
  let tx ← .orErr () (codec.transaction.unmarshal data)
  let act ← .orErr () (theOnlyAction tx)
  let sHdr ← .orErr () (codec.signatureHeader.unmarshal act.header)
  require (validateSignatureHeader sHdr) ()
  let ccActionPayload ← .orErr () (codec.chaincodeActionPayload.unmarshal act.payload)
  let action ← .deref ccActionPayload.action
  let prp ← .orErr () (codec.vanillaResponsePayload.unmarshal action.proposalResponsePayload)
  let pHash ← .orErr () (crypto.getProposalHash2 hdr.channelHeader act.header ccActionPayload.chaincodeProposalPayload)
  require (pHash = prp.proposalHash) ()

def validateTransactionByType (chdr : ChannelHeader) (shdr : SignatureHeader) (payload : Payload) :
    Outcome TxValidationCode Unit :=
  match chdr.type with
  | .endorserTransaction => do
      require (chdr.txId = crypto.computeTxID shdr.nonce shdr.creator) .badProposalTxid
      (validateEndorserTransaction codec crypto payload).mapErr fun _ => .invalidEndorserTransaction
  | .config => validateConfigTransaction payload
  | _ => .err .unsupportedTxPayload

def validateTransaction (env : Envelope) : Outcome TxValidationCode Payload := do
  let payload ← .orErr .badPayload (unmarshalPayload codec env.payload)
  let (chdr, shdr) ← (validateCommonHeader codec payload.header).mapErr fun _ => .badCommonHeader
  require (crypto.checkSignatureFromCreator shdr.creator env.signature env.payload chdr.channelId)
    .badCreatorSignature
  validateTransactionByType codec crypto chdr shdr payload
  return payload

def validateLtxCommonHeader (env : Envelope) : Outcome Unit (Option ChannelHeader × Option SignatureHeader) :=
  if env.type = .endorserTransaction then do
    let leanEnv ← .deref env.leanEnv
    match leanEnv.envMeta with
    | none => return (none, none)
    | some envMeta => do
        let shdr ← .orErr () envMeta.signatureHeader
        require (validateSignatureHeader shdr) ()
        return (none, some shdr)
  else do
    let payload ← .orErr () (unmarshalPayload codec env.payload)
    let hdr ← .orErr () payload.header
    let chdr ← .orErr () (unmarshalChannelHeader codec hdr.channelHeader)
    require (validateChannelHeader chdr) ()
    let shdr ← .orErr () (codec.signatureHeader.unmarshal hdr.signatureHeader)
    require (validateSignatureHeader shdr) ()
    return (some chdr, some shdr)

/-- The proposal hash is checked only where the envelope still has its payload. -/
def validateLtxPayload (env : Envelope) : Outcome TxValidationCode Unit :=
  match env.payload with
  | none => .ok ()
  | some _ => do
      let payload ← .orErr .invalidEndorserTransaction (unmarshalPayload codec env.payload)
      (validateEndorserTransaction codec crypto payload).mapErr fun _ => .invalidEndorserTransaction

/-- `ValidateLtxTransaction`: the check of the creator's signature is commented out. -/
def validateLtxTransaction (env : Envelope) : Outcome TxValidationCode Unit := do
  let (chdr, shdr) ← (validateLtxCommonHeader codec env).mapErr fun _ => .badCommonHeader
  match (chdr.map ChannelHeader.type).getD env.type with
  | .endorserTransaction => do
      let leanEnv ← .deref env.leanEnv
      let shdr ← .deref shdr
      require (leanEnv.txId = crypto.computeTxID shdr.nonce shdr.creator) .badProposalTxid
      validateLtxPayload codec crypto env
  | .config => do
      let payload ← .orErr .invalidConfigTransaction (unmarshalPayload codec env.payload)
      validateConfigTransaction payload
  | _ => .err .unsupportedTxPayload

end

section

variable {codec : Codec} {crypto : CryptoProvider} {env : Envelope}

structure LtxTransactionValid (codec : Codec) (crypto : CryptoProvider) (env : Envelope) (leanEnv : LeanEnvelope)
    (envMeta : EnvMeta) (shdr : SignatureHeader) : Prop where
  lean : env.leanEnv = some leanEnv
  carried : leanEnv.envMeta = some envMeta
  signatureHeader : envMeta.signatureHeader = some shdr
  wellFormed : validateSignatureHeader shdr = true
  txId : leanEnv.txId = crypto.computeTxID shdr.nonce shdr.creator
  payload : validateLtxPayload codec crypto env = .ok ()

theorem validateLtxTransaction_eq_ok_iff (ht : env.type = .endorserTransaction) :
    validateLtxTransaction codec crypto env = .ok () ↔
      ∃ leanEnv envMeta shdr, LtxTransactionValid codec crypto env leanEnv envMeta shdr := by
  constructor
  · intro h
    simp only [validateLtxTransaction, validateLtxCommonHeader, if_pos ht, bind_eq_ok, mapErr_eq_ok, deref_eq_ok] at h
    obtain ⟨⟨chdr, shdr⟩, ⟨leanEnv, hln, hh⟩, h⟩ := h
    cases hm : leanEnv.envMeta with
    | none =>
      -- without `Meta` there is no signature header, and the check of the id panics
      simp only [hm, pure_eq, ok.injEq, Prod.mk.injEq] at hh
      obtain ⟨rfl, rfl⟩ := hh
      simp [ht, hln, deref] at h
    | some envMeta =>
      simp only [hm, bind_eq_ok, orErr_eq_ok, require_eq_ok, pure_eq, ok.injEq, Prod.mk.injEq] at hh
      obtain ⟨s, hs, _, hwf, rfl, rfl⟩ := hh
      simp only [Option.map_none, Option.getD_none, ht, bind_eq_ok, deref_eq_ok, hln,
        require_eq_ok, decide_eq_true_eq] at h
      obtain ⟨_, hl, _, hs', _, htx, hp⟩ := h
      cases hl
      cases hs'
      exact ⟨leanEnv, envMeta, s, hln, hm, hs, hwf, htx, hp⟩
  · rintro ⟨leanEnv, envMeta, shdr, h⟩
    simp [validateLtxTransaction, validateLtxCommonHeader, ht, h.lean, h.carried, h.signatureHeader,
      h.wellFormed, h.txId, h.payload, deref, orErr, require, mapErr]

theorem validateTransaction_eq_ok {payload : Payload} (h : validateTransaction codec crypto env = .ok payload) :
    unmarshalPayload codec env.payload = some payload ∧
      ∃ hdr chdr shdr, payload.header = some hdr ∧ unmarshalChannelHeader codec hdr.channelHeader = some chdr ∧
        codec.signatureHeader.unmarshal hdr.signatureHeader = some shdr ∧
        (chdr.type = .endorserTransaction ∧ validateEndorserTransaction codec crypto payload = .ok () ∨
          chdr.type = .config) := by
  simp only [validateTransaction, validateCommonHeader, bind_eq_ok, mapErr_eq_ok, orErr_eq_ok,
    require_eq_ok, pure_eq, ok.injEq] at h
  obtain ⟨p, hp, ⟨c, s⟩, ⟨hdr, hh, chdr, hc, shdr, hs, _, _, _, _, hpr⟩, _, _, _, hb, rfl⟩ := h
  obtain ⟨rfl, rfl⟩ := Prod.mk.injEq .. ▸ hpr
  refine ⟨hp, hdr, chdr, shdr, hh, hc, hs, ?_⟩
  unfold validateTransactionByType at hb
  split at hb
  · rename_i ht
    simp only [bind_eq_ok, mapErr_eq_ok] at hb
    obtain ⟨_, _, hb⟩ := hb
    exact .inl ⟨ht, hb⟩
  · exact .inr ‹_›
  · cases hb

end

end Drunix.Peer
