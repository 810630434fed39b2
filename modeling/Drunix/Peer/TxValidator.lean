import Drunix.Peer.Dispatcher

namespace Drunix.Peer

open Lib Proto Outcome

/-- What a validator knows of its channel: which channels exist, whether a config applies, and the
lookup of transaction ids in the ledger, which may fail. -/
structure ChannelResources where
  chainExists : Bytes → Bool
  apply : Bytes → Bool
  txIDExists : Bytes → Option Bool

def ChannelResources.checkTxIdDupsLedger (cr : ChannelResources) (txID : Bytes) : Outcome TxFailure Unit :=
  match cr.txIDExists txID with
  | none => .err .halt
  | some true => .err (.invalid .duplicateTxid)
  | some false => .ok ()

def ChannelResources.applyConfig (cr : ChannelResources) (payload : Payload) : Outcome TxFailure Bytes := do
  require (cr.apply (payload.data.getD [])) .halt
  return []

section

variable (codec : Codec) (crypto : CryptoProvider) (cr : ChannelResources) (lcr : LifecycleResources)

/-- `GetChannelAndSignatureHeader`, for the payload and the channel header: a lite endorser envelope has
neither. -/
def getChannelHeader (env : Envelope) : Outcome TxFailure (Option (Payload × ChannelHeader)) :=
  if env.type = .endorserTransaction then .ok none
  else do
    let payload ← .orErr (.invalid .invalidOtherReason) (unmarshalPayload codec env.payload)
    let header ← .orErr (.invalid .invalidOtherReason) payload.header
    let chdr ← .orErr (.invalid .invalidOtherReason) (unmarshalChannelHeader codec header.channelHeader)
    let _ ← .orErr (.invalid .invalidOtherReason) (codec.signatureHeader.unmarshal header.signatureHeader)
    return some (payload, chdr)

section

variable (order : MapOrder) (plugin : Bytes → Bytes → Envelope → Outcome TxValidationError Unit)

/-- `validateTx`, for an order in which the namespaces are visited; a valid transaction comes with the id it is
entered under. The service leaves out the search for duplicates. -/
def validateTxIn (checkDups : Bytes → Outcome TxFailure Unit) (env : Envelope) : Outcome TxFailure Bytes := do
  let payload ← (validateTransaction codec crypto env).mapErr .invalid
  let header ← .deref payload.header
  let chdr ← .orErr (.invalid .invalidOtherReason) (unmarshalChannelHeader codec header.channelHeader)
  require (cr.chainExists chdr.channelId) (.invalid .targetChainNotFound)
  match chdr.type with
  | .endorserTransaction => do
      checkDups chdr.txId
      dispatchIn codec lcr order plugin payload env
      return chdr.txId
  | .config => cr.applyConfig payload
  | _ => .err (.invalid .unknownTxType)

def dispatchLeanEnv (env : Envelope) : Outcome TxFailure Bytes := do
  let leanEnv ← .deref env.leanEnv
  dispatchLtxIn codec lcr order plugin env
  return leanEnv.txId

def validateLtxTxnIn (env : Envelope) : Outcome TxFailure Bytes := do
  (validateLtxTransaction codec crypto env).mapErr .invalid
  match ← getChannelHeader codec env with
  | none => do
      let leanEnv ← .deref env.leanEnv
      require (cr.chainExists leanEnv.channelId) (.invalid .targetChainNotFound)
      dispatchLeanEnv codec lcr order plugin env
  | some (payload, chdr) => do
      require (cr.chainExists chdr.channelId) (.invalid .targetChainNotFound)
      match chdr.type with
      | .endorserTransaction => dispatchLeanEnv codec lcr order plugin env
      | .config => cr.applyConfig payload
      | _ => .err (.invalid .unknownTxType)

end

variable (policies : Policies) (check : WriteCheck)

def validateTx (checkDups : Bytes → Outcome TxFailure Unit) (env : Envelope) : Outcome TxFailure Bytes :=
  validateTxIn codec crypto cr lcr .listed (pluginValidate codec policies check) checkDups env

def validateLtxTxn (env : Envelope) : Outcome TxFailure Bytes :=
  validateLtxTxnIn codec crypto cr lcr .listed (pluginValidateLtx codec policies check) env

end

inductive Handling where
  | result (r : Outcome TxFailure Bytes)
  | toService
  deriving DecidableEq

def Handling.ofDupCheck : Outcome TxFailure Unit → Handling
  | .ok _ => .toService
  | .err e => .result (.err e)
  | .panic => .result .panic

def Handling.resolve (service : Outcome TxFailure Bytes) : Handling → Outcome TxFailure Bytes
  | .result r => r
  | .toService => do
      let _ ← service
      return []

def handleLtx (cr : ChannelResources) (peer : Envelope → Outcome TxFailure Bytes) (env : Envelope) : Handling :=
  if env.type = .endorserTransaction then
    match env.leanEnv with
    | none => .result .panic
    | some leanEnv => .ofDupCheck (cr.checkTxIdDupsLedger leanEnv.txId)
  else .result (peer env)

def readChannelHeader (codec : Codec) (env : Envelope) : Outcome TxFailure ChannelHeader := do
  let payload ← .orErr (.invalid .invalidOtherReason) (unmarshalPayload codec env.payload)
  let header ← .deref payload.header
  .orErr (.invalid .invalidOtherReason) (unmarshalChannelHeader codec header.channelHeader)

/-- How `Validate` routes an envelope without the lean format: by the type in its channel header. -/
def handleVanilla (codec : Codec) (cr : ChannelResources) (peer : Envelope → Outcome TxFailure Bytes)
    (env : Envelope) : Handling :=
  match readChannelHeader codec env with
  | .ok chdr =>
    if chdr.type = .endorserTransaction then .ofDupCheck (cr.checkTxIdDupsLedger chdr.txId) else .result (peer env)
  | .err e => .result (.err e)
  | .panic => .result .panic

section

variable {codec : Codec} {crypto : CryptoProvider} {cr : ChannelResources} {lcr : LifecycleResources}
  {policies : Policies} {check : WriteCheck} {env : Envelope} {leanEnv : LeanEnvelope} {envMeta : EnvMeta}

def ltxSignedData (codec : Codec) (leanEnv : LeanEnvelope) (envMeta : EnvMeta) :
    Outcome TxValidationError (List SignedData) :=
  envMeta.endorsements.mapM
    (endorsementAsSignedDataForLightEnv codec (codec.responsePayload.marshal (liteResponsePayload leanEnv envMeta)))

def ltxNamespaces (ccID : Bytes) (results : TxReadWriteSet) : Outcome TxFailure (List Bytes) :=
  wrNamespaces ccID (results.nsRwset.map fun ns => (ns.nameSpace, txWritesToNamespaceLtx ns))

structure LtxAccepted (codec : Codec) (crypto : CryptoProvider) (cr : ChannelResources) (lcr : LifecycleResources)
    (policies : Policies) (check : WriteCheck) (env : Envelope) (leanEnv : LeanEnvelope) (envMeta : EnvMeta)
    (shdr : SignatureHeader) (ccID : ChaincodeID) (results : TxReadWriteSet) (sd : List SignedData)
    (nss : List Bytes) : Prop extends LtxTransactionValid codec crypto env leanEnv envMeta shdr where
  chain : cr.chainExists leanEnv.channelId = true
  chaincode : envMeta.chaincodeID = some ccID
  event : eventMatches envMeta.events ccID.name = true
  identified : ccID.name ≠ [] ∧ ccID.version ≠ []
  written : leanEnv.results = some results
  namespaces : ltxNamespaces ccID.name results = .ok nss
  signed : ltxSignedData codec leanEnv envMeta = .ok sd
  endorsed : ∀ ns ∈ nss, ∃ policy, getCDataForCC lcr leanEnv.channelId ns = .ok policy ∧
    evaluate policies policy sd (check policy sd ns) (writesToLtx results.nsRwset ns) = .ok ()

theorem mem_wrNamespaces {ccID : Bytes} {nss : List (Bytes × Bool)} {out : List Bytes}
    (h : wrNamespaces ccID nss = .ok out) : ccID ∈ out := by
  unfold wrNamespaces at h
  split at h
  · cases h
    exact List.mem_cons_self
  · cases h

theorem checkNamespace_eq_ok {channelId ns : Bytes} {verdict : Bytes → Bytes → Outcome TxValidationError Unit} {u : Unit} :
    checkNamespace lcr channelId verdict ns = .ok u ↔
      ∃ policy, getCDataForCC lcr channelId ns = .ok policy ∧ verdict ns policy = .ok u := by
  simp only [checkNamespace, invokeValidationPlugin, bind_eq_ok, mapErr_eq_ok]

section

variable (htype : env.type = .endorserTransaction) (hl : env.leanEnv = some leanEnv)
  (hm : leanEnv.envMeta = some envMeta)
include htype hl hm

theorem pluginValidateLtx_eq (ns policy : Bytes) :
    pluginValidateLtx codec policies check ns policy env = (do
      let sd ← ltxSignedData codec leanEnv envMeta
      let rwset ← .deref leanEnv.results
      evaluate policies policy sd (check policy sd ns) (writesToLtx rwset.nsRwset ns)) := by
  simp only [pluginValidateLtx, extractValidationArtifactsLtx, hl, hm, if_pos htype, deref, ok_bind,
    orPolicyErr, pure_eq, mapErr, keyLevelValidateLtx]
  rfl

theorem dispatchLtx_eq_ok :
    dispatchLtx codec lcr policies check env = .ok () ↔
      ∃ ccID results nss, envMeta.chaincodeID = some ccID ∧ eventMatches envMeta.events ccID.name = true ∧
        (ccID.name ≠ [] ∧ ccID.version ≠ []) ∧ leanEnv.results = some results ∧
        ltxNamespaces ccID.name results = .ok nss ∧
        ∀ ns ∈ nss, ∃ policy, getCDataForCC lcr leanEnv.channelId ns = .ok policy ∧
          pluginValidateLtx codec policies check ns policy env = .ok () := by
  simp only [dispatchLtx, dispatchLtxIn, dispatchNamespacesLtx, ltxTarget, ltxChaincode, if_pos htype, hl, hm, deref,
    ok_bind]
  cases envMeta.chaincodeID with
  | none => simp
  | some ccID =>
    simp only [ok_bind, pure_eq, bind_eq_ok, mapErr_eq_ok, require_eq_ok, forM_eq_ok, checkNamespace_eq_ok,
      ltxNamespaces, Bool.and_eq_true, decide_eq_true_eq]
    constructor
    · rintro ⟨_, ⟨target, ⟨_, he, ht⟩, _, hid, results, hr, nss, hn, hnss⟩, ha⟩
      cases ht
      cases hnss
      exact ⟨ccID, results, nss, rfl, he, hid, deref_eq_ok.mp hr, hn, ha⟩
    · rintro ⟨ccID', results, nss, hcc, he, hid, hr, hn, ha⟩
      cases hcc
      exact ⟨_, ⟨_, ⟨(), he, rfl⟩, (), hid, results, deref_eq_ok.mpr hr, nss, hn, rfl⟩, ha⟩

end

/-- The service finds a lite endorser envelope valid just when all of this has been checked. -/
theorem validateLtxTxn_eq_ok_iff (htype : env.type = .endorserTransaction) {txID : Bytes} :
    validateLtxTxn codec crypto cr lcr policies check env = .ok txID ↔
      ∃ leanEnv envMeta shdr ccID results sd nss, leanEnv.txId = txID ∧
        LtxAccepted codec crypto cr lcr policies check env leanEnv envMeta shdr ccID results sd nss := by
  constructor
  · intro h
    simp only [validateLtxTxn, validateLtxTxnIn, getChannelHeader, if_pos htype, dispatchLeanEnv, ok_bind, bind_eq_ok,
      mapErr_eq_ok, deref_eq_ok, require_eq_ok, pure_eq, ok.injEq] at h
    obtain ⟨_, hlt, _, hl, _, hc, leanEnv, hl', _, hd, rfl⟩ := h
    obtain ⟨leanEnv', envMeta, shdr, hvl⟩ := (validateLtxTransaction_eq_ok_iff htype).mp hlt
    rw [hl'] at hl
    cases hl
    have hln := hvl.lean
    rw [hl'] at hln
    cases hln
    obtain ⟨ccID, results, nss, hcc, he, hid, hr, hn, ha⟩ :=
      (dispatchLtx_eq_ok htype hl' hvl.carried).mp hd
    simp only [pluginValidateLtx_eq htype hl' hvl.carried, hr, deref, bind_eq_ok, ok.injEq] at ha
    -- the invoked chaincode is always among the namespaces, so the signatures have been read
    obtain ⟨_, _, sd, hsd, _⟩ := ha ccID.name (mem_wrNamespaces hn)
    refine ⟨_, envMeta, shdr, ccID, results, sd, nss, rfl, hvl, hc, hcc, he, hid, hr, hn, hsd, ?_⟩
    intro ns hns
    obtain ⟨policy, hp, sd', hsd', rwset, hrw, hev⟩ := ha ns hns
    rw [hsd] at hsd'
    cases hsd'
    cases hrw
    exact ⟨policy, hp, hev⟩
  · rintro ⟨leanEnv, envMeta, shdr, ccID, results, sd, nss, rfl, h⟩
    have hlt := (validateLtxTransaction_eq_ok_iff htype).mpr ⟨leanEnv, envMeta, shdr, h.toLtxTransactionValid⟩
    have hd : dispatchLtx codec lcr policies check env = .ok () := by
      refine (dispatchLtx_eq_ok htype h.lean h.carried).mpr
        ⟨ccID, results, nss, h.chaincode, h.event, h.identified, h.written, h.namespaces, ?_⟩
      intro ns hns
      obtain ⟨policy, hp, hev⟩ := h.endorsed ns hns
      refine ⟨policy, hp, ?_⟩
      rw [pluginValidateLtx_eq htype h.lean h.carried, h.signed, h.written]
      exact hev
    rw [dispatchLtx] at hd
    simp only [validateLtxTxn, validateLtxTxnIn, getChannelHeader, if_pos htype, dispatchLeanEnv, hlt, h.lean, h.chain, hd,
      mapErr, deref, require, ok_bind, if_pos]
    rfl

end

end Drunix.Peer
