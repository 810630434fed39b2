import Drunix.Peer.CommitSet
import Drunix.Peer.DispatchOrder
import Drunix.Peer.PreValidation

namespace Drunix.Peer

open Lib Proto Outcome

namespace Validators

variable (v : Validators) (codec : Codec) (lean : Bool) (order : MapOrder)

section

variable (number : UInt64) (block : List Bytes) (klv : KeyLevelValidator)

/-- The plugin of the peer first decodes the transactions of the block up to its own. -/
def peerPlugin (ns policy : Bytes) (env : Envelope) : Outcome TxValidationError Unit := do
  let _ ← (klv.preValidate codec number block v.txNum).mapErr fun _ => .executionFailure
  pluginValidate codec v.peerPolicies (baseCheck v.peerPolicies v.vpmgr v.txNum) ns policy env

def peerValidateTx (env : Envelope) : Outcome TxFailure Bytes :=
  validateTxIn codec v.crypto v.peer v.peerLcr order (v.peerPlugin codec number block klv) v.peer.checkTxIdDupsLedger env

/-- The service makes no search for duplicates: the peer has made it. -/
def serviceValidateTx (env : Envelope) : Outcome TxFailure Bytes :=
  validateTxIn codec v.crypto v.service v.serviceLcr order
    (pluginValidate codec v.servicePolicies (adapterCheck v.servicePolicies)) (fun _ => .ok ()) env

def serviceValidateLtxTxn (env : Envelope) : Outcome TxFailure Bytes :=
  validateLtxTxnIn codec v.crypto v.service v.serviceLcr order
    (pluginValidateLtx codec v.servicePolicies (adapterCheck v.servicePolicies)) env

def envelopeVerdict (env : Envelope) : Outcome TxFailure Bytes :=
  let peer := v.peerValidateTx codec order number block klv
  if lean then (handleLtx v.peer peer env).resolve (v.serviceValidateLtxTxn codec order env)
  else (handleVanilla codec v.peer peer env).resolve (v.serviceValidateTx codec order env)

/-- What peer and service together make of the bytes of a transaction, where the format is lean or not. -/
def verdict (data : Bytes) : Outcome TxFailure Bytes :=
  match getEnvelopeFromBlock codec data with
  | none => .err (.invalid .invalidOtherReason)
  | some env => v.envelopeVerdict codec lean order number block klv env

end

def forTx (tIdx : Nat) : Validators :=
  { v with txNum := UInt64.ofNat tIdx }

structure Working : Prop where
  txIDExists : ∀ txID, v.peer.txIDExists txID ≠ none
  peerLcr : ∀ channelId cc, v.peerLcr channelId cc ≠ .panic
  serviceLcr : ∀ channelId cc, v.serviceLcr channelId cc ≠ .panic
  servicePolicies : ∀ cc coll, v.servicePolicies.collectionValidationInfo cc coll ≠ .panic

end Validators

section

variable (codec : Codec)

def WellFormedLtx (env : Envelope) : Prop :=
  ∃ leanEnv envMeta ccID shdr results, env.leanEnv = some leanEnv ∧ leanEnv.envMeta = some envMeta ∧
    envMeta.chaincodeID = some ccID ∧ envMeta.signatureHeader = some shdr ∧ leanEnv.results = some results ∧
    (env.payload = none ∨ ∃ payload, unmarshalPayload codec env.payload = some payload)

def HasAction (payload : Payload) : Prop :=
  ∃ data tx act cap action, payload.data = some data ∧ codec.transaction.unmarshal data = some tx ∧
    theOnlyAction tx = some act ∧ codec.chaincodeActionPayload.unmarshal act.payload = some cap ∧
    cap.action = some action

def WellFormedVanilla (env : Envelope) : Prop :=
  ∃ payload hdr chdr shdr, unmarshalPayload codec env.payload = some payload ∧ payload.header = some hdr ∧
    unmarshalChannelHeader codec hdr.channelHeader = some chdr ∧
    codec.signatureHeader.unmarshal hdr.signatureHeader = some shdr ∧
    (chdr.type = .endorserTransaction → HasAction codec payload)

/-- Nothing that validation needs is missing or undecodable in the bytes of a transaction. -/
def WellFormed (lean : Bool) (data : Bytes) : Prop :=
  ∃ env, getEnvelopeFromBlock codec data = some env ∧
    if lean = true ∧ env.type = .endorserTransaction then WellFormedLtx codec env else WellFormedVanilla codec env

/-- The only action of the transaction in a payload has no `Action`. -/
def NilAction (payload : Payload) : Prop :=
  ∃ data tx act cap, payload.data = some data ∧ codec.transaction.unmarshal data = some tx ∧ theOnlyAction tx = some act ∧
    codec.chaincodeActionPayload.unmarshal act.payload = some cap ∧ cap.action = none

/-- A lite envelope has the messages that its validation follows without a check. -/
def CompleteLtx (env : Envelope) : Prop :=
  ∃ leanEnv envMeta ccID results, env.leanEnv = some leanEnv ∧ leanEnv.envMeta = some envMeta ∧
    envMeta.chaincodeID = some ccID ∧ leanEnv.results = some results ∧
    (∀ ns, none ∉ writesToLtx results.nsRwset ns) ∧
    (env.payload ≠ none → ∀ payload, unmarshalPayload codec env.payload = some payload → ¬ NilAction codec payload)

/-- In the lean format, a lite envelope is complete and no other envelope carries an endorser transaction; else a payload
has a header, and its action an `Action`. -/
def Complete (lean : Bool) (env : Envelope) : Prop :=
  if lean then
    if env.type = .endorserTransaction then CompleteLtx codec env
    else ∀ chdr, readChannelHeader codec env = .ok chdr → chdr.type ≠ .endorserTransaction
  else ∀ payload, unmarshalPayload codec env.payload = some payload → payload.header ≠ none ∧ ¬ NilAction codec payload

end

section

variable {codec : Codec} {crypto : CryptoProvider} {cr : ChannelResources} {lcr : LifecycleResources}
  {policies : Policies} {check : WriteCheck} {env : Envelope} {payload : Payload}
  {verdict : Bytes → Bytes → Outcome TxValidationError Unit} {channelId ns : Bytes} {hdr : Header}
  {checkDups : Bytes → Outcome TxFailure Unit} {plugin : Bytes → Bytes → Envelope → Outcome TxValidationError Unit}

/-! ### Transactions in a payload -/

theorem nilAction_of_validateEndorserTransaction (h : validateEndorserTransaction codec crypto payload = .panic) :
    NilAction codec payload := by
  simp only [validateEndorserTransaction, bind_eq_panic, orErr_eq_ok, orErr_ne_panic,
    require_eq_ok, require_ne_panic, deref_eq_panic, deref_eq_ok, false_or, and_false,
    exists_false, or_false] at h
  obtain ⟨data, hd, hdr, hh, tx, htx, act, ha, sHdr, hsh, _, hwf, cap, hc, hn⟩ := h
  exact ⟨data, tx, act, cap, hd, htx, ha, hc, hn⟩

theorem hasAction_of_validateEndorserTransaction {u : Unit}
    (h : validateEndorserTransaction codec crypto payload = .ok u) : HasAction codec payload := by
  simp only [validateEndorserTransaction, bind_eq_ok, orErr_eq_ok, deref_eq_ok] at h
  obtain ⟨data, hd, _, _, tx, htx, act, hac, _, _, _, _, cap, hc, action, ha, _⟩ := h
  exact ⟨data, tx, act, cap, action, hd, htx, hac, hc, ha⟩

theorem validateCommonHeader_ne_panic (hdr : Option Header) : validateCommonHeader codec hdr ≠ .panic := by
  simp [validateCommonHeader, bind_eq_panic]

theorem exists_of_validateTransaction_eq_panic (h : validateTransaction codec crypto env = .panic) :
    ∃ payload chdr, unmarshalPayload codec env.payload = some payload ∧ readChannelHeader codec env = .ok chdr ∧
      chdr.type = .endorserTransaction ∧ NilAction codec payload := by
  simp only [validateTransaction, bind_eq_panic, orErr_eq_ok, orErr_ne_panic,
    mapErr_eq_panic, mapErr_eq_ok, validateCommonHeader_ne_panic, require_ne_panic,
    require_eq_ok, pure_eq, reduceCtorEq, false_or, and_false, exists_false, or_false] at h
  obtain ⟨payload, hp, ⟨chdr, shdr⟩, hh, _, hsg, hb⟩ := h
  simp only [validateCommonHeader, bind_eq_ok, orErr_eq_ok, pure_eq, ok.injEq, Prod.mk.injEq] at hh
  obtain ⟨hdr, hhd, chdr', hc, _, _, _, _, _, _, rfl, rfl⟩ := hh
  have hrd : readChannelHeader codec env = .ok chdr' := by simp [readChannelHeader, hp, hhd, hc, orErr, deref]
  unfold validateTransactionByType at hb
  split at hb
  · rename_i htype
    simp only [bind_eq_panic, require_ne_panic, require_eq_ok, mapErr_eq_panic, false_or] at hb
    obtain ⟨_, -, hnil⟩ := hb
    exact ⟨payload, chdr', hp, hrd, htype, nilAction_of_validateEndorserTransaction hnil⟩
  · exact absurd hb (by simp [validateConfigTransaction])
  · cases hb

theorem wellFormedVanilla_of_validateTransaction (h : validateTransaction codec crypto env = .ok payload) :
    WellFormedVanilla codec env := by
  obtain ⟨hp, hdr, chdr, shdr, hh, hc, hs, ⟨_, hb⟩ | ht⟩ := validateTransaction_eq_ok h
  · exact ⟨payload, hdr, chdr, shdr, hp, hh, hc, hs, fun _ => hasAction_of_validateEndorserTransaction hb⟩
  · exact ⟨payload, hdr, chdr, shdr, hp, hh, hc, hs, fun he => by cases ht.symm.trans he⟩

/-! ### The plugins -/

theorem getCDataForCC_ne_panic (hlcr : ∀ channelId cc, lcr channelId cc ≠ .panic) (channelId ns : Bytes) :
    getCDataForCC lcr channelId ns ≠ .panic := by
  unfold getCDataForCC
  split
  · split_ifs <;> simp
  · simp
  · simp
  · exact absurd ‹_› (hlcr channelId ns)

theorem checkNamespace_eq_panic (hlcr : ∀ channelId cc, lcr channelId cc ≠ .panic) :
    checkNamespace lcr channelId verdict ns = .panic ↔
      ∃ policy, getCDataForCC lcr channelId ns = .ok policy ∧ verdict ns policy = .panic := by
  simp only [checkNamespace, invokeValidationPlugin, bind_eq_panic, mapErr_eq_panic, mapErr_eq_ok, getCDataForCC_ne_panic hlcr, false_or]

theorem ccVerdict_ne_panic (hpol : ∀ cc coll, policies.collectionValidationInfo cc coll ≠ .panic) {policy cc coll : Bytes}
    {sd : List SignedData} : ccVerdict policies policy sd cc coll ≠ .panic := by
  unfold ccVerdict
  split_ifs
  · exact require_ne_panic _ _
  · exact bind_ne_panic (hpol cc coll) fun _ _ => require_ne_panic _ _

def CalmCheck (policies : Policies) (check : WriteCheck) : Prop :=
  ∀ policy sd cc writes, (∀ w ∈ writes, w ≠ none) → evaluate policies policy sd (check policy sd cc) writes ≠ .panic

theorem calmCheck_adapter (hpol : ∀ cc coll, policies.collectionValidationInfo cc coll ≠ .panic) :
    CalmCheck policies (adapterCheck policies) := by
  intro policy sd cc writes hw
  rw [evaluate_adapter]
  split_ifs
  · exact require_ne_panic _ _
  · intro h
    obtain ⟨w, hmm, hpn⟩ := exists_of_forM_eq_panic h
    cases w with
    | none => exact hw none hmm rfl
    | some w => exact ccVerdict_ne_panic hpol hpn

theorem endorsedAction_ne_panic (hp : unmarshalPayload codec env.payload = some payload)
    (hh : payload.header = some hdr) (ha : HasAction codec payload) : endorsedAction codec env ≠ .panic := by
  obtain ⟨data, tx, act, cap, action, hd, htx, hact, hc, hac⟩ := ha
  have hacti : tx.actions = [act] := by
    unfold theOnlyAction at hact
    split at hact
    · cases hact
      assumption
    · cases hact
  simp [endorsedAction, bind_eq_panic, hp, hh, hd, htx, hacti, hc, hac]

theorem pluginValidate_ne_panic (hcheck : CalmCheck policies check)
    (hp : unmarshalPayload codec env.payload = some payload) (hh : payload.header = some hdr)
    (ha : HasAction codec payload) (ns policy : Bytes) :
    pluginValidate codec policies check ns policy env ≠ .panic := by
  refine bind_ne_panic ?_ fun va _ => ?_
  · rw [orPolicyErr, Ne, mapErr_eq_panic]
    refine bind_ne_panic (endorsedAction_ne_panic hp hh ha) fun action _ => ?_
    simp [bind_eq_panic]
  · refine bind_ne_panic (orErr_ne_panic _ _) fun rwset _ => hcheck _ _ _ _ ?_
    rintro w hw rfl
    simp [writesTo] at hw

/-! ### Validation of a payload by the peer, or by the service without the lean format -/

theorem wrNamespaces_ne_panic (ccID : Bytes) (nss : List (Bytes × Bool)) : wrNamespaces ccID nss ≠ .panic := by
  unfold wrNamespaces
  split_ifs <;> simp

theorem forM_checkNamespace_ne_panic (hlcr : ∀ channelId cc, lcr channelId cc ≠ .panic)
    (hplugin : ∀ ns policy, plugin ns policy env ≠ .panic) (nss : List Bytes) :
    (nss.forM (checkNamespace lcr channelId fun ns policy => plugin ns policy env)).mapErr NsFailure.failure ≠ .panic := by
  rw [Ne, mapErr_eq_panic]
  intro hpn
  obtain ⟨ns, _, hns⟩ := exists_of_forM_eq_panic hpn
  obtain ⟨policy, _, hvr⟩ := (checkNamespace_eq_panic hlcr).mp hns
  exact hplugin ns policy hvr

theorem dispatchNamespaces_ne_panic (hh : payload.header = some hdr) : dispatchNamespaces codec payload env ≠ .panic := by
  have hg : getActionFromEnvelopeMsg codec env ≠ .panic := by
    simp [getActionFromEnvelopeMsg, bind_eq_panic]
  have he : ∀ resp ccID, checkCCEvent codec resp ccID ≠ .panic := by
    intro resp ccID
    unfold checkCCEvent
    split_ifs
    · simp
    · simp [bind_eq_panic]
  simp [dispatchNamespaces, bind_eq_panic, hh, hg, he, wrNamespaces_ne_panic]

/-- The plugin is called for an endorser transaction with an action only. -/
theorem validateTxIn_ne_panic (order : MapOrder) (hlcr : ∀ channelId cc, lcr channelId cc ≠ .panic)
    (hd : ∀ txID, checkDups txID ≠ .panic) (hvt : validateTransaction codec crypto env ≠ .panic)
    (hplugin : ∀ payload hdr chdr, unmarshalPayload codec env.payload = some payload → payload.header = some hdr →
      readChannelHeader codec env = .ok chdr → chdr.type = .endorserTransaction → HasAction codec payload →
      ∀ ns policy, plugin ns policy env ≠ .panic) :
    validateTxIn codec crypto cr lcr order plugin checkDups env ≠ .panic := by
  refine bind_ne_panic (by simpa using hvt) fun payload hpy => ?_
  rw [mapErr_eq_ok] at hpy
  obtain ⟨hp, hdr, chdr, _, hh, hc, -, htype⟩ := validateTransaction_eq_ok hpy
  rw [hh]
  refine bind_ne_panic (by simp) fun hdr' hh' => ?_
  cases deref_eq_ok.mp hh'
  rw [hc]
  refine bind_ne_panic (by simp) fun chdr' hc' => ?_
  cases orErr_eq_ok.mp hc'
  refine bind_ne_panic (by simp) fun _ _ => ?_
  rcases htype with ⟨htype, hvl⟩ | htype
  · rw [htype]
    have hrd : readChannelHeader codec env = .ok chdr := by simp [readChannelHeader, hp, hh, hc, orErr, deref]
    have hpl := hplugin payload hdr chdr hp hh hrd htype (hasAction_of_validateEndorserTransaction hvl)
    refine bind_ne_panic (hd _) fun _ _ => bind_ne_panic ?_ (by simp)
    exact bind_ne_panic (dispatchNamespaces_ne_panic hh) fun _ _ => forM_checkNamespace_ne_panic hlcr hpl _
  · rw [htype]
    simp [ChannelResources.applyConfig, bind_eq_panic]

theorem validateTxIn_of_malformed (order : MapOrder) (h : ¬ WellFormedVanilla codec env) :
    (∃ code, validateTxIn codec crypto cr lcr order plugin checkDups env = .err (.invalid code)) ∨
      validateTxIn codec crypto cr lcr order plugin checkDups env = .panic := by
  unfold validateTxIn
  cases hv : validateTransaction codec crypto env with
  | ok payload => exact absurd (wellFormedVanilla_of_validateTransaction hv) h
  | err code => exact .inl ⟨code, rfl⟩
  | panic => exact .inr rfl

/-! ### Validation of a lite envelope by the service -/

section

variable (htype : env.type = .endorserTransaction) {leanEnv : LeanEnvelope} (hl : env.leanEnv = some leanEnv)
  {envMeta : EnvMeta} (hm : leanEnv.envMeta = some envMeta)
include htype hl hm

theorem validateLtxTransaction_ne_panic
    (h : env.payload ≠ none → ∀ payload, unmarshalPayload codec env.payload = some payload → ¬ NilAction codec payload) :
    validateLtxTransaction codec crypto env ≠ .panic := by
  have hpl : validateLtxPayload codec crypto env ≠ .panic := by
    unfold validateLtxPayload
    split
    · simp
    · rename_i hsm
      refine bind_ne_panic (orErr_ne_panic _ _) fun payload hp => ?_
      rw [Ne, mapErr_eq_panic]
      exact fun hv => h (by simp [hsm]) payload (orErr_eq_ok.mp hp) (nilAction_of_validateEndorserTransaction hv)
  have hcm : validateLtxTransaction codec crypto env = (do
      let shdr ← .orErr .badCommonHeader envMeta.signatureHeader
      require (validateSignatureHeader shdr) .badCommonHeader
      require (leanEnv.txId = crypto.computeTxID shdr.nonce shdr.creator) .badProposalTxid
      validateLtxPayload codec crypto env) := by
    simp only [validateLtxTransaction, validateLtxCommonHeader, if_pos htype, hl, hm, deref, ok_bind]
    cases envMeta.signatureHeader with
    | none => rfl
    | some shdr =>
      cases hwf : validateSignatureHeader shdr with
      | false => simp [orErr, require, mapErr, hwf]
      | true => simp [orErr, require, mapErr, hwf, htype]
  rw [hcm]
  simp [bind_eq_panic, hpl]

theorem dispatchNamespacesLtx_ne_panic {ccID : ChaincodeID} {results : TxReadWriteSet}
    (hcc : envMeta.chaincodeID = some ccID) (hr : leanEnv.results = some results) :
    dispatchNamespacesLtx codec env ≠ .panic := by
  simp [dispatchNamespacesLtx, ltxTarget, ltxChaincode, if_pos htype, hl, hm, hcc, hr, deref, bind_eq_panic,
    wrNamespaces_ne_panic]

end

theorem ltxSignedData_ne_panic (leanEnv : LeanEnvelope) (envMeta : EnvMeta) : ltxSignedData codec leanEnv envMeta ≠ .panic := by
  refine mapM_ne_panic fun endorsement _ => ?_
  simp [endorsementAsSignedDataForLightEnv, bind_eq_panic]

end

section

variable {v : Validators} {codec : Codec} {env : Envelope} {cr : ChannelResources} {txID : Bytes}
  {service : Outcome TxFailure Bytes} (order : MapOrder)

theorem serviceValidateLtxTxn_ne_panic (hv : v.Working) (htype : env.type = .endorserTransaction) (h : CompleteLtx codec env) :
    v.serviceValidateLtxTxn codec order env ≠ .panic := by
  obtain ⟨leanEnv, envMeta, ccID, results, hl, hm, hcc, hr, hnil, hact⟩ := h
  refine bind_ne_panic ?_ fun _ _ => ?_
  · rw [Ne, mapErr_eq_panic]
    exact validateLtxTransaction_ne_panic htype hl hm hact
  rw [getChannelHeader, if_pos htype, ok_bind, hl]
  refine bind_ne_panic (by simp) fun _ _ => bind_ne_panic (by simp) fun _ _ => ?_
  rw [dispatchLeanEnv, hl]
  refine bind_ne_panic (by simp) fun _ _ => bind_ne_panic ?_ (by simp)
  refine bind_ne_panic (dispatchNamespacesLtx_ne_panic htype hl hm hcc hr) fun target _ => ?_
  refine forM_checkNamespace_ne_panic hv.serviceLcr (fun ns policy => ?_) _
  rw [pluginValidateLtx_eq htype hl hm, hr]
  refine bind_ne_panic (ltxSignedData_ne_panic leanEnv envMeta) fun sd _ => ?_
  exact calmCheck_adapter hv.servicePolicies policy sd ns _ fun w hw hn => hnil ns (hn ▸ hw)

def RefusedOrCrashed {α : Type} (r : Outcome TxFailure α) : Prop :=
  (∃ code, r = .err (.invalid code)) ∨ r = .panic

theorem serviceValidateLtxTxn_of_malformed (htype : env.type = .endorserTransaction) (hc : CompleteLtx codec env)
    (h : ¬ WellFormedLtx codec env) : RefusedOrCrashed (v.serviceValidateLtxTxn codec order env) := by
  unfold Validators.serviceValidateLtxTxn validateLtxTxnIn
  cases hv : validateLtxTransaction codec v.crypto env with
  | err code => exact .inl ⟨code, rfl⟩
  | panic => exact .inr rfl
  | ok u =>
    obtain ⟨leanEnv, envMeta, shdr, valid⟩ := (validateLtxTransaction_eq_ok_iff htype).mp hv
    obtain ⟨leanEnv', envMeta', ccID, results, hl, hm, hcc, hr, -⟩ := hc
    cases hl.symm.trans valid.lean
    cases hm.symm.trans valid.carried
    refine absurd ⟨leanEnv, envMeta, ccID, shdr, results, hl, hm, hcc, valid.signatureHeader, hr, ?_⟩ h
    have hpy := valid.payload
    unfold validateLtxPayload at hpy
    split at hpy
    · exact .inl ‹_›
    · obtain ⟨payload, hp, _⟩ := bind_eq_ok.mp hpy
      exact .inr ⟨payload, orErr_eq_ok.mp hp⟩

/-! ### Peer and service together -/

theorem resolve_dupCheck_ne_panic (h : service ≠ .panic) :
    (Handling.ofDupCheck (cr.checkTxIdDupsLedger txID)).resolve service ≠ .panic := by
  rw [ChannelResources.checkTxIdDupsLedger]
  cases cr.txIDExists txID with
  | none => simp [Handling.ofDupCheck, Handling.resolve]
  | some known => cases known <;> cases service <;> simp_all [Handling.ofDupCheck, Handling.resolve]

theorem resolve_dupCheck_refused (hlk : cr.txIDExists txID ≠ none) (h : RefusedOrCrashed service) :
    RefusedOrCrashed ((Handling.ofDupCheck (cr.checkTxIdDupsLedger txID)).resolve service) := by
  rw [ChannelResources.checkTxIdDupsLedger]
  cases hk : cr.txIDExists txID with
  | none => exact absurd hk hlk
  | some known =>
    cases known with
    | true => exact .inl ⟨_, rfl⟩
    | false =>
      rcases h with ⟨code, rfl⟩ | rfl
      · exact .inl ⟨code, rfl⟩
      · exact .inr rfl

theorem checkTxIdDupsLedger_ne_panic (cr : ChannelResources) (txID : Bytes) : cr.checkTxIdDupsLedger txID ≠ .panic := by
  unfold ChannelResources.checkTxIdDupsLedger
  split <;> simp

variable {number : UInt64} {block : List Bytes} {klv : KeyLevelValidator} {lean : Bool}

theorem peerValidateTx_ne_panic (hv : v.Working)
    (h : ∀ chdr, readChannelHeader codec env = .ok chdr → chdr.type ≠ .endorserTransaction) :
    v.peerValidateTx codec order number block klv env ≠ .panic := by
  refine validateTxIn_ne_panic order hv.peerLcr (checkTxIdDupsLedger_ne_panic v.peer) (fun hp => ?_) ?_
  · obtain ⟨payload, chdr, -, hrd, htype, -⟩ := exists_of_validateTransaction_eq_panic hp
    exact h chdr hrd htype
  · intro payload hdr chdr _ _ hrd htype
    exact absurd htype (h chdr hrd)

theorem serviceValidateTx_ne_panic (hv : v.Working)
    (h : ∀ payload, unmarshalPayload codec env.payload = some payload → ¬ NilAction codec payload) :
    v.serviceValidateTx codec order env ≠ .panic := by
  refine validateTxIn_ne_panic order hv.serviceLcr (by simp) (fun hp => ?_) ?_
  · obtain ⟨payload, chdr, hp, -, -, hnil⟩ := exists_of_validateTransaction_eq_panic hp
    exact h payload hp hnil
  · intro payload hdr chdr hp hh _ _ ha
    exact pluginValidate_ne_panic (calmCheck_adapter hv.servicePolicies) hp hh ha

theorem readChannelHeader_ne_panic (h : ∀ payload, unmarshalPayload codec env.payload = some payload → payload.header ≠ none) :
    readChannelHeader codec env ≠ .panic := by
  simp [readChannelHeader, bind_eq_panic]
  exact h

section

variable (hv : v.Working) (hc : Complete codec lean env)
include hv hc

theorem envelopeVerdict_ne_panic : v.envelopeVerdict codec lean order number block klv env ≠ .panic := by
  unfold Validators.envelopeVerdict
  cases lean with
  | true =>
    simp only [Complete, if_pos, handleLtx] at hc ⊢
    split_ifs at hc ⊢ with htype
    · obtain ⟨leanEnv, -, -, -, hl, -⟩ := id hc
      rw [hl]
      exact resolve_dupCheck_ne_panic (serviceValidateLtxTxn_ne_panic order hv htype hc)
    · exact peerValidateTx_ne_panic order hv hc
  | false =>
    simp only [Complete, Bool.false_eq_true, if_false, handleVanilla] at hc ⊢
    split
    · rename_i chdr hrd
      split_ifs with htype
      · exact resolve_dupCheck_ne_panic (serviceValidateTx_ne_panic order hv fun payload hp => (hc payload hp).2)
      · refine peerValidateTx_ne_panic order hv fun chdr' hrd' => ?_
        cases hrd.symm.trans hrd'
        exact htype
    · simp [Handling.resolve]
    · exact absurd ‹_› (readChannelHeader_ne_panic fun payload hp => (hc payload hp).1)

theorem envelopeVerdict_of_malformed
    (h : ¬ if lean = true ∧ env.type = .endorserTransaction then WellFormedLtx codec env else WellFormedVanilla codec env) :
    RefusedOrCrashed (v.envelopeVerdict codec lean order number block klv env) := by
  unfold Validators.envelopeVerdict
  cases lean with
  | true =>
    simp only [Complete, if_pos, handleLtx, true_and] at hc h ⊢
    by_cases htype : env.type = .endorserTransaction
    · rw [if_pos htype] at hc h ⊢
      obtain ⟨leanEnv, -, -, -, hl, -⟩ := id hc
      rw [hl]
      exact resolve_dupCheck_refused (hv.txIDExists _) (serviceValidateLtxTxn_of_malformed order htype hc h)
    · rw [if_neg htype] at h ⊢
      exact validateTxIn_of_malformed order h
  | false =>
    simp only [Bool.false_eq_true, if_false, false_and, handleVanilla] at h ⊢
    split
    · split_ifs
      · exact resolve_dupCheck_refused (hv.txIDExists _) (validateTxIn_of_malformed order h)
      · exact validateTxIn_of_malformed order h
    · rename_i e he
      have hc : ∃ code, e = .invalid code := by
        unfold readChannelHeader at he
        cases hp : unmarshalPayload codec env.payload with
        | none =>
          rw [hp] at he
          cases he
          exact ⟨_, rfl⟩
        | some payload =>
          rw [hp] at he
          cases hh : payload.header with
          | none => simp [hh, orErr, deref] at he
          | some hdr =>
            simp only [hh, orErr, deref, ok_bind] at he
            split at he
            · cases he
            · cases he
              exact ⟨_, rfl⟩
      obtain ⟨code, rfl⟩ := hc
      exact .inl ⟨code, rfl⟩
    · exact .inr rfl

end

end

theorem sampleValidators_working : sampleValidators.Working where
  txIDExists _ := by simp [sampleValidators, oneChannel]
  peerLcr _ _ := by simp [sampleValidators, policyOfA]
  serviceLcr _ _ := by simp [sampleValidators, policyOfA]
  servicePolicies _ _ := by simp [sampleValidators, signedByA]

/-- `[0x0a]` is a transfer, `[0x0b]` an endorser transaction in an envelope of another type, `[0x18, 0x03]` an endorser
envelope without its lite part. -/
def mixedCodec : Codec :=
  { queryCodec with
    envelope := .ofTable []
      [({}, []), ({ type := .endorserTransaction }, [0x18, 0x03]), (transfer, [0x0a]), (smuggledTransfer, [0x0b])]
    payload := .ofTable [] [({}, []), (queryPayload, [0x70, 0x01])]
    transaction := .ofTable []
      [({}, []), ({ actions := [{ header := [0x12, 0x01], payload := [0x63, 0x01] }] }, [0x74, 0x01])] }

end Drunix.Peer
