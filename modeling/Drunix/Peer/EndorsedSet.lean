import Drunix.Peer.TxValidator

namespace Drunix.Peer

open Lib Proto Outcome

structure ActionOf (codec : Codec) (env : Envelope) (action : Vanilla.ChaincodeEndorsedAction)
    (prp : Vanilla.ProposalResponsePayload) (resp : Vanilla.ChaincodeAction) : Prop where
  endorsed : ∃ payl tx first ccPayload, unmarshalPayload codec env.payload = some payl ∧
    codec.transaction.unmarshal (payl.data.getD []) = some tx ∧ tx.actions.head? = some first ∧
    codec.chaincodeActionPayload.unmarshal first.payload = some ccPayload ∧ ccPayload.action = some action
  response : codec.vanillaResponsePayload.unmarshal action.proposalResponsePayload = some prp
  chaincodeAction : codec.vanillaChaincodeAction.unmarshal prp.extension = some resp

variable {action : Vanilla.ChaincodeEndorsedAction} {prp : Vanilla.ProposalResponsePayload}
  {resp : Vanilla.ChaincodeAction}

section

variable {codec : Codec} {env : Envelope}

theorem ActionOf.unique {action' : Vanilla.ChaincodeEndorsedAction} {prp' : Vanilla.ProposalResponsePayload}
    {resp' : Vanilla.ChaincodeAction} (h : ActionOf codec env action prp resp)
    (h' : ActionOf codec env action' prp' resp') : action = action' ∧ prp = prp' ∧ resp = resp' := by
  obtain ⟨⟨payl, tx, first, cap, hp, htx, hf, hc, ha⟩, hpr, hr⟩ := h
  obtain ⟨⟨payl', tx', first', cap', hp', htx', hf', hc', ha'⟩, hpr', hr'⟩ := h'
  obtain rfl := Option.some.inj (hp.symm.trans hp')
  obtain rfl := Option.some.inj (htx.symm.trans htx')
  obtain rfl := Option.some.inj (hf.symm.trans hf')
  obtain rfl := Option.some.inj (hc.symm.trans hc')
  obtain rfl := Option.some.inj (ha.symm.trans ha')
  obtain rfl := Option.some.inj (hpr.symm.trans hpr')
  obtain rfl := Option.some.inj (hr.symm.trans hr')
  exact ⟨rfl, rfl, rfl⟩

theorem getActionFromEnvelopeMsg_eq_ok (h : getActionFromEnvelopeMsg codec env = .ok resp) :
    ∃ action prp, ActionOf codec env action prp resp := by
  simp only [getActionFromEnvelopeMsg, bind_eq_ok, orErr_eq_ok] at h
  obtain ⟨payl, hp, tx, htx, first, hf, cap, hc, action, ha, _, _, prp, hpr, _, _, hr⟩ := h
  exact ⟨action, prp, ⟨payl, tx, first, cap, hp, htx, hf, hc, ha⟩, hpr, hr⟩

theorem extractValidationArtifacts_eq_ok {va : ValidationArtifacts}
    (h : extractValidationArtifacts codec env = .ok va) :
    ∃ action prp resp, ActionOf codec env action prp resp ∧
      va = ⟨resp.results, action.proposalResponsePayload, action.endorsements⟩ := by
  simp only [extractValidationArtifacts, endorsedAction, bind_eq_ok, orErr_eq_ok, deref_eq_ok, pure_eq, ok.injEq] at h
  obtain ⟨action, ⟨payl, hp, _, _, _, _, _, _, tx, htx, first, hf, cap, hc, ha⟩, prp, hpr, _, _, resp,
    hr, rfl⟩ := h
  exact ⟨action, prp, resp, ⟨⟨payl, tx, first, cap, hp, htx, hf, hc, ha⟩, hpr, hr⟩, rfl⟩

/-- The lite form of a vanilla envelope carries the lite form of the read-write set of its action. -/
theorem getLeanEnvFromCommonEnv_eq_ok {leanEnv : LeanEnvelope}
    (h : getLeanEnvFromCommonEnv codec env = .ok leanEnv) :
    ∃ action prp resp rwset, ActionOf codec env action prp resp ∧ codec.txRwSet.unmarshal resp.results = some rwset ∧
      leanEnv.results = some (getTxRWSetForLightTxn rwset) := by
  simp only [getLeanEnvFromCommonEnv, getLightEnvFromCommonEnv, unmarshalLightTransaction, getChaincodeEndorsedAction,
    getProposalResponsePayloadForLightTxn, getChaincodeActionForLightTxn, bind_eq_ok, orErr_eq_ok,
    deref_eq_ok, pure_eq, ok.injEq] at h
  obtain ⟨_, ⟨payl, hp, _, _, _, _, _, ⟨tx, htx, first, hf, cap, hc, action, ha, prp, hpr, _,
    ⟨resp, hr, _, ⟨rwset, hrw, _, _, rfl⟩, rfl⟩, rfl⟩, rfl⟩, rfl⟩ := h
  exact ⟨action, prp, resp, rwset, ⟨⟨payl, tx, first, cap, hp, htx, hf, hc, ha⟩, hpr, hr⟩, hrw, rfl⟩

end

structure VanillaAccepted (codec : Codec) (lcr : LifecycleResources) (policies : Policies) (check : WriteCheck)
    (env : Envelope) (channelId : Bytes) (action : Vanilla.ChaincodeEndorsedAction)
    (prp : Vanilla.ProposalResponsePayload) (resp : Vanilla.ChaincodeAction) (ccID : ChaincodeID)
    (rwset : Vanilla.TxRwSet) (nss : List Bytes) : Prop extends ActionOf codec env action prp resp where
  chaincode : resp.chaincodeId = some ccID
  written : codec.txRwSet.unmarshal resp.results = some rwset
  namespaces : wrNamespaces ccID.name (rwset.nsRwSets.map fun ns => (ns.nameSpace, txWritesToNamespace ns)) = .ok nss
  policy : ∀ ns ∈ nss, ∃ policy, getCDataForCC lcr channelId ns = .ok policy ∧
    evaluate policies policy (action.endorsements.map (signedData action.proposalResponsePayload))
      (check policy (action.endorsements.map (signedData action.proposalResponsePayload)) ns)
      (writesTo rwset.nsRwSets ns) = .ok ()

section

variable {codec : Codec} {crypto : CryptoProvider} {cr : ChannelResources} {lcr : LifecycleResources}
  {policies : Policies} {check : WriteCheck} {env : Envelope}

theorem dispatch_eq_ok {payload : Payload} {header : Header} {chdr : ChannelHeader}
    (hh : payload.header = some header)
    (hc : unmarshalChannelHeader codec header.channelHeader = some chdr)
    (h : dispatch codec lcr policies check payload env = .ok ()) :
    ∃ action prp resp ccID rwset nss,
      VanillaAccepted codec lcr policies check env chdr.channelId action prp resp ccID rwset nss := by
  simp only [dispatch, dispatchIn, dispatchNamespaces, hh, deref, bind_eq_ok, orErr_eq_ok, mapErr_eq_ok,
    require_eq_ok, forM_eq_ok, checkNamespace_eq_ok, pure_eq, ok.injEq] at h
  obtain ⟨_, ⟨_, rfl, _, hc', _, _, resp, hr, rwset, hrw, hd, _, ccID, hcd, _, hid, _, _, nss, hnss, rfl⟩, hal⟩ := h
  obtain rfl := Option.some.inj (hc.symm.trans hc')
  obtain ⟨action, prp, ha⟩ := getActionFromEnvelopeMsg_eq_ok hr
  have hn : hd.name = ccID.name := by simp_all
  refine ⟨action, prp, resp, ccID, rwset, nss, ha, hcd, hrw, hn ▸ hnss, ?_⟩
  intro ns hns
  obtain ⟨policy, hp, hpl⟩ := hal ns hns
  simp only [pluginValidate, keyLevelValidate, orPolicyErr, bind_eq_ok, mapErr_eq_ok, orErr_eq_ok] at hpl
  obtain ⟨va, hva, rwset', hr', he⟩ := hpl
  obtain ⟨action', prp', resp', ha', rfl⟩ := extractValidationArtifacts_eq_ok hva
  obtain ⟨rfl, rfl, rfl⟩ := ha.unique ha'
  obtain rfl := Option.some.inj (hrw.symm.trans hr')
  exact ⟨policy, hp, he⟩

theorem validateTx_eq_ok {checkDups : Bytes → Outcome TxFailure Unit} {txID : Bytes}
    (h : validateTx codec crypto cr lcr policies check checkDups env = .ok txID) :
    ∃ chdr, payloadChannelHeader codec env = .ok chdr ∧
      (chdr.type = .endorserTransaction ∧ txID = chdr.txId ∧ (∃ action prp resp ccID rwset nss,
          VanillaAccepted codec lcr policies check env chdr.channelId action prp resp ccID rwset nss) ∨
        chdr.type = .config ∧ txID = []) := by
  simp only [validateTx, validateTxIn, bind_eq_ok, mapErr_eq_ok, orErr_eq_ok, deref_eq_ok, require_eq_ok] at h
  obtain ⟨payload, hvl, header, hh, chdr, hc, _, _, h⟩ := h
  obtain ⟨hp, _⟩ := validateTransaction_eq_ok hvl
  refine ⟨chdr, ?_, ?_⟩
  · simp [payloadChannelHeader, hp, hh, hc, orErr]
  split at h
  · rename_i ht
    simp only [bind_eq_ok, pure_eq, ok.injEq] at h
    obtain ⟨_, _, _, hd, rfl⟩ := h
    exact .inl ⟨ht, rfl, dispatch_eq_ok hh hc hd⟩
  · rename_i ht
    simp only [ChannelResources.applyConfig, bind_eq_ok, pure_eq, ok.injEq] at h
    obtain ⟨_, _, rfl⟩ := h
    exact .inr ⟨ht, rfl⟩
  · cases h

end

end Drunix.Peer
