import Drunix.Peer.EndorsedSet
import Drunix.Peer.Retarget

namespace Drunix.Peer

open Lib Proto Outcome

/-- The lite half of an envelope as `preprocessLtxProtoBlock` takes it: converted from the payload where
it is nil. The result of a failed conversion is dereferenced before the error is looked at. -/
def leanEnvOf (codec : Codec) (env : Envelope) : Outcome LiteError LeanEnvelope :=
  match env.leanEnv with
  | some leanEnv => .ok leanEnv
  | none =>
    match getLeanEnvFromCommonEnv codec env with
    | .ok leanEnv => .ok leanEnv
    | _ => .panic

/-- The read-write set `preprocessLtxProtoBlock` hands to MVCC and commit for an envelope. -/
def preprocessLtx (codec : Codec) (env : Envelope) : Outcome LiteError (Option TxReadWriteSet) := do
  let leanenv ← leanEnvOf codec env
  let _ ← .deref leanenv.envMeta
  return leanenv.results

structure Validators where
  crypto : CryptoProvider
  peer : ChannelResources
  peerLcr : LifecycleResources
  peerPolicies : Policies
  vpmgr : VpManager
  txNum : UInt64
  service : ChannelResources
  serviceLcr : LifecycleResources
  servicePolicies : Policies

def Validators.validateLtx (v : Validators) (codec : Codec) (env : Envelope) : Outcome TxFailure Bytes :=
  let peer := validateTx codec v.crypto v.peer v.peerLcr v.peerPolicies (baseCheck v.peerPolicies v.vpmgr v.txNum)
    v.peer.checkTxIdDupsLedger
  (handleLtx v.peer peer env).resolve
    (validateLtxTxn codec v.crypto v.service v.serviceLcr v.servicePolicies (adapterCheck v.servicePolicies) env)

inductive Covered where
  | lite (results : TxReadWriteSet)
  | vanilla (rwset : Vanilla.TxRwSet)
  | nothing

inductive Endorsed (v : Validators) (codec : Codec) (env : Envelope) : Covered → Prop
  | lite {leanEnv envMeta shdr ccID results sd nss} (htype : env.type = .endorserTransaction)
      (h : LtxAccepted codec v.crypto v.service v.serviceLcr v.servicePolicies (adapterCheck v.servicePolicies) env
        leanEnv envMeta shdr ccID results sd nss) : Endorsed v codec env (.lite results)
  | vanilla {chdr action prp resp ccID rwset nss} (htype : env.type ≠ .endorserTransaction)
      (hchdr : payloadChannelHeader codec env = .ok chdr) (hend : chdr.type = .endorserTransaction)
      (h : VanillaAccepted codec v.peerLcr v.peerPolicies (baseCheck v.peerPolicies v.vpmgr v.txNum) env
        chdr.channelId action prp resp ccID rwset nss) : Endorsed v codec env (.vanilla rwset)
  | config {chdr} (htype : env.type ≠ .endorserTransaction) (hchdr : payloadChannelHeader codec env = .ok chdr)
      (hconfig : chdr.type = .config) : Endorsed v codec env .nothing

def asLiteColl (c : Vanilla.CollHashedRwSet) : CollectionHashedReadWriteSet where
  collectionName := c.collectionName
  hashedRwset := some {
    hashedReads := c.hashedRwSet.hashedReads
    hashedWrites := c.hashedRwSet.hashedWrites.map Vanilla.KVWriteHash.toKVWriteHash
    metadataWrites := c.hashedRwSet.metadataWrites }
  pvtRwsetHash := c.pvtRwSetHash

def asLiteNs (ns : Vanilla.NsRwSet) : NsReadWriteSet where
  nameSpace := ns.nameSpace
  rwset := some ns.kvRwSet
  collectionHashedRwset := ns.collHashedRwSets.map asLiteColl

def asLite (rwset : Vanilla.TxRwSet) : TxReadWriteSet where
  nsRwset := rwset.nsRwSets.map asLiteNs

def PurgeFree (rwset : Vanilla.TxRwSet) : Prop :=
  ∀ ns ∈ rwset.nsRwSets, ∀ c ∈ ns.collHashedRwSets, ∀ w ∈ c.hashedRwSet.hashedWrites, w.isPurge = false

def Matches (handed : Option TxReadWriteSet) : Covered → Prop
  | .lite results => handed = some results
  | .vanilla rwset => handed = some (asLite rwset) ∧ PurgeFree rwset
  | .nothing => handed = none

def ConvertsAsIs (rwset : Vanilla.TxRwSet) : Prop :=
  ∀ ns ∈ rwset.nsRwSets, (ns.kvRwSet.rangeQueriesInfo = [] ∧ ns.kvRwSet.metadataWrites = []) ∧
    ∀ c ∈ ns.collHashedRwSets, c.hashedRwSet.metadataWrites = []

def CarriesPayload (env : Envelope) (rwset : Vanilla.TxRwSet) : Prop :=
  match env.leanEnv with
  | none => ConvertsAsIs rwset
  | some leanEnv => leanEnv.results = some (asLite rwset)

/-- When commit takes what has been endorsed: the envelope has the endorser type; or its payload is an
endorser transaction without purges that its lite half, or the conversion, carries in full; or its payload
is a config and its lite half is empty. -/
def CommitsEndorsed (codec : Codec) (env : Envelope) : Prop :=
  env.type = .endorserTransaction ∨
    ∃ chdr, payloadChannelHeader codec env = .ok chdr ∧
      (chdr.type = .endorserTransaction ∧ (∃ action prp resp rwset, ActionOf codec env action prp resp ∧
          codec.txRwSet.unmarshal resp.results = some rwset ∧ PurgeFree rwset ∧ CarriesPayload env rwset) ∨
        chdr.type = .config ∧ ∃ leanEnv, env.leanEnv = some leanEnv ∧ leanEnv.results = none)

section

variable {codec : Codec} {env : Envelope} {handed : Option TxReadWriteSet} {rwset : Vanilla.TxRwSet}

theorem getKVRWSet_eq_self_iff {rwset : KVRWSet} :
    getKVRWSet rwset = rwset ↔ rwset.rangeQueriesInfo = [] ∧ rwset.metadataWrites = [] := by
  obtain ⟨reads, ranges, writes, metadata⟩ := rwset
  simp [getKVRWSet, eq_comm]

theorem getCollHRWSet_eq_asLiteColl_iff {c : Vanilla.CollHashedRwSet} :
    getCollHRWSet c = asLiteColl c ↔ c.hashedRwSet.metadataWrites = [] := by
  simp [getCollHRWSet, asLiteColl, getHRWSet, eq_comm]

theorem getTxRWSetForLightTxn_eq_asLite_iff : getTxRWSetForLightTxn rwset = asLite rwset ↔ ConvertsAsIs rwset := by
  simp only [getTxRWSetForLightTxn, asLite, TxReadWriteSet.mk.injEq, List.map_inj_left, getNSForLT, asLiteNs,
    NsReadWriteSet.mk.injEq, Option.some.injEq, true_and, getKVRWSet_eq_self_iff, getCollHRWSet_eq_asLiteColl_iff]
  rfl

theorem preprocessLtx_some {leanEnv : LeanEnvelope} (hl : env.leanEnv = some leanEnv)
    (h : preprocessLtx codec env = .ok handed) : handed = leanEnv.results := by
  simp only [preprocessLtx, leanEnvOf, hl, bind_eq_ok, ok_bind, pure_eq, Outcome.ok.injEq] at h
  obtain ⟨_, _, rfl⟩ := h
  rfl

theorem preprocessLtx_none (hl : env.leanEnv = none) (h : preprocessLtx codec env = .ok handed) :
    ∃ action prp resp rwset, ActionOf codec env action prp resp ∧ codec.txRwSet.unmarshal resp.results = some rwset ∧
      handed = some (getTxRWSetForLightTxn rwset) := by
  simp only [preprocessLtx, leanEnvOf, hl, bind_eq_ok, pure_eq, Outcome.ok.injEq] at h
  obtain ⟨leanEnv, hln, _, _, rfl⟩ := h
  split at hln
  · cases hln
    exact getLeanEnvFromCommonEnv_eq_ok ‹_›
  · cases hln

theorem handed_eq_asLite_iff {action : Vanilla.ChaincodeEndorsedAction} {prp : Vanilla.ProposalResponsePayload}
    {resp : Vanilla.ChaincodeAction} (ha : ActionOf codec env action prp resp)
    (hrw : codec.txRwSet.unmarshal resp.results = some rwset) (h : preprocessLtx codec env = .ok handed) :
    handed = some (asLite rwset) ↔ CarriesPayload env rwset := by
  unfold CarriesPayload
  cases hl : env.leanEnv with
  | some leanEnv => rw [preprocessLtx_some hl h]
  | none =>
    obtain ⟨action', prp', resp', rwset', ha', hr', rfl⟩ := preprocessLtx_none hl h
    obtain ⟨rfl, rfl, rfl⟩ := ha.unique ha'
    obtain rfl := Option.some.inj (hrw.symm.trans hr')
    rw [Option.some.injEq, getTxRWSetForLightTxn_eq_asLite_iff]

theorem handed_eq_none_iff (h : preprocessLtx codec env = .ok handed) :
    handed = none ↔ ∃ leanEnv, env.leanEnv = some leanEnv ∧ leanEnv.results = none := by
  cases hl : env.leanEnv with
  | some leanEnv => simp [preprocessLtx_some hl h]
  | none =>
    obtain ⟨_, _, _, _, _, _, rfl⟩ := preprocessLtx_none hl h
    simp

end

theorem validateLtx_eq_ok_endorser {v : Validators} {codec : Codec} {env : Envelope} {txID : Bytes}
    (ht : env.type = .endorserTransaction) (h : v.validateLtx codec env = .ok txID) :
    ∃ txID', validateLtxTxn codec v.crypto v.service v.serviceLcr v.servicePolicies (adapterCheck v.servicePolicies)
      env = .ok txID' := by
  rw [Validators.validateLtx, handleLtx, if_pos ht] at h
  cases hl : env.leanEnv with
  | none => simp [hl, Handling.resolve] at h
  | some leanEnv =>
    rw [hl] at h
    cases hd : v.peer.checkTxIdDupsLedger leanEnv.txId with
    | ok u =>
      simp only [hd, Handling.ofDupCheck, Handling.resolve, bind_eq_ok] at h
      obtain ⟨txID', hsr, _⟩ := h
      exact ⟨txID', hsr⟩
    | err e => simp [hd, Handling.ofDupCheck, Handling.resolve] at h
    | panic => simp [hd, Handling.ofDupCheck, Handling.resolve] at h

/-- For a transaction found valid, commit takes exactly the read-write set the endorsements cover, just
when the envelope is of one of the shapes in `CommitsEndorsed`. -/
theorem committed_matches_endorsed_iff (v : Validators) (codec : Codec) (env : Envelope) (txID : Bytes)
    (handed : Option TxReadWriteSet) (hvalid : v.validateLtx codec env = .ok txID)
    (hhanded : preprocessLtx codec env = .ok handed) :
    ∃ covered, Endorsed v codec env covered ∧ (Matches handed covered ↔ CommitsEndorsed codec env) := by
  by_cases ht : env.type = .endorserTransaction
  · obtain ⟨_, hsr⟩ := validateLtx_eq_ok_endorser ht hvalid
    obtain ⟨leanEnv, _, _, _, results, _, _, _, ha⟩ := (validateLtxTxn_eq_ok_iff ht).mp hsr
    refine ⟨.lite results, .lite ht ha, ?_⟩
    have hrs : handed = some results := (preprocessLtx_some ha.lean hhanded).trans ha.written
    exact ⟨fun _ => .inl ht, fun _ => hrs⟩
  · rw [Validators.validateLtx, handleLtx, if_neg ht] at hvalid
    obtain ⟨chdr, hch, ⟨he, _, action, prp, resp, ccID, rwset, nss, ha⟩ | ⟨hcn, _⟩⟩ := validateTx_eq_ok hvalid
    · refine ⟨.vanilla rwset, .vanilla ht hch he ha, ?_⟩
      rw [Matches, handed_eq_asLite_iff ha.toActionOf ha.written hhanded]
      constructor
      · rintro ⟨hc, hpr⟩
        exact .inr ⟨chdr, hch, .inl ⟨he, action, prp, resp, rwset, ha.toActionOf, ha.written, hpr, hc⟩⟩
      · rintro (h | ⟨chdr', hc', ⟨_, action', prp', resp', rwset', ha', hr', hpr, hc⟩ | ⟨hcn, _⟩⟩)
        · exact absurd h ht
        · obtain ⟨rfl, rfl, rfl⟩ := ha.toActionOf.unique ha'
          obtain rfl := Option.some.inj (ha.written.symm.trans hr')
          exact ⟨hc, hpr⟩
        · rw [hch] at hc'
          cases hc'
          rw [he] at hcn
          cases hcn
    · refine ⟨.nothing, .config ht hch hcn, ?_⟩
      rw [Matches, handed_eq_none_iff hhanded]
      constructor
      · intro hn
        exact .inr ⟨chdr, hch, .inr ⟨hcn, hn⟩⟩
      · rintro (h | ⟨chdr', hc', ⟨he, _⟩ | ⟨_, hn⟩⟩)
        · exact absurd h ht
        · rw [hch] at hc'
          cases hc'
          rw [hcn] at he
          cases he
        · exact hn

def sampleValidators : Validators where
  crypto := { sha256 := id, verifiesCreator := fun _ _ signature _ => signature = [0x01] }
  peer := oneChannel
  peerLcr := policyOfA
  peerPolicies := signedByA
  vpmgr := { updates := fun _ _ _ => [], metadata := fun _ _ _ => .ok [], translate := some }
  txNum := 0
  service := oneChannel
  serviceLcr := policyOfA
  servicePolicies := signedByA

theorem committed_matches_endorsed_iff_transfer :
    ∃ covered, Endorsed sampleValidators transferCodec transfer covered ∧
      (Matches (some transferResults) covered ↔ CommitsEndorsed transferCodec transfer) :=
  committed_matches_endorsed_iff sampleValidators transferCodec transfer [] (some transferResults) (by decide) (by decide)

def signedQuery : Vanilla.TxRwSet where
  nsRwSets := [{ nameSpace := [0x63], kvRwSet := { reads := [{ key := [0x6b], version := none }] } }]

def queryAction : Vanilla.ChaincodeEndorsedAction where
  proposalResponsePayload := [0x0a, 0x02]
  endorsements := [{ endorser := [0x0a, 0x01, 0x61], signature := [0x0a, 0x02, 0x0a, 0x01, 0x61] }]

def queryResponse : Vanilla.ProposalResponsePayload where
  proposalHash := [0x08, 0x03, 0x12, 0x01, 0x70]
  extension := [0x1a, 0x01]

def queryChaincodeAction : Vanilla.ChaincodeAction where
  results := [0x72, 0x01]
  chaincodeId := some transferChaincode

def queryPayload : Payload where
  header := some { channelHeader := some [0x08, 0x03], signatureHeader := [0x12, 0x01] }
  data := some [0x74, 0x01]

def queryChannelHeader : ChannelHeader where
  type := .endorserTransaction
  channelId := [0x63, 0x68]
  txId := hexEncodeToString [0x6e, 0x75]
  extension := [0x65, 0x01]

def queryCodec : Codec :=
  { transferCodec with
    payload := .ofTable [] [(queryPayload, [0x70, 0x01])]
    channelHeader := .ofTable [] [(queryChannelHeader, [0x08, 0x03])]
    signatureHeader := .ofTable [] [({ creator := [0x75], nonce := [0x6e] }, [0x12, 0x01])]
    chaincodeHeaderExtension := .ofTable [] [(some transferChaincode, [0x65, 0x01])]
    transaction := .ofTable [] [({ actions := [{ header := [0x12, 0x01], payload := [0x63, 0x01] }] }, [0x74, 0x01])]
    chaincodeActionPayload := .ofTable []
      [({ chaincodeProposalPayload := [0x70], action := some queryAction }, [0x63, 0x01])]
    vanillaResponsePayload := .ofTable [] [(queryResponse, [0x0a, 0x02])]
    vanillaChaincodeAction := .ofTable [] [(queryChaincodeAction, [0x1a, 0x01])]
    txRwSet := .ofTable [] [(signedQuery, [0x72, 0x01])] }

def smuggledTransfer : Envelope where
  payload := some [0x70, 0x01]
  signature := [0x01]
  leanEnv := some transferLeanEnv

/-- The query is validated, the transfer is committed. -/
theorem smuggled_transfer_committed :
    sampleValidators.validateLtx queryCodec smuggledTransfer = .ok (hexEncodeToString [0x6e, 0x75]) ∧
      preprocessLtx queryCodec smuggledTransfer = .ok (some transferResults) ∧
      ActionOf queryCodec smuggledTransfer queryAction queryResponse queryChaincodeAction ∧
      queryCodec.txRwSet.unmarshal queryChaincodeAction.results = some signedQuery ∧
      ¬ Matches (some transferResults) (.vanilla signedQuery) := by
  refine ⟨by decide, by decide, ⟨⟨_, _, _, _, rfl, rfl, rfl, rfl, rfl⟩, rfl, rfl⟩, by decide, ?_⟩
  rintro ⟨h, _⟩
  exact absurd h (by decide)

end Drunix.Peer
