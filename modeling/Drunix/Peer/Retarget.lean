import Mathlib.Data.List.Nodup
import Drunix.Peer.KeyLevelAgreement
import Drunix.Peer.TxValidator

namespace Drunix.Peer

open Lib Proto Outcome

structure IsLean (env : Envelope) (leanEnv : LeanEnvelope) (envMeta : EnvMeta) : Prop where
  endorser : env.type = .endorserTransaction
  lean : env.leanEnv = some leanEnv
  carried : leanEnv.envMeta = some envMeta

/-- Of endorsements by different endorsers, those that satisfy a policy for one response and those that satisfy one for
another response are never all different. -/
def QuorumsMeet (policies : Policies) (verify : SignedData → Bool) : Prop :=
  ∀ policy policy' prp prp' (endorsements : List Vanilla.Endorsement), (endorsements.map (·.endorser)).Nodup →
    policies.evaluate policy (endorsements.map (signedData prp)) = true →
    policies.evaluate policy' (endorsements.map (signedData prp')) = true →
    ∃ e ∈ endorsements, verify (signedData prp e) = true ∧ verify (signedData prp' e) = true

structure SameTransaction (leanEnv leanEnv' : LeanEnvelope) (envMeta envMeta' : EnvMeta) : Prop where
  txId : leanEnv.txId = leanEnv'.txId
  channelId : leanEnv.channelId = leanEnv'.channelId
  chaincodeID : envMeta.chaincodeID = envMeta'.chaincodeID
  results : leanEnv.results = leanEnv'.results
  events : envMeta.events = envMeta'.events

def retargetMeta (envMeta : EnvMeta) (shdr : SignatureHeader) (events : Option ChaincodeEvent) : EnvMeta :=
  { envMeta with signatureHeader := some shdr, events := events }

def retargetLeanEnv (crypto : CryptoProvider) (leanEnv : LeanEnvelope) (envMeta : EnvMeta) (shdr : SignatureHeader)
    (channelId : Bytes) (events : Option ChaincodeEvent) : LeanEnvelope :=
  { leanEnv with
    channelId := channelId
    txId := crypto.computeTxID shdr.nonce shdr.creator
    envMeta := some (retargetMeta envMeta shdr events) }

/-- The same endorsements under another signature header, with the id that goes with it, on another
channel and with another event. -/
def retarget (crypto : CryptoProvider) (env : Envelope) (leanEnv : LeanEnvelope) (envMeta : EnvMeta)
    (shdr : SignatureHeader) (channelId : Bytes) (events : Option ChaincodeEvent) : Envelope :=
  { env with leanEnv := some (retargetLeanEnv crypto leanEnv envMeta shdr channelId events) }

section

variable {codec : Codec} {crypto : CryptoProvider} {cr : ChannelResources} {lcr : LifecycleResources}
  {policies : Policies} {check : WriteCheck} {env : Envelope} {leanEnv leanEnv' : LeanEnvelope}
  {envMeta envMeta' : EnvMeta} {txID : Bytes}

/-- Whatever the writes are, some policy has been evaluated. -/
theorem exists_evaluate_of_evaluate_adapter {ccEP cc : Bytes} {sd : List SignedData} {writes : List (Option (Bytes × Bytes))}
    (h : evaluate policies ccEP sd (adapterCheck policies ccEP sd cc) writes = .ok ()) :
    ∃ policy, policies.evaluate policy sd = true := by
  rw [evaluate_adapter] at h
  split at h
  · exact ⟨ccEP, require_eq_ok.mp h⟩
  · obtain ⟨w, hw⟩ := List.exists_mem_of_ne_nil writes ‹_›
    obtain ⟨⟨coll, key⟩, -, hv⟩ := (bind_eq_ok ..).mp (forM_eq_ok.mp h w hw)
    dsimp only [ccVerdict] at hv
    split at hv
    · exact ⟨ccEP, require_eq_ok.mp hv⟩
    · obtain ⟨collEP, -, hv⟩ := (bind_eq_ok ..).mp hv
      exact ⟨_, require_eq_ok.mp hv⟩

def identityBytes (codec : Codec) (endorsement : Endorsement) : Vanilla.Endorsement where
  endorser := endorsement.endorser.elim [] codec.serializedIdentity.marshal
  signature := endorsement.signature

theorem eq_of_ltxSignedData {sd : List SignedData} (h : ltxSignedData codec leanEnv envMeta = .ok sd) :
    sd = (envMeta.endorsements.map (identityBytes codec)).map
      (signedData (codec.responsePayload.marshal (liteResponsePayload leanEnv envMeta))) := by
  have hm := (mapM_eq_ok_iff.mp h).imp fun e s hs => show signedData _ (identityBytes codec e) = s by
    obtain ⟨endorser, he, hs⟩ := (bind_eq_ok ..).mp hs
    cases hs
    rw [identityBytes, orErr_eq_ok.mp he]
    rfl
  rw [List.map_map]
  exact (List.forall₂_eq_eq_eq ▸ List.forall₂_map_left_iff.mpr hm : _ = sd).symm

section

variable (hlean : IsLean env leanEnv envMeta) (h : validateLtxTxn codec crypto cr lcr policies check env = .ok txID)
include hlean h

theorem validateLtxTxn_accepted :
    txID = leanEnv.txId ∧ ∃ shdr ccID results sd nss,
      LtxAccepted codec crypto cr lcr policies check env leanEnv envMeta shdr ccID results sd nss := by
  obtain ⟨_, _, shdr, ccID, results, sd, nss, rfl, ha⟩ := (validateLtxTxn_eq_ok_iff hlean.endorser).mp h
  obtain rfl := Option.some.inj (hlean.lean.symm.trans ha.lean)
  obtain rfl := Option.some.inj (hlean.carried.symm.trans ha.carried)
  exact ⟨rfl, shdr, ccID, results, sd, nss, ha⟩

/-- What they do not fix: an accepted envelope can be moved to another transaction id, channel and event. -/
theorem validateLtxTxn_retarget {shdr : SignatureHeader} {channelId : Bytes} {events : Option ChaincodeEvent}
    (hsh : validateSignatureHeader shdr = true) (hc : cr.chainExists channelId = true)
    (hpl : ∀ ns, getCDataForCC lcr channelId ns = getCDataForCC lcr leanEnv.channelId ns)
    (he : ∀ ccID, envMeta.chaincodeID = some ccID → eventMatches events ccID.name = true) :
    validateLtxTxn codec crypto cr lcr policies check (retarget crypto env leanEnv envMeta shdr channelId events) =
      .ok (crypto.computeTxID shdr.nonce shdr.creator) := by
  obtain ⟨_, _, ccID, results, sd, nss, ha⟩ := validateLtxTxn_accepted hlean h
  -- neither the signed bytes nor the payload read anything of what has been replaced
  have ht : (retarget crypto env leanEnv envMeta shdr channelId events).type = .endorserTransaction := hlean.endorser
  refine (validateLtxTxn_eq_ok_iff ht).mpr ⟨retargetLeanEnv crypto leanEnv envMeta shdr channelId events,
    retargetMeta envMeta shdr events, shdr, ccID, results, sd, nss, rfl, ?_⟩
  exact {
    lean := rfl
    carried := rfl
    signatureHeader := rfl
    wellFormed := hsh
    txId := rfl
    payload := ha.payload
    chain := hc
    chaincode := ha.chaincode
    event := he ccID ha.chaincode
    identified := ha.identified
    written := ha.written
    namespaces := ha.namespaces
    signed := ha.signed
    endorsed := by
      intro ns hns
      obtain ⟨policy, hp, hev⟩ := ha.endorsed ns hns
      exact ⟨policy, (hpl ns).trans hp, hev⟩ }

end

theorem exists_evaluate_of_validateLtxTxn (hlean : IsLean env leanEnv envMeta)
    (h : validateLtxTxn codec crypto cr lcr policies (adapterCheck policies) env = .ok txID) :
    ∃ policy, policies.evaluate policy ((envMeta.endorsements.map (identityBytes codec)).map
      (signedData (codec.responsePayload.marshal (liteResponsePayload leanEnv envMeta)))) = true := by
  obtain ⟨_, _, ccID, results, sd, nss, ha⟩ := validateLtxTxn_accepted hlean h
  -- the chaincode's own namespace is always among those that are validated
  obtain ⟨policy, -, hev⟩ := ha.endorsed ccID.name (mem_wrNamespaces ha.namespaces)
  rw [← eq_of_ltxSignedData ha.signed]
  exact exists_evaluate_of_evaluate_adapter hev

end

def transferResults : TxReadWriteSet where
  nsRwset := [{ nameSpace := [0x63], rwset := some { writes := [{ key := [0x6b], isDelete := false, value := [0x31] }] } }]

def transferChaincode : ChaincodeID where
  name := [0x63]
  version := [0x31]

def transferMeta : EnvMeta where
  signatureHeader := some { creator := [0x75], nonce := [0x6e] }
  chaincodeID := some transferChaincode
  endorsements := [{ endorser := some { mspid := [0x61] }, signature := [0x0a, 0x01, 0x68, 0x0a, 0x01, 0x61] }]
  proposalHash := [0x68]

def transferLeanEnv : LeanEnvelope where
  channelId := [0x63, 0x68]
  txId := hexEncodeToString [0x6e, 0x75]
  results := some transferResults
  envMeta := some transferMeta

def transfer : Envelope where
  type := .endorserTransaction
  leanEnv := some transferLeanEnv

def transferCodec : Codec :=
  { Codec.none with
    serializedIdentity := .ofTable [] [({ mspid := [0x61] }, [0x0a, 0x01, 0x61])]
    responsePayload := .ofTable [] [(liteResponsePayload transferLeanEnv transferMeta, [0x0a, 0x01, 0x68])] }

def plainCrypto : CryptoProvider where
  sha256 := id
  verifiesCreator _ _ _ _ := false

def oneChannel : ChannelResources where
  chainExists channel := channel = [0x63, 0x68]
  apply _ := false
  txIDExists _ := some false

def signedByA : Policies where
  evaluate _ sd := sd.any fun s => s.identity = [0x0a, 0x01, 0x61] && s.data = s.signature
  collectionValidationInfo _ _ := .ok []

def policyOfA : LifecycleResources := fun _ _ => .ok (ascii "vscc", [0x0a, 0x01, 0x61])

def otherHeader : SignatureHeader where
  creator := [0x77]
  nonce := [0x6f]

def takenEvent : Option ChaincodeEvent := some { eventName := [0x65] }

def takenMeta : EnvMeta :=
  retargetMeta transferMeta otherHeader takenEvent

def takenLeanEnv : LeanEnvelope :=
  retargetLeanEnv plainCrypto transferLeanEnv transferMeta otherHeader [0x63, 0x68] takenEvent

def takenTransfer : Envelope :=
  retarget plainCrypto transfer transferLeanEnv transferMeta otherHeader [0x63, 0x68] takenEvent

theorem quorumsMeet_signedByA : QuorumsMeet signedByA fun s => s.data = s.signature := by
  intro policy policy' prp prp' endorsements hnd h h'
  simp only [signedByA, List.any_map, List.any_eq_true, Function.comp_apply, Bool.and_eq_true, decide_eq_true_eq] at h h'
  obtain ⟨e, he, hid, hs⟩ := h
  obtain ⟨e', he', hid', hs'⟩ := h'
  obtain rfl : e = e' := List.inj_on_of_nodup_map hnd he he' (hid.trans hid'.symm)
  exact ⟨e, he, decide_eq_true hs, decide_eq_true hs'⟩

end Drunix.Peer
