import Drunix.Peer.Plugin

namespace Drunix.Peer

open Lib Proto Outcome

section

variable (policies : Policies) (ccEP : Bytes) (sd : List SignedData) (vpmgr : VpManager) (txNum : UInt64) (cc : Bytes)

def ccVerdict (coll : Bytes) : Outcome TxValidationError Unit :=
  if coll = [] then evaluatePolicy policies sd ccEP
  else do
    let collEP ← policies.collectionValidationInfo cc coll
    evaluatePolicy policies sd (if collEP = [] then ccEP else collEP)

def keyVerdict (coll key : Bytes) : Outcome TxValidationError Unit := do
  let vp ← validationParameter vpmgr txNum cc coll key
  if vp = [] then ccVerdict policies ccEP sd cc coll else evaluatePolicy policies sd vp

/-- The policy for a key: its own one if set, else that of its collection if set, else that of the chaincode. -/
def applicablePolicy (coll key : Bytes) : Outcome TxValidationError Bytes := do
  let vp ← validationParameter vpmgr txNum cc coll key
  if vp ≠ [] then return vp
  else if coll = [] then return ccEP
  else do
    let collEP ← policies.collectionValidationInfo cc coll
    return if collEP = [] then ccEP else collEP

structure PolicyChecker.Sound (p : PolicyChecker) : Prop where
  chaincode : p.nsEPChecked [] = true → evaluatePolicy policies sd ccEP = .ok ()
  collection : ∀ coll, coll ≠ [] → p.nsEPChecked coll = true → ccVerdict policies ccEP sd cc coll = .ok ()
  noted : ∀ coll, p.nsEPChecked coll = true → p.someEPChecked = true

def Decides (check : PolicyChecker → Outcome TxValidationError PolicyChecker)
    (verdict : Outcome TxValidationError Unit) : Prop :=
  ∀ p : PolicyChecker, p.Sound policies ccEP sd cc → ∃ p' : PolicyChecker, check p = (fun _ => p') <$> verdict ∧
    (verdict = .ok () → p'.Sound policies ccEP sd cc ∧ p'.someEPChecked = true)

end

section

variable {policies : Policies} {ccEP : Bytes} {sd : List SignedData} {vpmgr : VpManager} {txNum : UInt64} {cc : Bytes}

theorem PolicyChecker.Sound.checked {p : PolicyChecker} (hp : p.Sound policies ccEP sd cc) {coll : Bytes}
    (h : ccVerdict policies ccEP sd cc coll = .ok ()) : (p.checked coll).Sound policies ccEP sd cc where
  chaincode := by
    intro hc
    by_cases hcl : coll = []
    · rwa [ccVerdict, if_pos hcl] at h
    · simp only [PolicyChecker.checked, Function.update_of_ne (Ne.symm hcl)] at hc
      exact hp.chaincode hc
  collection := by
    intro coll' hne hc
    by_cases hcl : coll' = coll
    · rwa [hcl]
    · simp only [PolicyChecker.checked, Function.update_of_ne hcl] at hc
      exact hp.collection coll' hne hc
  noted := fun _ _ => rfl

theorem checkCCEP_decides : Decides policies ccEP sd cc (checkCCEP policies ccEP sd) (evaluatePolicy policies sd ccEP) := by
  intro p hp
  by_cases hc : p.nsEPChecked [] = true
  · refine ⟨p, ?_, fun _ => ⟨hp, hp.noted [] hc⟩⟩
    rw [checkCCEP, if_pos hc, hp.chaincode hc]
    rfl
  · refine ⟨p.checked [], ?_, fun h => ⟨hp.checked (by rwa [ccVerdict]), rfl⟩⟩
    rw [checkCCEP, if_neg hc]
    cases evaluatePolicy policies sd ccEP <;> rfl

theorem checkCCEPIfNotChecked_decides (coll : Bytes) :
    Decides policies ccEP sd cc (checkCCEPIfNotChecked policies ccEP sd cc coll) (ccVerdict policies ccEP sd cc coll) := by
  intro p hp
  by_cases hcl : coll = []
  · rw [checkCCEPIfNotChecked, if_pos hcl, ccVerdict, if_pos hcl]
    exact checkCCEP_decides p hp
  by_cases hc : p.nsEPChecked coll = true
  · refine ⟨p, ?_, fun _ => ⟨hp, hp.noted coll hc⟩⟩
    rw [checkCCEPIfNotChecked, if_neg hcl, if_pos hc, hp.collection coll hcl hc]
    rfl
  have hvr : ccVerdict policies ccEP sd cc coll = policies.collectionValidationInfo cc coll >>= fun collEP =>
      evaluatePolicy policies sd (if collEP = [] then ccEP else collEP) := if_neg hcl
  rw [checkCCEPIfNotChecked, if_neg hcl, if_neg hc]
  cases hi : policies.collectionValidationInfo cc coll with
  | panic => exact ⟨p, by rw [hvr, hi]; rfl, by simp [hvr, hi]⟩
  | err e => exact ⟨p, by rw [hvr, hi]; rfl, by simp [hvr, hi]⟩
  | ok collEP =>
    rw [hi, ok_bind] at hvr
    by_cases he : collEP = []
    · rw [if_pos he] at hvr
      rw [ok_bind, if_pos he, hvr]
      exact checkCCEP_decides p hp
    · rw [if_neg he] at hvr
      refine ⟨p.checked coll, ?_, fun h => ⟨hp.checked h, rfl⟩⟩
      rw [ok_bind, if_neg he, hvr]
      cases evaluatePolicy policies sd collEP <;> rfl

theorem checkSBAndCCEP_decides (coll key : Bytes) :
    Decides policies ccEP sd cc (checkSBAndCCEP policies ccEP sd vpmgr txNum cc coll key)
      (keyVerdict policies ccEP sd vpmgr txNum cc coll key) := by
  intro p hp
  unfold checkSBAndCCEP keyVerdict
  cases validationParameter vpmgr txNum cc coll key with
  | panic => exact ⟨p, rfl, by simp⟩
  | err e => exact ⟨p, rfl, by simp⟩
  | ok vp =>
    rw [ok_bind, ok_bind]
    by_cases hvp : vp = []
    · rw [if_pos hvp, if_pos hvp]
      exact checkCCEPIfNotChecked_decides coll p hp
    · rw [if_neg hvp, if_neg hvp]
      refine ⟨{ p with someEPChecked := true }, ?_, fun _ => ⟨⟨hp.chaincode, hp.collection, fun _ _ => rfl⟩, rfl⟩⟩
      cases evaluatePolicy policies sd vp <;> rfl

def writeVerdict (verdict : Bytes → Bytes → Outcome TxValidationError Unit) (w : Option (Bytes × Bytes)) :
    Outcome TxValidationError Unit := do
  let (coll, key) ← .deref w
  verdict coll key

variable {check : Bytes → Bytes → PolicyChecker → Outcome TxValidationError PolicyChecker}
  {verdict : Bytes → Bytes → Outcome TxValidationError Unit}

section

variable (h : ∀ coll key, Decides policies ccEP sd cc (check coll key) (verdict coll key))
  (writes : List (Option (Bytes × Bytes)))
include h

theorem foldlM_check_eq (p : PolicyChecker) (hp : p.Sound policies ccEP sd cc) :
    ∃ p' : PolicyChecker, writes.foldlM (fun p w => do
        let (coll, key) ← .deref w
        check coll key p) p = (fun _ => p') <$> writes.forM (writeVerdict verdict) ∧
      (writes.forM (writeVerdict verdict) = .ok () → p'.Sound policies ccEP sd cc ∧
        p'.someEPChecked = (p.someEPChecked || !writes.isEmpty)) := by
  induction writes generalizing p with
  | nil => exact ⟨p, rfl, fun _ => ⟨hp, by simp⟩⟩
  | cons w writes ih =>
    simp only [List.foldlM_cons, List.forM_eq_forM, List.forM_cons]
    cases w with
    | none => exact ⟨p, rfl, by simp [writeVerdict, Outcome.deref]⟩
    | some w =>
      obtain ⟨p₁, hc, hn⟩ := h w.1 w.2 p hp
      have hw : writeVerdict verdict (some w) = verdict w.1 w.2 := rfl
      simp only [Outcome.deref, ok_bind, hc, hw]
      cases hv : verdict w.1 w.2 with
      | panic => exact ⟨p, rfl, by simp⟩
      | err e => exact ⟨p, rfl, by simp⟩
      | ok u =>
        obtain ⟨hp₁, hsm⟩ := hn hv
        obtain ⟨p₂, hf, hd⟩ := ih p₁ hp₁
        refine ⟨p₂, hf, fun hok => ⟨(hd hok).1, ?_⟩⟩
        rw [(hd hok).2, hsm]
        simp

/-- The evaluation of a transaction in terms of verdicts: the first write that fails decides; a
transaction without writes is checked against the chaincode policy. -/
theorem evaluate_eq :
    evaluate policies ccEP sd check writes =
      if writes = [] then evaluatePolicy policies sd ccEP else writes.forM (writeVerdict verdict) := by
  have hsn : ({} : PolicyChecker).Sound policies ccEP sd cc := ⟨by simp, by simp, by simp⟩
  obtain ⟨p', hfl, hd⟩ := foldlM_check_eq h writes {} hsn
  rw [evaluate, hfl]
  cases writes with
  | nil =>
    obtain ⟨_, hsm⟩ := hd rfl
    have hf : p'.someEPChecked = false := by simpa using hsm
    change checkCCEPIfNoEPChecked policies ccEP sd p' = _
    rw [checkCCEPIfNoEPChecked, hf]
    rfl
  | cons w writes =>
    cases hv : (w :: writes).forM (writeVerdict verdict) with
    | panic => rfl
    | err e => rfl
    | ok u =>
      obtain ⟨_, hsm⟩ := hd hv
      have ht : p'.someEPChecked = true := by simpa using hsm
      change checkCCEPIfNoEPChecked policies ccEP sd p' = .ok ()
      rw [checkCCEPIfNoEPChecked, ht, if_pos rfl]

end

/-- The key-level policies and the policies of the collections lead to the same end: every write passes
both, or the first write that fails fails alike. -/
def SamePolicyVerdict (policies : Policies) (ccEP : Bytes) (sd : List SignedData) (vpmgr : VpManager)
    (txNum : UInt64) (cc : Bytes) (writes : List (Option (Bytes × Bytes))) : Prop :=
  let byKey := writeVerdict (keyVerdict policies ccEP sd vpmgr txNum cc)
  let byCollection := writeVerdict fun coll _ => ccVerdict policies ccEP sd cc coll
  ((∀ w ∈ writes, byKey w = .ok ()) ∧ ∀ w ∈ writes, byCollection w = .ok ()) ∨
    ∃ r, Outcome.FirstFailure byKey writes r ∧ Outcome.FirstFailure byCollection writes r

section

variable (writes : List (Option (Bytes × Bytes)))

theorem evaluate_base :
    evaluate policies ccEP sd (baseCheck policies vpmgr txNum ccEP sd cc) writes =
      if writes = [] then evaluatePolicy policies sd ccEP
      else writes.forM (writeVerdict (keyVerdict policies ccEP sd vpmgr txNum cc)) :=
  evaluate_eq (fun coll key => checkSBAndCCEP_decides coll key) writes

theorem keyVerdict_eq (coll key : Bytes) : keyVerdict policies ccEP sd vpmgr txNum cc coll key =
    applicablePolicy policies ccEP vpmgr txNum cc coll key >>= evaluatePolicy policies sd := by
  rw [keyVerdict, applicablePolicy, bind_assoc]
  congr 1
  funext vp
  by_cases hvp : vp = []
  · by_cases hc : coll = []
    · simp [hvp, ccVerdict, hc]
    · simp [hvp, ccVerdict, hc, bind_assoc]
  · simp [hvp]

/-- The keys that a namespace writes: their values or their metadata, public or in a collection. -/
@[mk_iff]
inductive WritesKey (ns : Vanilla.NsRwSet) : Bytes → Bytes → Prop
  | value {w : KVWrite} (h : w ∈ ns.kvRwSet.writes) : WritesKey ns [] w.key
  | metadata {w : KVMetadataWrite} (h : w ∈ ns.kvRwSet.metadataWrites) : WritesKey ns [] w.key
  | hashedValue {c : Vanilla.CollHashedRwSet} {w : Vanilla.KVWriteHash} (hc : c ∈ ns.collHashedRwSets)
      (h : w ∈ c.hashedRwSet.hashedWrites) : WritesKey ns c.collectionName w.keyHash
  | hashedMetadata {c : Vanilla.CollHashedRwSet} {w : KVMetadataWriteHash} (hc : c ∈ ns.collHashedRwSets)
      (h : w ∈ c.hashedRwSet.metadataWrites) : WritesKey ns c.collectionName w.keyHash

def Writes (nsRwSets : List Vanilla.NsRwSet) (cc coll key : Bytes) : Prop :=
  ∃ ns ∈ nsRwSets, ns.nameSpace = cc ∧ WritesKey ns coll key

theorem mem_nsWrites {ns : Vanilla.NsRwSet} {coll key : Bytes} : (coll, key) ∈ nsWrites ns ↔ WritesKey ns coll key := by
  simp only [nsWrites, writesKey_iff, List.mem_append, List.mem_map, List.mem_flatMap, Prod.mk.injEq]
  grind

theorem mem_writesTo {nsRwSets : List Vanilla.NsRwSet} {w : Option (Bytes × Bytes)} :
    w ∈ writesTo nsRwSets cc ↔ ∃ coll key, w = some (coll, key) ∧ Writes nsRwSets cc coll key := by
  simp only [writesTo, List.mem_map, List.mem_flatMap, List.mem_filter, decide_eq_true_eq, Writes]
  constructor
  · rintro ⟨⟨coll, key⟩, ⟨ns, ⟨hm, hns⟩, hw⟩, rfl⟩
    exact ⟨coll, key, rfl, ns, hm, hns, mem_nsWrites.mp hw⟩
  · rintro ⟨coll, key, rfl, ns, hm, hns, hw⟩
    exact ⟨(coll, key), ⟨ns, ⟨hm, hns⟩, mem_nsWrites.mpr hw⟩, rfl⟩

theorem evaluate_adapter :
    evaluate policies ccEP sd (adapterCheck policies ccEP sd cc) writes =
      if writes = [] then evaluatePolicy policies sd ccEP
      else writes.forM (writeVerdict fun coll _ => ccVerdict policies ccEP sd cc coll) :=
  evaluate_eq (fun coll _ => checkCCEPIfNotChecked_decides coll) writes

theorem evaluate_adapter_eq_base_iff :
    evaluate policies ccEP sd (adapterCheck policies ccEP sd cc) writes =
        evaluate policies ccEP sd (baseCheck policies vpmgr txNum ccEP sd cc) writes ↔
      SamePolicyVerdict policies ccEP sd vpmgr txNum cc writes := by
  rw [evaluate_base, evaluate_adapter]
  by_cases he : writes = []
  · subst he
    simp [SamePolicyVerdict]
  · rw [if_neg he, if_neg he, eq_comm]
    exact forM_eq_forM_iff

end

end

section

variable (codec : Codec) (policies : Policies) (vpmgr : VpManager) (txNum : UInt64) (cc ccEP : Bytes) (env : Envelope)

def SameVanillaVerdict : Prop :=
  ∀ va rwset, extractValidationArtifacts codec env = .ok va → codec.txRwSet.unmarshal va.rwset = some rwset →
    SamePolicyVerdict policies ccEP (va.endorsements.map (signedData va.prp)) vpmgr txNum cc (writesTo rwset.nsRwSets cc)

def SameLiteVerdict : Prop :=
  ∀ va sd rwset, extractValidationArtifactsLtx codec env = .ok va →
    va.endorsements.mapM (endorsementAsSignedDataForLightEnv codec (codec.responsePayload.marshal va.prp)) = .ok sd →
    va.rwset = some rwset → SamePolicyVerdict policies ccEP sd vpmgr txNum cc (writesToLtx rwset.nsRwset cc)

theorem pluginValidate_agrees_iff :
    pluginValidate codec policies (adapterCheck policies) cc ccEP env =
        pluginValidate codec policies (baseCheck policies vpmgr txNum) cc ccEP env ↔
      SameVanillaVerdict codec policies vpmgr txNum cc ccEP env := by
  simp only [pluginValidate, keyLevelValidate, orPolicyErr, bind_eq_bind_iff, mapErr_eq_ok,
    orErr_eq_ok, evaluate_adapter_eq_base_iff]
  exact ⟨fun h va rwset hva => h va hva rwset, fun h va hva rwset => h va rwset hva⟩

theorem pluginValidateLtx_agrees_iff :
    pluginValidateLtx codec policies (adapterCheck policies) cc ccEP env =
        pluginValidateLtx codec policies (baseCheck policies vpmgr txNum) cc ccEP env ↔
      SameLiteVerdict codec policies vpmgr txNum cc ccEP env := by
  simp only [pluginValidateLtx, keyLevelValidateLtx, orPolicyErr, bind_eq_bind_iff, mapErr_eq_ok,
    deref_eq_ok, evaluate_adapter_eq_base_iff]
  exact ⟨fun h va sd rwset hva hsd => h va hva sd hsd rwset, fun h va hva sd hsd rwset => h va sd rwset hva hsd⟩

/-- The adapter's evaluator agrees with the base evaluator, on the vanilla and on the lite form of a
transaction, just when no key-level policy decides differently from the policy of its collection. -/
theorem adapter_agrees_iff :
    (pluginValidate codec policies (adapterCheck policies) cc ccEP env =
        pluginValidate codec policies (baseCheck policies vpmgr txNum) cc ccEP env ↔
      SameVanillaVerdict codec policies vpmgr txNum cc ccEP env) ∧
    (pluginValidateLtx codec policies (adapterCheck policies) cc ccEP env =
        pluginValidateLtx codec policies (baseCheck policies vpmgr txNum) cc ccEP env ↔
      SameLiteVerdict codec policies vpmgr txNum cc ccEP env) :=
  ⟨pluginValidate_agrees_iff codec policies vpmgr txNum cc ccEP env,
    pluginValidateLtx_agrees_iff codec policies vpmgr txNum cc ccEP env⟩

end

def paymentByA : Envelope where
  type := .endorserTransaction
  leanEnv := some {
    results := some { nsRwset := [{
      nameSpace := [0x63]
      rwset := some { writes := [{ key := [0x6b], isDelete := false, value := [0x31] }] } }] }
    envMeta := some { endorsements := [{ endorser := some { mspid := [0x61] }, signature := [0x01] }] } }

def identityCodec : Codec :=
  { Codec.none with serializedIdentity := .ofTable [] [({ mspid := [0x61] }, [0x0a, 0x01, 0x61])] }

def signedByNamed : Policies where
  evaluate policy sd := sd.any fun s => s.identity = policy
  collectionValidationInfo _ _ := .ok []

def keyOwnedByB : VpManager where
  updates _ _ _ := []
  metadata _ _ key := .ok (if key = [0x6b] then [0x0a, 0x01, 0x62] else [])
  translate := some

theorem unsatisfied_key_policy_accepted :
    pluginValidateLtx identityCodec signedByNamed (adapterCheck signedByNamed) [0x63] [0x0a, 0x01, 0x61] paymentByA =
        .ok () ∧
      pluginValidateLtx identityCodec signedByNamed (baseCheck signedByNamed keyOwnedByB 0) [0x63] [0x0a, 0x01, 0x61]
        paymentByA = .err .endorsementPolicy := by
  decide

end Drunix.Peer
