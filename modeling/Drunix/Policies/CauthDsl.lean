import Drunix.Lib.Outcome
import Drunix.Proto.Envelope
import Mathlib.Data.Finset.Card
import Mathlib.Data.Set.BooleanAlgebra
import Mathlib.Order.CompletePartialOrder

namespace Drunix.Policies

open Lib Proto Outcome List

structure MSPPrincipal where
  principalClassification : Int32
  principal : Bytes
  deriving DecidableEq

/-- A rule as the decoder leaves it: the pointer may be nil and the type may be unset. -/
inductive SignaturePolicy
  | nil
  | unset
  | signedBy (signedBy : Int32)
  | nOutOf (n : Int32) (rules : List SignaturePolicy)

structure SignaturePolicyEnvelope where
  version : Int32
  rule : SignaturePolicy
  identities : List MSPPrincipal

structure IdentityIdentifier where
  mspid : Bytes
  id : Bytes
  deriving DecidableEq

structure Msp (Identity : Type) where
  deserializeIdentity : Bytes → Option Identity
  getIdentifier : Identity → IdentityIdentifier
  verify : Identity → Bytes → Bytes → Bool
  satisfiesPrincipal : Identity → MSPPrincipal → Bool

inductive PolicyError
  | unmarshal
  | version (version : Int32)
  | emptyPolicyElement
  | identityIndexOutOfRange (requested : Int32) (length : ℕ)
  | unknownType
  | invalidArguments
  | noSuchPolicy
  | notSatisfied
  deriving DecidableEq

abbrev Evaluator (Identity : Type) : Type :=
  List Identity → List Bool → Outcome PolicyError (Bool × List Bool)

section

variable {Identity : Type} (msp : Msp Identity)

/-- The loop of a `SignedBy` rule: the first unused identity that satisfies the principal is marked. -/
def signedByEvaluator (signedByID : MSPPrincipal) : Evaluator Identity
  | [], used => .ok (false, used)
  | _ :: _, [] => .panic
  | sd :: signedData, u :: used =>
    if !u && msp.satisfiesPrincipal sd signedByID then .ok (true, true :: used)
    else do
      let (found, used') ← signedByEvaluator signedByID signedData used
      .ok (found, u :: used')

/-- One round of the gate: the rule works on a copy, which is kept if it is satisfied. -/
def nOutOfRound (signedData : List Identity) (s : Int32 × List Bool) (policy : Evaluator Identity) :
    Outcome PolicyError (Int32 × List Bool) := do
  let (satisfied, _used) ← policy signedData s.2
  .ok (if satisfied then (s.1 + 1, _used) else s)

def nOutOfEvaluator (n : Int32) (policies : List (Evaluator Identity)) : Evaluator Identity :=
  fun signedData used => do
    let (verified, used') ← policies.foldlM (nOutOfRound signedData) (0, used)
    .ok (decide (n ≤ verified), used')

mutual

def compile (identities : List MSPPrincipal) : SignaturePolicy → Outcome PolicyError (Evaluator Identity)
  | .nil => .err .emptyPolicyElement
  | .unset => .err .unknownType
  | .signedBy k =>
    if k < 0 ∨ Int32.ofNat identities.length ≤ k then .err (.identityIndexOutOfRange k identities.length)
    else do
      let signedByID ← .deref (identities[k.toInt.toNat]?)
      .ok (signedByEvaluator msp signedByID)
  | .nOutOf n rules => do
      let policies ← compileRules identities rules
      .ok (nOutOfEvaluator n policies)

def compileRules (identities : List MSPPrincipal) :
    List SignaturePolicy → Outcome PolicyError (List (Evaluator Identity))
  | [] => .ok []
  | rule :: rules => do
      let policy ← compile identities rule
      let policies ← compileRules identities rules
      .ok (policy :: policies)

end

structure Policy (Identity : Type) where
  signaturePolicyEnvelope : SignaturePolicyEnvelope
  evaluator : Evaluator Identity

def newCompiledPolicy (sigPolicy : SignaturePolicyEnvelope) : Outcome PolicyError (Policy Identity) := do
  let evaluator ← compile msp sigPolicy.identities sigPolicy.rule
  .ok ⟨sigPolicy, evaluator⟩

def newPolicy (unmarshal : Bytes → Option SignaturePolicyEnvelope) (data : Bytes) :
    Outcome PolicyError (Policy Identity) := do
  let sigPolicy ← .orErr .unmarshal (unmarshal data)
  if sigPolicy.version ≠ 0 then .err (.version sigPolicy.version) else newCompiledPolicy msp sigPolicy

/-- `NewPolicy` of the provider for envelopes, which does not look at the version. -/
def newEnvelopeBasedPolicy : Option SignaturePolicyEnvelope → Outcome PolicyError (Policy Identity)
  | none => .err .invalidArguments
  | some sigPolicy => newCompiledPolicy msp sigPolicy

def addValidIdentity (s : List Bytes × List Identity) (sd : SignedData) : List Bytes × List Identity :=
  match msp.deserializeIdentity sd.identity with
  | none => s
  | some identity =>
    let key := (msp.getIdentifier identity).mspid ++ (msp.getIdentifier identity).id
    if key ∈ s.1 then s
    else if msp.verify identity sd.data sd.signature then (key :: s.1, s.2 ++ [identity])
    else s

def signatureSetToValidIdentities (signedData : List SignedData) : List Identity :=
  (signedData.foldl (addValidIdentity msp) ([], [])).2

def evaluateIdentities : Option (Policy Identity) → List Identity → Outcome PolicyError Unit
  | none, _ => .err .noSuchPolicy
  | some p, identities => do
      let (satisfied, _) ← p.evaluator identities (List.replicate identities.length false)
      if satisfied then .ok () else .err .notSatisfied

def evaluateSignedData (p : Option (Policy Identity)) (signatureSet : List SignedData) : Outcome PolicyError Unit :=
  match p with
  | none => .err .noSuchPolicy
  | some _ => evaluateIdentities p (signatureSetToValidIdentities msp signatureSet)

def Policy.Built (policy : Policy Identity) : Prop :=
  (∃ unmarshal data, newPolicy msp unmarshal data = .ok policy) ∨
    ∃ sigPolicy, newEnvelopeBasedPolicy msp sigPolicy = .ok policy

end

section

variable {Identity : Type} (msp : Msp Identity)

/-- Which identity stands for which leaf; a leaf is given by the path that leads to it. -/
abbrev Assignment (Identity : Type) : Type :=
  List ℕ → Option Identity

def Assignment.identifiers (f : Assignment Identity) : Set IdentityIdentifier :=
  {x | ∃ path identity, f path = some identity ∧ msp.getIdentifier identity = x}

/-- What it means that the assigned identities satisfy a rule. A leaf has one identity, which satisfies its principal.
A gate has at least `n` satisfied rules, which use disjoint sets of identities, and no identity is assigned under any
other rule. -/
inductive SatisfiedBy (identities : List MSPPrincipal) : SignaturePolicy → Assignment Identity → Prop
  | signedBy {k : Int32} {principal : MSPPrincipal} {identity : Identity} {f : Assignment Identity} (hindex : 0 ≤ k)
      (hprincipal : identities[k.toInt.toNat]? = some principal) (hassigned : f [] = some identity)
      (hsatisfies : msp.satisfiesPrincipal identity principal = true) (hothers : ∀ path, path ≠ [] → f path = none) :
      SatisfiedBy identities (.signedBy k) f
  | nOutOf {n : Int32} {rules : List SignaturePolicy} {f : Assignment Identity} (satisfied : Finset ℕ)
      (hcount : n.toInt ≤ satisfied.card) (hindex : ∀ i ∈ satisfied, i < rules.length)
      (hrules : ∀ i ∈ satisfied, ∀ rule, rules[i]? = some rule → SatisfiedBy identities rule fun path => f (i :: path))
      (hdisjoint : (satisfied : Set ℕ).PairwiseDisjoint fun i =>
        Assignment.identifiers msp fun path => f (i :: path))
      (hroot : f [] = none) (hothers : ∀ i path, i ∉ satisfied → f (i :: path) = none) :
      SatisfiedBy identities (.nOutOf n rules) f

def ValidlySigned (signatureSet : List SignedData) (identity : Identity) : Prop :=
  ∃ sd ∈ signatureSet, msp.deserializeIdentity sd.identity = some identity ∧
    msp.verify identity sd.data sd.signature = true

end

section

variable {Identity : Type} {msp : Msp Identity} {identities : List MSPPrincipal} {f : Assignment Identity}
  {principal : MSPPrincipal}

theorem SatisfiedBy.injective {policy : SignaturePolicy} (h : SatisfiedBy msp identities policy f) {p q : List ℕ}
    {a b : Identity} (hp : f p = some a) (hq : f q = some b) (hab : msp.getIdentifier a = msp.getIdentifier b) :
    p = q := by
  induction h generalizing p q with
  | signedBy _ _ _ _ ho =>
    have hl : ∀ {path : List ℕ} {c : Identity}, _ = some c → path = [] := fun {path} {c} hc =>
      by_contra fun hne => Option.some_ne_none c (hc.symm.trans (ho path hne))
    rw [hl hp, hl hq]
  | nOutOf satisfied hcn hin hr hd hrt ho ih =>
    cases p with
    | nil => exact absurd (hp.symm.trans hrt) (Option.some_ne_none a)
    | cons i p =>
    cases q with
    | nil => exact absurd (hq.symm.trans hrt) (Option.some_ne_none b)
    | cons j q =>
    have hm : ∀ {i : ℕ} {path : List ℕ} {c : Identity}, _ = some c → i ∈ satisfied := fun {i} {path} {c} hc =>
      by_contra fun hi => Option.some_ne_none c (hc.symm.trans (ho i path hi))
    have hi := hm hp
    have hj := hm hq
    obtain rfl : i = j := by
      by_contra hne
      exact Set.disjoint_left.mp (hd hi hj hne) ⟨p, a, hp, rfl⟩ ⟨q, b, hq, hab.symm⟩
    obtain ⟨rule, hrl⟩ : ∃ rule, _ = some rule := ⟨_, getElem?_eq_getElem (hin i hi)⟩
    rw [ih i hi rule hrl hp hq]

def marked (used : List Bool) : Set ℕ :=
  {k | used[k]? = some true}

theorem exists_of_signedByEvaluator {ids : List Identity} {used used' : List Bool}
    (h : signedByEvaluator msp principal ids used = .ok (true, used')) :
    ∃ k identity, ids[k]? = some identity ∧ msp.satisfiesPrincipal identity principal = true ∧ k ∉ marked used ∧
      marked used' = insert k (marked used) := by
  induction ids generalizing used used' with
  | nil => simp [signedByEvaluator] at h
  | cons sd ids ih =>
    cases used with
    | nil => simp [signedByEvaluator] at h
    | cons u used =>
    rw [signedByEvaluator] at h
    split at h
    next hf =>
      obtain rfl : true :: used = used' := by simpa using h
      rw [Bool.and_eq_true, Bool.not_eq_true'] at hf
      refine ⟨0, sd, rfl, hf.2, by simp [marked, hf.1], Set.ext fun k => ?_⟩
      cases k <;> simp [marked]
    next =>
      obtain ⟨⟨found, rest⟩, hr, hok⟩ := bind_eq_ok.mp h
      obtain ⟨rfl, rfl⟩ : found = true ∧ u :: rest = used' := by simpa using hok
      obtain ⟨k, identity, hk, hst, hn, hmr⟩ := ih hr
      refine ⟨k + 1, identity, by simpa using hk, hst, by simpa [marked] using hn, Set.ext fun j => ?_⟩
      cases j with
      | zero => simp [marked]
      | succ j => simpa [marked] using Set.ext_iff.mp hmr j

section

variable (msp) (identities) (ids : List Identity)

/-- What a compiled rule guarantees when it is satisfied: it only adds marks, and the identities that it marks satisfy
the rule. -/
def Sound (rule : SignaturePolicy) (policy : Evaluator Identity) : Prop :=
  ∀ used used', policy ids used = .ok (true, used') → marked used ⊆ marked used' ∧
    ∃ f, SatisfiedBy msp identities rule f ∧
      ∀ path identity, f path = some identity → ∃ k ∈ marked used' \ marked used, ids[k]? = some identity

end

variable {ids : List Identity} {g : Assignment Identity}

theorem disjoint_identifiers (hids : (ids.map msp.getIdentifier).Nodup) {K L : Set ℕ} (hKL : Disjoint K L)
    (hf : ∀ path identity, f path = some identity → ∃ k ∈ K, ids[k]? = some identity)
    (hg : ∀ path identity, g path = some identity → ∃ k ∈ L, ids[k]? = some identity) :
    Disjoint (f.identifiers msp) (g.identifiers msp) := by
  rw [Set.disjoint_left]
  rintro x ⟨p, a, hp, rfl⟩ ⟨q, b, hq, hab⟩
  obtain ⟨k, hk, hka⟩ := hf p a hp
  obtain ⟨l, hl, hlb⟩ := hg q b hq
  have hkl : k = l := by
    refine (getElem?_inj ?_ hids).mp ?_
    · rw [List.length_map]
      exact (List.getElem?_eq_some_iff.mp hka).1
    · simp [hka, hlb, hab]
  exact Set.disjoint_left.mp hKL hk (hkl ▸ hl)

/-- The counter of a gate is a 32-bit integer: it may wrap, but never runs ahead of the count. -/
theorem toInt_succ_le (v : Int32) : (v + 1).toInt ≤ v.toInt + 1 := by
  rw [Int32.toInt_add, Int32.toInt_one, Int.bmod]
  have hlw := v.le_toInt
  split <;> omega

theorem sound_signedBy {k : Int32} (hk : 0 ≤ k) (hp : identities[k.toInt.toNat]? = some principal) :
    Sound msp identities ids (.signedBy k) (signedByEvaluator msp principal) := by
  intro used used' h
  obtain ⟨j, identity, hj, hst, hn, hmr⟩ := exists_of_signedByEvaluator h
  rw [hmr]
  refine ⟨Set.subset_insert j _, fun path => if path = [] then some identity else none, ?_, fun path a ha => ?_⟩
  · exact .signedBy hk hp (if_pos rfl) hst fun path hpt => if_neg hpt
  · by_cases hpt : path = []
    · cases (if_pos hpt).symm.trans ha
      exact ⟨j, ⟨Set.mem_insert j _, hn⟩, hj⟩
    · cases (if_neg hpt).symm.trans ha

/-- What the loop of a gate has gathered: the satisfied rules with an assignment for each. -/
structure Gathered (msp : Msp Identity) (identities : List MSPPrincipal) (ids : List Identity)
    (rules : List SignaturePolicy) (rounds : ℕ) (used : List Bool) (s : Int32 × List Bool) (satisfied : Finset ℕ)
    (f : ℕ → Assignment Identity) : Prop where
  count : s.1.toInt ≤ satisfied.card
  index : ∀ i ∈ satisfied, i < rounds ∧ i < rules.length
  rules : ∀ i ∈ satisfied, ∀ rule, rules[i]? = some rule → SatisfiedBy msp identities rule (f i)
  disjoint : (satisfied : Set ℕ).PairwiseDisjoint fun i => (f i).identifiers msp
  grows : marked used ⊆ marked s.2
  marks : ∀ i ∈ satisfied, ∀ path identity, f i path = some identity →
    ∃ k ∈ marked s.2 \ marked used, ids[k]? = some identity

variable {rules : List SignaturePolicy} {rounds : ℕ} {used used' : List Bool} {s : Int32 × List Bool}
  {satisfied : Finset ℕ} {f : ℕ → Assignment Identity} {policies : List (Evaluator Identity)}

namespace Gathered

theorem start : Gathered msp identities ids rules 0 used (0, used) ∅ fun _ _ => none where
  count := by simp
  index := by simp
  rules := by simp
  disjoint := by simp
  grows := subset_rfl
  marks := by simp

theorem skip (h : Gathered msp identities ids rules rounds used s satisfied f) :
    Gathered msp identities ids rules (rounds + 1) used s satisfied f :=
  { h with index := fun i hi => ⟨(h.index i hi).1.trans (Nat.lt_succ_self rounds), (h.index i hi).2⟩ }

theorem add (hids : (ids.map msp.getIdentifier).Nodup) (h : Gathered msp identities ids rules rounds used s satisfied f)
    {rule : SignaturePolicy} (hr : rules[rounds]? = some rule) (hg : SatisfiedBy msp identities rule g)
    (hgr : marked s.2 ⊆ marked used')
    (hmr : ∀ path identity, g path = some identity → ∃ k ∈ marked used' \ marked s.2, ids[k]? = some identity) :
    Gathered msp identities ids rules (rounds + 1) used (s.1 + 1, used') (insert rounds satisfied)
      (Function.update f rounds g) := by
  have hf : rounds ∉ satisfied := fun hm => absurd (h.index rounds hm).1 (lt_irrefl rounds)
  have ho : ∀ i ∈ satisfied, Function.update f rounds g i = f i := fun i hi =>
    Function.update_of_ne (ne_of_mem_of_not_mem hi hf) g f
  constructor
  case count =>
    rw [Finset.card_insert_of_notMem hf]
    have := toInt_succ_le s.1
    have := h.count
    push_cast
    omega
  case index =>
    refine Finset.forall_mem_insert _ _ _ |>.mpr ⟨?_, h.skip.index⟩
    exact ⟨Nat.lt_succ_self rounds, (List.getElem?_eq_some_iff.mp hr).1⟩
  case rules =>
    refine Finset.forall_mem_insert _ _ _ |>.mpr ⟨?_, fun i hi => ?_⟩
    · rw [Function.update_self, hr]
      exact fun _ hr' => Option.some.inj hr' ▸ hg
    · rw [ho i hi]
      exact h.rules i hi
  case disjoint =>
    rw [Finset.coe_insert]
    refine (Set.pairwiseDisjoint_insert_of_notMem (by exact_mod_cast hf)).mpr ⟨?_, fun i hi => ?_⟩
    · intro i hi j hj hne
      simpa only [Function.onFun, ho i hi, ho j hj] using h.disjoint hi hj hne
    · -- The new rule marks identities that no earlier rule has marked.
      rw [Function.update_self, ho i hi]
      refine disjoint_identifiers hids ?_ hmr (h.marks i hi)
      exact Set.disjoint_left.mpr fun k hk hk' => hk.2 hk'.1
  case grows => exact h.grows.trans hgr
  case marks =>
    refine Finset.forall_mem_insert _ _ _ |>.mpr ⟨fun path identity hp => ?_, fun i hi path identity hp => ?_⟩
    · rw [Function.update_self] at hp
      obtain ⟨k, hk, hkd⟩ := hmr path identity hp
      exact ⟨k, ⟨hk.1, fun hu => hk.2 (h.grows hu)⟩, hkd⟩
    · rw [ho i hi] at hp
      obtain ⟨k, hk, hkd⟩ := h.marks i hi path identity hp
      exact ⟨k, ⟨hgr hk.1, hk.2⟩, hkd⟩

end Gathered

section

variable (hids : (ids.map msp.getIdentifier).Nodup)
  (hpolicies : ∀ (i : ℕ) policy, policies[i]? = some policy → ∃ rule, rules[i]? = some rule ∧ Sound msp identities ids rule policy)
include hids hpolicies

/-- The loop of a gate, by induction on the rounds: each round adds its rule or leaves everything as it was. -/
theorem exists_gathered (h : policies.foldlM (nOutOfRound ids) (0, used) = .ok s) :
    ∃ satisfied f, Gathered msp identities ids rules policies.length used s satisfied f := by
  induction policies using List.reverseRecOn generalizing s with
  | nil =>
    cases h
    exact ⟨_, _, .start⟩
  | append_singleton policies policy ih =>
    rw [foldlM_append, bind_eq_ok] at h
    obtain ⟨s₁, hs₁, hl⟩ := h
    obtain ⟨s₂, hrn, hs₂⟩ := bind_eq_ok.mp hl
    cases hs₂
    obtain ⟨satisfied, f, hgt⟩ := ih (fun i p hp => hpolicies i p (by
      rwa [List.getElem?_append_left (List.getElem?_eq_some_iff.mp hp).1])) hs₁
    obtain ⟨rule, hr, hsn⟩ := hpolicies policies.length policy (by simp)
    obtain ⟨⟨found, used'⟩, hpl, hok⟩ := bind_eq_ok.mp hrn
    rw [length_append]
    cases found with
    | false =>
      cases hok
      exact ⟨satisfied, f, hgt.skip⟩
    | true =>
      cases hok
      obtain ⟨hgr, g, hg, hmr⟩ := hsn _ _ hpl
      exact ⟨_, _, hgt.add hids hr hg hgr hmr⟩

theorem sound_nOutOf {n : Int32} : Sound msp identities ids (.nOutOf n rules) (nOutOfEvaluator n policies) := by
  intro used used' h
  obtain ⟨s, hs, hok⟩ := bind_eq_ok.mp h
  obtain ⟨hn, rfl⟩ : n ≤ s.1 ∧ s.2 = used' := by simpa using hok
  obtain ⟨satisfied, f, hg⟩ := exists_gathered hids hpolicies hs
  -- The assignment of the gate sends a path to the rule it starts with.
  let F : Assignment Identity := fun path => path.head?.bind fun i => if i ∈ satisfied then f i path.tail else none
  have hF : ∀ i ∈ satisfied, (fun path => F (i :: path)) = f i := fun i hi => funext fun path => if_pos hi
  refine ⟨hg.grows, F, .nOutOf satisfied ?_ ?_ ?_ ?_ rfl fun i path hi => if_neg hi, ?_⟩
  · exact (Int32.le_iff_toInt_le.mp hn).trans hg.count
  · exact fun i hi => (hg.index i hi).2
  · intro i hi rule hr
    rw [hF i hi]
    exact hg.rules i hi rule hr
  · intro i hi j hj hne
    simpa only [Function.onFun, hF i hi, hF j hj] using hg.disjoint hi hj hne
  · intro path identity hp
    cases path with
    | nil => cases hp
    | cons i path =>
      by_cases hi : i ∈ satisfied
      · exact hg.marks i hi path identity (by rw [← hp, ← hF i hi])
      · cases hp.symm.trans (if_neg hi)

end

mutual

theorem sound_compile (hids : (ids.map msp.getIdentifier).Nodup) (rule : SignaturePolicy)
    {policy : Evaluator Identity} (h : compile msp identities rule = .ok policy) :
    Sound msp identities ids rule policy := by
  cases rule with
  | nil => simp [compile] at h
  | unset => simp [compile] at h
  | signedBy k =>
    rw [compile] at h
    split at h
    next => cases h
    next hk =>
      obtain ⟨principal, hp, hok⟩ := bind_eq_ok.mp h
      cases hok
      refine sound_signedBy (Int32.not_lt.mp fun hn => hk (.inl hn)) ?_
      exact deref_eq_ok.mp hp
  | nOutOf n rules =>
    obtain ⟨policies, hpolicies, hok⟩ := bind_eq_ok.mp h
    cases hok
    exact sound_nOutOf hids (sound_compileRules hids rules hpolicies)

theorem sound_compileRules (hids : (ids.map msp.getIdentifier).Nodup) (rules : List SignaturePolicy)
    {policies : List (Evaluator Identity)} (h : compileRules msp identities rules = .ok policies) (i : ℕ)
    (policy : Evaluator Identity) (hi : policies[i]? = some policy) :
    ∃ rule, rules[i]? = some rule ∧ Sound msp identities ids rule policy := by
  cases rules with
  | nil =>
    cases h
    simp at hi
  | cons rule rules =>
    obtain ⟨first, hf, h⟩ := bind_eq_ok.mp h
    obtain ⟨rest, hr, hok⟩ := bind_eq_ok.mp h
    cases hok
    cases i with
    | zero =>
      cases hi
      exact ⟨rule, rfl, sound_compile hids rule hf⟩
    | succ i => exact sound_compileRules hids rules hr i policy hi

end

structure SignedOnce (msp : Msp Identity) (signatureSet : List SignedData) (s : List Bytes × List Identity) : Prop where
  signed : ∀ identity ∈ s.2, ValidlySigned msp signatureSet identity
  keys : ∀ identity ∈ s.2, (msp.getIdentifier identity).mspid ++ (msp.getIdentifier identity).id ∈ s.1
  nodup : (s.2.map msp.getIdentifier).Nodup

theorem SignedOnce.add {signatureSet : List SignedData} {s : List Bytes × List Identity}
    (h : SignedOnce msp signatureSet s) {sd : SignedData} (hsd : sd ∈ signatureSet) :
    SignedOnce msp signatureSet (addValidIdentity msp s sd) := by
  unfold addValidIdentity
  cases hi : msp.deserializeIdentity sd.identity with
  | none => exact h
  | some identity =>
    dsimp only
    split
    next => exact h
    next hn =>
      split
      next hvr =>
        refine ⟨?_, ?_, ?_⟩
        · exact forall_mem_append.mpr ⟨h.signed, forall_mem_singleton.mpr ⟨sd, hsd, hi, hvr⟩⟩
        · refine forall_mem_append.mpr ⟨fun a ha => ?_, forall_mem_singleton.mpr mem_cons_self⟩
          exact mem_cons_of_mem _ (h.keys a ha)
        · rw [map_append, map_singleton, ← concat_eq_append]
          refine h.nodup.concat fun hm => ?_
          -- An equal identifier would have had the same key.
          obtain ⟨a, ha, heq⟩ := mem_map.mp hm
          exact hn (heq ▸ h.keys a ha)
      next => exact h

theorem signedOnce_signatureSetToValidIdentities (msp : Msp Identity) (signatureSet : List SignedData) :
    SignedOnce msp signatureSet (signatureSet.foldl (addValidIdentity msp) ([], [])) := by
  refine foldlRecOn signatureSet _ ⟨by simp, by simp, by simp⟩ ?_
  exact fun s hs sd hsd => hs.add hsd

theorem Policy.Built.compile_eq {policy : Policy Identity} (h : policy.Built msp) :
    compile msp policy.signaturePolicyEnvelope.identities policy.signaturePolicyEnvelope.rule =
      .ok policy.evaluator := by
  have hc : ∀ {sigPolicy : SignaturePolicyEnvelope}, newCompiledPolicy msp sigPolicy = .ok policy →
      compile msp policy.signaturePolicyEnvelope.identities policy.signaturePolicyEnvelope.rule =
        .ok policy.evaluator := by
    intro sigPolicy hn
    obtain ⟨evaluator, he, hok⟩ := bind_eq_ok.mp hn
    cases hok
    exact he
  obtain ⟨unmarshal, data, hn⟩ | ⟨sigPolicy, hn⟩ := h
  · obtain ⟨sigPolicy, -, hn⟩ := bind_eq_ok.mp hn
    split at hn
    next => cases hn
    next => exact hc hn
  · cases sigPolicy with
    | none => cases hn
    | some sigPolicy => exact hc hn

end

/-- A signature policy is satisfied by identities that each have a valid signature in the set and that stand for one
leaf each. -/
theorem evaluateSignedData_counts_no_signer_twice {Identity : Type} (msp : Msp Identity) (policy : Policy Identity)
    (hbuilt : policy.Built msp) (signatureSet : List SignedData)
    (h : evaluateSignedData msp (some policy) signatureSet = .ok ()) :
    ∃ f : Assignment Identity,
      SatisfiedBy msp policy.signaturePolicyEnvelope.identities policy.signaturePolicyEnvelope.rule f ∧
      (∀ path identity, f path = some identity → ValidlySigned msp signatureSet identity) ∧
      ∀ p q a b, f p = some a → f q = some b → msp.getIdentifier a = msp.getIdentifier b → p = q := by
  have hsg := signedOnce_signatureSetToValidIdentities msp signatureSet
  obtain ⟨⟨satisfied, used'⟩, he, hok⟩ := bind_eq_ok.mp h
  obtain rfl : satisfied = true := by
    cases satisfied with
    | true => rfl
    | false => cases hok
  obtain ⟨-, f, hf, hmr⟩ := sound_compile hsg.nodup _ hbuilt.compile_eq _ _ he
  refine ⟨f, hf, fun path identity hpt => ?_, fun p q a b hp hq hab => hf.injective hp hq hab⟩
  obtain ⟨k, -, hk⟩ := hmr path identity hpt
  exact hsg.signed identity (mem_of_getElem? hk)

def exampleMsp : Msp IdentityIdentifier where
  deserializeIdentity serializedIdentity := some ⟨ascii "Org1MSP", serializedIdentity⟩
  getIdentifier := id
  verify _ _ signature := decide (signature = ascii "valid")
  satisfiesPrincipal identity principal := decide (identity.mspid = principal.principal)

def exampleMember : MSPPrincipal where
  principalClassification := 0
  principal := ascii "Org1MSP"

def examplePolicy : Policy IdentityIdentifier where
  signaturePolicyEnvelope :=
    { version := 0, rule := .nOutOf 2 [.signedBy 0, .signedBy 0], identities := [exampleMember] }
  evaluator := nOutOfEvaluator 2 [signedByEvaluator exampleMsp exampleMember, signedByEvaluator exampleMsp exampleMember]

def exampleSignature (identity : String) : SignedData where
  data := []
  identity := ascii identity
  signature := ascii "valid"

theorem evaluateSignedData_counts_no_signer_twice_examplePolicy :
    evaluateSignedData exampleMsp (some examplePolicy) [exampleSignature "a", exampleSignature "a"] =
      .err .notSatisfied ∧
    evaluateSignedData exampleMsp (some examplePolicy) [exampleSignature "a", exampleSignature "b"] = .ok () ∧
    ∃ f : Assignment IdentityIdentifier,
      SatisfiedBy exampleMsp examplePolicy.signaturePolicyEnvelope.identities
        examplePolicy.signaturePolicyEnvelope.rule f ∧
      (∀ path identity, f path = some identity →
        ValidlySigned exampleMsp [exampleSignature "a", exampleSignature "b"] identity) ∧
      ∀ p q a b, f p = some a → f q = some b → exampleMsp.getIdentifier a = exampleMsp.getIdentifier b → p = q := by
  have hb : examplePolicy.Built exampleMsp := .inr ⟨some examplePolicy.signaturePolicyEnvelope, rfl⟩
  have hok : evaluateSignedData exampleMsp (some examplePolicy) [exampleSignature "a", exampleSignature "b"] =
      .ok () := by decide
  exact ⟨by decide, hok, evaluateSignedData_counts_no_signer_twice exampleMsp examplePolicy hb _ hok⟩

end Drunix.Policies
