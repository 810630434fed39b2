import Drunix.Peer.KeyLevelAgreement
import Drunix.Peer.TxValidator

namespace Drunix.Peer

open Lib Proto Outcome

def loopCode : Outcome NsFailure Unit → Outcome TxFailure TxValidationCode
  | .ok _ => .ok .valid
  | .err e => .ok e.code
  | .panic => .panic

def returnedCode (lcr : LifecycleResources) (verdict : Bytes → Bytes → Outcome TxValidationError Unit)
    (order : MapOrder) (namespaces : Outcome TxFailure (Bytes × List Bytes)) : Outcome TxFailure TxValidationCode :=
  match namespaces with
  | .ok (channelId, nss) => loopCode ((order.visit nss).forM (checkNamespace lcr channelId verdict))
  | .err (.invalid code) => .ok code
  | .err .halt => .err .halt
  | .panic => .panic

section

variable (codec : Codec) (lcr : LifecycleResources) (policies : Policies) (check : WriteCheck)

def dispatchCode (order : MapOrder) (payload : Payload) (env : Envelope) : Outcome TxFailure TxValidationCode :=
  returnedCode lcr (fun ns policy => pluginValidate codec policies check ns policy env) order
    (dispatchNamespaces codec payload env)

def dispatchCodeLtx (order : MapOrder) (env : Envelope) : Outcome TxFailure TxValidationCode :=
  returnedCode lcr (fun ns policy => pluginValidateLtx codec policies check ns policy env) order
    (dispatchNamespacesLtx codec env)

end

section

variable {codec : Codec} {lcr : LifecycleResources} {policies : Policies} {check : WriteCheck}
  {verdict : Bytes → Bytes → Outcome TxValidationError Unit}

def FailAlike (lcr : LifecycleResources) (verdict : Bytes → Bytes → Outcome TxValidationError Unit) (channelId : Bytes)
    (nss : List Bytes) : Prop :=
  ∀ ns ∈ nss, ∀ ns' ∈ nss, checkNamespace lcr channelId verdict ns ≠ .ok () →
    checkNamespace lcr channelId verdict ns' ≠ .ok () →
      loopCode (checkNamespace lcr channelId verdict ns) = loopCode (checkNamespace lcr channelId verdict ns')

def MapOrder.of (l₁ : List Bytes) : MapOrder where
  visit l := if l₁.Perm l then l₁ else l
  perm l := by
    split_ifs with h
    · exact h
    · exact .refl l

theorem returnedCode_order_iff (namespaces : Outcome TxFailure (Bytes × List Bytes)) :
    (∀ order order' : MapOrder, returnedCode lcr verdict order namespaces = returnedCode lcr verdict order' namespaces) ↔
      ∀ channelId nss, namespaces = .ok (channelId, nss) → FailAlike lcr verdict channelId nss := by
  cases namespaces with
  | ok target =>
    obtain ⟨channelId, nss⟩ := target
    have hl := @forM_perm_iff _ _ _ nss (checkNamespace lcr channelId verdict) _ loopCode
    constructor
    · intro h channelId' nss' heq
      cases heq
      refine hl.mp fun l₁ l₂ h₁ h₂ => ?_
      have heq := h (.of l₁) (.of l₂)
      rw [returnedCode, returnedCode] at heq
      dsimp only [MapOrder.of] at heq
      rwa [if_pos h₁, if_pos h₂] at heq
    · intro h order order'
      exact hl.mpr (h channelId nss rfl) _ _ (order.perm nss) (order'.perm nss)
  | err e =>
    refine iff_of_true (fun _ _ => ?_) nofun
    cases e <;> rfl
  | panic => exact iff_of_true (fun _ _ => rfl) nofun

end

/-- The code returned by `Dispatch` and that returned by `DispatchLtx` do not depend on the order of the written
namespaces exactly if all the namespaces that fail do so with one code. -/
theorem dispatch_order_independent_iff (codec : Codec) (lcr : LifecycleResources) (policies : Policies)
    (check : WriteCheck) (payload : Payload) (env : Envelope) :
    ((∀ order order' : MapOrder, dispatchCode codec lcr policies check order payload env =
        dispatchCode codec lcr policies check order' payload env) ↔
      ∀ channelId nss, dispatchNamespaces codec payload env = .ok (channelId, nss) →
        FailAlike lcr (fun ns policy => pluginValidate codec policies check ns policy env) channelId nss) ∧
    ((∀ order order' : MapOrder, dispatchCodeLtx codec lcr policies check order env =
        dispatchCodeLtx codec lcr policies check order' env) ↔
      ∀ channelId nss, dispatchNamespacesLtx codec env = .ok (channelId, nss) →
        FailAlike lcr (fun ns policy => pluginValidateLtx codec policies check ns policy env) channelId nss) :=
  ⟨returnedCode_order_iff _, returnedCode_order_iff _⟩

def twoNamespaces : Envelope where
  type := .endorserTransaction
  leanEnv := some {
    channelId := ascii "ch"
    results := some { nsRwset := [
      { nameSpace := ascii "a", rwset := some { writes := [⟨ascii "k", false, ascii "v"⟩] } },
      { nameSpace := ascii "b", rwset := some { writes := [⟨ascii "k", false, ascii "v"⟩] } }] }
    envMeta := some { chaincodeID := some { name := ascii "a", version := ascii "1" } } }

def onlyADefined : LifecycleResources :=
  fun _ cc => if cc = ascii "a" then .ok (ascii "vscc", ascii "policy") else .err .validation

/-- Nobody has endorsed the transaction: `a` fails its policy and `b` has none, and the first to be visited decides. -/
theorem twoNamespaces_code_depends_on_order :
    dispatchCodeLtx Codec.none onlyADefined signedByNamed (adapterCheck signedByNamed)
        (.of [ascii "a", ascii "b"]) twoNamespaces = .ok .endorsementPolicyFailure ∧
      dispatchCodeLtx Codec.none onlyADefined signedByNamed (adapterCheck signedByNamed)
        (.of [ascii "b", ascii "a"]) twoNamespaces = .ok .invalidChaincode := by
  decide

end Drunix.Peer
