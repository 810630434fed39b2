import Drunix.Lib.Transition
import Drunix.Peer.PanicFreedom

namespace Drunix.Peer

open Lib Proto Outcome

/-- One call of the service's plugin: a transaction of a request and one of the namespaces it writes to. -/
structure PluginCall where
  blockNum : UInt64
  txNum : UInt64
  ns : Bytes
  policy : Bytes
  env : Envelope

abbrev Verdict := Outcome TxValidationError Unit

/-- What the plugin of the service decides. It asks the validation-parameter manager for nothing. -/
def PluginCall.verdict (codec : Codec) (policies : Policies) (lean : Bool) (q : PluginCall) : Verdict :=
  if lean then pluginValidateLtx codec policies (adapterCheck policies) q.ns q.policy q.env
  else pluginValidate codec policies (adapterCheck policies) q.ns q.policy q.env

/-- The dependencies of the block that was seen last. `deps` has the results of every dependency there has been; the
map has the positions of those of the block, and is nil before the first block. -/
structure ValidationContext where
  blockHeight : UInt64 := 0
  depsByTxnumMap : Option (UInt64 → Option Nat) := none
  deps : List (Bytes → Option Verdict) := []

namespace ValidationContext

variable (ctx : ValidationContext)

def dependency (txNum : UInt64) : Option Nat :=
  ctx.depsByTxnumMap.bind fun deps => deps txNum

/-- `forBlock` under the write lock. -/
def reset (newHeight : UInt64) : ValidationContext :=
  if ctx.blockHeight < newHeight then { ctx with blockHeight := newHeight, depsByTxnumMap := some fun _ => none }
  else ctx

/-- `getOrCreateDependencyByTxnum` under the write lock; a write to a nil map panics. -/
def createDependency (txNum : UInt64) : Outcome Unit (ValidationContext × Nat) :=
  match ctx.dependency txNum with
  | some dep => .ok (ctx, dep)
  | none => do
      let deps ← .deref ctx.depsByTxnumMap
      return ({ ctx with
        depsByTxnumMap := some (Function.update deps txNum (some ctx.deps.length))
        deps := ctx.deps ++ [fun _ => none] }, ctx.deps.length)

def signalValidationResult (dep : Nat) (ns : Bytes) (r : Verdict) : ValidationContext :=
  { ctx with deps := ctx.deps.modify dep fun results => Function.update results ns (some r) }

end ValidationContext

/-- How far a call has come: after the plugin has decided, `PostValidate` takes the lock of the context several
times. -/
inductive Stage where
  | idle
  | arrived (q : PluginCall)
  | forBlock (q : PluginCall) (r : Verdict)
  | reset (q : PluginCall) (r : Verdict)
  | lookup (q : PluginCall) (r : Verdict)
  | create (q : PluginCall) (r : Verdict)
  | signal (q : PluginCall) (r : Verdict) (dep : Nat)
  | done (q : PluginCall) (r : Verdict)

/-- The part of `Validate` up to the next lock. The lean plugin makes no `PostValidate`. -/
def Stage.next (codec : Codec) (policies : Policies) (lean : Bool) (ctx : ValidationContext) :
    Stage → Outcome Unit (ValidationContext × Stage)
  | idle => .err ()
  | arrived q =>
    match q.verdict codec policies lean with
    | .panic => .panic
    | r => .ok (ctx, if lean then done q r else forBlock q r)
  | forBlock q r =>
    if q.blockNum < ctx.blockHeight then .panic
    else .ok (ctx, if ctx.blockHeight < q.blockNum then reset q r else lookup q r)
  | reset q r => .ok (ctx.reset q.blockNum, lookup q r)
  | lookup q r =>
    match ctx.dependency q.txNum with
    | some dep => .ok (ctx, signal q r dep)
    | none => .ok (ctx, create q r)
  | create q r => do
      let (ctx, dep) ← ctx.createDependency q.txNum
      return (ctx, signal q r dep)
  | signal q r dep => .ok (ctx.signalValidationResult dep q.ns r, done q r)
  | done _ _ => .err ()

structure Service where
  ctx : ValidationContext := {}
  stage : Nat → Stage := fun _ => .idle
  panicked : Bool := false

section

variable (codec : Codec) (policies : Policies) (lean : Bool)

def Service.act (s : Service) (i : Nat) : Service :=
  match (s.stage i).next codec policies lean s.ctx with
  | .ok (ctx, stage) => { s with ctx := ctx, stage := Function.update s.stage i stage }
  | .err _ => s
  | .panic => { s with panicked := true }

inductive ServiceStep (s : Service) : Nat → Service → Prop
  | arrive {i : Nat} (q : PluginCall) (hidle : s.stage i = .idle) :
      ServiceStep s i { s with stage := Function.update s.stage i (.arrived q) }
  | act {i : Nat} : ServiceStep s i (s.act codec policies lean i)

def ServiceRun : Service → Prop :=
  Reachable (fun s => s = {}) fun s t => ∃ i, ServiceStep codec policies lean s i t

def AloneVerdict (q : PluginCall) (r : Verdict) : Prop :=
  ∃ s, Reachable (fun s => s = {}) (fun s t => ServiceStep codec policies lean s 0 t) s ∧ s.stage 0 = .done q r

/-- The envelope of a call has what the checks before the plugin look for, and no nil message among its writes. -/
def PluginCall.WellFormed (q : PluginCall) : Prop :=
  if lean = true then
    q.env.type = .endorserTransaction ∧ ∃ leanEnv envMeta results, q.env.leanEnv = some leanEnv ∧
      leanEnv.envMeta = some envMeta ∧ leanEnv.results = some results ∧ ∀ w ∈ writesToLtx results.nsRwset q.ns, w ≠ none
  else ∃ payload hdr, unmarshalPayload codec q.env.payload = some payload ∧ payload.header = some hdr ∧
    HasAction codec payload

/-- A call comes to `forBlock` when no later block has been seen, and not with block 0 before there are maps. -/
def Admitted (ctx : ValidationContext) : Stage → Prop
  | .arrived q => q.WellFormed codec lean
  | .forBlock q _ => ctx.blockHeight ≤ q.blockNum ∧ (q.blockNum ≠ 0 ∨ ctx.depsByTxnumMap ≠ none)
  | _ => True

def AdmittedRun : Service → Prop :=
  Reachable (fun s => s = {}) fun s t =>
    ∃ i, ServiceStep codec policies lean s i t ∧ Admitted codec lean s.ctx (s.stage i)

end

section

variable {codec : Codec} {policies : Policies} {lean : Bool}

variable {q : PluginCall}

theorem verdict_ne_panic (hpol : ∀ cc coll, policies.collectionValidationInfo cc coll ≠ .panic)
    (hq : q.WellFormed codec lean) : q.verdict codec policies lean ≠ .panic := by
  unfold PluginCall.WellFormed at hq
  unfold PluginCall.verdict
  split_ifs at hq ⊢
  · obtain ⟨ht, leanEnv, envMeta, results, hl, hm, hr, hw⟩ := hq
    rw [pluginValidateLtx_eq ht hl hm, hr]
    exact bind_ne_panic (ltxSignedData_ne_panic leanEnv envMeta) fun sd _ =>
      calmCheck_adapter hpol q.policy sd q.ns _ hw
  · obtain ⟨payload, hdr, hp, hh, ha⟩ := hq
    exact pluginValidate_ne_panic (calmCheck_adapter hpol) hp hh ha q.ns q.policy

variable {ctx : ValidationContext}

theorem Stage.next_arrived (h : q.verdict codec policies lean ≠ .panic) :
    (arrived q).next codec policies lean ctx =
      .ok (ctx, if lean then done q (q.verdict codec policies lean) else forBlock q (q.verdict codec policies lean)) := by
  rw [next]
  cases hv : q.verdict codec policies lean with
  | ok u => rfl
  | err e => rfl
  | panic => exact absurd hv h

def Stage.Carries (codec : Codec) (policies : Policies) (lean : Bool) : Stage → Prop
  | idle | arrived _ => True
  | forBlock q r | reset q r | lookup q r | create q r | signal q r _ | done q r => r = q.verdict codec policies lean

variable {ctx' : ValidationContext} {st st' : Stage}

theorem Stage.next_carries (hst : st.Carries codec policies lean)
    (h : st.next codec policies lean ctx = .ok (ctx', st')) : st'.Carries codec policies lean := by
  cases st with
  | idle => cases h
  | arrived q =>
    simp only [next] at h
    split at h
    · cases h
    · cases h
      split_ifs <;> rfl
  | forBlock q r =>
    simp only [next] at h
    split_ifs at h <;> cases h <;> exact hst
  | reset q r =>
    cases h
    exact hst
  | lookup q r =>
    simp only [next] at h
    split at h <;> cases h <;> exact hst
  | create q r =>
    obtain ⟨_, _, h⟩ := bind_eq_ok.mp h
    cases h
    exact hst
  | signal q r dep =>
    cases h
    exact hst
  | done q r => cases h

variable {s t : Service} {i : Nat} {r : Verdict}

theorem ServiceStep.carries (h : ServiceStep codec policies lean s i t)
    (hs : ∀ j, (s.stage j).Carries codec policies lean) : ∀ j, (t.stage j).Carries codec policies lean := by
  have hu : ∀ st : Stage, st.Carries codec policies lean →
      ∀ j, (Function.update s.stage i st j).Carries codec policies lean := fun _ hst =>
    (Function.forall_update_iff _ fun _ => Stage.Carries codec policies lean).mpr ⟨hst, fun j _ => hs j⟩
  cases h with
  | arrive q => exact hu _ trivial
  | act =>
    unfold Service.act
    split
    · exact hu _ (Stage.next_carries (hs i) ‹_›)
    · exact hs
    · exact hs

theorem ServiceRun.verdict_eq (h : ServiceRun codec policies lean s) (hd : s.stage i = .done q r) :
    r = q.verdict codec policies lean := by
  have ha := h.invariant (fun s => ∀ j, (s.stage j).Carries codec policies lean) (by rintro _ rfl j; trivial)
    fun s t hs ⟨i, hst⟩ => hst.carries hs
  have hi := ha i
  rwa [hd] at hi

/-- Once past `forBlock` there are maps to write to. -/
def Stage.Ready (ctx : ValidationContext) : Stage → Prop
  | reset q _ => q.blockNum ≠ 0
  | lookup _ _ | create _ _ => ctx.depsByTxnumMap ≠ none
  | _ => True

structure Service.Calm (s : Service) : Prop where
  running : s.panicked = false
  maps : s.ctx.blockHeight ≠ 0 → s.ctx.depsByTxnumMap ≠ none
  ready : ∀ i, (s.stage i).Ready s.ctx

theorem ValidationContext.createDependency_maps {txNum : UInt64} {dep : Nat}
    (h : ctx.createDependency txNum = .ok (ctx', dep)) (hm : ctx.depsByTxnumMap ≠ none) :
    ctx'.depsByTxnumMap ≠ none := by
  unfold createDependency at h
  split at h
  · cases h
    exact hm
  · obtain ⟨_, _, h⟩ := bind_eq_ok.mp h
    cases h
    exact Option.some_ne_none _

theorem Stage.Ready.mono (hst : st.Ready ctx) (h : ctx.depsByTxnumMap ≠ none → ctx'.depsByTxnumMap ≠ none) :
    st.Ready ctx' := by
  cases st with
  | lookup q r => exact h hst
  | create q r => exact h hst
  | _ => exact hst

theorem ValidationContext.reset_maps {newHeight : UInt64} (hn : newHeight ≠ 0)
    (hm : ctx.blockHeight ≠ 0 → ctx.depsByTxnumMap ≠ none) : (ctx.reset newHeight).depsByTxnumMap ≠ none := by
  unfold reset
  split_ifs with hlt
  · exact Option.some_ne_none _
  · refine hm fun hz => hlt ?_
    rw [hz]
    exact UInt64.pos_iff_ne_zero.mpr hn

section

variable (hpol : ∀ cc coll, policies.collectionValidationInfo cc coll ≠ .panic)
include hpol

theorem Stage.next_calm (hm : ctx.blockHeight ≠ 0 → ctx.depsByTxnumMap ≠ none) (hst : st.Ready ctx)
    (ha : Admitted codec lean ctx st) :
    st.next codec policies lean ctx ≠ .panic ∧
      ∀ ctx' st', st.next codec policies lean ctx = .ok (ctx', st') → st'.Ready ctx' ∧
        (ctx.depsByTxnumMap ≠ none → ctx'.depsByTxnumMap ≠ none) ∧
        (ctx'.blockHeight ≠ 0 → ctx'.depsByTxnumMap ≠ none) := by
  cases st with
  | idle => exact ⟨by simp [next], by simp [next]⟩
  | arrived q =>
    rw [next_arrived (verdict_ne_panic hpol ha)]
    refine ⟨by simp, fun ctx' st' h => ?_⟩
    cases h
    exact ⟨by split_ifs <;> trivial, id, hm⟩
  | forBlock q r =>
    obtain ⟨hle, hi⟩ := ha
    simp only [next, if_neg (UInt64.not_lt.mpr hle)]
    refine ⟨by simp, fun ctx' st' h => ?_⟩
    cases h
    refine ⟨?_, id, hm⟩
    split_ifs with hlt
    · rintro hz
      rw [hz] at hlt
      exact UInt64.not_lt_zero hlt
    · rcases hi with hne | hsm
      · have heq : ctx.blockHeight = q.blockNum := UInt64.le_antisymm hle (UInt64.not_lt.mp hlt)
        exact hm (heq ▸ hne)
      · exact hsm
  | reset q r =>
    refine ⟨by simp [next], fun ctx' st' h => ?_⟩
    cases h
    have hr := ValidationContext.reset_maps hst hm
    exact ⟨hr, fun _ => hr, fun _ => hr⟩
  | lookup q r =>
    simp only [next]
    split
    · refine ⟨by simp, fun ctx' st' h => ?_⟩
      cases h
      exact ⟨trivial, id, hm⟩
    · refine ⟨by simp, fun ctx' st' h => ?_⟩
      cases h
      exact ⟨hst, id, hm⟩
  | create q r =>
    constructor
    · refine bind_ne_panic ?_ fun _ _ => by simp
      unfold ValidationContext.createDependency
      split
      · simp
      · refine bind_ne_panic ?_ (by simp)
        rw [Ne, deref_eq_panic]
        exact hst
    · intro ctx' st' h
      obtain ⟨⟨_, dep⟩, hc, h⟩ := bind_eq_ok.mp h
      cases h
      have hr := ValidationContext.createDependency_maps hc hst
      exact ⟨trivial, fun _ => hr, fun _ => hr⟩
  | signal q r dep =>
    refine ⟨by simp [next], fun ctx' st' h => ?_⟩
    cases h
    exact ⟨trivial, id, hm⟩
  | done q r => exact ⟨by simp [next], by simp [next]⟩

theorem Service.Calm.step (hs : s.Calm) (hst : ServiceStep codec policies lean s i t)
    (ha : Admitted codec lean s.ctx (s.stage i)) : t.Calm := by
  cases hst with
  | arrive q =>
    refine ⟨hs.running, hs.maps, ?_⟩
    exact (Function.forall_update_iff _ fun _ => Stage.Ready s.ctx).mpr ⟨trivial, fun j _ => hs.ready j⟩
  | act =>
    obtain ⟨hne, hr⟩ := Stage.next_calm hpol hs.maps (hs.ready i) ha
    unfold Service.act
    split
    · rename_i ctx' st' hn
      obtain ⟨hrd, hk, hmp⟩ := hr ctx' st' hn
      refine ⟨hs.running, hmp, ?_⟩
      exact (Function.forall_update_iff _ fun _ => Stage.Ready ctx').mpr ⟨hrd, fun j _ => (hs.ready j).mono hk⟩
    · exact hs
    · exact absurd ‹_› hne

theorem AdmittedRun.calm (h : AdmittedRun codec policies lean s) : s.Calm := by
  refine h.invariant Service.Calm ?_ fun s t hs ⟨i, hst, ha⟩ => hs.step hpol hst ha
  rintro _ rfl
  exact ⟨rfl, fun h => absurd rfl h, fun _ => trivial⟩

end

theorem AdmittedRun.run (h : AdmittedRun codec policies lean s) : ServiceRun codec policies lean s :=
  h.invariant _ (fun _ h => .init h) fun _ _ hs ⟨i, hst, _⟩ => hs.step ⟨i, hst⟩

theorem AloneVerdict.eq (h : AloneVerdict codec policies lean q r) : r = q.verdict codec policies lean := by
  obtain ⟨s, hs, hd⟩ := h
  have hr : ServiceRun codec policies lean s :=
    hs.invariant _ (fun _ h => .init h) fun _ _ hs hst => hs.step ⟨0, hst⟩
  exact hr.verdict_eq hd

def Service.single (ctx : ValidationContext) (st : Stage) : Service where
  ctx := ctx
  stage := Function.update (fun _ => .idle) 0 st

theorem Service.single_stage (ctx : ValidationContext) (st : Stage) : (single ctx st).stage 0 = st := by
  simp [single]

theorem Service.act_single (h : st.next codec policies lean ctx = .ok (ctx', st')) :
    (single ctx st).act codec policies lean 0 = single ctx' st' := by
  rw [act, single_stage, show (single ctx st).ctx = ctx from rfl, h]
  simp only [single, Function.update_idem]

theorem aloneVerdict (q : PluginCall) (hq : q.verdict codec policies lean ≠ .panic) (hb : lean = true ∨ q.blockNum ≠ 0) :
    AloneVerdict codec policies lean q (q.verdict codec policies lean) := by
  let Alone (s : Service) := Reachable (fun s => s = {}) (fun s t => ServiceStep codec policies lean s 0 t) s
  have hn : ∀ {ctx ctx' st st'}, Alone (.single ctx st) → st.next codec policies lean ctx = .ok (ctx', st') →
      Alone (.single ctx' st') := by
    intro ctx ctx' st st' hs h
    exact Service.act_single h ▸ hs.step .act
  have hi : Alone {} := .init rfl
  have ha : Alone (.single {} (.arrived q)) := hi.step (ServiceStep.arrive q rfl)
  have hd := hn ha (Stage.next_arrived hq)
  rcases hb with rfl | hne
  · exact ⟨_, hd, Service.single_stage _ _⟩
  · cases lean with
    | true => exact ⟨_, hd, Service.single_stage _ _⟩
    | false =>
      have hpos : 0 < q.blockNum := UInt64.pos_iff_ne_zero.mpr hne
      let ctx : ValidationContext := { blockHeight := q.blockNum, depsByTxnumMap := some fun _ => none }
      have hfb : Alone (.single {} (.reset q (q.verdict codec policies false))) := by
        refine hn hd ?_
        simp [Stage.next, hpos]
      have hrs : Alone (.single ctx (.lookup q (q.verdict codec policies false))) := by
        refine hn hfb ?_
        simp [Stage.next, ValidationContext.reset, hpos, ctx]
      have hlk : Alone (.single ctx (.create q (q.verdict codec policies false))) := hn hrs rfl
      exact ⟨_, hn (hn hlk rfl) rfl, Service.single_stage _ _⟩

/-- In a run whose calls come to the validation-parameter manager in the order of their blocks nothing panics, and every
call gets the verdict that it gets alone. -/
theorem service_calls_independent (codec : Codec) (policies : Policies) (lean : Bool)
    (hpol : ∀ cc coll, policies.collectionValidationInfo cc coll ≠ .panic) (s : Service)
    (hrun : AdmittedRun codec policies lean s) :
    s.panicked = false ∧ ∀ i q r, s.stage i = .done q r →
      (∀ r', AloneVerdict codec policies lean q r' → r' = r) ∧
        (lean = true ∨ q.blockNum ≠ 0 → r ≠ .panic → AloneVerdict codec policies lean q r) := by
  refine ⟨(hrun.calm hpol).running, fun i q r hd => ?_⟩
  have hr := hrun.run.verdict_eq hd
  refine ⟨fun r' ha => ha.eq.trans hr.symm, fun hb hne => ?_⟩
  rw [hr] at hne ⊢
  exact aloneVerdict q hne hb

end

def queryCall (blockNum : UInt64) : PluginCall where
  blockNum := blockNum
  txNum := 0
  ns := [0x63]
  policy := [0x0a, 0x01, 0x61]
  env := smuggledTransfer

theorem service_calls_independent_query :
    ∃ s, AdmittedRun queryCodec signedByA false s ∧ s.stage 0 = .done (queryCall 1) (.ok ()) ∧ s.panicked = false ∧
      AloneVerdict queryCodec signedByA false (queryCall 1) (.ok ()) := by
  have hn : ∀ {ctx ctx' st st'}, AdmittedRun queryCodec signedByA false (.single ctx st) →
      st.next queryCodec signedByA false ctx = .ok (ctx', st') → Admitted queryCodec false ctx st →
      AdmittedRun queryCodec signedByA false (.single ctx' st') := by
    intro ctx ctx' st st' hs h had
    exact Service.act_single h ▸ hs.step ⟨0, .act, by simpa [Service.single] using had⟩
  have hi : AdmittedRun queryCodec signedByA false {} := .init rfl
  have har : AdmittedRun queryCodec signedByA false (.single {} (.arrived (queryCall 1))) :=
    hi.step ⟨0, ServiceStep.arrive (queryCall 1) rfl, trivial⟩
  have hd : AdmittedRun queryCodec signedByA false (.single {} (.forBlock (queryCall 1) (.ok ()))) := by
    refine hn har ?_ ⟨_, _, rfl, rfl, _, _, _, _, _, rfl, rfl, rfl, rfl, rfl⟩
    rfl
  have hfb : AdmittedRun queryCodec signedByA false (.single {} (.reset (queryCall 1) (.ok ()))) :=
    hn hd rfl ⟨by decide, .inl (by decide)⟩
  have hsg := hn (hn (hn hfb rfl trivial) rfl trivial) rfl trivial
  have hdn := hn hsg rfl trivial
  obtain ⟨hrn, hvr⟩ := service_calls_independent queryCodec signedByA false (by simp [signedByA]) _ hdn
  have ha := (hvr 0 _ _ (Service.single_stage _ _)).2 (.inr (by decide)) (by simp)
  exact ⟨_, hdn, Service.single_stage _ _, hrn, ha⟩

/-- Two peers at different heights: after a call for block 2 has entered `PostValidate`, a call for block 1 takes the
service down. -/
theorem earlier_block_panics : ∃ s, ServiceRun queryCodec signedByA false s ∧ s.panicked = true := by
  have hi : ServiceRun queryCodec signedByA false {} := .init rfl
  have hlt := hi.step ⟨0, ServiceStep.arrive (queryCall 2) rfl⟩
  have hrs := ((hlt.step ⟨0, .act⟩).step ⟨0, .act⟩).step ⟨0, .act⟩
  have he := hrs.step ⟨1, ServiceStep.arrive (queryCall 1) rfl⟩
  exact ⟨_, (he.step ⟨1, .act⟩).step ⟨1, .act⟩, by decide⟩

end Drunix.Peer
