import Drunix.Orderer.InflightBlocks

namespace Drunix.Orderer

open Lib Outcome List

abbrev Tagged := Nat × SubmitRequest

def ids (ts : List Tagged) : List Nat :=
  ts.map Prod.fst

@[simps]
def RequestForm.tagged : RequestForm Tagged where
  request := Prod.snd
  renew t msg := (t.1, msg)

/-- What is submitted: the batches of a batcher or, after an abdication, the envelope of a config message. -/
inductive Submission where
  | batches (bs : List (List Tagged))
  | envelope (t : Tagged)

def Submission.items : Submission → List Tagged
  | batches bs => bs.flatten
  | envelope t => [t]

/-- `runBatch` proposes the batches of a request, whatever else is in it. -/
def Submission.propose {κ : Type} (c : Chain κ) (config : κ) : Submission → Proposal Tagged
  | batches bs => c.proposeAll .tagged config bs
  | envelope t => { dropped := [t] }

/-- A node: its batcher, which may be in a call of `Submit`, and what its loop knows of raft. -/
structure BatchNode (κ : Type) where
  config : κ
  batchC : List Tagged := []
  cutter : Receiver Tagged := {}
  submitting : Option (List (List Tagged)) := none
  transferInProgress : Bool := false
  running : Bool := true
  candidate : Bool := false
  lead : Option Nat := none

def BatchNode.held {κ : Type} (n : BatchNode κ) : List Nat :=
  ids n.batchC ++ ids n.cutter.pendingBatch ++ ids (n.submitting.getD []).flatten

def BatchNode.answer {κ : Type} (n : BatchNode κ) : Option Nat :=
  if n.running && !n.candidate then n.lead else none

/-- The nodes of a channel and where the requests are. `processed` has the submissions that leaders have taken, and
`lost` the requests that nobody has any more. -/
structure Batching (κ : Type) where
  nodes : Nat → BatchNode κ
  acked : Nat := 0
  abdicating : List (Nat × Tagged) := []
  transit : List (Nat × Submission) := []
  accepted : List (Nat × Submission) := []
  blocks : List (List Tagged) := []
  rejected : List Tagged := []
  processed : List Submission := []
  lost : List Tagged := []

namespace Batching

variable {κ : Type}

def init (config : κ) : Batching κ where
  nodes _ := { config }

def setNode (s : Batching κ) (i : Nat) (n : BatchNode κ) : Batching κ :=
  { s with nodes := Function.update s.nodes i n }

/-- `Submit` at a node: it is taken here, or sent on to the leader. An error is logged by whoever called, be it the
batcher, the goroutine of an abdication or the service that received a forwarded request. -/
def submit (s : Batching κ) (i : Nat) (sub : Submission) (sent : Bool) : Batching κ :=
  match (s.nodes i).answer with
  | none => { s with lost := s.lost ++ sub.items }
  | some lead =>
    if lead = i then { s with accepted := s.accepted ++ [(i, sub)] }
    else if sent then { s with transit := s.transit ++ [(lead, sub)] }
    else { s with lost := s.lost ++ sub.items }

/-- What the batcher does with cut batches: it submits them unless the first is empty. -/
def cut (s : Batching κ) (i : Nat) (bs : List (List Tagged)) : Batching κ :=
  match bs with
  | [] => s
  | [] :: bs => { s with lost := s.lost ++ bs.flatten }
  | bs => s.setNode i { s.nodes i with submitting := some bs }

/-- What the batcher does with a request. A config message that evicts a consenter waits for the abdication, unless
one is under way: then it is ignored. -/
def order (s : Batching κ) (i : Nat) (t : Tagged) (o : OrderResult Tagged) : Batching κ :=
  match o.resubmitted with
  | some msg =>
    if (s.nodes i).transferInProgress then { s with lost := s.lost ++ [t] }
    else
      { s.setNode i { s.nodes i with transferInProgress := true } with
        abdicating := s.abdicating ++ [(i, (t.1, msg))] }
  | none => (s.setNode i { s.nodes i with cutter := o.receiver }).cut i o.batches

def propose (s : Batching κ) (c : Chain κ) (lead : Nat) (sub : Submission) : Batching κ :=
  let p := sub.propose c (s.nodes lead).config
  { s with
    blocks := s.blocks ++ p.blocks
    rejected := s.rejected ++ p.rejected
    lost := s.lost ++ p.dropped
    processed := s.processed ++ [sub] }

/-- A change of the soft state; a leader that steps down resets the counted size of its cutter. -/
def soften (s : Batching κ) (i : Nat) (lead : Option Nat) (candidate : Bool) : Batching κ :=
  let n := s.nodes i
  s.setNode i { n with
    lead, candidate
    cutter := if n.lead = some i ∧ lead ≠ some i then { n.cutter with pendingBatchSizeBytes := 0 } else n.cutter }

end Batching

/-- Who moves, as far as it matters for what is lost. -/
inductive Action where
  | order (i : Nat) (t : Tagged)
  | submit (i : Nat) (sent : Bool)
  | other

section

variable {κ : Type} (c : Chain κ)

/-- A step of the nodes. A node that crashes takes no step. -/
inductive BatchingStep (s : Batching κ) : Action → Batching κ → Prop
  -- `BatchOrder` and `BatchConfigure` return nil once the batcher's channel has the request.
  | arrive (i : Nat) (req : SubmitRequest) :
      BatchingStep s .other
        { s.setNode i { s.nodes i with batchC := (s.nodes i).batchC ++ [(s.acked, req)] } with acked := s.acked + 1 }
  | order {i : Nat} {t : Tagged} {rest : List Tagged} {o : OrderResult Tagged} (hidle : (s.nodes i).submitting = none)
      (hbatchC : (s.nodes i).batchC = t :: rest)
      (ho : c.orderedBatchOf .tagged (s.nodes i).config (s.nodes i).cutter t = .ok o) :
      BatchingStep s (.order i t) ((s.setNode i { s.nodes i with batchC := rest }).order i t o)
  | orderFails {i : Nat} {t : Tagged} {rest : List Tagged} {e : MsgError} (hidle : (s.nodes i).submitting = none)
      (hbatchC : (s.nodes i).batchC = t :: rest)
      (ho : c.orderedBatchOf .tagged (s.nodes i).config (s.nodes i).cutter t = .err e) :
      BatchingStep s .other
        { s.setNode i { s.nodes i with batchC := rest } with rejected := s.rejected ++ [t] }
  | timer {i : Nat} (hidle : (s.nodes i).submitting = none) :
      BatchingStep s .other
        ((s.setNode i { s.nodes i with cutter := {} }).cut i (s.nodes i).cutter.cutPending)
  | submit {i : Nat} {bs : List (List Tagged)} (sent : Bool) (hsubmitting : (s.nodes i).submitting = some bs) :
      BatchingStep s (.submit i sent)
        ((s.setNode i { s.nodes i with submitting := none }).submit i (.batches bs) sent)
  | deliver {pre post : List (Nat × Submission)} {i : Nat} {sub : Submission} (sent : Bool)
      (htransit : s.transit = pre ++ (i, sub) :: post) :
      BatchingStep s (.submit i sent) ({ s with transit := pre ++ post }.submit i sub sent)
  | propose {pre post : List (Nat × Submission)} {lead : Nat} {sub : Submission}
      (haccepted : s.accepted = pre ++ (lead, sub) :: post)
      (hreturns : ∀ t ∈ sub.items, c.revalidateNormal (s.nodes lead).config t.2 ≠ .panic ∧
        c.revalidateConfig (s.nodes lead).config t.2 ≠ .panic) :
      BatchingStep s .other ({ s with accepted := pre ++ post }.propose c lead sub)
  | abdicate {pre post : List (Nat × Tagged)} {i : Nat} {t : Tagged} (sent : Bool)
      (habdicating : s.abdicating = pre ++ (i, t) :: post) :
      BatchingStep s (.submit i sent)
        (({ s with abdicating := pre ++ post }.setNode i { s.nodes i with transferInProgress := false }).submit i
          (.envelope t) sent)
  | abdicateFails {pre post : List (Nat × Tagged)} {i : Nat} {t : Tagged}
      (habdicating : s.abdicating = pre ++ (i, t) :: post) :
      BatchingStep s .other
        ({ s with abdicating := pre ++ post, lost := s.lost ++ [t] }.setNode i
          { s.nodes i with transferInProgress := false })
  | soften (i : Nat) (lead : Option Nat) (candidate : Bool) : BatchingStep s .other (s.soften i lead candidate)
  | configure (i : Nat) (config : κ) : BatchingStep s .other (s.setNode i { s.nodes i with config })
  | stop (i : Nat) : BatchingStep s .other (s.setNode i { s.nodes i with running := false })

def BatchingRun (config : κ) : Batching κ → Prop :=
  Reachable (fun s => s = .init config) fun s t => ∃ a, BatchingStep c s a t

/-- No config message evicts a consenter or rotates its certificate, and every call of `Submit`, by a batcher or for a
forwarded request, finds a leader and reaches it. -/
def Batching.Sound (s : Batching κ) : Action → Prop
  | .order i t => t.2.isConfig = true → ∀ msg, c.revalidateConfig (s.nodes i).config t.2 = .ok msg →
      c.support.checkForEvictionNCertRotation (s.nodes i).config msg.payload = false
  | .submit i sent => ∃ lead, (s.nodes i).answer = some lead ∧ (lead = i ∨ sent = true)
  | .other => True

def SoundRun (config : κ) : Batching κ → Prop :=
  Reachable (fun s => s = .init config) fun s t => ∃ a, BatchingStep c s a t ∧ s.Sound c a

end

@[mk_iff]
inductive Batching.Located {κ : Type} (s : Batching κ) (id : Nat) : Prop
  | node (i : Nat) (h : id ∈ (s.nodes i).held)
  | abdicating {p : Nat × Tagged} (hp : p ∈ s.abdicating) (h : p.2.1 = id)
  | transit {p : Nat × Submission} (hp : p ∈ s.transit) (h : id ∈ ids p.2.items)
  | accepted {p : Nat × Submission} (hp : p ∈ s.accepted) (h : id ∈ ids p.2.items)
  | created {block : List Tagged} (hblock : block ∈ s.blocks) (h : id ∈ ids block)
  | rejected (h : id ∈ ids s.rejected)

def Batching.Kept {κ : Type} (s : Batching κ) (id : Nat) : Prop :=
  s.Located id ∨ id ∈ ids s.lost

variable {ts ts' : List Tagged}

@[simp] theorem mem_ids_append {id : Nat} : id ∈ ids (ts ++ ts') ↔ id ∈ ids ts ∨ id ∈ ids ts' := by
  simp [ids]

@[simp] theorem mem_ids_cons {id : Nat} {t : Tagged} : id ∈ ids (t :: ts) ↔ id = t.1 ∨ id ∈ ids ts := by
  simp [ids]

@[simp] theorem ids_nil : ids [] = [] := rfl

variable {bs : List (List Tagged)} {o : OrderResult Tagged}

theorem mem_ids_flatten {id : Nat} : id ∈ ids bs.flatten ↔ ∃ b ∈ bs, id ∈ ids b := by
  simp only [ids, mem_map, mem_flatten]
  constructor
  · rintro ⟨t, ⟨b, hb, ht⟩, h⟩
    exact ⟨b, hb, t, ht, h⟩
  · rintro ⟨b, hb, t, ht, h⟩
    exact ⟨t, ⟨b, hb, ht⟩, h⟩

theorem mem_ids_of_subset {id : Nat} (h : ts ⊆ ts') (hid : id ∈ ids ts) : id ∈ ids ts' :=
  map_subset Prod.fst h hid

namespace Chain

variable {κ : Type} {c : Chain κ} {config : κ} {rejected : List Tagged}

theorem orderedBatchOf_ids {r : Receiver Tagged} {t : Tagged} (h : c.orderedBatchOf .tagged config r t = .ok o)
    (hn : o.resubmitted = none) {id : Nat} (hid : id ∈ ids r.pendingBatch ∨ id = t.1) :
    id ∈ ids o.batches.flatten ∨ id ∈ ids o.receiver.pendingBatch := by
  unfold orderedBatchOf at h
  split_ifs at h with hc
  · obtain ⟨msg, -, h⟩ := bind_eq_ok.mp h
    split_ifs at h
    · cases h
      cases hn
    · cases h
      refine .inl ?_
      rw [flatten_append, Receiver.cutPending_flatten]
      simpa using hid
  · cases h
    rw [← mem_ids_append]
    rw [orderedNormal, Receiver.ordered_flatten]
    simpa using hid

theorem keepValid_ids {kept : List Tagged} (h : c.keepValid .tagged config ts = .ok (kept, rejected)) {id : Nat}
    (hid : id ∈ ids ts) : id ∈ ids kept ∨ id ∈ ids rejected := by
  induction ts generalizing kept rejected with
  | nil => cases hid
  | cons t ts ih =>
    rw [mem_ids_cons] at hid
    unfold keepValid at h
    split at h
    · obtain ⟨⟨kept', rejected'⟩, hr, h⟩ := bind_eq_ok.mp h
      cases h
      rcases hid with rfl | hid
      · exact .inl (mem_ids_cons.mpr (.inl rfl))
      · exact (ih hr hid).imp_left fun h => mem_ids_cons.mpr (.inr h)
    · obtain ⟨⟨kept', rejected'⟩, hr, h⟩ := bind_eq_ok.mp h
      cases h
      rcases hid with rfl | hid
      · exact .inr (mem_ids_cons.mpr (.inl rfl))
      · exact (ih hr hid).imp_right fun h => mem_ids_cons.mpr (.inr h)
    · cases h

theorem checkTxns_ids {batch kept : List Tagged} (h : c.checkTxns .tagged config batch = .ok (kept, rejected)) {id : Nat}
    (hid : id ∈ ids batch) : id ∈ ids kept ∨ id ∈ ids rejected := by
  cases batch with
  | nil => cases hid
  | cons first rest =>
    rw [checkTxns] at h
    split_ifs at h
    · obtain ⟨msg, -, h⟩ := bind_eq_ok.mp h
      cases h
      exact .inl hid
    · exact keepValid_ids h hid

theorem proposeAll_ids (batches : List (List Tagged)) {id : Nat} (hid : id ∈ ids batches.flatten) :
    id ∈ ids (c.proposeAll .tagged config batches).blocks.flatten ∨ id ∈ ids (c.proposeAll .tagged config batches).rejected ∨
      id ∈ ids (c.proposeAll .tagged config batches).dropped := by
  induction batches with
  | nil => cases hid
  | cons batch batches ih =>
    rw [flatten_cons, mem_ids_append] at hid
    rw [proposeAll]
    split
    · rename_i kept rejected hc
      have hb := fun h => @checkTxns_ids _ c config rejected batch kept hc id h
      simp only [flatten_cons, mem_ids_append]
      tauto
    · rw [← take_append_drop 1 batch, mem_ids_append] at hid
      simp only [mem_ids_append]
      tauto
    · simp only [mem_ids_append]
      tauto

end Chain

theorem Submission.propose_ids {κ : Type} {c : Chain κ} {config : κ} (sub : Submission) {id : Nat} (hid : id ∈ ids sub.items) :
    id ∈ ids (sub.propose c config).blocks.flatten ∨ id ∈ ids (sub.propose c config).rejected ∨
      id ∈ ids (sub.propose c config).dropped := by
  cases sub with
  | batches bs => exact Chain.proposeAll_ids bs hid
  | envelope t => exact .inr (.inr hid)

variable {i : Nat}

namespace Batching

variable {κ : Type} {c : Chain κ} {s t : Batching κ} {id : Nat} {ts : List Tagged}

@[simp] theorem setNode_self (s : Batching κ) (i : Nat) (n : BatchNode κ) : (s.setNode i n).nodes i = n := by
  simp [setNode]

def elsewhere (s : Batching κ) : List Nat :=
  s.abdicating.map (fun p => p.2.1) ++ ids (s.transit.flatMap fun p => p.2.items) ++
    ids (s.accepted.flatMap fun p => p.2.items) ++ ids s.blocks.flatten ++ ids s.rejected ++ ids s.lost

theorem mem_elsewhere : id ∈ s.elsewhere ↔ (∃ p ∈ s.abdicating, p.2.1 = id) ∨ (∃ p ∈ s.transit, id ∈ ids p.2.items) ∨
    (∃ p ∈ s.accepted, id ∈ ids p.2.items) ∨ (∃ block ∈ s.blocks, id ∈ ids block) ∨ id ∈ ids s.rejected ∨
    id ∈ ids s.lost := by
  have hf : ∀ l : List (Nat × Submission), id ∈ ids (l.flatMap fun p => p.2.items) ↔ ∃ p ∈ l, id ∈ ids p.2.items := by
    intro l
    rw [flatMap_def, mem_ids_flatten]
    simp
  simp only [elsewhere, mem_append, mem_map, hf, mem_ids_flatten, or_assoc]

theorem kept_iff : s.Kept id ↔ (∃ i, id ∈ (s.nodes i).held) ∨ id ∈ s.elsewhere := by
  rw [mem_elsewhere, Kept, located_iff]
  simp only [or_assoc]

theorem Kept.update (h : s.Kept id) {n : BatchNode κ} (ht : t.nodes = Function.update s.nodes i n)
    (hi : id ∈ (s.nodes i).held → id ∈ n.held ∨ id ∈ t.elsewhere) (he : id ∈ s.elsewhere → id ∈ t.elsewhere) :
    t.Kept id := by
  rw [kept_iff, ht]
  rcases kept_iff.mp h with ⟨j, hj⟩ | h
  · by_cases hji : j = i
    · subst hji
      exact (hi hj).imp_left fun h => ⟨j, by rwa [Function.update_self]⟩
    · exact .inl ⟨j, by rwa [Function.update_of_ne hji]⟩
  · exact .inr (he h)

theorem Kept.move (h : s.Kept id) (ht : t.nodes = s.nodes) (he : id ∈ s.elsewhere → id ∈ t.elsewhere) : t.Kept id := by
  rw [kept_iff, ht]
  exact (kept_iff.mp h).imp_right he

section

variable (i : Nat) (sub : Submission) (sent : Bool)

theorem submit_nodes : (s.submit i sub sent).nodes = s.nodes := by
  unfold submit
  split
  · rfl
  · split_ifs <;> rfl

theorem mem_elsewhere_submit : id ∈ (s.submit i sub sent).elsewhere ↔ id ∈ s.elsewhere ∨ id ∈ ids sub.items := by
  unfold submit
  split
  · simp only [elsewhere, mem_append, mem_ids_append]
    grind
  · split_ifs <;> simp only [elsewhere, flatMap_append, flatMap_singleton, mem_append, mem_ids_append] <;>
      grind

theorem submit_kept (h : s.Kept id ∨ id ∈ ids sub.items) : (s.submit i sub sent).Kept id := by
  rcases h with h | h
  · exact h.move (submit_nodes i sub sent) fun h => (mem_elsewhere_submit i sub sent).mpr (.inl h)
  · exact kept_iff.mpr (.inr ((mem_elsewhere_submit i sub sent).mpr (.inr h)))

end

theorem setNode_kept {n : BatchNode κ} (h : s.Kept id) (hi : id ∈ (s.nodes i).held → id ∈ n.held) :
    (s.setNode i n).Kept id :=
  h.update rfl (fun hid => .inl (hi hid)) fun h => h

theorem mem_held {n : BatchNode κ} :
    id ∈ n.held ↔ id ∈ ids n.batchC ∨ id ∈ ids n.cutter.pendingBatch ∨ id ∈ ids (n.submitting.getD []).flatten := by
  simp only [BatchNode.held, mem_append, or_assoc]

theorem lost_kept (h : s.Kept id ∨ id ∈ ids ts) : ({ s with lost := s.lost ++ ts } : Batching κ).Kept id := by
  have hm : id ∈ ({ s with lost := s.lost ++ ts } : Batching κ).elsewhere ↔ id ∈ s.elsewhere ∨ id ∈ ids ts := by
    simp only [elsewhere, mem_append, mem_ids_append]
    grind
  rcases h with h | h
  · exact h.move rfl fun h => hm.mpr (.inl h)
  · exact kept_iff.mpr (.inr (hm.mpr (.inr h)))

theorem cut_kept (hi : (s.nodes i).submitting = none) (h : s.Kept id ∨ id ∈ ids bs.flatten) :
    (s.cut i bs).Kept id := by
  unfold cut
  split
  · exact h.resolve_right (by simp)
  · exact lost_kept h
  · rcases h with h | h
    · refine setNode_kept h fun hid => ?_
      rw [mem_held, hi] at hid
      rw [mem_held]
      simpa using hid.imp_right Or.inl
    · refine .inl (.node i ?_)
      rw [setNode_self]
      exact mem_append_right _ h

theorem order_kept {x : Tagged} {rest : List Tagged} (hi : (s.nodes i).submitting = none)
    (hbc : (s.nodes i).batchC = x :: rest) (ho : c.orderedBatchOf .tagged (s.nodes i).config (s.nodes i).cutter x = .ok o)
    (h : s.Kept id) : ((s.setNode i { s.nodes i with batchC := rest }).order i x o).Kept id := by
  -- the request in hand, or anything else
  have hot : (s.setNode i { s.nodes i with batchC := rest }).Kept id ∨ id = x.1 := by
    by_cases hx : id = x.1
    · exact .inr hx
    · refine .inl (setNode_kept h fun hid => ?_)
      rw [mem_held, hbc, mem_ids_cons] at hid
      rw [mem_held]
      exact hid.imp_left fun h => h.resolve_left hx
  generalize hs' : s.setNode i { s.nodes i with batchC := rest } = s' at hot ⊢
  have hnd : s'.nodes i = { s.nodes i with batchC := rest } := hs' ▸ setNode_self _ _ _
  unfold order
  split
  · rename_i msg _
    split_ifs
    · exact lost_kept (hot.imp_right fun h => by simp [h])
    · rcases hot with h | rfl
      · refine h.update rfl (fun hid => .inl hid) fun h => ?_
        simp only [elsewhere, setNode, map_append, mem_append] at h ⊢
        grind
      · exact .inl (.abdicating (mem_append_right _ mem_cons_self) rfl)
  · rename_i hn
    refine cut_kept (by rw [setNode_self, hnd]; exact hi) ?_
    by_cases hc : id ∈ ids (s.nodes i).cutter.pendingBatch ∨ id = x.1
    · rcases Chain.orderedBatchOf_ids ho hn hc with h | h
      · exact .inr h
      · refine .inl (.inl (.node i ?_))
        rw [setNode_self, mem_held]
        exact .inr (.inl h)
    · refine .inl (setNode_kept (hot.resolve_right fun h => hc (.inr h)) fun hid => ?_)
      rw [hnd, mem_held] at hid
      rw [hnd, mem_held]
      exact hid.imp_right fun h => .inr (h.resolve_left fun h => hc (.inl h))

end Batching

theorem BatchingStep.kept {κ : Type} {c : Chain κ} {s t : Batching κ} {a : Action} {id : Nat} (hstep : BatchingStep c s a t)
    (h : s.Kept id) : t.Kept id := by
  cases hstep with
  | arrive i req =>
    refine h.update rfl (fun hid => .inl ?_) fun h => h
    rw [Batching.mem_held] at hid ⊢
    exact hid.imp_left fun h => mem_ids_append.mpr (.inl h)
  | order hi hbc ho => exact Batching.order_kept hi hbc ho h
  | @orderFails i x rest e hi hbc ho =>
    refine h.update rfl (fun hid => ?_) fun h => ?_
    · rw [Batching.mem_held, hbc, mem_ids_cons] at hid
      rw [Batching.mem_held, Batching.elsewhere]
      simp only [mem_append, mem_ids_append, mem_ids_cons]
      grind
    · simp only [Batching.elsewhere, Batching.setNode, mem_append, mem_ids_append] at h ⊢
      grind
  | @timer i hi =>
    refine Batching.cut_kept ?_ ?_
    · rw [Batching.setNode_self]
      exact hi
    · rw [Receiver.cutPending_flatten]
      by_cases hp : id ∈ ids (s.nodes i).cutter.pendingBatch
      · exact .inr hp
      · refine .inl (Batching.setNode_kept h fun hid => ?_)
        rw [Batching.mem_held] at hid ⊢
        exact hid.imp_right fun h => .inr (h.resolve_left hp)
  | @submit i bs sent hsb =>
    refine Batching.submit_kept _ _ _ ?_
    by_cases hbs : id ∈ ids bs.flatten
    · exact .inr hbs
    · refine .inl (Batching.setNode_kept h fun hid => ?_)
      rw [Batching.mem_held, hsb] at hid
      rw [Batching.mem_held]
      exact hid.imp_right fun h => .inl (h.resolve_right hbs)
  | @deliver pre post i sub sent ht =>
    refine Batching.submit_kept _ _ _ (or_iff_not_imp_right.mpr fun hsub => h.move rfl fun h => ?_)
    simp only [Batching.elsewhere, ht, flatMap_append, flatMap_cons, mem_append, mem_ids_append] at h ⊢
    grind
  | @propose pre post lead sub ha hr =>
    refine h.move rfl fun h => ?_
    have hsub := fun hid => @Submission.propose_ids κ c (s.nodes lead).config sub id hid
    simp only [Batching.elsewhere, Batching.propose, ha, flatMap_append, flatMap_cons, flatten_append,
      mem_append, mem_ids_append] at h ⊢
    grind
  | @abdicate pre post i x sent hab =>
    refine Batching.submit_kept _ _ _ (or_iff_not_imp_right.mpr fun hx => h.update rfl (fun hid => .inl hid) fun h => ?_)
    simp only [Batching.elsewhere, Batching.setNode, Submission.items, hab, map_append, map_cons,
      mem_append, mem_cons, mem_ids_cons] at h hx ⊢
    grind
  | @abdicateFails pre post i x hab =>
    refine h.update rfl (fun hid => .inl hid) fun h => ?_
    simp only [Batching.elsewhere, Batching.setNode, hab, map_append, map_cons, mem_append,
      mem_cons, mem_ids_append, mem_ids_cons] at h ⊢
    grind
  | soften i lead candidate =>
    refine Batching.setNode_kept h fun hid => ?_
    rw [Batching.mem_held] at hid ⊢
    refine hid.imp_right (Or.imp_left fun h => ?_)
    split_ifs <;> exact h
  | configure i config => exact Batching.setNode_kept h fun hid => hid
  | stop i => exact Batching.setNode_kept h fun hid => hid

/-! ### What batchers cut -/

structure NormalPending (r : Receiver Tagged) : Prop where
  normal : ∀ t ∈ r.pendingBatch, t.2.isConfig = false
  sized : r.pendingBatch = [] → r.pendingBatchSizeBytes = 0

inductive WellCut : List (List Tagged) → Prop
  | nil : WellCut []
  | last (t : Tagged) : WellCut [[t]]
  | cons {batch : List Tagged} {bs : List (List Tagged)} (hne : batch ≠ [])
      (hbatch : ∀ t ∈ batch, t.2.isConfig = false) (hbs : WellCut bs) : WellCut (batch :: bs)

theorem normalPending_empty : NormalPending {} :=
  ⟨by simp, fun _ => rfl⟩

variable {r : Receiver Tagged}

theorem NormalPending.wellCut_cutPending_append (hr : NormalPending r) (hbs : WellCut bs) :
    WellCut (r.cutPending ++ bs) := by
  unfold Receiver.cutPending
  split_ifs with he
  · exact hbs
  · exact .cons (fun h => he (isEmpty_iff.mpr h)) hr.normal hbs

theorem wellCut_orderedEnqueue {batchSize : BatchSize} {cut : List (List Tagged)} {t : Tagged} {sizeBytes : UInt32}
    (hc : ∀ {bs}, WellCut bs → WellCut (cut ++ bs)) (hr : ∀ t ∈ r.pendingBatch, t.2.isConfig = false)
    (ht : t.2.isConfig = false) :
    WellCut (Receiver.orderedEnqueue batchSize cut r t sizeBytes).messageBatches ∧
      NormalPending (Receiver.orderedEnqueue batchSize cut r t sizeBytes).receiver := by
  have hnr : ∀ t' ∈ (r.enqueue t sizeBytes).pendingBatch, t'.2.isConfig = false :=
    forall_mem_append.mpr ⟨hr, forall_mem_singleton.mpr ht⟩
  have hne : (r.enqueue t sizeBytes).pendingBatch ≠ [] := by simp [Receiver.enqueue]
  unfold Receiver.orderedEnqueue
  dsimp only
  split_ifs
  · exact ⟨hc (.cons hne hnr .nil), normalPending_empty⟩
  · exact ⟨by simpa using hc .nil, hnr, fun h => absurd h hne⟩

theorem NormalPending.ordered (hr : NormalPending r) {t : Tagged} (ht : t.2.isConfig = false) (batchSize : BatchSize)
    (sizeBytes : UInt32) :
    WellCut (r.ordered batchSize t sizeBytes).messageBatches ∧ NormalPending (r.ordered batchSize t sizeBytes).receiver := by
  unfold Receiver.ordered
  split_ifs with hlr he ho
  · exact ⟨hr.wellCut_cutPending_append (.last t), hr⟩
  · exact ⟨hr.wellCut_cutPending_append (.last t), normalPending_empty⟩
  · -- an empty cutter counts nothing, so a message that is not too large fits
    have hne : r.pendingBatch ≠ [] := by
      intro he
      rw [hr.sized he, UInt32.zero_add] at ho
      exact hlr ho
    exact wellCut_orderedEnqueue (fun hbs => .cons hne hr.normal hbs) (by simp) ht
  · exact wellCut_orderedEnqueue (fun hbs => hbs) hr.normal ht

namespace Chain

variable {κ : Type} {c : Chain κ} {config : κ}

theorem orderedBatchOf_wellCut (hr : NormalPending r) {t : Tagged} (h : c.orderedBatchOf .tagged config r t = .ok o)
    (hst : t.2.isConfig = true → ∀ msg, c.revalidateConfig config t.2 = .ok msg →
      c.support.checkForEvictionNCertRotation config msg.payload = false) :
    o.resubmitted = none ∧ WellCut o.batches ∧ NormalPending o.receiver := by
  unfold orderedBatchOf at h
  split_ifs at h with hc
  · obtain ⟨msg, hm, h⟩ := bind_eq_ok.mp h
    rw [hst hc msg hm] at h
    cases h
    exact ⟨rfl, hr.wellCut_cutPending_append (.last _), normalPending_empty⟩
  · cases h
    exact ⟨rfl, hr.ordered (Bool.eq_false_iff.mpr hc) _ _⟩

theorem exists_keepValid {ts : List Tagged} (h : ∀ t ∈ ts, c.revalidateNormal config t.2 ≠ .panic) :
    ∃ kept rejected, c.keepValid .tagged config ts = .ok (kept, rejected) := by
  induction ts with
  | nil => exact ⟨[], [], rfl⟩
  | cons t ts ih =>
    rw [forall_mem_cons] at h
    obtain ⟨kept, rejected, hr⟩ := ih h.2
    unfold keepValid
    rw [hr]
    split
    · exact ⟨_, _, rfl⟩
    · exact ⟨_, _, rfl⟩
    · exact absurd ‹_› h.1

/-- Only a config message can end the loop over the batches, and it is in the last one. -/
theorem proposeAll_dropped (hbs : WellCut bs)
    (h : ∀ t ∈ bs.flatten, c.revalidateNormal config t.2 ≠ .panic ∧ c.revalidateConfig config t.2 ≠ .panic) :
    (c.proposeAll .tagged config bs).dropped = [] := by
  induction hbs with
  | nil => rfl
  | last t =>
    obtain ⟨hnr, hcn⟩ := h t (by simp)
    rw [proposeAll, checkTxns]
    split_ifs
    · cases hc : c.revalidateConfig config (RequestForm.tagged.request t) with
      | ok msg => rfl
      | err e => rfl
      | panic => exact absurd hc hcn
    · obtain ⟨kept, rejected, hk⟩ := @exists_keepValid _ c config [t] (by simpa using hnr)
      rw [hk]
      rfl
  | @cons batch bs hne hb _ ih =>
    have hb' : ∀ t ∈ batch, c.revalidateNormal config t.2 ≠ .panic := fun t ht =>
      (h t (by simp [ht])).1
    obtain ⟨kept, rejected, hk⟩ := exists_keepValid hb'
    have hch : c.checkTxns .tagged config batch = .ok (kept, rejected) := by
      cases batch with
      | nil => exact absurd rfl hne
      | cons first rest =>
        rw [checkTxns, if_neg (by simp [hb first mem_cons_self])]
        exact hk
    rw [proposeAll, hch]
    refine ih fun t ht => h t ?_
    exact mem_append_right _ ht

end Chain

/-! ### Runs that lose nothing -/

def Submission.WellCut (sub : Submission) : Prop :=
  ∃ bs, sub = .batches bs ∧ Orderer.WellCut bs

namespace Batching

variable {κ : Type} {s : Batching κ}

structure Shaped (s : Batching κ) : Prop where
  nothingLost : s.lost = []
  abdicating : s.abdicating = []
  cutters : ∀ i, NormalPending (s.nodes i).cutter
  submitting : ∀ i bs, (s.nodes i).submitting = some bs → WellCut bs
  transit : ∀ p ∈ s.transit, p.2.WellCut
  accepted : ∀ p ∈ s.accepted, p.2.WellCut

theorem Shaped.setNode (hs : s.Shaped) {n : BatchNode κ} (hc : NormalPending n.cutter)
    (hsb : ∀ bs, n.submitting = some bs → WellCut bs) : (s.setNode i n).Shaped :=
  { hs with
    cutters := (Function.forall_update_iff s.nodes fun _ n => NormalPending n.cutter).mpr ⟨hc, fun j _ => hs.cutters j⟩
    submitting := (Function.forall_update_iff s.nodes fun _ n => ∀ bs, n.submitting = some bs → WellCut bs).mpr
      ⟨hsb, fun j _ => hs.submitting j⟩ }

theorem Shaped.submit (hs : s.Shaped) {sub : Submission} (hsub : sub.WellCut) {sent : Bool}
    (hsn : ∃ lead, (s.nodes i).answer = some lead ∧ (lead = i ∨ sent = true)) : (s.submit i sub sent).Shaped := by
  obtain ⟨lead, ha, hr⟩ := hsn
  unfold Batching.submit
  rw [ha]
  dsimp only
  split_ifs with hl hse
  · exact { hs with accepted := forall_mem_append.mpr ⟨hs.accepted, forall_mem_singleton.mpr hsub⟩ }
  · exact { hs with transit := forall_mem_append.mpr ⟨hs.transit, forall_mem_singleton.mpr hsub⟩ }
  · exact absurd (hr.resolve_left hl) hse

theorem Shaped.cut (hs : s.Shaped) (hbs : WellCut bs) : (s.cut i bs).Shaped := by
  unfold Batching.cut
  split
  · exact hs
  · cases hbs with
    | cons hne => exact absurd rfl hne
  · refine hs.setNode (hs.cutters i) fun bs' h => ?_
    cases h
    exact hbs

end Batching

theorem BatchingStep.shaped {κ : Type} {c : Chain κ} {s t : Batching κ} (hstep : BatchingStep c s a t)
    (hsn : s.Sound c a) (hs : s.Shaped) : t.Shaped := by
  cases hstep with
  | arrive i req =>
    have hst := hs.setNode (n := { s.nodes i with batchC := (s.nodes i).batchC ++ [(s.acked, req)] }) (i := i)
      (hs.cutters i) (hs.submitting i)
    exact { hst with }
  | @order i x rest o hi hbc ho =>
    obtain ⟨hn, hb, hrc⟩ := Chain.orderedBatchOf_wellCut (hs.cutters i) ho hsn
    rw [Batching.order, hn]
    have hst := hs.setNode (n := { s.nodes i with batchC := rest }) (i := i) (hs.cutters i) (hs.submitting i)
    refine (hst.setNode hrc fun bs h => ?_).cut hb
    rw [Batching.setNode_self] at h
    exact hs.submitting i bs h
  | @orderFails i x rest e hi hbc ho =>
    have hst := hs.setNode (n := { s.nodes i with batchC := rest }) (i := i) (hs.cutters i) (hs.submitting i)
    exact { hst with }
  | @timer i hi =>
    have hst := hs.setNode (n := { s.nodes i with cutter := {} }) (i := i) normalPending_empty (hs.submitting i)
    refine hst.cut ?_
    simpa using (hs.cutters i).wellCut_cutPending_append .nil
  | @submit i bs sent hsb =>
    have hst := hs.setNode (n := { s.nodes i with submitting := none }) (i := i) (hs.cutters i) (by simp)
    refine hst.submit ⟨bs, rfl, hs.submitting i bs hsb⟩ ?_
    rw [Batching.setNode_self]
    exact hsn
  | @deliver pre post i sub sent ht =>
    have hsub := hs.transit (i, sub) (by rw [ht]; simp)
    have hrs : ({ s with transit := pre ++ post } : Batching κ).Shaped :=
      { hs with transit := fun p hp => hs.transit p (ht ▸ ((sublist_cons_self _ post).append_left pre).subset hp) }
    exact hrs.submit hsub hsn
  | @propose pre post lead sub ha hr =>
    obtain ⟨bs, rfl, hbs⟩ := hs.accepted (lead, sub) (by rw [ha]; simp)
    refine { hs with
      nothingLost := ?_
      accepted := fun p hp => hs.accepted p (ha ▸ ((sublist_cons_self _ post).append_left pre).subset hp) }
    change s.lost ++ (c.proposeAll .tagged (s.nodes lead).config bs).dropped = []
    rw [hs.nothingLost, Chain.proposeAll_dropped hbs hr]
    rfl
  | abdicate sent hab =>
    rw [hs.abdicating] at hab
    simp at hab
  | abdicateFails hab =>
    rw [hs.abdicating] at hab
    simp at hab
  | soften i lead candidate =>
    refine hs.setNode ?_ (hs.submitting i)
    split_ifs
    · exact ⟨(hs.cutters i).normal, fun _ => rfl⟩
    · exact hs.cutters i
  | configure i config => exact hs.setNode (hs.cutters i) (hs.submitting i)
  | stop i => exact hs.setNode (hs.cutters i) (hs.submitting i)

namespace Batching

variable {κ : Type} {s : Batching κ}

@[simp] theorem submit_history (i : Nat) (sub : Submission) (sent : Bool) :
    (s.submit i sub sent).blocks = s.blocks ∧ (s.submit i sub sent).rejected = s.rejected ∧
      (s.submit i sub sent).processed = s.processed ∧ (s.submit i sub sent).acked = s.acked := by
  unfold submit
  split
  · exact ⟨rfl, rfl, rfl, rfl⟩
  · split_ifs <;> exact ⟨rfl, rfl, rfl, rfl⟩

@[simp] theorem cut_history (i : Nat) (bs : List (List Tagged)) :
    (s.cut i bs).blocks = s.blocks ∧ (s.cut i bs).rejected = s.rejected ∧ (s.cut i bs).processed = s.processed ∧
      (s.cut i bs).acked = s.acked := by
  unfold cut
  split <;> exact ⟨rfl, rfl, rfl, rfl⟩

@[simp] theorem order_history (i : Nat) (x : Tagged) (o : OrderResult Tagged) :
    (s.order i x o).blocks = s.blocks ∧ (s.order i x o).rejected = s.rejected ∧
      (s.order i x o).processed = s.processed ∧ (s.order i x o).acked = s.acked := by
  unfold order
  split
  · split_ifs <;> exact ⟨rfl, rfl, rfl, rfl⟩
  · exact cut_history i o.batches

def Settled (s : Batching κ) : Prop :=
  ∀ sub ∈ s.processed, ∀ id ∈ ids sub.items, (∃ block ∈ s.blocks, id ∈ ids block) ∨ id ∈ ids s.rejected

theorem Settled.of_history {t : Batching κ} (hs : s.Settled) (hb : t.blocks = s.blocks)
    (hrj : s.rejected ⊆ t.rejected) (hpr : t.processed = s.processed) : t.Settled := by
  intro sub hsub id hid
  rw [hpr] at hsub
  rw [hb]
  exact (hs sub hsub id hid).imp_right (mem_ids_of_subset hrj)

end Batching

section

variable {κ : Type} {c : Chain κ} {s t : Batching κ} (hstep : BatchingStep c s a t)
include hstep

theorem BatchingStep.settled (hl : t.lost = []) (hs : s.Settled) : t.Settled := by
  cases hstep with
  | arrive | timer | order | submit | deliver | abdicate | abdicateFails | soften | configure | stop =>
    refine hs.of_history ?_ ?_ ?_ <;> simp [Batching.setNode, Batching.soften]
  | orderFails => exact hs.of_history rfl (subset_append_left _ _) rfl
  | @propose pre post lead sub ha hr =>
    intro sub' hs' id hid
    rcases mem_append.mp hs' with hs' | hs'
    · rcases hs sub' hs' id hid with ⟨block, hb, h⟩ | h
      · exact .inl ⟨block, mem_append_left _ hb, h⟩
      · exact .inr (mem_ids_append.mpr (.inl h))
    · rw [mem_singleton.mp hs'] at hid
      rcases @Submission.propose_ids κ c (s.nodes lead).config sub id hid with h | h | h
      · obtain ⟨block, hb, h⟩ := mem_ids_flatten.mp h
        exact .inl ⟨block, mem_append_right _ hb, h⟩
      · exact .inr (mem_ids_append.mpr (.inr h))
      · rw [(append_eq_nil_iff.mp hl).2] at h
        cases h

theorem BatchingStep.acked (hs : ∀ id < s.acked, s.Kept id) : ∀ id < t.acked, t.Kept id := by
  have ho : t.acked = s.acked → ∀ id < t.acked, t.Kept id := fun heq id hid => hstep.kept (hs id (heq ▸ hid))
  cases hstep with
  | arrive i req =>
    intro id hid
    by_cases hn : id = s.acked
    · subst hn
      refine .inl (.node i ?_)
      rw [Batching.setNode_self, Batching.mem_held]
      exact .inl (mem_ids_append.mpr (.inr (mem_ids_cons.mpr (.inl rfl))))
    · have hlt : id < s.acked + 1 := hid
      exact (BatchingStep.arrive i req : BatchingStep c s _ _).kept (hs id (by omega))
  | orderFails | propose | abdicateFails | soften | configure | stop => exact ho rfl
  | order | timer | submit | deliver | abdicate => exact ho (by simp [Batching.setNode])

end

/-- No acknowledged request is lost where every submission finds and reaches a leader and no config message makes the
leader abdicate; and all of what a leader has taken is in blocks or rejected. -/
theorem no_acknowledged_request_lost {κ : Type} (c : Chain κ) (config : κ) (s : Batching κ) (hrun : SoundRun c config s) :
    (∀ id < s.acked, s.Located id) ∧ s.Settled := by
  have hi := hrun.invariant (fun s => s.Shaped ∧ (∀ id < s.acked, s.Kept id) ∧ s.Settled) ?_ ?_
  · obtain ⟨hsh, hk, hst⟩ := hi
    refine ⟨fun id hid => (hk id hid).resolve_right ?_, hst⟩
    rw [hsh.nothingLost]
    exact not_mem_nil
  · rintro _ rfl
    refine ⟨⟨rfl, rfl, fun _ => normalPending_empty, ?_, ?_, ?_⟩, ?_, ?_⟩ <;> simp [Batching.init, Batching.Settled]
  · rintro s t ⟨hsh, hk, hst⟩ ⟨a, hstep, hsn⟩
    have hs' := hstep.shaped hsn hsh
    exact ⟨hs', hstep.acked hk, hstep.settled hs'.nothingLost hst⟩

section

/-- A node that leads takes a request, cuts it by its timer and makes a block of it. -/
theorem no_acknowledged_request_lost_transfer :
    ∃ s, SoundRun paymentsChain 0 s ∧ s.acked = 1 ∧ s.Located 0 ∧ s.blocks = [[(0, transferRequest)]] := by
  have hi : SoundRun paymentsChain 0 (.init 0) := .init rfl
  have hl := hi.step ⟨.other, .soften 0 (some 0) false, trivial⟩
  have ha := hl.step ⟨.other, .arrive 0 transferRequest, trivial⟩
  have hor := ha.step ⟨.order 0 (0, transferRequest), .order rfl rfl rfl, fun h => by cases h⟩
  have hc := hor.step ⟨.other, @BatchingStep.timer _ _ _ 0 rfl, trivial⟩
  have hsb := hc.step ⟨_, .submit true rfl, 0, rfl, .inl rfl⟩
  have hpr := hsb.step ⟨.other, @BatchingStep.propose _ _ _ [] [] 0 _ rfl (by decide), trivial⟩
  exact ⟨_, hpr, rfl, (no_acknowledged_request_lost paymentsChain 0 _ hpr).1 0 (by decide), rfl⟩

def evictingChain : Chain UInt64 :=
  { paymentsChain with support := { paymentsSupport with checkForEvictionNCertRotation := fun _ _ => true } }

def evictionRequest : SubmitRequest where
  payload := signedConfig
  lastValidationSeq := 0
  isConfig := true

/-- A batcher cuts a request while no leader is known: `Submit` fails and the batch is gone. And a config message that
makes its leader abdicate is submitted to the next one without a batch: it is accepted, and nothing comes of it. -/
theorem acknowledged_requests_lost :
    (∃ s, BatchingRun paymentsChain 0 s ∧ s.acked = 1 ∧ ¬ s.Located 0) ∧
      ∃ s, BatchingRun evictingChain 0 s ∧ s.processed = [.envelope (0, evictionRequest)] ∧ ¬ s.Settled := by
  constructor
  · have hi : BatchingRun paymentsChain 0 (.init 0) := .init rfl
    have ha := hi.step ⟨.other, .arrive 0 transferRequest⟩
    have hor := ha.step ⟨.order 0 (0, transferRequest), .order rfl rfl rfl⟩
    have hct := hor.step ⟨.other, @BatchingStep.timer _ _ _ 0 rfl⟩
    have hf := hct.step ⟨.submit 0 true, .submit true rfl⟩
    refine ⟨_, hf, rfl, fun h => ?_⟩
    cases h with
    | node i h =>
      rcases i with _ | i
      · exact absurd h (by decide)
      · exact absurd h not_mem_nil
    | abdicating hp => cases hp
    | transit hp => cases hp
    | accepted hp => cases hp
    | created hb => cases hb
    | rejected h => cases h
  · have hi : BatchingRun evictingChain 0 (.init 0) := .init rfl
    have hl := (hi.step ⟨.other, .soften 0 (some 0) false⟩).step ⟨.other, .arrive 0 evictionRequest⟩
    have hw := hl.step ⟨.order 0 (0, evictionRequest), .order rfl rfl rfl⟩
    have hc := (hw.step ⟨.other, .soften 0 (some 1) false⟩).step ⟨.other, .soften 1 (some 1) false⟩
    have hsn := hc.step ⟨_, @BatchingStep.abdicate _ _ _ [] [] 0 _ true rfl⟩
    have ht := hsn.step ⟨_, @BatchingStep.deliver _ _ _ [] [] 1 _ true rfl⟩
    have hpr := ht.step ⟨.other, @BatchingStep.propose _ _ _ [] [] 1 _ rfl (by decide)⟩
    refine ⟨_, hpr, rfl, fun h => ?_⟩
    obtain ⟨block, hb, -⟩ | h := h _ mem_cons_self 0 (by decide)
    · cases hb
    · cases h

end

end Drunix.Orderer
