import Drunix.Orderer.Cluster

namespace Drunix.Orderer

open Proto List

variable {κ : Type}

/-- A normal message whose vanilla half, if a lite half stands beside it, is no config transaction. -/
def PlainNormal (codec : Codec) (msg : Envelope) : Prop :=
  msg.leanEnv = none ∨ carriesConfig codec msg = false

def Ordinary (c : Chain κ) (env : Envelope) : Prop :=
  c.codec.envelope.RoundTrips env ∧ (c.ByConfigUpdate env ∨ carriesConfig c.codec env = false)

structure NodeOrdinary (c : Chain κ) (n : Node κ) : Prop where
  batchC : ∀ req ∈ n.batchC, Ordinary c req.payload
  cutter : ∀ env ∈ n.cutter.pendingBatch, Ordinary c env
  batchCutter : ∀ req ∈ n.batchCutter.pendingBatch, Ordinary c req.payload

structure Inv (c : Chain κ) (s : Cluster κ) : Prop where
  nodes : ∀ i, NodeOrdinary c (s.nodes i)
  submitted : ∀ req ∈ s.submitted, Ordinary c req.payload
  submittedBatches : ∀ batches ∈ s.submittedBatches, ∀ batch ∈ batches, ∀ req ∈ batch, Ordinary c req.payload
  proposed : ∀ data ∈ s.proposed, c.MadeOf (Ordinary c) data
  log : ∀ data ∈ s.log, c.MadeOf (Ordinary c) data
  writes : ∀ w ∈ s.writes, c.MadeOf (Ordinary c) w.data ∧ ∃ config, w.kind = c.writeBlock config w.data
  normals : ∀ env ∈ s.normals, c.codec.envelope.RoundTrips env ∧ carriesConfig c.codec env = false

section

variable {c : Chain κ} {s : Cluster κ} {i : Nat} {n : Node κ} {req : SubmitRequest} {isConfig : Bool} {msg : Envelope}

theorem Inv.setNode (h : Inv c s) (hn : NodeOrdinary c n) : Inv c (s.setNode i n) :=
  { h with nodes := (Function.forall_update_iff _ fun _ n => NodeOrdinary c n).mpr ⟨hn, fun j _ => h.nodes j⟩ }

theorem Inv.propose {blocks : List (List Bytes)} (h : Inv c s) (hb : ∀ data ∈ blocks, c.MadeOf (Ordinary c) data) :
    Inv c { s with proposed := s.proposed ++ blocks } :=
  { h with proposed := forall_mem_append.mpr ⟨h.proposed, hb⟩ }

theorem Inv.submit {reqs : List SubmitRequest} (h : Inv c s) (hr : ∀ req ∈ reqs, Ordinary c req.payload) :
    Inv c { s with submitted := s.submitted ++ reqs } :=
  { h with submitted := forall_mem_append.mpr ⟨h.submitted, hr⟩ }

theorem Inv.submitBatches {batches : List (List SubmitRequest)} (h : Inv c s)
    (hb : ∀ batch ∈ batches, ∀ req ∈ batch, Ordinary c req.payload) : Inv c (s.submitBatches batches) := by
  unfold Cluster.submitBatches
  split
  · exact h
  · exact h
  · refine { h with submittedBatches := forall_mem_append.mpr ⟨h.submittedBatches, ?_⟩ }
    exact forall_mem_singleton.mpr hb

theorem madeOf_createNextBlock {batches : List (List Envelope)}
    (hb : ∀ batch ∈ batches, ∀ env ∈ batch, Ordinary c env) :
    ∀ data ∈ batches.map c.createNextBlock, c.MadeOf (Ordinary c) data := by
  intro data hd
  obtain ⟨batch, hbt, rfl⟩ := mem_map.mp hd
  exact ⟨batch, rfl, hb batch hbt⟩

theorem Inv.enqueue (h : Inv c s) (followerBatching : Bool) (hr : Ordinary c req.payload) :
    Inv c (s.enqueue followerBatching i req) := by
  cases followerBatching with
  | true =>
    refine h.setNode { h.nodes i with batchC := forall_mem_append.mpr ⟨(h.nodes i).batchC, ?_⟩ }
    exact forall_mem_singleton.mpr hr
  | false => exact h.submit (forall_mem_singleton.mpr hr)

theorem Inv.recordNormal (h : Inv c s)
    (hm : isConfig = false → c.codec.envelope.RoundTrips msg ∧ carriesConfig c.codec msg = false) :
    Inv c (s.recordNormal isConfig msg) := by
  cases isConfig with
  | true => exact h
  | false =>
    refine { h with normals := forall_mem_append.mpr ⟨h.normals, ?_⟩ }
    exact forall_mem_singleton.mpr (hm rfl)

theorem Inv.elect {newLeader : Option Nat} (h : Inv c s) : Inv c (s.elect newLeader) := by
  unfold Cluster.elect
  split
  · rename_i i _
    have hf : Inv c (s.becomeFollower i) := h.setNode { h.nodes i with cutter := by simp }
    exact { hf with }
  · exact { h with }

theorem NodeOrdinary.setCutter {r : Receiver Envelope} (h : NodeOrdinary c n)
    (hr : ∀ env ∈ r.pendingBatch, Ordinary c env) : NodeOrdinary c { n with cutter := r } :=
  { h with cutter := hr }

theorem NodeOrdinary.setBatch {queue : List SubmitRequest} {r : Receiver SubmitRequest} (h : NodeOrdinary c n)
    (hq : ∀ req ∈ queue, Ordinary c req.payload) (hr : ∀ req ∈ r.pendingBatch, Ordinary c req.payload) :
    NodeOrdinary c { n with batchC := queue, batchCutter := r } :=
  { h with batchC := hq, batchCutter := hr }

theorem NodeOrdinary.afterWrite (h : NodeOrdinary c n) (kind : WriteKind κ) :
    NodeOrdinary c (Cluster.afterWrite n kind) := by
  unfold Cluster.afterWrite
  split
  · exact { h with }
  · exact { h with }
  · exact { h with }
  · exact h

variable (hupdate : ∀ env, c.ByConfigUpdate env → c.codec.envelope.RoundTrips env)

include hupdate

theorem ordinary_of_byConfigUpdate (env : Envelope) (h : c.ByConfigUpdate env) : Ordinary c env :=
  ⟨hupdate env h, .inl h⟩

theorem processMessage_ordinary {config : κ}
    (hm : isConfig = false → c.codec.envelope.RoundTrips msg ∧ carriesConfig c.codec msg = false)
    (h : c.processMessage config isConfig msg = .ok req) : Ordinary c req.payload := by
  cases isConfig with
  | true => exact ordinary_of_byConfigUpdate hupdate _ (Chain.configureRequest_payload h)
  | false =>
    obtain ⟨hw, hpl⟩ := hm rfl
    rw [Chain.orderRequest_payload h]
    exact ⟨hw, .inr hpl⟩

theorem Inv.order {o : OrderResult Envelope} (h : Inv c s) (hr : Ordinary c req.payload)
    (ho : c.ordered (s.nodes i).config (s.nodes i).cutter req = .ok o) : Inv c (s.order c i o) := by
  have ha := Chain.ordered_all (ordinary_of_byConfigUpdate hupdate) (h.nodes i).cutter hr ho
  have hn := h.setNode (i := i) ((h.nodes i).setCutter ha.receiver)
  refine (hn.propose (madeOf_createNextBlock ha.batches)).submit ?_
  intro m hm
  exact ha.resubmitted m (Option.mem_toList.mp hm)

theorem Inv.batch {rest : List SubmitRequest} {o : OrderResult SubmitRequest} (h : Inv c s)
    (hbc : (s.nodes i).batchC = req :: rest)
    (ho : c.orderedBatch (s.nodes i).config (s.nodes i).batchCutter req = .ok o) : Inv c (s.batch i rest o) := by
  have hq := (h.nodes i).batchC
  rw [hbc, forall_mem_cons] at hq
  have ha := Chain.orderedBatch_all (ordinary_of_byConfigUpdate hupdate) (h.nodes i).batchCutter hq.1 ho
  have hn := h.setNode (i := i) ((h.nodes i).setBatch hq.2 ha.receiver)
  exact hn.submitBatches ha.batches

theorem Inv.step {t : Cluster κ} (h : Inv c s) (hst : Cluster.Step c (PlainNormal c.codec) s t) : Inv c t := by
  cases hst with
  | broadcast i r hw hc ha hr =>
    rename_i msg chdr isConfig req
    have hms : isConfig = false → c.codec.envelope.RoundTrips msg ∧ carriesConfig c.codec msg = false := by
      intro hnr
      refine ⟨hw, ?_⟩
      rcases ha hnr with hln | hpl
      · rw [hnr] at hc
        exact carriesConfig_of_normal hc hln
      · exact hpl
    exact (h.enqueue _ (processMessage_ordinary hupdate hms hr)).recordNormal hms
  | order i hm hl hr ho => exact h.order hupdate (h.submitted _ hr) ho
  | timer i hm hl =>
    have hn := h.setNode (i := i) ((h.nodes i).setCutter (r := {}) (forall_mem_nil _))
    refine hn.propose (madeOf_createNextBlock ?_)
    intro batch hb env he
    exact (h.nodes i).cutter env (Receiver.mem_of_mem_cutPending hb he)
  | batch i hm hbc ho => exact h.batch hupdate hbc ho
  | batchError i hm hbc ho =>
    have hq := (h.nodes i).batchC
    rw [hbc, forall_mem_cons] at hq
    exact h.setNode { h.nodes i with batchC := hq.2 }
  | batchTimer i hm =>
    have hn := h.setNode (i := i) ((h.nodes i).setBatch (r := {}) (h.nodes i).batchC (forall_mem_nil _))
    refine hn.submitBatches ?_
    intro batch hb req hr
    exact (h.nodes i).batchCutter req (Receiver.mem_of_mem_cutPending hb hr)
  | proposeBatch i hm hl hbt =>
    exact h.propose (Chain.proposeBatch_madeOf (ordinary_of_byConfigUpdate hupdate)
      (h.submittedBatches _ hbt))
  | elect newLeader hch => exact h.elect
  | commit hd =>
    refine { h with log := forall_mem_append.mpr ⟨h.log, ?_⟩ }
    exact forall_mem_singleton.mpr (h.proposed _ hd)
  | write i hd =>
    rename_i data
    have hn := h.setNode (i := i) ((h.nodes i).afterWrite (c.writeBlock (s.nodes i).config data))
    refine { hn with writes := forall_mem_append.mpr ⟨h.writes, ?_⟩ }
    exact forall_mem_singleton.mpr ⟨h.log _ (mem_of_getElem? hd), _, rfl⟩

end

theorem Inv.init (c : Chain κ) (config : κ) : Inv c (Cluster.init config) where
  nodes := by
    intro i
    exact ⟨by simp [Cluster.init], by simp [Cluster.init], by simp [Cluster.init]⟩
  submitted := by simp [Cluster.init]
  submittedBatches := by simp [Cluster.init]
  proposed := by simp [Cluster.init]
  log := by simp [Cluster.init]
  writes := by simp [Cluster.init]
  normals := by simp [Cluster.init]

end Drunix.Orderer
