import Drunix.Orderer.Broadcast

namespace Drunix.Orderer

open Lib Proto Outcome List

/-- What the raft chain goes by: the type of the envelope first, then the payload's channel header. -/
def isConfig (codec : Codec) (env : Envelope) : Outcome MsgError Bool :=
  if env.type = .endorserTransaction || env.type = .approve || env.type = .commit then .ok false
  else do
    let h ← channelHeader codec env
    let h ← .deref h
    .ok (isConfigType h.type)

/-- The result of ordering a request: the batches cut, the receiver afterwards, and the request that goes
to the next leader when this node is about to leave the consenters. -/
structure OrderResult (α : Type) where
  batches : List (List α)
  receiver : Receiver α
  resubmitted : Option SubmitRequest := none

/-- A form in which requests are passed on; a config request is renewed where it is validated again. -/
structure RequestForm (α : Type) where
  request : α → SubmitRequest
  renew : α → SubmitRequest → α

@[simps]
def RequestForm.plain : RequestForm SubmitRequest where
  request msg := msg
  renew _ msg := msg

/-- What a leader makes of batches: blocks, requests that revalidation rejects, and requests that nothing is made of. -/
structure Proposal (α : Type) where
  blocks : List (List α) := []
  rejected : List α := []
  dropped : List α := []

inductive ConfigEffect (κ : Type) where
  | newChain (newChannelConfig : Envelope)
  | update (config : κ)

inductive WriteKind (κ : Type) where
  | block
  | configBlock (result : Outcome Unit (ConfigEffect κ))

namespace Chain

variable {κ α : Type} (c : Chain κ)

def batchSize (config : κ) : BatchSize :=
  if c.maxBatchSize = 0 then c.support.batchSize config
  else { c.support.batchSize config with maxMessageCount := c.maxBatchSize }

def revalidateConfig (config : κ) (msg : SubmitRequest) : Outcome MsgError SubmitRequest :=
  if msg.lastValidationSeq < c.support.sequence config then do
    let (payload, _) ← c.processor.processConfigMsg config msg.payload
    .ok { msg with payload }
  else .ok msg

def revalidateNormal (config : κ) (msg : SubmitRequest) : Outcome MsgError Unit :=
  if msg.lastValidationSeq < c.support.sequence config then do
    let _ ← c.processor.processNormalMsg config msg.payload
    .ok ()
  else .ok ()

def orderedConfig (item : SubmitRequest → α) (config : κ) (r : Receiver α) (msg : SubmitRequest) :
    Outcome MsgError (OrderResult α) := do
  let msg ← c.revalidateConfig config msg
  if c.support.checkForEvictionNCertRotation config msg.payload then
    .ok { batches := [], receiver := r, resubmitted := some msg }
  else .ok { batches := r.cutPending ++ [[item msg]], receiver := {} }

def orderedNormal (config : κ) (r : Receiver α) (a : α) (env : Envelope) : OrderResult α :=
  let o := r.ordered (c.batchSize config) a (messageSizeBytes env)
  { batches := o.messageBatches, receiver := o.receiver }

def ordered (config : κ) (r : Receiver Envelope) (msg : SubmitRequest) :
    Outcome MsgError (OrderResult Envelope) := do
  let isconfig ← isConfig c.codec msg.payload
  if isconfig then c.orderedConfig SubmitRequest.payload config r msg
  else do
    c.revalidateNormal config msg
    .ok (c.orderedNormal config r msg.payload msg.payload)

section

variable (f : RequestForm α)

/-- A follower goes by the request's flag, and leaves the revalidation of normal messages to the leader. -/
def orderedBatchOf (config : κ) (r : Receiver α) (a : α) : Outcome MsgError (OrderResult α) :=
  if (f.request a).isConfig then c.orderedConfig (f.renew a) config r (f.request a)
  else .ok (c.orderedNormal config r a (f.request a).payload)

/-- The requests that are valid still, and those that are not. -/
def keepValid (config : κ) : List α → Outcome MsgError (List α × List α)
  | [] => .ok ([], [])
  | a :: as =>
    match c.revalidateNormal config (f.request a) with
    | .ok _ => do
        let (kept, rejected) ← keepValid config as
        .ok (a :: kept, rejected)
    | .err _ => do
        let (kept, rejected) ← keepValid config as
        .ok (kept, a :: rejected)
    | .panic => .panic

def checkTxns (config : κ) : List α → Outcome MsgError (List α × List α)
  | [] => .panic
  | first :: rest =>
    if (f.request first).isConfig then do
      let msg ← c.revalidateConfig config (f.request first)
      .ok (f.renew first msg :: rest, [])
    else c.keepValid f config (first :: rest)

/-- The loop of a leader over a follower's batches; it stops at a batch that fails. -/
def proposeAll (config : κ) : List (List α) → Proposal α
  | [] => {}
  | batch :: batches =>
    match c.checkTxns f config batch with
    | .ok (kept, rejected) =>
      let p := proposeAll config batches
      { p with blocks := kept :: p.blocks, rejected := rejected ++ p.rejected }
    | .err _ => { rejected := batch.take 1, dropped := batch.drop 1 ++ batches.flatten }
    | .panic => { dropped := batch ++ batches.flatten }

end

def orderedBatch (config : κ) (r : Receiver SubmitRequest) (msg : SubmitRequest) :
    Outcome MsgError (OrderResult SubmitRequest) :=
  c.orderedBatchOf .plain config r msg

def checkValidationStatusOfTxns (config : κ) (batch : List SubmitRequest) : Outcome MsgError (List SubmitRequest) := do
  let (kept, _) ← c.checkTxns .plain config batch
  .ok kept

def createNextBlock (envs : List Envelope) : List Bytes :=
  envs.map c.codec.envelope.marshal

def proposeBatch (config : κ) (batches : List (List SubmitRequest)) : List (List Bytes) :=
  (c.proposeAll .plain config batches).blocks.map fun reqs => c.createNextBlock (reqs.map SubmitRequest.payload)

def writeConfigBlock (config : κ) : List Bytes → Outcome Unit (ConfigEffect κ)
  | [] => .panic
  | first :: _ => do
      let ctx ← .deref (getEnvelopeFromBlock c.codec first)
      let payload ← .deref (unmarshalPayload c.codec ctx.payload)
      let header ← .deref payload.header
      let chdr ← .deref (unmarshalChannelHeader c.codec header.channelHeader)
      match chdr.type with
      | .ordererTransaction => do
          let newChannelConfig ← .deref (c.codec.envelope.unmarshal (payload.data.getD []))
          .ok (.newChain newChannelConfig)
      | .config => do
          let next ← .deref (c.support.applyConfig config chdr.channelId (payload.data.getD []))
          .ok (.update next)
      | _ => .panic

/-- `writeBlock`, and `commitBlock` on catching up: the block's content decides how it is written. -/
def writeBlock (config : κ) (data : List Bytes) : WriteKind κ :=
  if isConfigBlock c.codec data then .configBlock (c.writeConfigBlock config data) else .block

end Chain

structure OrderResult.All {α : Type} (view : α → Envelope) (P : Envelope → Prop) (o : OrderResult α) : Prop where
  batches : ∀ batch ∈ o.batches, ∀ a ∈ batch, P (view a)
  receiver : ∀ a ∈ o.receiver.pendingBatch, P (view a)
  resubmitted : ∀ msg, o.resubmitted = some msg → P msg.payload

namespace Chain

variable {κ α : Type} {c : Chain κ} {P : Envelope → Prop} {config : κ} {msg msg' : SubmitRequest} {view : α → Envelope}
  {r : Receiver α} {reqs : List SubmitRequest}

theorem revalidateConfig_payload (h : c.revalidateConfig config msg = .ok msg') :
    msg' = msg ∨ c.ByConfigUpdate msg'.payload := by
  unfold revalidateConfig at h
  split at h
  · obtain ⟨⟨payload, seq⟩, hp, h⟩ := bind_eq_ok.mp h
    cases h
    exact .inr (processConfigMsg_byConfigUpdate hp)
  · cases h
    exact .inl rfl

theorem orderedNormal_all {a : α} (env : Envelope) (hr : ∀ b ∈ r.pendingBatch, P (view b)) (ha : P (view a)) :
    (c.orderedNormal config r a env).All view P where
  batches := by
    intro batch hbt b hb
    rcases Receiver.mem_ordered (.inl (mem_flatten.mpr ⟨batch, hbt, hb⟩)) with h | rfl
    · exact hr b h
    · exact ha
  receiver := by
    intro b hb
    rcases Receiver.mem_ordered (.inr hb) with h | rfl
    · exact hr b h
    · exact ha
  resubmitted := by
    intro msg h
    cases h

section

variable (hupdate : ∀ env, c.ByConfigUpdate env → P env)

include hupdate

theorem revalidateConfig_all (hm : P msg.payload) (h : c.revalidateConfig config msg = .ok msg') :
    P msg'.payload := by
  rcases revalidateConfig_payload h with rfl | h
  · exact hm
  · exact hupdate _ h

theorem orderedConfig_all {item : SubmitRequest → α} {o : OrderResult α} (hi : ∀ m, view (item m) = m.payload)
    (hr : ∀ b ∈ r.pendingBatch, P (view b)) (hms : P msg.payload) (h : c.orderedConfig item config r msg = .ok o) :
    o.All view P := by
  obtain ⟨msg', hm', h⟩ := bind_eq_ok.mp h
  have hP : P msg'.payload := revalidateConfig_all hupdate hms hm'
  split at h
  · cases h
    refine ⟨by simp, hr, ?_⟩
    intro m hm
    cases hm
    exact hP
  · cases h
    refine ⟨?_, by simp, by simp⟩
    intro batch hb a ha
    rcases mem_append.mp hb with hc | ho
    · exact hr a (Receiver.mem_of_mem_cutPending hc ha)
    · rw [mem_singleton.mp ho, mem_singleton] at ha
      rw [ha, hi]
      exact hP

theorem ordered_all {r : Receiver Envelope} {o : OrderResult Envelope} (hr : ∀ env ∈ r.pendingBatch, P env)
    (hm : P msg.payload) (h : c.ordered config r msg = .ok o) : o.All id P := by
  obtain ⟨isconfig, -, h⟩ := bind_eq_ok.mp h
  cases isconfig with
  | true => exact orderedConfig_all hupdate (fun _ => rfl) hr hm h
  | false =>
    obtain ⟨u, -, h⟩ := bind_eq_ok.mp h
    cases h
    exact orderedNormal_all _ hr hm

theorem orderedBatch_all {r : Receiver SubmitRequest} {o : OrderResult SubmitRequest}
    (hr : ∀ req ∈ r.pendingBatch, P req.payload) (hm : P msg.payload)
    (h : c.orderedBatch config r msg = .ok o) : o.All SubmitRequest.payload P := by
  unfold orderedBatch orderedBatchOf at h
  split at h
  · exact orderedConfig_all hupdate (fun _ => rfl) hr hm h
  · cases h
    exact orderedNormal_all _ hr hm

end

theorem keepValid_subset {f : RequestForm α} {as kept rejected : List α}
    (h : c.keepValid f config as = .ok (kept, rejected)) : kept ⊆ as := by
  induction as generalizing kept rejected with
  | nil =>
    cases h
    exact List.Subset.refl _
  | cons a as ih =>
    unfold keepValid at h
    split at h
    · obtain ⟨_, hk, h⟩ := bind_eq_ok.mp h
      cases h
      exact cons_subset_cons a (ih hk)
    · obtain ⟨_, hk, h⟩ := bind_eq_ok.mp h
      cases h
      exact subset_cons_of_subset a (ih hk)
    · cases h

theorem checkTxns_all (hupdate : ∀ env, c.ByConfigUpdate env → P env) {batch rejected : List SubmitRequest}
    (hb : ∀ req ∈ batch, P req.payload) (h : c.checkTxns .plain config batch = .ok (reqs, rejected)) :
    ∀ req ∈ reqs, P req.payload := by
  cases batch with
  | nil => cases h
  | cons first rest =>
    simp only [checkTxns] at h
    split at h
    · obtain ⟨first', hf', h⟩ := bind_eq_ok.mp h
      cases h
      obtain ⟨hf, hr⟩ := forall_mem_cons.mp hb
      exact forall_mem_cons.mpr ⟨revalidateConfig_all hupdate hf hf', hr⟩
    · intro req hrq
      exact hb req (keepValid_subset h hrq)

theorem proposeAll_all (hupdate : ∀ env, c.ByConfigUpdate env → P env) {batches : List (List SubmitRequest)}
    (hb : ∀ batch ∈ batches, ∀ req ∈ batch, P req.payload) :
    ∀ reqs ∈ (c.proposeAll .plain config batches).blocks, ∀ req ∈ reqs, P req.payload := by
  induction batches with
  | nil => simp [proposeAll]
  | cons batch batches ih =>
    rw [forall_mem_cons] at hb
    unfold proposeAll
    split
    · rename_i kept rejected hc
      exact forall_mem_cons.mpr ⟨checkTxns_all hupdate hb.1 hc, ih hb.2⟩
    · simp
    · simp

def MadeOf (c : Chain κ) (P : Envelope → Prop) (data : List Bytes) : Prop :=
  ∃ envs, data = c.createNextBlock envs ∧ ∀ env ∈ envs, P env

theorem proposeBatch_madeOf (hupdate : ∀ env, c.ByConfigUpdate env → P env) {batches : List (List SubmitRequest)}
    (hb : ∀ batch ∈ batches, ∀ req ∈ batch, P req.payload) :
    ∀ data ∈ c.proposeBatch config batches, c.MadeOf P data := by
  intro data hd
  obtain ⟨reqs, hr, rfl⟩ := mem_map.mp hd
  refine ⟨_, rfl, fun env he => ?_⟩
  obtain ⟨req, hrq, rfl⟩ := mem_map.mp he
  exact proposeAll_all hupdate hb reqs hr req hrq

end Chain

end Drunix.Orderer
