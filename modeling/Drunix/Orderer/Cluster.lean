import Drunix.Orderer.RaftChain

namespace Drunix.Orderer

open Lib Proto

/-- One orderer node: the configuration it has applied, the requests that wait for its batcher, its block
cutter for either mode, and how much of the chain it has written. -/
structure Node (κ : Type) where
  config : κ
  batchC : List SubmitRequest := []
  cutter : Receiver Envelope := {}
  batchCutter : Receiver SubmitRequest := {}
  height : Nat := 0

structure Write (κ : Type) where
  node : Nat
  data : List Bytes
  kind : WriteKind κ

/-- The ordering service of one channel. Requests in flight stay in the pools, as a node may submit one
again; `log` is the chain raft has agreed on, `writes` the history of block writing, and `normals` the
messages ingest has classified as normal. -/
structure Cluster (κ : Type) where
  nodes : Nat → Node κ
  leader : Option Nat := none
  submitted : List SubmitRequest := []
  submittedBatches : List (List (List SubmitRequest)) := []
  proposed : List (List Bytes) := []
  log : List (List Bytes) := []
  writes : List (Write κ) := []
  normals : List Envelope := []

namespace Cluster

variable {κ : Type}

def init (config : κ) : Cluster κ where
  nodes _ := { config }

def setNode (s : Cluster κ) (i : Nat) (n : Node κ) : Cluster κ :=
  { s with nodes := Function.update s.nodes i n }

def enqueue (s : Cluster κ) (followerBatching : Bool) (i : Nat) (req : SubmitRequest) : Cluster κ :=
  if followerBatching then s.setNode i { s.nodes i with batchC := (s.nodes i).batchC ++ [req] }
  else { s with submitted := s.submitted ++ [req] }

def recordNormal (s : Cluster κ) (isConfig : Bool) (msg : Envelope) : Cluster κ :=
  if isConfig then s else { s with normals := s.normals ++ [msg] }

def order (s : Cluster κ) (c : Chain κ) (i : Nat) (o : OrderResult Envelope) : Cluster κ :=
  { s.setNode i { s.nodes i with cutter := o.receiver } with
    proposed := s.proposed ++ o.batches.map c.createNextBlock
    submitted := s.submitted ++ o.resubmitted.toList }

def cutByTimer (s : Cluster κ) (c : Chain κ) (i : Nat) : Cluster κ :=
  { s.setNode i { s.nodes i with cutter := {} } with
    proposed := s.proposed ++ (s.nodes i).cutter.cutPending.map c.createNextBlock }

def submitBatches (s : Cluster κ) (batches : List (List SubmitRequest)) : Cluster κ :=
  match batches with
  | [] => s
  | [] :: _ => s
  | batches => { s with submittedBatches := s.submittedBatches ++ [batches] }

/-- A request that must go to the next leader is submitted without batches, so nothing comes of it. -/
def batch (s : Cluster κ) (i : Nat) (rest : List SubmitRequest) (o : OrderResult SubmitRequest) : Cluster κ :=
  (s.setNode i { s.nodes i with batchC := rest, batchCutter := o.receiver }).submitBatches o.batches

def cutBatchByTimer (s : Cluster κ) (i : Nat) : Cluster κ :=
  (s.setNode i { s.nodes i with batchCutter := {} }).submitBatches (s.nodes i).batchCutter.cutPending

/-- `becomeFollower` cuts the waiting envelopes and drops them. Where followers batch, the requests stay
and only their counted size is reset. -/
def becomeFollower (s : Cluster κ) (i : Nat) : Cluster κ :=
  s.setNode i { s.nodes i with
    cutter := {}, batchCutter := { (s.nodes i).batchCutter with pendingBatchSizeBytes := 0 } }

def elect (s : Cluster κ) (newLeader : Option Nat) : Cluster κ :=
  match s.leader with
  | some i => { s.becomeFollower i with leader := newLeader }
  | none => { s with leader := newLeader }

def afterWrite (n : Node κ) : WriteKind κ → Node κ
  | .block => { n with height := n.height + 1 }
  | .configBlock (.ok (.update config)) => { n with config, height := n.height + 1 }
  | .configBlock (.ok (.newChain _)) => { n with height := n.height + 1 }
  -- the writer has panicked
  | .configBlock _ => n

def write (s : Cluster κ) (c : Chain κ) (i : Nat) (data : List Bytes) : Cluster κ :=
  let kind := c.writeBlock (s.nodes i).config data
  { s.setNode i (afterWrite (s.nodes i) kind) with writes := s.writes ++ [⟨i, data, kind⟩] }

/-- One step of the service. Every normal message that ingest takes in satisfies `allowed`. -/
inductive Step (c : Chain κ) (allowed : Envelope → Prop) : Cluster κ → Cluster κ → Prop
  | broadcast {s : Cluster κ} (i : Nat) (r : Registrar) {msg : Envelope} {chdr : ChannelHeader} {isConfig : Bool}
      {req : SubmitRequest} (hwire : c.codec.envelope.RoundTrips msg)
      (hclass : broadcastChannelSupport c.codec r msg = .ok (chdr, isConfig, c.support.channelID))
      (hallowed : isConfig = false → allowed msg)
      (hreq : c.processMessage (s.nodes i).config isConfig msg = .ok req) :
      Step c allowed s ((s.enqueue c.followerBatching i req).recordNormal isConfig msg)
  | order {s : Cluster κ} (i : Nat) {req : SubmitRequest} {o : OrderResult Envelope}
      (hmode : c.followerBatching = false) (hleader : s.leader = some i) (hreq : req ∈ s.submitted)
      (ho : c.ordered (s.nodes i).config (s.nodes i).cutter req = .ok o) : Step c allowed s (s.order c i o)
  | timer {s : Cluster κ} (i : Nat) (hmode : c.followerBatching = false) (hleader : s.leader = some i) :
      Step c allowed s (s.cutByTimer c i)
  | batch {s : Cluster κ} (i : Nat) {req : SubmitRequest} {rest : List SubmitRequest}
      {o : OrderResult SubmitRequest} (hmode : c.followerBatching = true) (hbatchC : (s.nodes i).batchC = req :: rest)
      (ho : c.orderedBatch (s.nodes i).config (s.nodes i).batchCutter req = .ok o) :
      Step c allowed s (s.batch i rest o)
  | batchError {s : Cluster κ} (i : Nat) {req : SubmitRequest} {rest : List SubmitRequest} {e : MsgError}
      (hmode : c.followerBatching = true) (hbatchC : (s.nodes i).batchC = req :: rest)
      (ho : c.orderedBatch (s.nodes i).config (s.nodes i).batchCutter req = .err e) :
      Step c allowed s (s.setNode i { s.nodes i with batchC := rest })
  | batchTimer {s : Cluster κ} (i : Nat) (hmode : c.followerBatching = true) :
      Step c allowed s (s.cutBatchByTimer i)
  | proposeBatch {s : Cluster κ} (i : Nat) {batches : List (List SubmitRequest)}
      (hmode : c.followerBatching = true) (hleader : s.leader = some i) (hbatches : batches ∈ s.submittedBatches) :
      Step c allowed s { s with proposed := s.proposed ++ c.proposeBatch (s.nodes i).config batches }
  | elect {s : Cluster κ} (newLeader : Option Nat) (hchange : newLeader ≠ s.leader) :
      Step c allowed s (s.elect newLeader)
  | commit {s : Cluster κ} {data : List Bytes} (hdata : data ∈ s.proposed) :
      Step c allowed s { s with log := s.log ++ [data] }
  | write {s : Cluster κ} (i : Nat) {data : List Bytes} (hdata : s.log[(s.nodes i).height]? = some data) :
      Step c allowed s (s.write c i data)

def Reached (c : Chain κ) (allowed : Envelope → Prop) (config : κ) : Cluster κ → Prop :=
  Reachable (· = init config) (Step c allowed)

end Cluster

end Drunix.Orderer
