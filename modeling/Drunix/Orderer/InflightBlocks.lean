import Drunix.Orderer.ConfigSafety

namespace Drunix.Orderer

open Lib Proto List

/-- The loop of `runBatch` and the proposer goroutine of its channel. `serving` are the blocks of the request in hand
that have not been handed over, `inherited` and `proposed` the blocks in raft's log that are not applied: those of
earlier leaders and those of this one. -/
structure RunBatch where
  leader : Bool := false
  accepting : Bool := true
  justElected : Bool := false
  configInflight : Bool := false
  blockInflight : Nat := 0
  propC : List (List Bytes) := []
  proposing : Bool := false
  serving : Option (List (List Bytes)) := none
  inherited : Nat := 0
  proposed : Nat := 0
  panicked : Bool := false

/-- What `applyC` delivers: whether this node leads, if the soft state is there, and so many blocks, of which some may
be written already. The rest is what the handler finds: blocks of earlier leaders and an unfinished ConfChange when it
becomes leader, and what the entries mean for the config and the log. -/
structure Applied where
  soft : Option Bool
  inherited : Nat
  confChange : Bool
  entries : Nat
  written : Nat
  configInflight : Bool
  msgInflight : Bool

namespace RunBatch

variable (s : RunBatch)

def becomeLeader (inherited : Nat) (confChange : Bool) : RunBatch :=
  { s with
    leader := true, blockInflight := 0, justElected := true, accepting := false, propC := [], proposing := true
    configInflight := s.configInflight || confChange, inherited, proposed := 0 }

def becomeFollower : RunBatch :=
  { s with leader := false, proposing := false, blockInflight := 0, accepting := true }

def applySoft (app : Applied) : RunBatch :=
  match app.soft with
  | some true => if s.leader then s else s.becomeLeader app.inherited app.confChange
  | some false => if s.leader then s.becomeFollower else s
  | none => s

/-- `apply`: `writeBlock` counts down to zero and no further. -/
def applyEntries (app : Applied) : RunBatch :=
  { s with
    inherited := s.inherited - app.entries
    proposed := s.proposed - (app.entries - s.inherited)
    blockInflight := s.blockInflight - app.written
    configInflight := app.configInflight }

def resume (maxInflightBlocks : Nat) (msgInflight : Bool) : RunBatch :=
  if s.justElected then
    if msgInflight then s
    else if s.configInflight then s
    else { s with accepting := true, justElected := false }
  else if s.configInflight then { s with accepting := false }
  else if s.blockInflight < maxInflightBlocks then { s with accepting := true }
  else s

def apply (maxInflightBlocks : Nat) (app : Applied) : RunBatch :=
  ((s.applySoft app).applyEntries app).resume maxInflightBlocks app.msgInflight

def served (maxInflightBlocks : Nat) : RunBatch :=
  { s with
    serving := none
    accepting := s.accepting && !s.configInflight && decide (s.blockInflight < maxInflightBlocks) }

structure Consistent (app : Applied) : Prop where
  written : app.written ≤ app.entries
  entries : (s.applySoft app).leader = true →
    app.entries ≤ (s.applySoft app).inherited + (s.applySoft app).proposed
  msgInflight : (s.applySoft app).leader = true → app.msgInflight = false →
    (s.applySoft app).inherited + (s.applySoft app).proposed ≤ app.entries

end RunBatch

section

variable {κ : Type} (c : Chain κ) (maxInflightBlocks : Nat)

/-- A step of the node; it is labelled with the batches of the request if it accepts one. -/
inductive InflightStep (s : RunBatch) : Option (List (List SubmitRequest)) → RunBatch → Prop
  -- A node that does not lead answers with the leader and drops the request.
  | submit (config : κ) (batches : List (List SubmitRequest)) (haccept : s.accepting = true) (hidle : s.serving = none)
      (hleader : s.leader = true) : InflightStep s (some batches) { s with serving := some (c.proposeBatch config batches) }
  | handOver {b : List Bytes} {rest : List (List Bytes)} (hserving : s.serving = some (b :: rest))
      (hroom : s.propC.length < maxInflightBlocks) :
      InflightStep s none
        { s with
          serving := some rest
          propC := s.propC ++ [b]
          configInflight := s.configInflight || isConfigBlock c.codec b
          blockInflight := s.blockInflight + 1 }
  -- The programming error of `proposeBatch`.
  | limitExceeded {b : List Bytes} {rest : List (List Bytes)} (hserving : s.serving = some (b :: rest))
      (hfull : maxInflightBlocks ≤ s.propC.length) : InflightStep s none { s with panicked := true }
  | served (hserving : s.serving = some []) : InflightStep s none (s.served maxInflightBlocks)
  | propose {b : List Bytes} {rest : List (List Bytes)} (hproposing : s.proposing = true) (hpropC : s.propC = b :: rest) :
      InflightStep s none { s with propC := rest, proposed := s.proposed + 1 }
  | proposeFails {b : List Bytes} {rest : List (List Bytes)} (hproposing : s.proposing = true)
      (hpropC : s.propC = b :: rest) : InflightStep s none { s with propC := rest, proposing := false }
  | apply (app : Applied) (hidle : s.serving = none) (happ : s.Consistent app) :
      InflightStep s none (s.apply maxInflightBlocks app)

def InflightRun : RunBatch → Prop :=
  Reachable (fun s => s = {}) fun s t => ∃ request, InflightStep c maxInflightBlocks s request t

def FittingRun : RunBatch → Prop :=
  Reachable (fun s => s = {}) fun s t => ∃ request, InflightStep c maxInflightBlocks s request t ∧
    ∀ batches, request = some batches → s.blockInflight + batches.length ≤ maxInflightBlocks

end

section

variable {κ : Type} {c : Chain κ} {maxInflightBlocks : Nat}

theorem Chain.proposeBatch_length_le (config : κ) (batches : List (List SubmitRequest)) :
    (c.proposeBatch config batches).length ≤ batches.length := by
  rw [proposeBatch, length_map]
  induction batches with
  | nil => exact Nat.le_refl 0
  | cons batch batches ih =>
    rw [proposeAll]
    split
    · exact Nat.succ_le_succ ih
    · exact Nat.zero_le _
    · exact Nat.zero_le _

/-- A new leader has taken nothing yet. One that serves requests has nothing of earlier leaders left to apply, and
counts at least the blocks in its channel and in the log. The blocks in hand are within the limit. -/
structure RunBatch.Counts (maxInflightBlocks : Nat) (s : RunBatch) : Prop where
  running : s.panicked = false
  elected : s.leader = true → s.justElected = true →
    s.propC = [] ∧ s.proposed = 0 ∧ s.blockInflight = 0 ∧ s.accepting = false
  inherited : s.leader = true → s.justElected = false → s.inherited = 0
  counted : s.leader = true → s.justElected = false → s.propC.length + s.proposed ≤ s.blockInflight
  limited : s.leader = true → s.accepting = true → s.serving = none → maxInflightBlocks ≠ 0 →
    s.blockInflight < maxInflightBlocks
  serving : ∀ blocks, s.serving = some blocks →
    s.leader = true ∧ s.justElected = false ∧ s.blockInflight + blocks.length ≤ maxInflightBlocks

namespace RunBatch

variable {s : RunBatch} {app : Applied}

@[simp] theorem applySoft_serving : (s.applySoft app).serving = s.serving := by
  unfold applySoft
  split
  · split_ifs <;> rfl
  · split_ifs <;> rfl
  · rfl

section

variable (hs : s.Counts maxInflightBlocks) (hidle : s.serving = none)
include hs hidle

theorem becomeLeader_counts (inherited : Nat) (confChange : Bool) :
    (s.becomeLeader inherited confChange).Counts maxInflightBlocks where
  running := hs.running
  elected _ _ := ⟨rfl, rfl, rfl, rfl⟩
  inherited _ h := by cases h
  counted _ h := by cases h
  limited _ h := by cases h
  serving blocks h := absurd (hidle.symm.trans h) (Option.some_ne_none blocks).symm

theorem becomeFollower_counts :
    s.becomeFollower.Counts maxInflightBlocks where
  running := hs.running
  elected h := by cases h
  inherited h := by cases h
  counted h := by cases h
  limited h := by cases h
  serving blocks h := absurd (hidle.symm.trans h) (Option.some_ne_none blocks).symm

theorem applySoft_counts : (s.applySoft app).Counts maxInflightBlocks := by
  unfold applySoft
  split
  · split_ifs
    · exact hs
    · exact becomeLeader_counts hs hidle _ _
  · split_ifs
    · exact becomeFollower_counts hs hidle
    · exact hs
  · exact hs

theorem applyEntries_counts (hw : app.written ≤ app.entries)
    (he : s.leader = true → app.entries ≤ s.inherited + s.proposed) :
    (s.applyEntries app).Counts maxInflightBlocks where
  running := hs.running
  elected hl hj := by
    obtain ⟨hpc, hpr, hc, ha⟩ := hs.elected hl hj
    refine ⟨hpc, ?_, ?_, ha⟩
    · change s.proposed - _ = 0
      omega
    · change s.blockInflight - _ = 0
      omega
  inherited hl hj := by
    have hn := hs.inherited hl hj
    change s.inherited - app.entries = 0
    omega
  counted hl hj := by
    have hn := hs.inherited hl hj
    have hc := hs.counted hl hj
    have hlg := he hl
    change s.propC.length + (s.proposed - (app.entries - s.inherited)) ≤ s.blockInflight - app.written
    omega
  limited hl ha _ hmax := by
    have hlt := hs.limited hl ha hidle hmax
    change s.blockInflight - app.written < maxInflightBlocks
    omega
  serving blocks h := absurd (hidle.symm.trans h) (Option.some_ne_none blocks).symm

theorem resume_counts {msgInflight : Bool} (hlg : s.leader = true → msgInflight = false → s.inherited = 0) :
    (s.resume maxInflightBlocks msgInflight).Counts maxInflightBlocks := by
  unfold resume
  split_ifs with hj hm hc hc hlt
  · exact hs
  · exact hs
  · -- the log of a new leader is applied, so it has no blocks of earlier leaders
    refine ⟨hs.running, nofun, fun hl _ => hlg hl (Bool.eq_false_iff.mpr hm), ?_, ?_, fun _ h => nomatch hidle.symm.trans h⟩
    · intro hl _
      obtain ⟨hpc, hpr, -, -⟩ := hs.elected hl hj
      rw [hpc, hpr]
      exact Nat.zero_le _
    · intro hl _ _ hmax
      obtain ⟨-, -, hcn, -⟩ := hs.elected hl hj
      change s.blockInflight < maxInflightBlocks
      omega
  · exact { hs with elected := fun _ h => absurd h hj, limited := nofun }
  · exact { hs with elected := fun _ h => absurd h hj, limited := fun _ _ _ _ => hlt }
  · exact hs

theorem apply_counts (ha : s.Consistent app) : (s.apply maxInflightBlocks app).Counts maxInflightBlocks := by
  have hsf : (s.applySoft app).Counts maxInflightBlocks := applySoft_counts hs hidle
  have hi' : (s.applySoft app).serving = none := applySoft_serving.trans hidle
  have he := applyEntries_counts hsf hi' ha.written ha.entries
  refine resume_counts he hi' fun hl hm => ?_
  have hal := ha.msgInflight hl hm
  change (s.applySoft app).inherited - app.entries = 0
  omega

end

end RunBatch

theorem InflightStep.counts {s t : RunBatch} {request : Option (List (List SubmitRequest))}
    (h : InflightStep c maxInflightBlocks s request t)
    (hf : ∀ batches, request = some batches → s.blockInflight + batches.length ≤ maxInflightBlocks)
    (hs : s.Counts maxInflightBlocks) : t.Counts maxInflightBlocks := by
  cases h with
  | submit config batches ha hidle hld =>
    refine { hs with limited := nofun, serving := ?_ }
    rintro _ ⟨⟩
    have hj : s.justElected = false := by
      by_contra hj
      have hb := (hs.elected hld (Bool.not_eq_false _ ▸ hj)).2.2.2
      rw [ha] at hb
      cases hb
    have hlen := c.proposeBatch_length_le config batches
    have hft := hf batches rfl
    refine ⟨hld, hj, ?_⟩
    change s.blockInflight + _ ≤ _
    omega
  | handOver hsr hr =>
    obtain ⟨hl, hj, hft⟩ := hs.serving _ hsr
    have hc := hs.counted hl hj
    rw [length_cons] at hft
    refine { hs with elected := fun _ h => ?_, counted := fun _ _ => ?_, limited := nofun, serving := ?_ }
    · cases hj.symm.trans h
    · simp only [length_append, length_singleton]
      omega
    · rintro _ ⟨⟩
      exact ⟨hl, hj, by simp only; omega⟩
  | limitExceeded hsr hfl =>
    -- the channel holds no more than is counted, and the block in hand is within the limit
    obtain ⟨hl, hj, hft⟩ := hs.serving _ hsr
    have hc := hs.counted hl hj
    rw [length_cons] at hft
    omega
  | served hsr =>
    obtain ⟨hl, hj, -⟩ := hs.serving _ hsr
    refine { hs with elected := fun _ h => ?_, limited := fun _ ha _ _ => ?_, serving := nofun }
    · cases hj.symm.trans h
    · simp only [RunBatch.served, Bool.and_eq_true, decide_eq_true_eq] at ha
      exact ha.2
  | propose hp hpc | proposeFails hp hpc =>
    refine { hs with elected := fun hl hj => ?_, counted := fun hl hj => ?_ }
    · cases (hs.elected hl hj).1.symm.trans hpc
    · have hc := hs.counted hl hj
      rw [hpc, length_cons] at hc
      simp only
      omega
  | apply app hidle hap => exact RunBatch.apply_counts hs hidle hap

section

variable {s : RunBatch} (h : FittingRun c maxInflightBlocks s)
include h

theorem FittingRun.counts : s.Counts maxInflightBlocks := by
  refine h.invariant (RunBatch.Counts maxInflightBlocks) ?_ fun s t hs ⟨_, hst, hf⟩ => hst.counts hf hs
  rintro _ rfl
  exact ⟨rfl, by simp, by simp, by simp, by simp, by simp⟩

end

end

/-- Where every request that is accepted fits into the limit, the leader never finds the channel of its proposer full;
and a request with one batch fits whenever it is accepted. -/
theorem inflight_limit_respected {κ : Type} (c : Chain κ) (maxInflightBlocks : Nat) (hmax : maxInflightBlocks ≠ 0)
    (s : RunBatch) (hrun : FittingRun c maxInflightBlocks s) :
    s.panicked = false ∧ (s.accepting = true → s.serving = none → s.leader = true →
      ∀ batch : List SubmitRequest, s.blockInflight + [batch].length ≤ maxInflightBlocks) :=
  ⟨hrun.counts.running, fun ha hidle hl _ => hrun.counts.limited hl ha hidle hmax⟩

section

def election : Applied where
  soft := some true
  inherited := 0
  confChange := false
  entries := 0
  written := 0
  configInflight := false
  msgInflight := false

theorem election_consistent : RunBatch.Consistent {} election :=
  ⟨Nat.le_refl 0, fun _ => Nat.le_refl 0, fun _ _ => Nat.le_refl 0⟩

def transferRequest : SubmitRequest where
  payload := transfer
  lastValidationSeq := 0

/-- After a request with a single batch the channel of a limit of one is full and no more requests are accepted. -/
theorem inflight_limit_respected_transfer :
    ∃ s, FittingRun paymentsChain 1 s ∧ s.propC = [[[23]]] ∧ s.accepting = false ∧ s.panicked = false := by
  have hi : FittingRun paymentsChain 1 {} := .init rfl
  have he := hi.step ⟨none, .apply election rfl election_consistent, by simp⟩
  have hsb := he.step
    ⟨some [[transferRequest]], .submit (0 : UInt64) [[transferRequest]] rfl rfl rfl, by rintro _ ⟨⟩; decide⟩
  have hh := hsb.step ⟨none, .handOver rfl (by decide), by simp⟩
  have hsr := hh.step ⟨none, .served rfl, by simp⟩
  exact ⟨_, hsr, rfl, rfl, (inflight_limit_respected paymentsChain 1 (by decide) _ hsr).1⟩

/-- A request with two batches: nothing is in flight when it is accepted, and its second block finds the channel full. -/
theorem two_batches_exceed_limit : ∃ s, InflightRun paymentsChain 1 s ∧ s.panicked = true := by
  have hi : InflightRun paymentsChain 1 {} := .init rfl
  have he := hi.step ⟨none, .apply election rfl election_consistent⟩
  have hsb := he.step
    ⟨some [[transferRequest], [transferRequest]],
      .submit (0 : UInt64) [[transferRequest], [transferRequest]] rfl rfl rfl⟩
  have hh := hsb.step ⟨none, .handOver rfl (by decide)⟩
  exact ⟨_, hh.step ⟨none, .limitExceeded rfl (by decide)⟩, rfl⟩

end

end Drunix.Orderer
