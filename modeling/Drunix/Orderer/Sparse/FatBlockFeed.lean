import Mathlib.Data.Prod.Lex
import Mathlib.Logic.Relation
import Drunix.Lib.Transition

namespace Drunix.Orderer.Sparse

open Lib Relation List Option

inductive Processor where
  | notStarted
  /-- `isSparseChainStart`: the next block is read from the ledger. -/
  | sparseChainStart (nextTobeProcessed : Nat)
  | receiving
  /-- `syncOrderer` is at block `next`, having received `fatBlock`. -/
  | syncing (fatBlock next : Nat)
  | processing (fatBlock : Nat)
  deriving DecidableEq

/-- The ledger of a channel and the processing of its fat blocks, the blocks given by their numbers. -/
structure Feed where
  height : Nat
  /-- The height at which the running process opened the ledger. -/
  opened : Nat
  /-- The block `Append` has written and not yet sent. -/
  appending : Option Nat := none
  sparseCh : List Nat := []
  /-- The stored channel head. -/
  lastFatBlockNumberProcessed : Option Nat := none
  processor : Processor := .notStarted
  /-- The blocks given to `createOrgBlocks` so far, in this and earlier processes. -/
  processed : List Nat := []
  startPoint : Nat := 0
  deriving DecidableEq

def sparseChSize : Nat := 2

def startProcessor (head : Option Nat) (height : Nat) : Processor :=
  match head with
  | some _ => .receiving
  -- the number two below the height wraps around for a lower one, and no block is found
  | none => if 2 ≤ height then .sparseChainStart (height - 1) else .receiving

/-- A channel head that was never stored reads as zero. -/
def receiveFatBlock (head : Option Nat) (fatBlock : Nat) : Processor :=
  if fatBlock ≠ 0 ∧ head.getD 0 + 1 < fatBlock then .syncing fatBlock (head.getD 0 + 1) else .processing fatBlock

def syncNext (fatBlock next : Nat) : Processor :=
  if next + 1 < fatBlock then .syncing fatBlock (next + 1) else .processing fatBlock

theorem startProcessor_ne_notStarted (head : Option Nat) (height : Nat) : startProcessor head height ≠ .notStarted := by
  cases head with
  | some last => exact Processor.noConfusion
  | none =>
    simp only [startProcessor]
    split <;> exact Processor.noConfusion

theorem receiveFatBlock_ne_notStarted (head : Option Nat) (fatBlock : Nat) :
    receiveFatBlock head fatBlock ≠ .notStarted := by
  rw [receiveFatBlock]
  split <;> exact Processor.noConfusion

theorem syncNext_ne_notStarted (fatBlock next : Nat) : syncNext fatBlock next ≠ .notStarted := by
  rw [syncNext]
  split <;> exact Processor.noConfusion

def Processor.remaining : Processor → Nat
  | .notStarted | .receiving => 0
  | .sparseChainStart _ | .processing _ => 1
  | .syncing fatBlock next => fatBlock - next + 2

theorem remaining_syncNext (fatBlock next : Nat) :
    (syncNext fatBlock next).remaining < (Processor.syncing fatBlock next).remaining := by
  rw [syncNext]
  split
  · simp only [Processor.remaining]
    omega
  · simp only [Processor.remaining]
    omega

namespace Feed

/-- `createOrgBlocks` and `storeBlockData` on one block. -/
def process (s : Feed) (fatBlock : Nat) (processor : Processor) : Feed :=
  { s with processed := s.processed ++ [fatBlock], lastFatBlockNumberProcessed := some fatBlock, processor }

/-- The point from which blocks are to be processed is the last block of the ledger when nothing was
processed before. -/
def start (s : Feed) : Feed :=
  { s with
    processor := startProcessor s.lastFatBlockNumberProcessed s.height
    startPoint := if s.lastFatBlockNumberProcessed = none then s.height - 1 else s.startPoint }

def restart (s : Feed) : Feed :=
  { s with opened := s.height, appending := none, sparseCh := [], processor := .notStarted }

inductive Work : Feed → Feed → Prop
  | send {s : Feed} {fatBlock : Nat} (h : s.appending = some fatBlock) (hroom : s.sparseCh.length < sparseChSize) :
      Work s { s with appending := none, sparseCh := s.sparseCh ++ [fatBlock] }
  | first {s : Feed} {fatBlock : Nat} (h : s.processor = .sparseChainStart fatBlock) :
      Work s (s.process fatBlock .receiving)
  | receive {s : Feed} {fatBlock : Nat} {rest : List Nat} (h : s.processor = .receiving)
      (hch : s.sparseCh = fatBlock :: rest) :
      Work s { s with sparseCh := rest, processor := receiveFatBlock s.lastFatBlockNumberProcessed fatBlock }
  | sync {s : Feed} {fatBlock next : Nat} (h : s.processor = .syncing fatBlock next) :
      Work s (s.process next (syncNext fatBlock next))
  | process {s : Feed} {fatBlock : Nat} (h : s.processor = .processing fatBlock) :
      Work s (s.process fatBlock .receiving)

inductive Step : Feed → Feed → Prop
  | addBlock {s : Feed} (h : s.appending = none) :
      Step s { s with height := s.height + 1, appending := some s.height }
  | start {s : Feed} (h : s.processor = .notStarted) : Step s s.start
  | restart (s : Feed) : Step s s.restart
  | work {s t : Feed} (h : Work s t) : Step s t

def Init (s : Feed) : Prop :=
  s = { height := s.height, opened := s.height }

/-- Without a stored head the goroutine starts before this process appends anything that it also
reads from the ledger, and a first block is there only if this process appended it. -/
def StartsClean (s : Feed) : Prop :=
  s.lastFatBlockNumberProcessed = none → if 2 ≤ s.height then s.opened = s.height else s.opened = 0

instance (s : Feed) : Decidable s.StartsClean :=
  inferInstanceAs (Decidable (_ → _))

def CleanStep (s t : Feed) : Prop :=
  Step s t ∧ (s.processor = .notStarted → t.processor ≠ .notStarted → s.StartsClean)

def InOrder (s : Feed) : Prop :=
  s.processed = List.range' s.startPoint s.processed.length

def Idle (s : Feed) : Prop :=
  s.processor = .receiving ∧ s.sparseCh = [] ∧ s.appending = none

def position (s : Feed) : Nat :=
  s.startPoint + s.processed.length

def At (s : Feed) (next : Nat) : Prop :=
  match s.processor with
  | .notStarted => next = s.opened ∧ (s.processed ≠ [] → s.position ≤ s.opened)
  | .sparseChainStart fatBlock => s.processed = [] ∧ s.startPoint = fatBlock ∧ next = fatBlock + 1
  | .receiving => (s.processed = [] ∧ s.startPoint = 0 ∧ next = 0) ∨
      (s.processed ≠ [] ∧ s.position ≤ next ∧ (s.position = next ∨ next = s.opened))
  | .syncing fatBlock i => s.processed ≠ [] ∧ i = s.position ∧ i < fatBlock ∧ next = fatBlock + 1
  | .processing fatBlock => fatBlock = s.position ∧ next = fatBlock + 1

structure Inv (s : Feed) (next : Nat) : Prop where
  queue : s.sparseCh ++ s.appending.toList = List.range' next (s.height - next)
  next_le : next ≤ s.height
  opened_le : s.opened ≤ next
  inOrder : s.InOrder
  head : s.lastFatBlockNumberProcessed = s.processed.getLast?
  place : s.At next

variable {s t : Feed} {next : Nat}

variable {fatBlock : Nat}

theorem InOrder.process (h : s.InOrder) (hn : fatBlock = s.position) (processor : Processor) :
    (s.process fatBlock processor).InOrder := by
  have hp : s.processed = List.range' s.startPoint s.processed.length := h
  change s.processed ++ [fatBlock] = List.range' s.startPoint (s.processed ++ [fatBlock]).length
  rw [length_append, length_singleton, range'_1_concat, ← hp, hn, position]

section

variable (fatBlock : Nat) (processor : Processor)

theorem position_process : (s.process fatBlock processor).position = s.position + 1 := by
  simp only [position, Feed.process, length_append, length_singleton, Nat.add_assoc]

theorem process_ne_nil : (s.process fatBlock processor).processed ≠ [] :=
  append_ne_nil_of_right_ne_nil _ (cons_ne_nil _ _)

end

theorem InOrder.getLast? (h : s.InOrder) (hne : s.processed ≠ []) : s.processed.getLast? = some (s.position - 1) := by
  have hlen : 0 < s.processed.length := length_pos_iff.mpr hne
  rw [h, getLast?_range', if_neg (Nat.ne_of_gt hlen), position]

theorem position_pos (hne : s.processed ≠ []) : 0 < s.position := by
  have hlen : 0 < s.processed.length := length_pos_iff.mpr hne
  rw [position]
  omega

namespace Inv

theorem head_none_iff (h : s.Inv next) : s.lastFatBlockNumberProcessed = none ↔ s.processed = [] := by
  rw [h.head, getLast?_eq_none_iff]

theorem head_getD (h : s.Inv next) (hne : s.processed ≠ []) :
    s.lastFatBlockNumberProcessed.getD 0 + 1 = s.position := by
  have hpos := position_pos hne
  rw [h.head, h.inOrder.getLast? hne, getD_some]
  omega

theorem position_le (h : s.Inv next) (hne : s.processed ≠ []) : s.position ≤ next := by
  have hp := h.place
  have hop := h.opened_le
  unfold At at hp
  split at hp
  · exact (hp.2 hne).trans hop
  · exact absurd hp.1 hne
  · rcases hp with ⟨hnil, _⟩ | ⟨_, hle, _⟩
    · exact absurd hnil hne
    · exact hle
  · omega
  · omega

theorem init (h : s.Init) : s.Inv s.height := by
  rw [h]
  exact ⟨by simp, le_rfl, le_rfl, rfl, rfl, rfl, fun hne => absurd rfl hne⟩

theorem addBlock (h : s.Inv next) (hn : s.appending = none) :
    Feed.Inv { s with height := s.height + 1, appending := some s.height } next := by
  have hq := h.queue
  have hle := h.next_le
  rw [hn, toList_none, append_nil] at hq
  have hlen : s.height + 1 - next = s.height - next + 1 := by omega
  refine { h with queue := ?_, next_le := Nat.le_succ_of_le hle }
  rw [hlen, range'_1_concat, ← hq, Nat.add_sub_cancel' hle, toList_some]

theorem send (h : s.Inv next) (hsm : s.appending = some fatBlock) :
    Feed.Inv { s with appending := none, sparseCh := s.sparseCh ++ [fatBlock] } next := by
  have hq := h.queue
  rw [hsm, toList_some] at hq
  refine { h with queue := ?_ }
  rw [toList_none, append_nil, hq]

theorem restart (h : s.Inv next) : s.restart.Inv s.height where
  queue := by simp [Feed.restart]
  next_le := le_rfl
  opened_le := le_rfl
  inOrder := h.inOrder
  head := h.head
  place := ⟨rfl, fun hne => (h.position_le hne).trans h.next_le⟩

theorem start (h : s.Inv next) (hpr : s.processor = .notStarted) (hc : s.StartsClean) : s.start.Inv next := by
  have hp := h.place
  simp only [At, hpr] at hp
  obtain ⟨rfl, hpos⟩ := hp
  cases hhd : s.lastFatBlockNumberProcessed with
  | none =>
    have hnil : s.processed = [] := h.head_none_iff.mp hhd
    have ho := hc hhd
    refine ⟨h.queue, h.next_le, le_rfl, ?_, h.head, ?_⟩
    · simp [InOrder, Feed.start, hnil]
    · simp only [At, Feed.start, startProcessor, hhd, hnil, if_true]
      by_cases hh : 2 ≤ s.height
      · rw [if_pos hh] at ho
        simp only [if_pos hh, true_and]
        omega
      · rw [if_neg hh] at ho
        simp only [if_neg hh]
        exact Or.inl ⟨trivial, by omega, ho⟩
  | some last =>
    have hne : s.processed ≠ [] := by
      intro hnil
      rw [h.head_none_iff.mpr hnil] at hhd
      cases hhd
    have hst : s.start = { s with processor := .receiving } := by
      simp [Feed.start, startProcessor, hhd]
    rw [hst]
    exact ⟨h.queue, h.next_le, le_rfl, h.inOrder, h.head, Or.inr ⟨hne, hpos hne, Or.inr rfl⟩⟩

theorem process {processor : Processor} (h : s.Inv next) (hn : fatBlock = s.position)
    (hp : (s.process fatBlock processor).At next) : (s.process fatBlock processor).Inv next :=
  ⟨h.queue, h.next_le, h.opened_le, h.inOrder.process hn processor, getLast?_concat.symm, hp⟩

section

variable (h : s.Inv next)
include h

theorem process_receiving (hn : fatBlock = s.position) (hnx : next = fatBlock + 1) :
    (s.process fatBlock .receiving).Inv next := by
  have hpos : (s.process fatBlock .receiving).position = next := by rw [position_process, ← hn, hnx]
  exact h.process hn (Or.inr ⟨process_ne_nil _ _, hpos.le, Or.inl hpos⟩)

theorem first (hpr : s.processor = .sparseChainStart fatBlock) : (s.process fatBlock .receiving).Inv next := by
  have hp := h.place
  simp only [At, hpr] at hp
  obtain ⟨hnil, hst, hn⟩ := hp
  exact h.process_receiving (by simp [position, hnil, hst]) hn

theorem processing (hpr : s.processor = .processing fatBlock) : (s.process fatBlock .receiving).Inv next := by
  have hp := h.place
  simp only [At, hpr] at hp
  exact h.process_receiving hp.1 hp.2

theorem sync {i : Nat} (hpr : s.processor = .syncing fatBlock i) : (s.process i (syncNext fatBlock i)).Inv next := by
  have hp := h.place
  simp only [At, hpr] at hp
  obtain ⟨hne, hn, hlt, hnx⟩ := hp
  apply h.process hn
  have hpos := position_process (s := s) i (syncNext fatBlock i)
  rw [← hn] at hpos
  by_cases hm : i + 1 < fatBlock
  · rw [syncNext, if_pos hm] at hpos ⊢
    exact ⟨process_ne_nil _ _, hpos.symm, hm, hnx⟩
  · rw [syncNext, if_neg hm] at hpos ⊢
    exact ⟨by rw [hpos]; omega, hnx⟩

theorem receive {rest : List Nat} (hpr : s.processor = .receiving) (hch : s.sparseCh = fatBlock :: rest) :
    Feed.Inv { s with sparseCh := rest, processor := receiveFatBlock s.lastFatBlockNumberProcessed fatBlock }
      (next + 1) := by
  have hpl := h.place
  simp only [At, hpr] at hpl
  have hq := h.queue
  have hlt : next < s.height := by
    by_contra hge
    rw [Nat.sub_eq_zero_of_le (Nat.le_of_not_lt hge), hch] at hq
    cases hq
  have hlen : s.height - next = s.height - (next + 1) + 1 := by omega
  rw [hch, cons_append, hlen, range'_succ, List.cons.injEq] at hq
  obtain ⟨rfl, hq⟩ := hq
  refine ⟨hq, hlt, Nat.le_succ_of_le h.opened_le, h.inOrder, h.head, ?_⟩
  rcases hpl with ⟨hnil, hst, rfl⟩ | ⟨hne, hle, hat⟩
  · have hp : receiveFatBlock s.lastFatBlockNumberProcessed 0 = .processing 0 := rfl
    exact ⟨by simp [position, hnil, hst], rfl⟩
  · have hh := h.head_getD hne
    by_cases hg : s.position < fatBlock
    · have hp : receiveFatBlock s.lastFatBlockNumberProcessed fatBlock = .syncing fatBlock s.position := by
        rw [receiveFatBlock, hh, if_pos ⟨by omega, hg⟩]
      rw [hp]
      exact ⟨hne, rfl, hg, rfl⟩
    · have hp : receiveFatBlock s.lastFatBlockNumberProcessed fatBlock = .processing fatBlock := by
        rw [receiveFatBlock, hh, if_neg fun hc => hg hc.2]
      rw [hp]
      have heq : fatBlock = s.position := Nat.le_antisymm (Nat.le_of_not_lt hg) hle
      exact ⟨heq, rfl⟩

theorem work (hw : Work s t) : ∃ next', t.Inv next' := by
  cases hw with
  | send hsm hr => exact ⟨next, h.send hsm⟩
  | first hp => exact ⟨next, h.first hp⟩
  | receive hp hch => exact ⟨next + 1, h.receive hp hch⟩
  | sync hp => exact ⟨next, h.sync hp⟩
  | process hp => exact ⟨next, h.processing hp⟩

theorem step (hst : CleanStep s t) : ∃ next', t.Inv next' := by
  obtain ⟨hst, hc⟩ := hst
  cases hst with
  | addBlock hn => exact ⟨next, h.addBlock hn⟩
  | start hp =>
    refine ⟨next, h.start hp (hc hp ?_)⟩
    exact startProcessor_ne_notStarted _ _
  | restart => exact ⟨s.height, h.restart⟩
  | work hw => exact h.work hw

end

end Inv

def queued (s : Feed) : Nat :=
  s.sparseCh.length + 2 * s.appending.toList.length

theorem Work.decreases (h : Work s t) :
    Prod.Lex (· < ·) (· < ·) (t.queued, t.processor.remaining) (s.queued, s.processor.remaining) := by
  cases h with
  | send hsm hr =>
    apply Prod.Lex.left
    simp only [queued, hsm, toList_some, toList_none, length_append, length_nil, length_singleton]
    omega
  | first hp =>
    apply Prod.Lex.right
    rw [hp]
    exact Nat.zero_lt_one
  | receive hp hch =>
    apply Prod.Lex.left
    simp only [queued, hch, length_cons]
    omega
  | sync hp =>
    apply Prod.Lex.right
    rw [hp]
    exact remaining_syncNext _ _
  | process hp =>
    apply Prod.Lex.right
    rw [hp]
    exact Nat.zero_lt_one

theorem work_wellFounded : WellFounded fun t s : Feed => Work s t :=
  Subrelation.wf Work.decreases
    (InvImage.wf (fun s : Feed => (s.queued, s.processor.remaining)) (WellFounded.prod_lex Nat.lt_wfRel.wf Nat.lt_wfRel.wf))

structure SameLedger (s t : Feed) : Prop where
  height : t.height = s.height
  opened : t.opened = s.opened
  startPoint : t.startPoint = s.startPoint
  started : s.processor ≠ .notStarted → t.processor ≠ .notStarted

theorem Work.sameLedger (h : Work s t) : s.SameLedger t := by
  cases h with
  | send hsm hr => exact ⟨rfl, rfl, rfl, id⟩
  | first hp => exact ⟨rfl, rfl, rfl, fun _ => Processor.noConfusion⟩
  | receive hp hch => exact ⟨rfl, rfl, rfl, fun _ => receiveFatBlock_ne_notStarted _ _⟩
  | sync hp => exact ⟨rfl, rfl, rfl, fun _ => syncNext_ne_notStarted _ _⟩
  | process hp => exact ⟨rfl, rfl, rfl, fun _ => Processor.noConfusion⟩

theorem sameLedger_of_work (h : ReflTransGen Work s t) : s.SameLedger t := by
  induction h with
  | refl => exact ⟨rfl, rfl, rfl, id⟩
  | tail _ hw ih =>
    have hl := hw.sameLedger
    exact ⟨hl.height.trans ih.height, hl.opened.trans ih.opened, hl.startPoint.trans ih.startPoint,
      hl.started ∘ ih.started⟩

theorem idle_of_not_work (hst : s.processor ≠ .notStarted) (hstu : ∀ t, ¬ Work s t) : s.Idle := by
  cases hp : s.processor with
  | notStarted => exact absurd hp hst
  | sparseChainStart fatBlock => exact absurd (.first hp) (hstu _)
  | syncing fatBlock i => exact absurd (.sync hp) (hstu _)
  | processing fatBlock => exact absurd (.process hp) (hstu _)
  | receiving =>
    have hch : s.sparseCh = [] := by
      cases hch : s.sparseCh with
      | nil => rfl
      | cons fatBlock rest => exact absurd (.receive hp hch) (hstu _)
    refine ⟨hp, hch, ?_⟩
    cases ha : s.appending with
    | none => rfl
    | some fatBlock => exact absurd (.send ha (by rw [hch]; exact Nat.zero_lt_two)) (hstu _)

theorem Inv.processed_of_idle (h : s.Inv next) (hi : s.Idle) (hnw : s.opened < s.height) :
    s.processed = List.range' s.startPoint (s.height - s.startPoint) := by
  obtain ⟨hpr, hch, ha⟩ := hi
  have hq := h.queue
  have hle := h.next_le
  rw [hch, ha, toList_none, append_nil, eq_comm, range'_eq_nil_iff] at hq
  have hp := h.place
  simp only [At, hpr] at hp
  have hpos : s.position = s.height := by
    rcases hp with ⟨_, _, hn⟩ | ⟨_, _, hn⟩
    · omega
    · omega
  rw [← hpos, position, Nat.add_sub_cancel_left]
  exact h.inOrder

theorem Inv.works (h : s.Inv next) (hr : ReflTransGen Work s t) : ∃ next', t.Inv next' := by
  induction hr with
  | refl => exact ⟨next, h⟩
  | tail _ hw ih =>
    obtain ⟨next', h'⟩ := ih
    exact h'.work hw

/-- In every run whose starts are clean, the blocks processed so far are those from the start point on,
each once and in order; and left alone the goroutine comes to rest, with every block of the ledger
processed if one was appended since the process opened it. -/
theorem processed_of_reachable (h : Reachable Init CleanStep s) :
    s.InOrder ∧ Acc (fun t s : Feed => Work s t) s ∧
      (s.processor ≠ .notStarted → ∀ t, ReflTransGen Work s t → (∀ u, ¬ Work t u) →
        t.Idle ∧ t.InOrder ∧
          (s.opened < s.height → t.processed = List.range' s.startPoint (s.height - s.startPoint))) := by
  obtain ⟨next, hin⟩ : ∃ next, s.Inv next := by
    refine h.invariant (fun s => ∃ next, s.Inv next) ?_ ?_
    · exact fun s hs => ⟨s.height, Inv.init hs⟩
    · rintro s t ⟨next, hin⟩ hste
      exact hin.step hste
  refine ⟨hin.inOrder, work_wellFounded.apply s, ?_⟩
  intro hst t hr hstu
  have hsm := sameLedger_of_work hr
  obtain ⟨next', hi'⟩ := hin.works hr
  have hi : t.Idle := idle_of_not_work (hsm.started hst) hstu
  refine ⟨hi, hi'.inOrder, ?_⟩
  intro hn
  rw [← hsm.height, ← hsm.startPoint]
  exact hi'.processed_of_idle hi (by rw [hsm.height, hsm.opened]; exact hn)

def switchedFeed : Feed where
  height := 3
  opened := 2
  lastFatBlockNumberProcessed := some 2
  processor := .receiving
  processed := [1, 2]
  startPoint := 1

theorem switchedFeed_reachable : Reachable Init CleanStep switchedFeed := by
  have h₀ : Reachable Init CleanStep { height := 2, opened := 2 } := .init rfl
  have h₁ := h₀.step ⟨.start rfl, fun _ _ => by decide⟩
  have h₂ := h₁.step ⟨.work (.first rfl), nofun⟩
  have h₃ := h₂.step ⟨.addBlock rfl, nofun⟩
  have h₄ := h₃.step ⟨.work (.send rfl (by decide)), nofun⟩
  have h₅ := h₄.step ⟨.work (.receive rfl rfl), nofun⟩
  exact h₅.step ⟨.work (.process rfl), nofun⟩

theorem processed_of_reachable_switchedFeed :
    switchedFeed.InOrder ∧ ∀ t, ReflTransGen Work switchedFeed t → (∀ u, ¬ Work t u) → t.processed = [1, 2] := by
  obtain ⟨hin, _, hr⟩ := processed_of_reachable switchedFeed_reachable
  exact ⟨hin, fun t hrn hst => (hr (by decide) t hrn hst).2.2 (by decide)⟩

/-- A channel whose first two blocks are appended before the goroutine reads the height. -/
theorem lateStart_repeats : ∃ s : Feed, Reachable Init Step s ∧ s.processed = [1, 0, 1] ∧ ¬ s.InOrder := by
  have h₀ : Reachable Init Step { height := 0, opened := 0 } := .init rfl
  have h₁ := h₀.step (.addBlock rfl)
  have h₂ := h₁.step (.work (.send rfl (by decide)))
  have h₃ := h₂.step (.addBlock rfl)
  have h₄ := h₃.step (.work (.send rfl (by decide)))
  have h₅ := h₄.step (.start rfl)
  have h₆ := h₅.step (.work (.first rfl))
  have h₇ := h₆.step (.work (.receive rfl rfl))
  have h₈ := h₇.step (.work (.process rfl))
  have h₉ := h₈.step (.work (.receive rfl rfl))
  have h₁₀ := h₉.step (.work (.process rfl))
  refine ⟨_, h₁₀, rfl, ?_⟩
  intro hin
  cases hin

end Feed

end Drunix.Orderer.Sparse
