import Drunix.Orderer.Sparse.OrgIterator

namespace Drunix.Orderer.Sparse

open Lib Proto

/-- What `Height` makes of the bytes it finds: no bytes are the empty header, and an org without a head has height
zero. -/
def headHeight (chHeader : Option ChannelHeadInfo) (mspId : Bytes) : UInt64 :=
  (chHeader.bind fun header => header.orgHeadPostion.lookup mspId).elim 0 fun headPosition =>
    headPosition.lastOrgBlockNum + 1

structure WaitCall where
  channelId : Bytes
  mspId : Bytes
  blockNum : UInt64

/-- Where a goroutine is in `waitForBlock`: before the read of `channelHeaderContainer`, before the read of the
database after a miss, before `L.Lock`, before `Wait`, on the list of the condition variable, off it and before taking
the lock again, before `L.Unlock`. -/
inductive Waiter
  | outside
  | readContainer (call : WaitCall)
  | readDb (call : WaitCall)
  | lock (call : WaitCall)
  | wait (call : WaitCall)
  | asleep (call : WaitCall)
  | woken (call : WaitCall)
  | unlock (call : WaitCall)

def Waiter.HoldsCond : Waiter → Prop
  | .wait _ | .unlock _ => True
  | _ => False

def Waiter.wake : Waiter → Waiter
  | .asleep call => .woken call
  | w => w

/-- Where the goroutine of a channel is at the end of `storeBlockData`, with the header it stores: each place is named
by the operation that comes next. -/
inductive HeadUpdate
  | idle
  | lockCond (newChHeader : ChannelHeadInfo)
  | store (newChHeader : ChannelHeadInfo)
  | broadcast (newChHeader : ChannelHeadInfo)
  | unlockCond (newChHeader : ChannelHeadInfo)
  | unlockMutex (newChHeader : ChannelHeadInfo)
  | save (newChHeader : ChannelHeadInfo)

namespace HeadUpdate

def HoldsMutex : HeadUpdate → Prop
  | .lockCond _ | .store _ | .broadcast _ | .unlockCond _ | .unlockMutex _ => True
  | _ => False

def HoldsCond : HeadUpdate → Prop
  | .store _ | .broadcast _ | .unlockCond _ => True
  | _ => False

def BroadcastPending : HeadUpdate → Prop
  | .lockCond _ | .store _ | .broadcast _ => True
  | _ => False

def Stored : HeadUpdate → Prop
  | .broadcast _ | .unlockCond _ | .unlockMutex _ | .save _ => True
  | _ => False

end HeadUpdate

/-- The two mutexes and the condition variable are shared by all channels; who holds them is read off the places of
the goroutines. -/
structure HeadBoard where
  channelHeaderContainer : Bytes → Option ChannelHeadInfo := fun _ => none
  channelHeadInfo : Bytes → Option ChannelHeadInfo := fun _ => none
  waiters : ℕ → Waiter := fun _ => .outside
  updates : Bytes → HeadUpdate := fun _ => .idle

namespace HeadBoard

variable (s : HeadBoard)

def head (channelId : Bytes) : Option ChannelHeadInfo :=
  s.channelHeaderContainer channelId <|> s.channelHeadInfo channelId

def MutexFree : Prop :=
  ∀ ch, ¬ (s.updates ch).HoldsMutex

def CondFree : Prop :=
  (∀ i, ¬ (s.waiters i).HoldsCond) ∧ ∀ ch, ¬ (s.updates ch).HoldsCond

def move (i : ℕ) (w : Waiter) : HeadBoard :=
  { s with waiters := Function.update s.waiters i w }

def advance (channelId : Bytes) (u : HeadUpdate) : HeadBoard :=
  { s with updates := Function.update s.updates channelId u }

def afterHeight (i : ℕ) (call : WaitCall) (height : UInt64) : HeadBoard :=
  s.move i (if height ≤ call.blockNum then .lock call else .outside)

end HeadBoard

inductive BoardEvent
  | silent
  | stored (channelId : Bytes) (newChHeader : ChannelHeadInfo)
  | readFailed (call : WaitCall)

inductive BoardStep (s : HeadBoard) : BoardEvent → HeadBoard → Prop
  | call (i : ℕ) (call : WaitCall) (hplace : s.waiters i = .outside) :
      BoardStep s .silent (s.move i (.readContainer call))
  | hit (i : ℕ) {call : WaitCall} {header : ChannelHeadInfo} (hplace : s.waiters i = .readContainer call)
      (hfree : s.MutexFree) (hheader : s.channelHeaderContainer call.channelId = some header) :
      BoardStep s .silent (s.afterHeight i call (headHeight (some header) call.mspId))
  | miss (i : ℕ) {call : WaitCall} (hplace : s.waiters i = .readContainer call) (hfree : s.MutexFree)
      (hnone : s.channelHeaderContainer call.channelId = none) : BoardStep s .silent (s.move i (.readDb call))
  | readDb (i : ℕ) {call : WaitCall} (hplace : s.waiters i = .readDb call) :
      BoardStep s .silent (s.afterHeight i call (headHeight (s.channelHeadInfo call.channelId) call.mspId))
  -- An error of the database is logged and leaves the bytes nil.
  | readFailed (i : ℕ) {call : WaitCall} (hplace : s.waiters i = .readDb call) :
      BoardStep s (.readFailed call) (s.afterHeight i call (headHeight none call.mspId))
  | lock (i : ℕ) {call : WaitCall} (hplace : s.waiters i = .lock call) (hfree : s.CondFree) :
      BoardStep s .silent (s.move i (.wait call))
  -- `Wait` puts the goroutine on the list before it gives up the lock.
  | wait (i : ℕ) {call : WaitCall} (hplace : s.waiters i = .wait call) : BoardStep s .silent (s.move i (.asleep call))
  | relock (i : ℕ) {call : WaitCall} (hplace : s.waiters i = .woken call) (hfree : s.CondFree) :
      BoardStep s .silent (s.move i (.unlock call))
  | unlock (i : ℕ) {call : WaitCall} (hplace : s.waiters i = .unlock call) :
      BoardStep s .silent (s.move i (.readContainer call))
  | lockMutex (ch : Bytes) (newChHeader : ChannelHeadInfo) (hplace : s.updates ch = .idle) (hfree : s.MutexFree) :
      BoardStep s .silent (s.advance ch (.lockCond newChHeader))
  | lockCond (ch : Bytes) {newChHeader : ChannelHeadInfo} (hplace : s.updates ch = .lockCond newChHeader)
      (hfree : s.CondFree) : BoardStep s .silent (s.advance ch (.store newChHeader))
  | store (ch : Bytes) {newChHeader : ChannelHeadInfo} (hplace : s.updates ch = .store newChHeader) :
      BoardStep s (.stored ch newChHeader)
        { s.advance ch (.broadcast newChHeader) with
          channelHeaderContainer := Function.update s.channelHeaderContainer ch (some newChHeader) }
  | broadcast (ch : Bytes) {newChHeader : ChannelHeadInfo} (hplace : s.updates ch = .broadcast newChHeader) :
      BoardStep s .silent
        { s.advance ch (.unlockCond newChHeader) with waiters := fun i => (s.waiters i).wake }
  | unlockCond (ch : Bytes) {newChHeader : ChannelHeadInfo} (hplace : s.updates ch = .unlockCond newChHeader) :
      BoardStep s .silent (s.advance ch (.unlockMutex newChHeader))
  | unlockMutex (ch : Bytes) {newChHeader : ChannelHeadInfo} (hplace : s.updates ch = .unlockMutex newChHeader) :
      BoardStep s .silent (s.advance ch (.save newChHeader))
  | save (ch : Bytes) {newChHeader : ChannelHeadInfo} (hplace : s.updates ch = .save newChHeader) :
      BoardStep s .silent
        { s.advance ch .idle with
          channelHeadInfo := Function.update s.channelHeadInfo ch (some newChHeader) }
  | saveFailed (ch : Bytes) {newChHeader : ChannelHeadInfo} (hplace : s.updates ch = .save newChHeader) :
      BoardStep s .silent (s.advance ch .idle)

namespace HeadBoard

/-- A process that has just started: nothing is in the container yet, and the database is as the last process left
it. -/
def Starts (s : HeadBoard) : Prop :=
  ∃ channelHeadInfo, s = { channelHeadInfo }

def Run : HeadBoard → Prop :=
  Reachable Starts fun s t => ∃ event, BoardStep s event t

/-- A reader sleeps although the head has reached its block, and no broadcast is on its way. -/
def LostWakeUp (s : HeadBoard) : Prop :=
  ∃ i call, s.waiters i = .asleep call ∧ call.blockNum < headHeight (s.head call.channelId) call.mspId ∧
    ∀ ch, ¬ (s.updates ch).BroadcastPending

/-- No head passes a reader that has read the height and does not yet sleep, and no failed read hides a head that has
reached the block. -/
def Unpassed (s : HeadBoard) : BoardEvent → Prop
  | .silent => True
  | .stored ch newChHeader =>
    ∀ i call, s.waiters i = .readDb call ∨ s.waiters i = .lock call ∨ s.waiters i = .wait call →
      call.channelId = ch → headHeight (some newChHeader) call.mspId ≤ call.blockNum
  | .readFailed call => headHeight (s.head call.channelId) call.mspId ≤ call.blockNum

def UnpassedRun : HeadBoard → Prop :=
  Reachable Starts fun s t => ∃ event, BoardStep s event t ∧ s.Unpassed event

variable {s : HeadBoard}

def Behind (s : HeadBoard) (call : WaitCall) : Prop :=
  headHeight (s.head call.channelId) call.mspId ≤ call.blockNum

/-- What is true of the head at each place of a reader. After a miss of the container the database is the head until an
entry comes. -/
def Awaits (s : HeadBoard) : Waiter → Prop
  | .readDb call => s.channelHeaderContainer call.channelId ≠ none → s.Behind call
  | .lock call | .wait call => s.Behind call
  | .asleep call => s.Behind call ∨ ∃ newChHeader, s.updates call.channelId = .broadcast newChHeader
  | .outside | .readContainer _ | .woken _ | .unlock _ => True

structure WaitInv (s : HeadBoard) : Prop where
  awaits : ∀ i, s.Awaits (s.waiters i)
  stored : ∀ ch, (s.updates ch).Stored → s.channelHeaderContainer ch ≠ none

namespace WaitInv

theorem init (h : Starts s) : s.WaitInv := by
  obtain ⟨_, rfl⟩ := h
  exact ⟨fun _ => trivial, fun _ h => h.elim⟩

variable {w : Waiter}

theorem move (h : s.WaitInv) (i : ℕ) (hw : s.Awaits w) : (s.move i w).WaitInv :=
  ⟨(Function.forall_update_iff _ fun _ w => s.Awaits w).mpr ⟨hw, fun j _ => h.awaits j⟩, h.stored⟩

theorem afterHeight (h : s.WaitInv) (i : ℕ) {call : WaitCall} {height : UInt64}
    (hh : height ≤ call.blockNum → s.Behind call) : (s.afterHeight i call height).WaitInv := by
  unfold HeadBoard.afterHeight
  split
  next hle => exact h.move i (hh hle)
  next => exact h.move i trivial

variable {ch : Bytes} {u : HeadUpdate}

theorem awaits_advance (hu : ∀ newChHeader, s.updates ch ≠ .broadcast newChHeader) (hw : s.Awaits w) :
    (s.advance ch u).Awaits w := by
  cases w with
  | asleep call =>
    refine hw.imp_right fun ⟨newChHeader, hp⟩ => ⟨newChHeader, ?_⟩
    have hne : call.channelId ≠ ch := fun heq => hu newChHeader (heq ▸ hp)
    exact (Function.update_of_ne hne _ _).trans hp
  | _ => exact hw

theorem stored_advance (h : s.WaitInv) (hu : u.Stored → s.channelHeaderContainer ch ≠ none) (ch' : Bytes)
    (hst : ((s.advance ch u).updates ch').Stored) : s.channelHeaderContainer ch' ≠ none :=
  (Function.forall_update_iff s.updates fun ch u => u.Stored → s.channelHeaderContainer ch ≠ none).mpr
    ⟨hu, fun ch _ => h.stored ch⟩ ch' hst

theorem advance (h : s.WaitInv) (hp : ∀ newChHeader, s.updates ch ≠ .broadcast newChHeader)
    (hu : u.Stored → s.channelHeaderContainer ch ≠ none) : (s.advance ch u).WaitInv :=
  ⟨fun i => awaits_advance hp (h.awaits i), h.stored_advance hu⟩

variable {newChHeader : ChannelHeadInfo}

theorem store (h : s.WaitInv) (hun : s.Unpassed (.stored ch newChHeader)) :
    WaitInv
      { s.advance ch (.broadcast newChHeader) with
        channelHeaderContainer := Function.update s.channelHeaderContainer ch (some newChHeader) } := by
  set t : HeadBoard :=
    { s.advance ch (.broadcast newChHeader) with
      channelHeaderContainer := Function.update s.channelHeaderContainer ch (some newChHeader) } with ht
  have hbh : ∀ {call : WaitCall},
      (call.channelId = ch → headHeight (some newChHeader) call.mspId ≤ call.blockNum) →
      (call.channelId ≠ ch → s.Behind call) → t.Behind call := by
    intro call hsm hot
    by_cases hch : call.channelId = ch
    · simpa [ht, Behind, head, hch] using hsm hch
    · simpa [ht, Behind, head, Function.update_of_ne hch, HeadBoard.advance] using hot hch
  refine ⟨fun i => ?_, fun ch' hst => ?_⟩
  · have hi := h.awaits i
    change t.Awaits (s.waiters i)
    cases hw : s.waiters i with
    | readDb call =>
      rw [hw] at hi
      refine fun he => hbh (hun i call (.inl hw)) fun hch => hi ?_
      simpa [ht, Function.update_of_ne hch] using he
    | lock call =>
      rw [hw] at hi
      exact hbh (hun i call (.inr (.inl hw))) fun _ => hi
    | wait call =>
      rw [hw] at hi
      exact hbh (hun i call (.inr (.inr hw))) fun _ => hi
    | asleep call =>
      rw [hw] at hi
      by_cases hch : call.channelId = ch
      · exact .inr ⟨newChHeader, hch ▸ Function.update_self ..⟩
      · refine hi.imp (fun hb => hbh (absurd · hch) fun _ => hb) fun ⟨header, hb⟩ => ⟨header, ?_⟩
        exact (Function.update_of_ne hch _ _).trans hb
    | outside | readContainer | woken | unlock => trivial
  · by_cases hch : ch' = ch
    · subst hch
      simp [ht]
    · have hs : (s.updates ch').Stored := by
        simpa [ht, HeadBoard.advance, Function.update_of_ne hch] using hst
      simpa [ht, Function.update_of_ne hch] using h.stored ch' hs

theorem broadcast (h : s.WaitInv) (hp : s.updates ch = .broadcast newChHeader) :
    WaitInv { s.advance ch (.unlockCond newChHeader) with waiters := fun i => (s.waiters i).wake } := by
  refine ⟨fun i => ?_, h.stored_advance fun _ => h.stored ch (by rw [hp]; trivial)⟩
  have hi := h.awaits i
  -- Every sleeper leaves the list; the other places do not look at the writers.
  change HeadBoard.Awaits _ (s.waiters i).wake
  cases hw : s.waiters i with
  | asleep => trivial
  | outside | readContainer | woken | unlock => trivial
  | readDb | lock | wait => rwa [hw] at hi

theorem save (h : s.WaitInv) (hp : s.updates ch = .save newChHeader) :
    WaitInv
      { s.advance ch .idle with channelHeadInfo := Function.update s.channelHeadInfo ch (some newChHeader) } := by
  have hb : (s.advance ch .idle).WaitInv := h.advance (by simp [hp]) fun hu => hu.elim
  have he : s.channelHeaderContainer ch ≠ none := h.stored ch (by rw [hp]; trivial)
  -- The channel has an entry in the container, which hid the new value of the database.
  have hhd : ∀ ch', HeadBoard.head
      { s.advance ch .idle with channelHeadInfo := Function.update s.channelHeadInfo ch (some newChHeader) } ch' =
      (s.advance ch .idle).head ch' := by
    intro ch'
    by_cases hch : ch' = ch
    · subst hch
      obtain ⟨header, hh⟩ := Option.ne_none_iff_exists'.mp he
      simp [head, HeadBoard.advance, hh]
    · simp [head, HeadBoard.advance, Function.update_of_ne hch]
  refine ⟨fun i => ?_, hb.stored⟩
  have hi := hb.awaits i
  change HeadBoard.Awaits _ (s.waiters i)
  change HeadBoard.Awaits _ (s.waiters i) at hi
  cases hw : s.waiters i with
  | readDb | lock | wait | asleep =>
    rw [hw] at hi
    simpa only [Awaits, Behind, hhd] using hi
  | outside | readContainer | woken | unlock => trivial

theorem step {t : HeadBoard} {event : BoardEvent} (h : s.WaitInv) (hst : BoardStep s event t)
    (hun : s.Unpassed event) : t.WaitInv := by
  cases hst with
  | call i | unlock i | relock i => exact h.move i trivial
  | hit i hp hf hh =>
    refine h.afterHeight i fun hle => ?_
    simpa [Behind, head, hh] using hle
  | miss i hp hf hn => exact h.move i fun he => absurd hn he
  | @readDb i call hp =>
    have hi := h.awaits i
    rw [hp] at hi
    refine h.afterHeight i fun hle => ?_
    by_cases he : s.channelHeaderContainer call.channelId = none
    · simpa [Behind, head, he] using hle
    · exact hi he
  | readFailed i => exact h.afterHeight i fun _ => hun
  | lock i hp =>
    have hi := h.awaits i
    rw [hp] at hi
    exact h.move i hi
  | wait i hp =>
    have hi := h.awaits i
    rw [hp] at hi
    exact h.move i (.inl hi)
  | lockMutex ch newChHeader hp => exact h.advance (by simp [hp]) (fun hu => hu.elim)
  | lockCond ch hp => exact h.advance (by simp [hp]) (fun hu => hu.elim)
  | store ch hp => exact h.store hun
  | broadcast ch hp => exact h.broadcast hp
  | unlockCond ch hp | unlockMutex ch hp =>
    exact h.advance (by simp [hp]) fun _ => h.stored ch (by rw [hp]; trivial)
  | save ch hp => exact h.save hp
  | saveFailed ch hp => exact h.advance (by simp [hp]) (fun hu => hu.elim)

end WaitInv

/-- Where no head passes a reader between its look at the height and its sleep, no wake-up is lost. -/
theorem no_lost_wake_up (s : HeadBoard) (hrun : s.UnpassedRun) : ¬ s.LostWakeUp := by
  have hin : s.WaitInv := hrun.invariant WaitInv (fun _ => WaitInv.init) fun _ _ h ⟨_, hst, hun⟩ => h.step hst hun
  rintro ⟨i, call, ha, hrc, hp⟩
  have hi := hin.awaits i
  rw [ha] at hi
  obtain hb | ⟨newChHeader, hbr⟩ := hi
  · exact absurd hrc (UInt64.not_lt.mpr hb)
  · exact hp call.channelId (by rw [hbr]; trivial)

end HeadBoard

def firstBlockCall : WaitCall where
  channelId := ascii "ch"
  mspId := ascii "Org1MSP"
  blockNum := 0

def firstBlockHead : ChannelHeadInfo where
  orgHeadPostion := (∅ : AMap Bytes LastBlockMapping).insert (ascii "Org1MSP")
    { lastOrgBlockNum := 0, lastOrgBlockHash := [], sourceFatBlockNum := 0, lastConfigBlockNum := 0 }

/-- Only reader `0` and the writer of one channel run. -/
structure HeadBoard.Alone (s : HeadBoard) : Prop where
  waiters : ∀ i, i ≠ 0 → s.waiters i = .outside
  updates : ∀ ch, ch ≠ ascii "ch" → s.updates ch = .idle

namespace HeadBoard.Alone

variable {s : HeadBoard}

theorem move (h : s.Alone) (w : Waiter) : (s.move 0 w).Alone :=
  ⟨fun i hi => (Function.update_of_ne hi _ _).trans (h.waiters i hi), h.updates⟩

theorem advance (h : s.Alone) (u : HeadUpdate) : (s.advance (ascii "ch") u).Alone :=
  ⟨h.waiters, fun ch hch => (Function.update_of_ne hch _ _).trans (h.updates ch hch)⟩

theorem wake (h : s.Alone) : HeadBoard.Alone { s with waiters := fun i => (s.waiters i).wake } :=
  ⟨fun i hi => congrArg Waiter.wake (h.waiters i hi), h.updates⟩

theorem condFree (h : s.Alone) (hw : ¬ (s.waiters 0).HoldsCond) (hu : ¬ (s.updates (ascii "ch")).HoldsCond) :
    s.CondFree := by
  refine ⟨fun i => ?_, fun ch => ?_⟩
  · by_cases hi : i = 0
    · rwa [hi]
    · rw [h.waiters i hi]
      exact id
  · by_cases hch : ch = ascii "ch"
    · rwa [hch]
    · rw [h.updates ch hch]
      exact id

end HeadBoard.Alone

/-- The reader is asleep before the first block comes. When the head has it, the broadcast is the next operation of the
writer. -/
theorem no_lost_wake_up_first_block :
    ∃ s : HeadBoard, s.UnpassedRun ∧ s.waiters 0 = .asleep firstBlockCall ∧
      firstBlockCall.blockNum < headHeight (s.head (ascii "ch")) (ascii "Org1MSP") ∧ ¬ s.LostWakeUp := by
  have a₀ : HeadBoard.Alone {} := ⟨fun _ _ => rfl, fun _ _ => rfl⟩
  have a₃ := ((a₀.move (.readContainer firstBlockCall)).move (.readDb firstBlockCall)).move (.lock firstBlockCall)
  have a₅ := ((a₃.move (.wait firstBlockCall)).move (.asleep firstBlockCall)).advance (.lockCond firstBlockHead)
  have h₀ : HeadBoard.UnpassedRun {} := .init ⟨_, rfl⟩
  have h₁ := h₀.step ⟨.silent, .call 0 firstBlockCall rfl, trivial⟩
  have h₂ := h₁.step ⟨.silent, .miss 0 rfl (fun _ => id) rfl, trivial⟩
  have h₃ := h₂.step ⟨.silent, .readDb 0 rfl, trivial⟩
  have h₄ := h₃.step ⟨.silent, .lock 0 rfl (a₃.condFree id id), trivial⟩
  have h₅ := h₄.step ⟨.silent, .wait 0 rfl, trivial⟩
  have h₆ := h₅.step ⟨.silent, .lockMutex (ascii "ch") firstBlockHead rfl (fun _ => id), trivial⟩
  have h₇ := h₆.step ⟨.silent, .lockCond (ascii "ch") rfl (a₅.condFree id id), trivial⟩
  have h₈ := h₇.step ⟨.stored (ascii "ch") firstBlockHead, .store (ascii "ch") rfl, fun i call hp => ?_⟩
  · exact ⟨_, h₈, rfl, by decide, HeadBoard.no_lost_wake_up _ h₈⟩
  · by_cases hi : i = 0
    · subst hi
      rcases hp with hp | hp | hp <;> cases hp
    · have ho := a₅.waiters i hi
      rcases hp with hp | hp | hp <;> cases ho.symm.trans hp

/-- The head gets the first block while the reader is between its look at the height and `L.Lock`. The broadcast finds
nobody on the list, and the reader then waits for one that need not come. -/
theorem wake_up_lost_before_wait : ∃ s : HeadBoard, s.Run ∧ s.LostWakeUp := by
  have a₀ : HeadBoard.Alone {} := ⟨fun _ _ => rfl, fun _ _ => rfl⟩
  have a₄ := (((a₀.move (.readContainer firstBlockCall)).move (.readDb firstBlockCall)).move
    (.lock firstBlockCall)).advance (.lockCond firstBlockHead)
  have a₇ := ((a₄.advance (.store firstBlockHead)).advance (.broadcast firstBlockHead)).wake.advance
    (.unlockCond firstBlockHead)
  have a₁₀ := ((a₇.advance (.unlockMutex firstBlockHead)).advance (.save firstBlockHead)).advance .idle
  have h₀ : HeadBoard.Run {} := .init ⟨_, rfl⟩
  have h₁ := h₀.step ⟨_, .call 0 firstBlockCall rfl⟩
  have h₂ := h₁.step ⟨_, .miss 0 rfl (fun _ => id) rfl⟩
  have h₃ := h₂.step ⟨_, .readDb 0 rfl⟩
  have h₄ := h₃.step ⟨_, .lockMutex (ascii "ch") firstBlockHead rfl (fun _ => id)⟩
  have h₅ := h₄.step ⟨_, .lockCond (ascii "ch") rfl (a₄.condFree id id)⟩
  have h₆ := h₅.step ⟨_, .store (ascii "ch") rfl⟩
  have h₇ := h₆.step ⟨_, .broadcast (ascii "ch") rfl⟩
  have h₈ := h₇.step ⟨_, .unlockCond (ascii "ch") rfl⟩
  have h₉ := h₈.step ⟨_, .unlockMutex (ascii "ch") rfl⟩
  have h₁₀ := h₉.step ⟨_, .save (ascii "ch") rfl⟩
  have h₁₁ := h₁₀.step ⟨_, .lock 0 rfl ⟨(a₁₀.condFree id id).1, (a₁₀.condFree id id).2⟩⟩
  have h₁₂ := h₁₁.step ⟨_, .wait 0 rfl⟩
  refine ⟨_, h₁₂, 0, firstBlockCall, rfl, by decide, fun ch => ?_⟩
  by_cases hch : ch = ascii "ch"
  · subst hch
    exact id
  · have hi := a₁₀.updates ch hch
    exact fun hp => (show HeadUpdate.idle.BroadcastPending from hi ▸ hp)

end Drunix.Orderer.Sparse
