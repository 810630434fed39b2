import Mathlib.Algebra.GroupWithZero.Nat
import Drunix.Lib.Transition
import Drunix.Proto.Envelope

namespace Drunix.Orderer

open Lib Proto List

/-- The batch size in force: that of the channel, with the orderer's own `MaxBatchSize` as message count where it has
one. -/
structure BatchSize where
  maxMessageCount : UInt32
  preferredMaxBytes : UInt32

structure Receiver (α : Type) where
  pendingBatch : List α := []
  pendingBatchSizeBytes : UInt32 := 0

structure Ordered (α : Type) where
  messageBatches : List (List α)
  pending : Bool
  receiver : Receiver α

def messageSizeBytes (message : Envelope) : UInt32 :=
  UInt32.ofNat ((message.payload.getD []).length + message.signature.length)

namespace Receiver

variable {α : Type} {r : Receiver α} {a : α}

def cutPending (r : Receiver α) : List (List α) :=
  if r.pendingBatch.isEmpty then [] else [r.pendingBatch]

def enqueue (r : Receiver α) (msg : α) (sizeBytes : UInt32) : Receiver α where
  pendingBatch := r.pendingBatch ++ [msg]
  pendingBatchSizeBytes := r.pendingBatchSizeBytes + sizeBytes

def orderedEnqueue (batchSize : BatchSize) (cut : List (List α)) (r : Receiver α) (msg : α) (sizeBytes : UInt32) :
    Ordered α :=
  let r' := r.enqueue msg sizeBytes
  if batchSize.maxMessageCount ≤ UInt32.ofNat r'.pendingBatch.length then
    { messageBatches := cut ++ [r'.pendingBatch], pending := false, receiver := {} }
  else { messageBatches := cut, pending := true, receiver := r' }

/-- `Ordered` and `OrderedBatch`, which differ in what they hold. -/
def ordered (batchSize : BatchSize) (r : Receiver α) (msg : α) (sizeBytes : UInt32) : Ordered α :=
  if batchSize.preferredMaxBytes < sizeBytes then
    -- the message is isolated in a batch of its own
    { messageBatches := r.cutPending ++ [[msg]], pending := false, receiver := if r.pendingBatch.isEmpty then r else {} }
  else if batchSize.preferredMaxBytes < r.pendingBatchSizeBytes + sizeBytes then
    orderedEnqueue batchSize [r.pendingBatch] {} msg sizeBytes
  else orderedEnqueue batchSize [] r msg sizeBytes

theorem cutPending_flatten (r : Receiver α) : r.cutPending.flatten = r.pendingBatch := by
  unfold cutPending
  split
  · rename_i h
    rw [isEmpty_iff.mp h]
    rfl
  · simp

theorem mem_of_mem_cutPending {batch : List α} (hb : batch ∈ r.cutPending) (ha : a ∈ batch) :
    a ∈ r.pendingBatch := by
  rw [← cutPending_flatten]
  exact mem_flatten.mpr ⟨batch, hb, ha⟩

theorem orderedEnqueue_flatten (batchSize : BatchSize) (cut : List (List α)) (r : Receiver α) (msg : α)
    (sizeBytes : UInt32) :
    (orderedEnqueue batchSize cut r msg sizeBytes).messageBatches.flatten ++
        (orderedEnqueue batchSize cut r msg sizeBytes).receiver.pendingBatch =
      cut.flatten ++ (r.pendingBatch ++ [msg]) := by
  by_cases hf : batchSize.maxMessageCount ≤ UInt32.ofNat (r.enqueue msg sizeBytes).pendingBatch.length
  · simp only [orderedEnqueue, if_pos hf, flatten_append, flatten_singleton, append_nil]
    rfl
  · simp only [orderedEnqueue, if_neg hf]
    rfl

/-- No message is lost, repeated or overtaken by cutting. -/
theorem ordered_flatten (batchSize : BatchSize) (r : Receiver α) (msg : α) (sizeBytes : UInt32) :
    (r.ordered batchSize msg sizeBytes).messageBatches.flatten ++
        (r.ordered batchSize msg sizeBytes).receiver.pendingBatch = r.pendingBatch ++ [msg] := by
  unfold ordered
  split
  · rw [flatten_append, cutPending_flatten]
    cases hp : r.pendingBatch with
    | nil => simp [hp]
    | cons a l => simp
  · split
    · rw [orderedEnqueue_flatten]
      simp
    · rw [orderedEnqueue_flatten]
      simp

theorem mem_ordered {batchSize : BatchSize} {msg : α} {sizeBytes : UInt32}
    (h : a ∈ (r.ordered batchSize msg sizeBytes).messageBatches.flatten ∨
      a ∈ (r.ordered batchSize msg sizeBytes).receiver.pendingBatch) : a ∈ r.pendingBatch ∨ a = msg := by
  rw [← mem_append, ordered_flatten] at h
  simpa using h

theorem orderedEnqueue_cases (batchSize : BatchSize) (cut : List (List α)) (r : Receiver α) (msg : α)
    (sizeBytes : UInt32) :
    orderedEnqueue batchSize cut r msg sizeBytes = ⟨cut ++ [r.pendingBatch ++ [msg]], false, {}⟩ ∨
      UInt32.ofNat (r.pendingBatch.length + 1) < batchSize.maxMessageCount ∧
        orderedEnqueue batchSize cut r msg sizeBytes = ⟨cut, true, r.enqueue msg sizeBytes⟩ := by
  rw [show r.pendingBatch.length + 1 = (r.enqueue msg sizeBytes).pendingBatch.length by simp [enqueue]]
  by_cases hf : batchSize.maxMessageCount ≤ UInt32.ofNat (r.enqueue msg sizeBytes).pendingBatch.length
  · exact .inl (if_pos hf)
  · exact .inr ⟨UInt32.not_le.mp hf, if_neg hf⟩

end Receiver

/-- At most two batches, none of them empty, and the flag tells whether messages are pending. -/
structure Ordered.Shape {α : Type} (o : Ordered α) : Prop where
  ne_nil : ∀ batch ∈ o.messageBatches, batch ≠ []
  length : o.messageBatches.length ≤ 2
  pending : o.pending = true ↔ o.receiver.pendingBatch ≠ []
  zero : o.receiver.pendingBatch = [] → o.receiver.pendingBatchSizeBytes = 0

theorem Receiver.ordered_shape {α : Type} {r : Receiver α} (hr : r.pendingBatch = [] → r.pendingBatchSizeBytes = 0)
    (batchSize : BatchSize) (msg : α) (sizeBytes : UInt32) : (r.ordered batchSize msg sizeBytes).Shape := by
  unfold ordered
  split_ifs with hlr he ho
  · constructor <;> simp [cutPending, isEmpty_iff.mp he, hr]
  · constructor <;> simp [cutPending, he, isEmpty_iff.not.mp he]
  · have hne : r.pendingBatch ≠ [] := by
      intro hp
      rw [hr hp, UInt32.zero_add] at ho
      exact hlr ho
    rcases orderedEnqueue_cases batchSize [r.pendingBatch] {} msg sizeBytes with h | ⟨-, h⟩ <;> rw [h] <;>
      constructor <;> simp [hne, enqueue]
  · rcases orderedEnqueue_cases batchSize [] r msg sizeBytes with h | ⟨-, h⟩ <;> rw [h] <;> constructor <;>
      simp [enqueue]

structure Cutting (α : Type) where
  receiver : Receiver α := {}
  messages : List α := []
  returned : List (List α) := []

/-- Who uses it, by `Ordered` or by `OrderedBatch`: the batch size, the envelope of a message and the size of a lean
envelope. -/
structure Cutter (α : Type) where
  batchSize : BatchSize
  envelope : α → Envelope
  leanSize : LeanEnvelope → Nat

namespace Cutter

variable {α : Type} (c : Cutter α)

def contentSize (msg : α) : Nat :=
  ((c.envelope msg).payload.getD []).length + (c.envelope msg).signature.length +
    ((c.envelope msg).leanEnv.map c.leanSize).getD 0

def total (batch : List α) : Nat :=
  (batch.map c.contentSize).sum

def ordered (r : Receiver α) (msg : α) : Ordered α :=
  r.ordered c.batchSize msg (messageSizeBytes (c.envelope msg))

/-- A call of `Ordered` or `OrderedBatch` with a message that `Allowed` lets in, or of `Cut` or `CutBatch`. -/
inductive Step (Allowed : Receiver α → α → Prop) (s : Cutting α) : Cutting α → Prop
  | order (msg : α) (h : Allowed s.receiver msg) :
      Step Allowed s ⟨(c.ordered s.receiver msg).receiver, s.messages ++ [msg],
        s.returned ++ (c.ordered s.receiver msg).messageBatches⟩
  | cut : Step Allowed s ⟨{}, s.messages, s.returned ++ [s.receiver.pendingBatch]⟩

def Run (Allowed : Receiver α → α → Prop) : Cutting α → Prop :=
  Reachable (fun s => s = {}) (c.Step Allowed)

structure Fits (r : Receiver α) (msg : α) : Prop where
  leanEnv : (c.envelope msg).leanEnv = none
  counted : r.pendingBatchSizeBytes.toNat + c.contentSize msg < 4294967296

structure Bounded (batch : List α) : Prop where
  count : batch.length ≤ c.batchSize.maxMessageCount.toNat
  size : batch.length ≠ 1 → c.total batch ≤ c.batchSize.preferredMaxBytes.toNat

structure Within (r : Receiver α) : Prop where
  counted : r.pendingBatchSizeBytes.toNat = c.total r.pendingBatch
  count : r.pendingBatch.length < c.batchSize.maxMessageCount.toNat
  size : c.total r.pendingBatch ≤ c.batchSize.preferredMaxBytes.toNat

variable {c} {r : Receiver α} {msg : α} {s : Cutting α}

theorem Fits.toNat_messageSizeBytes (h : c.Fits r msg) :
    (messageSizeBytes (c.envelope msg)).toNat = c.contentSize msg := by
  have hc := h.counted
  simp only [contentSize, h.leanEnv, messageSizeBytes, UInt32.toNat_ofNat', Option.map_none, Option.getD_none]
    at hc ⊢
  omega

section

variable (hmax : c.batchSize.maxMessageCount ≠ 0)

include hmax

theorem within_empty : c.Within {} := by
  refine ⟨rfl, ?_, Nat.zero_le _⟩
  exact Nat.pos_of_ne_zero fun h => hmax (UInt32.toNat_inj.mp h)

theorem Fits.orderedEnqueue {r' : Receiver α} (h : c.Fits r' msg) {cut : List (List α)} {o : Ordered α}
    (hct : ∀ batch ∈ cut, c.Bounded batch) (hr : c.Within r)
    (hsz : r.pendingBatchSizeBytes.toNat + c.contentSize msg ≤ c.batchSize.preferredMaxBytes.toNat)
    (ho : r.orderedEnqueue c.batchSize cut msg (messageSizeBytes (c.envelope msg)) = o) :
    (∀ batch ∈ o.messageBatches, c.Bounded batch) ∧ c.Within o.receiver := by
  have hsm : c.total (r.pendingBatch ++ [msg]) = r.pendingBatchSizeBytes.toNat + c.contentSize msg := by
    simp [total, hr.counted]
  have hcn := hr.count
  subst ho
  rcases Receiver.orderedEnqueue_cases c.batchSize cut r msg (messageSizeBytes (c.envelope msg)) with hc | ⟨hlt, hc⟩
  · rw [hc]
    refine ⟨forall_mem_append.mpr ⟨hct, forall_mem_singleton.mpr ⟨?_, fun _ => by rwa [hsm]⟩⟩,
      within_empty hmax⟩
    simp only [length_append, length_singleton]
    omega
  · rw [hc]
    have := c.batchSize.maxMessageCount.toNat_lt
    have := c.batchSize.preferredMaxBytes.toNat_lt
    refine ⟨hct, ?_, ?_, ?_⟩
    · rw [Receiver.enqueue, hsm, UInt32.toNat_add, h.toNat_messageSizeBytes]
      omega
    · rw [UInt32.lt_iff_toNat_lt, UInt32.toNat_ofNat'] at hlt
      simp only [Receiver.enqueue, length_append, length_singleton]
      omega
    · rw [Receiver.enqueue, hsm]
      exact hsz

theorem Fits.ordered (h : c.Fits r msg) (hr : c.Within r) :
    (∀ batch ∈ (c.ordered r msg).messageBatches, c.Bounded batch) ∧ c.Within (c.ordered r msg).receiver := by
  have hp : c.Bounded r.pendingBatch := ⟨Nat.le_of_lt hr.count, fun _ => hr.size⟩
  have hsn : c.Bounded [msg] := ⟨(within_empty hmax).count, fun hne => absurd rfl hne⟩
  unfold Cutter.ordered Receiver.ordered
  split_ifs with hlr he ho
  · exact ⟨by simpa [Receiver.cutPending, he] using hsn, hr⟩
  · refine ⟨?_, within_empty hmax⟩
    simp [Receiver.cutPending, he, hp, hsn]
  · refine h.orderedEnqueue hmax (forall_mem_singleton.mpr hp) (within_empty hmax) ?_ rfl
    rw [UInt32.lt_iff_toNat_lt, h.toNat_messageSizeBytes] at hlr
    simpa using hlr
  · refine h.orderedEnqueue hmax (by simp) hr ?_ rfl
    have := h.counted
    rw [UInt32.lt_iff_toNat_lt, UInt32.toNat_add, h.toNat_messageSizeBytes] at ho
    omega

end

/-- In every run the messages leave in order, in at most two non-empty batches a call; the batches respect the batch
size if it admits a message, in the runs whose messages all fit. -/
theorem ordered_batches_bounded {Allowed : Receiver α → α → Prop} (h : c.Run Allowed s) (msg : α) :
    s.returned.flatten ++ s.receiver.pendingBatch = s.messages ∧ (c.ordered s.receiver msg).Shape ∧
      (c.batchSize.maxMessageCount ≠ 0 → (∀ r msg, Allowed r msg → c.Fits r msg) → c.Fits s.receiver msg →
        ∀ batch ∈ (c.ordered s.receiver msg).messageBatches, c.Bounded batch) := by
  have hi : s.returned.flatten ++ s.receiver.pendingBatch = s.messages ∧
      (s.receiver.pendingBatch = [] → s.receiver.pendingBatchSizeBytes = 0) := by
    refine h.invariant (fun s => s.returned.flatten ++ s.receiver.pendingBatch = s.messages ∧
      (s.receiver.pendingBatch = [] → s.receiver.pendingBatchSizeBytes = 0)) ?_ ?_
    · rintro _ rfl
      exact ⟨rfl, fun _ => rfl⟩
    · rintro s t ⟨hf, hz⟩ hst
      cases hst with
      | order msg ha =>
        refine ⟨?_, (Receiver.ordered_shape hz _ _ _).zero⟩
        simp only [Cutter.ordered, flatten_append, append_assoc, Receiver.ordered_flatten, ← hf]
      | cut => exact ⟨by simpa using hf, fun _ => rfl⟩
  refine ⟨hi.1, Receiver.ordered_shape hi.2 _ _ _, fun hmax hft hm => (hm.ordered hmax ?_).1⟩
  refine h.invariant (fun s => c.Within s.receiver) ?_ ?_
  · rintro _ rfl
    exact within_empty hmax
  · intro s t hs hst
    cases hst with
    | order msg ha => exact ((hft _ _ ha).ordered hmax hs).2
    | cut => exact within_empty hmax

theorem ordered_batches_bounded_overflow :
    ∃ (c : Cutter Envelope) (s : Cutting Envelope), c.Run c.Fits s ∧ s.messages = [{ payload := some [4, 5, 6] }] ∧
      c.Bounded s.receiver.pendingBatch := by
  let c : Cutter Envelope := ⟨⟨2, 5⟩, id, fun _ => 0⟩
  have hr : c.Run c.Fits _ :=
    .step (.init rfl) (.order { payload := some [4, 5, 6] } ⟨rfl, by decide⟩)
  exact ⟨c, _, hr, rfl, (ordered_batches_bounded hr { payload := some [1, 2, 3] }).2.2 (by decide) (fun _ _ h => h)
    ⟨rfl, by decide⟩ _ (mem_singleton.mpr rfl)⟩

/-- Two lite transactions of four bytes each are cut together under a preferred size of five bytes: the lean envelopes
are not counted. -/
theorem lean_envelopes_uncounted :
    ∃ (c : Cutter Envelope) (s : Cutting Envelope) (msg : Envelope), Run c (fun _ _ => True) s ∧
      ∃ batch ∈ (c.ordered s.receiver msg).messageBatches,
        batch.length = 2 ∧ c.batchSize.preferredMaxBytes.toNat < c.total batch := by
  let msg : Envelope := { leanEnv := some { txId := [1, 2, 3, 4] } }
  exact ⟨⟨⟨2, 5⟩, id, fun env => env.txId.length⟩, _, msg, .step (.init rfl) (.order msg trivial), [msg, msg],
    mem_singleton.mpr rfl, rfl, by decide⟩

def pendingBytes (c : Cutter α) (batch : List α) : Nat :=
  (batch.map fun msg => (messageSizeBytes (c.envelope msg)).toNat).sum

/-- The calls on the cutter of a follower: `OrderedBatch` and `CutBatch` of the batcher, and `Cut`, which the chain calls
when it becomes a follower. `Cut` leaves the requests and resets the count that the two kinds of batches share. The batch
size is read from the config anew at every call. -/
inductive FollowerStep (c : Cutter α) (CutAllowed : Receiver α → Prop) (r : Receiver α) : Receiver α → Prop
  | orderedBatch (batchSize : BatchSize) (req : α)
      (hcounted : r.pendingBatchSizeBytes.toNat + (messageSizeBytes (c.envelope req)).toNat < 4294967296) :
      FollowerStep c CutAllowed r (r.ordered batchSize req (messageSizeBytes (c.envelope req))).receiver
  | cutBatch : FollowerStep c CutAllowed r {}
  | cut (hcut : CutAllowed r) : FollowerStep c CutAllowed r { r with pendingBatchSizeBytes := 0 }

def FollowerRun (c : Cutter α) (CutAllowed : Receiver α → Prop) : Receiver α → Prop :=
  Reachable (fun r => r = {}) (c.FollowerStep CutAllowed)

theorem FollowerStep.counted {CutAllowed : Receiver α → Prop} {r' : Receiver α}
    (ha : ∀ r, CutAllowed r → r.pendingBatch = []) (hr : r.pendingBatchSizeBytes.toNat = c.pendingBytes r.pendingBatch)
    (h : c.FollowerStep CutAllowed r r') : r'.pendingBatchSizeBytes.toNat = c.pendingBytes r'.pendingBatch := by
  cases h with
  | cutBatch => rfl
  | cut hct =>
    rw [ha r hct]
    rfl
  | orderedBatch batchSize req hc =>
    -- A request is counted on top of what its batch has, which is cut first where it would overflow.
    have he : ∀ (r : Receiver α) cut, r.pendingBatchSizeBytes.toNat = c.pendingBytes r.pendingBatch →
        r.pendingBatchSizeBytes.toNat + (messageSizeBytes (c.envelope req)).toNat < 4294967296 →
          let o := r.orderedEnqueue batchSize cut req (messageSizeBytes (c.envelope req))
          o.receiver.pendingBatchSizeBytes.toNat = c.pendingBytes o.receiver.pendingBatch := by
      intro r cut hr hc
      rcases Receiver.orderedEnqueue_cases batchSize cut r req (messageSizeBytes (c.envelope req)) with h | ⟨-, h⟩
      · rw [h]
        rfl
      · rw [h]
        simp only [Receiver.enqueue, pendingBytes, map_append, sum_append, map_singleton, sum_singleton, UInt32.toNat_add,
          Nat.mod_eq_of_lt hc]
        exact congrArg (· + _) hr
    rw [Receiver.ordered]
    split_ifs with hlr hem ho
    · exact hr
    · rfl
    · exact he {} _ rfl (by simpa using (messageSizeBytes (c.envelope req)).toNat_lt)
    · exact he r _ hr hc

/-- As long as `Cut` meets no pending requests the counter is their size, and a request that is not isolated overflows the
batch just when its bytes and those of the batch exceed the preferred size. -/
theorem follower_bytes_counted {CutAllowed : Receiver α → Prop} (hallowed : ∀ r, CutAllowed r → r.pendingBatch = [])
    (h : c.FollowerRun CutAllowed r) :
    r.pendingBatchSizeBytes.toNat = c.pendingBytes r.pendingBatch ∧ ∀ (preferredMaxBytes : UInt32) req,
      r.pendingBatchSizeBytes.toNat + (messageSizeBytes (c.envelope req)).toNat < 4294967296 →
        (preferredMaxBytes < r.pendingBatchSizeBytes + messageSizeBytes (c.envelope req) ↔
          preferredMaxBytes.toNat < c.pendingBytes r.pendingBatch + (messageSizeBytes (c.envelope req)).toNat) := by
  have hr : r.pendingBatchSizeBytes.toNat = c.pendingBytes r.pendingBatch := by
    refine h.invariant (fun r => r.pendingBatchSizeBytes.toNat = c.pendingBytes r.pendingBatch) ?_ ?_
    · rintro _ rfl
      rfl
    · exact fun r r' hr hst => hst.counted hallowed hr
  refine ⟨hr, fun preferredMaxBytes req hc => ?_⟩
  rw [UInt32.lt_iff_toNat_lt, UInt32.toNat_add, Nat.mod_eq_of_lt hc, hr]

def fiveBytes : Cutter Envelope := ⟨⟨10, 5⟩, id, fun _ => 0⟩

def payment : Envelope := { payload := some [1, 2, 3] }

theorem follower_bytes_counted_payment : fiveBytes.FollowerRun (fun r => r.pendingBatch = []) ⟨[payment], 3⟩ ∧
    fiveBytes.pendingBytes [payment] = 3 := by
  have hr : fiveBytes.FollowerRun (fun r => r.pendingBatch = []) ⟨[payment], 3⟩ :=
    .step (.init rfl) (.orderedBatch fiveBytes.batchSize payment (by decide))
  exact ⟨hr, (follower_bytes_counted (fun _ h => h) hr).1.symm⟩

/-- After a `Cut` the pending request is not counted, and another one is put on top of it past the preferred size. -/
theorem cut_forgets_pending_bytes : ∃ r, fiveBytes.FollowerRun (fun _ => True) r ∧ r.pendingBatch = [payment] ∧
    r.pendingBatchSizeBytes = 0 ∧ (fiveBytes.ordered r payment).receiver.pendingBatch = [payment, payment] ∧
      fiveBytes.pendingBytes [payment, payment] = 6 :=
  ⟨⟨[payment], 0⟩, .step (.step (.init rfl) (.orderedBatch fiveBytes.batchSize payment (by decide))) (.cut trivial),
    rfl, rfl, rfl, rfl⟩

end Cutter

end Drunix.Orderer
