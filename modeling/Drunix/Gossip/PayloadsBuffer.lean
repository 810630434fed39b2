import Drunix.Lib.AMap
import Drunix.Lib.Lists
import Drunix.Lib.Transition
import Drunix.Peer.VerifyBlock
import Drunix.Proto.PrivateData

namespace Drunix.Gossip

open Lib Proto Peer List

structure BlockPayload where
  seqNum : UInt64
  data : Bytes
  privateData : Option (List Bytes) := none

structure PvtDataPayload where
  txSeqInBlock : UInt64
  payload : Bytes
  deriving DecidableEq

structure PayloadCodec where
  block : Wire Bytes ReceivedBlock
  pvtDataPayload : Wire Bytes PvtDataPayload
  txPvtReadWriteSet : Wire Bytes TxPvtReadWriteSet

structure PayloadsBuffer where
  next : UInt64
  buf : AMap UInt64 BlockPayload := ∅
  readyChan : Nat := 0

namespace PayloadsBuffer

variable (b : PayloadsBuffer)

def size : Nat :=
  b.buf.entries.length

def push (payload : BlockPayload) : PayloadsBuffer :=
  if payload.seqNum < b.next ∨ (b.buf.lookup payload.seqNum).isSome then b
  else
    { b with
      buf := b.buf.insert payload.seqNum payload
      readyChan := if payload.seqNum = b.next ∧ b.readyChan = 0 then b.readyChan + 1 else b.readyChan }

def drainReadChannel : PayloadsBuffer :=
  if b.size = 0 then { b with readyChan := 0 } else b

def pop : PayloadsBuffer × Option BlockPayload :=
  match b.buf.lookup b.next with
  | none => (b, none)
  | some result =>
    (drainReadChannel { b with buf := b.buf.erase b.next, next := b.next + 1 }, some result)

end PayloadsBuffer

section

variable (codec : PayloadCodec)

def unmarshalPvtData (data : List Bytes) : Option (List (UInt64 × TxPvtReadWriteSet)) :=
  data.mapM fun each => do
    let payload ← codec.pvtDataPayload.unmarshal each
    let pvtRWSet ← codec.txPvtReadWriteSet.unmarshal payload.payload
    return (payload.txSeqInBlock, pvtRWSet)

/-- What the delivery loop takes from a payload before it commits; nothing for the branches that drop the block. A block
without data cannot be told from one with empty data here, and verified blocks are neither. -/
def unmarshalPayload (payload : BlockPayload) : Option (ReceivedBlock × List (UInt64 × TxPvtReadWriteSet)) := do
  let rawBlock ← codec.block.unmarshal payload.data
  if rawBlock.data = [] ∨ rawBlock.header = none then none
  else
    match payload.privateData with
    | none => some (rawBlock, [])
    | some privateData => (unmarshalPvtData codec privateData).map (rawBlock, ·)

end

/-- The delivery loop: at the select, popping, with a popped payload in hand, or ended. -/
inductive DeliveryLoop
  | waiting
  | popping
  | holding (payload : BlockPayload)
  | stopped
  | panicked

inductive StoreResult
  | stored
  | executionFailure
  | failed

/-- A call of `addPayload` that was not rejected; `cleared` once it is past the loop that waits for room. -/
structure Adder where
  payload : BlockPayload
  blockingMode : Bool
  cleared : Bool := false

structure StateProvider where
  payloads : PayloadsBuffer
  height : UInt64
  adders : List Adder := []
  loop : DeliveryLoop := .waiting
  handed : List ReceivedBlock := []

def NewGossipStateProvider (height : UInt64) : StateProvider where
  payloads := { next := height }
  height

def addPayload.accepts (stateBlockBufferSize : Nat) (height : UInt64) (payload : BlockPayload) (blockingMode : Bool) :
    Bool :=
  blockingMode || decide (payload.seqNum - height < UInt64.ofNat stateBlockBufferSize)

def StoreResult.next : StoreResult → DeliveryLoop
  | .stored => .popping
  | .executionFailure => .stopped
  | .failed => .panicked

def StoreResult.height (result : StoreResult) (height : UInt64) (header : BlockHeader) : UInt64 :=
  match result with
  | .stored => header.number + 1
  | _ => height

section

variable (codec : PayloadCodec) (verify : UInt64 → ReceivedBlock → Outcome VerifyBlockError Unit)
  (stateBlockBufferSize : Nat)

/-- The block of the payload has passed `VerifyBlock`, at the block provider, the gossip channel or the handler of state
responses. -/
def BlockPayload.Verified (payload : BlockPayload) : Prop :=
  ∃ block, codec.block.unmarshal payload.data = some block ∧ verify payload.seqNum block = .ok ()

/-- Steps of the goroutines around the buffer. Payloads that are not verified or not accepted leave no trace. A step is
labelled with the payload that arrives in it. -/
inductive ProviderStep (s : StateProvider) : Option BlockPayload → StateProvider → Prop
  | arrive (payload : BlockPayload) (blockingMode : Bool) (hverified : payload.Verified codec verify)
      (haccepts : addPayload.accepts stateBlockBufferSize s.height payload blockingMode = true) :
      ProviderStep s (some payload) { s with adders := ⟨payload, blockingMode, false⟩ :: s.adders }
  | clear (before after : List Adder) {a : Adder} (hadders : s.adders = before ++ a :: after)
      (hroom : a.blockingMode = true → s.payloads.size ≤ stateBlockBufferSize * 2) :
      ProviderStep s none { s with adders := before ++ { a with cleared := true } :: after }
  | push (before after : List Adder) {a : Adder} (hadders : s.adders = before ++ a :: after)
      (hcleared : a.cleared = true) :
      ProviderStep s none { s with adders := before ++ after, payloads := s.payloads.push a.payload }
  | ready {n : Nat} (hwaiting : s.loop = .waiting) (hready : s.payloads.readyChan = n + 1) :
      ProviderStep s none { s with loop := .popping, payloads := { s.payloads with readyChan := n } }
  | pop (hpopping : s.loop = .popping) :
      ProviderStep s none
        { s with payloads := s.payloads.pop.1, loop := s.payloads.pop.2.elim .waiting .holding }
  | drop {payload : BlockPayload} (hholding : s.loop = .holding payload)
      (hdrop : unmarshalPayload codec payload = none) : ProviderStep s none { s with loop := .popping }
  | commitBlock {payload : BlockPayload} {block : ReceivedBlock} {header : BlockHeader}
      {p : List (UInt64 × TxPvtReadWriteSet)} (result : StoreResult) (hholding : s.loop = .holding payload)
      (hpayload : unmarshalPayload codec payload = some (block, p)) (hheader : block.header = some header) :
      ProviderStep s none
        { s with handed := s.handed ++ [block], loop := result.next, height := result.height s.height header }
  | stop (hwaiting : s.loop = .waiting) : ProviderStep s none { s with loop := .stopped }

def ProviderRun (height : UInt64) : StateProvider → Prop :=
  Reachable (fun s => s = NewGossipStateProvider height) fun s t =>
    ∃ arrived, ProviderStep codec verify stateBlockBufferSize s arrived t

def BlockPayload.Sound (payload : BlockPayload) : Prop :=
  (∀ privateData, payload.privateData = some privateData → unmarshalPvtData codec privateData ≠ none) ∧
    payload.seqNum ≠ 0xffffffffffffffff

def SoundProviderRun (height : UInt64) : StateProvider → Prop :=
  Reachable (fun s => s = NewGossipStateProvider height) fun s t =>
    ∃ arrived, ProviderStep codec verify stateBlockBufferSize s arrived t ∧
      ∀ payload, arrived = some payload → payload.Sound codec

end

variable {payload : BlockPayload}

namespace PayloadsBuffer

variable {b : PayloadsBuffer}

@[simp] theorem drainReadChannel_next : b.drainReadChannel.next = b.next := by
  unfold drainReadChannel
  split_ifs <;> rfl

@[simp] theorem drainReadChannel_buf : b.drainReadChannel.buf = b.buf := by
  unfold drainReadChannel
  split_ifs <;> rfl

@[simp] theorem push_next (payload : BlockPayload) : (b.push payload).next = b.next := by
  unfold push
  split_ifs <;> rfl

theorem lookup_push {p : BlockPayload} {k : UInt64} (h : (b.push payload).buf.lookup k = some p) :
    b.buf.lookup k = some p ∨ payload = p ∧ payload.seqNum = k := by
  unfold push at h
  split at h
  · exact Or.inl h
  · rw [AMap.lookup_insert_eq] at h
    split_ifs at h with hk
    · exact Or.inr ⟨Option.some.inj h, hk.symm⟩
    · exact Or.inl h

theorem push_signals (hs : b.buf.lookup b.next ≠ none → b.readyChan ≠ 0) (h : (b.push payload).buf.lookup b.next ≠ none) :
    (b.push payload).readyChan ≠ 0 := by
  unfold push at h ⊢
  split_ifs at h ⊢ with ho hn
  · exact hs h
  · exact Nat.succ_ne_zero _
  · by_cases hsq : b.next = payload.seqNum
    · exact fun hz => hn ⟨hsq.symm, hz⟩
    · rw [AList.lookup_insert_ne hsq] at h
      exact hs h

theorem pop_eq_none (h : b.pop.2 = none) : b.pop.1 = b ∧ b.buf.lookup b.next = none := by
  unfold pop at h ⊢
  cases hb : b.buf.lookup b.next with
  | none => exact ⟨rfl, rfl⟩
  | some result =>
    rw [hb] at h
    cases h

theorem pop_eq_some (h : b.pop.2 = some payload) :
    b.buf.lookup b.next = some payload ∧ b.pop.1.next = b.next + 1 ∧
      ∀ k p, b.pop.1.buf.lookup k = some p → b.buf.lookup k = some p := by
  unfold pop at h ⊢
  cases hb : b.buf.lookup b.next with
  | none =>
    rw [hb] at h
    cases h
  | some result =>
    rw [hb] at h
    cases h
    refine ⟨rfl, drainReadChannel_next, ?_⟩
    intro k p hk
    rw [drainReadChannel_buf] at hk
    by_cases hn : k = b.next
    · subst hn
      rw [AList.lookup_erase] at hk
      cases hk
    · rwa [AList.lookup_erase_ne hn] at hk

end PayloadsBuffer

section

variable {codec : PayloadCodec} {verify : UInt64 → ReceivedBlock → Outcome VerifyBlockError Unit}
  {stateBlockBufferSize : Nat} {height : UInt64} {s t : StateProvider} {arrived : Option BlockPayload}

def StateProvider.Signalled (s : StateProvider) : Prop :=
  s.loop = .waiting → s.payloads.buf.lookup s.payloads.next ≠ none → s.payloads.readyChan ≠ 0

theorem ProviderStep.signalled (h : ProviderStep codec verify stateBlockBufferSize s arrived t) (hs : s.Signalled) :
    t.Signalled := by
  cases h with
  | arrive | clear => exact hs
  | push before after ha hc =>
    intro hw hn
    rw [PayloadsBuffer.push_next] at hn
    exact PayloadsBuffer.push_signals (hs hw) hn
  | ready | drop | stop =>
    intro hw
    cases hw
  | pop hp =>
    intro hw hn
    cases hpp : s.payloads.pop.2 with
    | none =>
      -- the loop only goes back to the select when the next block is not there
      obtain ⟨hsm, hnn⟩ := PayloadsBuffer.pop_eq_none hpp
      rw [hsm] at hn
      exact absurd hnn hn
    | some payload =>
      simp only [hpp, Option.elim_some] at hw
      cases hw
  | commitBlock result hh hpy hhd =>
    intro hw
    cases result <;> cases hw

def BlockPayload.Deliverable (codec : PayloadCodec) (payload : BlockPayload) : Prop :=
  payload.seqNum ≠ 0xffffffffffffffff ∧ ∃ block header p, unmarshalPayload codec payload = some (block, p) ∧
    block.header = some header ∧ header.number = payload.seqNum

def DeliveryLoop.inHand : DeliveryLoop → Nat
  | .holding _ => 1
  | _ => 0

def NumberedFrom (height : UInt64) (blocks : List ReceivedBlock) : Prop :=
  ∀ i block, blocks[i]? = some block → ∃ header, block.header = some header ∧ header.number.toNat = height.toNat + i

structure StateProvider.Inv (codec : PayloadCodec) (height : UInt64) (s : StateProvider) : Prop where
  adders : ∀ a ∈ s.adders, a.payload.Deliverable codec
  buffered : ∀ k p, s.payloads.buf.lookup k = some p → p.seqNum = k ∧ p.Deliverable codec
  held : ∀ p, s.loop = .holding p → p.Deliverable codec ∧ p.seqNum.toNat = height.toNat + s.handed.length
  next : s.payloads.next.toNat = height.toNat + s.handed.length + s.loop.inHand
  numbered : NumberedFrom height s.handed

theorem NumberedFrom.append {blocks : List ReceivedBlock} {block : ReceivedBlock} {header : BlockHeader}
    (h : NumberedFrom height blocks) (hh : block.header = some header)
    (hnm : header.number.toNat = height.toNat + blocks.length) : NumberedFrom height (blocks ++ [block]) := by
  intro i b hi
  rw [getElem?_append] at hi
  split_ifs at hi with hlt
  · exact h i b hi
  · obtain ⟨hpos, rfl⟩ := List.getElem?_eq_some_iff.mp hi
    simp only [List.length_singleton] at hpos
    have hi : i = blocks.length := by omega
    subst hi
    exact ⟨header, by simpa using hh, hnm⟩

section

variable (hverify : ∀ seqNum block, verify seqNum block = .ok () →
  block.data ≠ [] ∧ ∃ header, block.header = some header ∧ header.number = seqNum)
include hverify

theorem BlockPayload.Verified.deliverable (h : payload.Verified codec verify) (hsn : payload.Sound codec) :
    payload.Deliverable codec := by
  obtain ⟨block, hb, hv⟩ := h
  obtain ⟨hd, header, hh, hnm⟩ := hverify _ _ hv
  refine ⟨hsn.2, ?_⟩
  cases hpv : payload.privateData with
  | none => exact ⟨block, header, [], by simp [unmarshalPayload, hb, hd, hh, hpv], hh, hnm⟩
  | some privateData =>
    obtain ⟨p, hp⟩ := Option.ne_none_iff_exists'.mp (hsn.1 privateData hpv)
    exact ⟨block, header, p, by simp [unmarshalPayload, hb, hd, hh, hpv, hp], hh, hnm⟩

theorem ProviderStep.inv (h : ProviderStep codec verify stateBlockBufferSize s arrived t)
    (hsn : ∀ payload, arrived = some payload → payload.Sound codec) (hs : s.Inv codec height) :
    t.Inv codec height := by
  cases h with
  | arrive payload blockingMode hvr hac =>
    exact { hs with adders := forall_mem_cons.mpr ⟨hvr.deliverable hverify (hsn payload rfl), hs.adders⟩ }
  | @clear before after a hadd hrm =>
    refine { hs with adders := fun c hc => ?_ }
    rcases mem_replaced hc with rfl | hc
    · exact hs.adders a (by simp [hadd])
    · exact hs.adders c (hadd ▸ hc)
  | @push before after a hadd hcl =>
    have ho := hs.adders
    rw [hadd, forall_mem_append, forall_mem_cons] at ho
    refine { hs with adders := forall_mem_append.mpr ⟨ho.1, ho.2.2⟩, buffered := ?_, next := ?_ }
    · intro k p hp
      rcases PayloadsBuffer.lookup_push hp with hp | ⟨rfl, hk⟩
      · exact hs.buffered k p hp
      · exact ⟨hk, ho.2.1⟩
    · rw [PayloadsBuffer.push_next]
      exact hs.next
  | ready hw hr =>
    have hn := hs.next
    rw [hw] at hn
    exact { hs with held := nofun, next := hn }
  | pop hpp =>
    have hn := hs.next
    rw [hpp] at hn
    cases hpo : s.payloads.pop.2 with
    | none =>
      obtain ⟨hsm, -⟩ := PayloadsBuffer.pop_eq_none hpo
      simp only [hsm, Option.elim_none]
      exact { hs with held := nofun, next := hn }
    | some payload =>
      obtain ⟨hlk, had, hkp⟩ := PayloadsBuffer.pop_eq_some hpo
      obtain ⟨hsq, hd⟩ := hs.buffered _ _ hlk
      simp only [Option.elim_some]
      refine { hs with buffered := fun k p hp => hs.buffered k p (hkp k p hp), held := ?_, next := ?_ }
      · rintro p ⟨⟩
        rw [hsq]
        exact ⟨hd, hn⟩
      · -- the number in hand is not the last one, so the next does not wrap
        have hl := hd.1
        rw [hsq, Ne, ← UInt64.toNat_inj] at hl
        have hlt := s.payloads.next.toNat_lt
        simp only [had, UInt64.toNat_add, UInt64.reduceToNat, DeliveryLoop.inHand] at hl hn ⊢
        omega
  | drop hh hdr =>
    obtain ⟨⟨-, block, header, p, hso, -⟩, -⟩ := hs.held _ hh
    rw [hdr] at hso
    cases hso
  | @commitBlock payload block header p result hh hpy hhd =>
    obtain ⟨⟨-, block', header', p', hp', hh', hnm⟩, hsq⟩ := hs.held _ hh
    rw [hpy] at hp'
    cases hp'
    rw [hhd] at hh'
    cases hh'
    have hn := hs.next
    rw [hh] at hn
    refine { hs with held := ?_, next := ?_, numbered := hs.numbered.append hhd (hnm ▸ hsq) }
    · cases result <;> exact nofun
    · cases result <;>
        simpa only [length_append, length_singleton, DeliveryLoop.inHand, StoreResult.next,
          Nat.add_assoc] using hn
  | stop hw =>
    have hn := hs.next
    rw [hw] at hn
    exact { hs with held := nofun, next := hn }

end

end

/-- Whenever the delivery loop waits with the next block in the buffer a signal is pending, in every run. Where the
private data attached to every block can be decoded, the blocks handed to the ledger are numbered one by one from its
height at the start. -/
theorem payloads_delivered_in_order (payloadCodec : PayloadCodec) (codec : Codec) (sha256 : Bytes → Bytes)
    (managers : PolicyManagers) (chainID : Bytes) (stateBlockBufferSize : Nat) (height : UInt64) :
    (∀ s, ProviderRun payloadCodec (verifyBlock codec sha256 managers chainID) stateBlockBufferSize height s →
      s.Signalled) ∧
    ∀ s, SoundProviderRun payloadCodec (verifyBlock codec sha256 managers chainID) stateBlockBufferSize height s →
      NumberedFrom height s.handed := by
  constructor
  · intro s hr
    refine hr.invariant StateProvider.Signalled ?_ fun s t hs ⟨_, hst⟩ => hst.signalled hs
    rintro _ rfl _ hn
    exact absurd rfl hn
  · intro s hr
    have hin : s.Inv payloadCodec height := by
      refine hr.invariant (StateProvider.Inv payloadCodec height) ?_ fun s t hs ⟨_, hst, hsn⟩ =>
        hst.inv (fun _ _ hv => ⟨verifyBlock_data_ne_nil hv, verifyBlock_header hv⟩) hsn hs
      rintro _ rfl
      refine ⟨by simp [NewGossipStateProvider], ?_, by simp [NewGossipStateProvider], rfl, ?_⟩
      · intro k p hp
        cases hp
      · intro i block hi
        cases hi
    exact hin.numbered

section

def deliveredBlock (number : UInt64) : ReceivedBlock where
  header := some { number, dataHash := liteEnvelopeBytes }
  data := [liteEnvelopeBytes]
  metadata := [[0x12, 0x03, 0x12, 0x01, 0x01]]

def deliveredCodec : PayloadCodec where
  block := .ofTable [] [(deliveredBlock 7, [0x07]), (deliveredBlock 8, [0x08])]
  pvtDataPayload := .ofTable [] []
  txPvtReadWriteSet := .ofTable [] []

theorem deliveredBlock_verified :
    BlockPayload.Verified deliveredCodec (verifyBlock liteCodec id oneSignature (ascii "c"))
      { seqNum := 7, data := [0x07] } ∧
    BlockPayload.Verified deliveredCodec (verifyBlock liteCodec id oneSignature (ascii "c"))
      { seqNum := 8, data := [0x08] } :=
  ⟨⟨deliveredBlock 7, by decide, by decide⟩, ⟨deliveredBlock 8, by decide, by decide⟩⟩

theorem payloads_delivered_in_order_early :
    ∃ s, SoundProviderRun deliveredCodec (verifyBlock liteCodec id oneSignature (ascii "c")) 10 7 s ∧
      s.handed = [deliveredBlock 7] ∧ NumberedFrom 7 s.handed := by
  have h₀ : SoundProviderRun deliveredCodec (verifyBlock liteCodec id oneSignature (ascii "c")) 10 7
      (NewGossipStateProvider 7) := .init rfl
  have h₁ := h₀.step ⟨_, .arrive _ false deliveredBlock_verified.2 (by decide),
    by rintro _ ⟨⟩; exact ⟨by simp, by decide⟩⟩
  have h₂ := h₁.step ⟨none, .clear [] _ rfl (by simp), by simp⟩
  have h₃ := h₂.step ⟨none, .push [] _ rfl rfl, by simp⟩
  have h₄ := h₃.step ⟨_, .arrive _ true deliveredBlock_verified.1 rfl, by rintro _ ⟨⟩; exact ⟨by simp, by decide⟩⟩
  have h₅ := h₄.step ⟨none, .clear [] _ rfl (by decide), by simp⟩
  have h₆ := h₅.step ⟨none, .push [] _ rfl rfl, by simp⟩
  have h₇ := h₆.step ⟨none, .ready rfl rfl, by simp⟩
  have h₈ := h₇.step ⟨none, .pop rfl, by simp⟩
  have h₉ := h₈.step ⟨none, .commitBlock .stored rfl rfl rfl, by simp⟩
  exact ⟨_, h₉, rfl, (payloads_delivered_in_order _ _ _ _ _ _ _).2 _ h₉⟩

/-- A verified block with private data that does not decode is popped and dropped, and the block after it is the first
that is handed on. -/
theorem undecodable_private_data_skips_block :
    ∃ s, ProviderRun deliveredCodec (verifyBlock liteCodec id oneSignature (ascii "c")) 10 7 s ∧
      s.handed = [deliveredBlock 8] := by
  have h₀ : ProviderRun deliveredCodec (verifyBlock liteCodec id oneSignature (ascii "c")) 10 7
      (NewGossipStateProvider 7) := .init rfl
  have h₁ := h₀.step ⟨_, .arrive { seqNum := 7, data := [0x07], privateData := some [[0xff]] } true
    deliveredBlock_verified.1 rfl⟩
  have h₂ := h₁.step ⟨none, .clear [] _ rfl (by decide)⟩
  have h₃ := h₂.step ⟨none, .push [] _ rfl rfl⟩
  have h₄ := h₃.step ⟨none, .ready rfl rfl⟩
  have h₅ := h₄.step ⟨none, .pop rfl⟩
  have h₆ := h₅.step ⟨none, .drop rfl rfl⟩
  have h₇ := h₆.step ⟨_, .arrive _ true deliveredBlock_verified.2 rfl⟩
  have h₈ := h₇.step ⟨none, .clear [] _ rfl (by decide)⟩
  have h₉ := h₈.step ⟨none, .push [] _ rfl rfl⟩
  have h₁₀ := h₉.step ⟨none, .pop rfl⟩
  exact ⟨_, h₁₀.step ⟨none, .commitBlock .stored rfl rfl rfl⟩, rfl⟩

end

end Drunix.Gossip
