import Mathlib.Order.Lattice
import Drunix.Lib.AMap
import Drunix.Lib.Lists
import Drunix.Lib.Transition
import Drunix.Proto.Messages

namespace Drunix.Gossip

open Lib Proto List

section

variable {S : Type} [LinearOrder S]

/-- The order of a sorted set: by score, and by member where scores are equal. -/
def precedes (a b : Bytes × S) : Bool :=
  decide (a.2 < b.2) || decide (a.2 = b.2) && decide (a.1 < b.1)

def firstMember : List (Bytes × S) → Option (Bytes × S)
  | [] => none
  | e :: l =>
    match firstMember l with
    | none => some e
    | some f => some (if precedes f e then f else e)

/-- `GetMinHeight`: the first member of the sorted set of heights, or nothing if it is empty. -/
def getMinHeight (heights : AMap Bytes S) : Option Bytes :=
  (firstMember heights.toPairs).map Prod.fst

end

/-- Where a purge of a block is: before `PurgeByTxids`, about to delete the transactions of the block, before
`PurgeBelowHeight`, about to read the transactions below the threshold, about to delete these, or ended. -/
inductive PurgePhase
  | start
  | deleting (txIds : List Bytes)
  | byHeight
  | selecting
  | removing (txIds : List Bytes)
  | done
  | crashed

/-- A goroutine in `PurgeKVStore`. The retrieval info that holds the transaction ids is nil for blocks of lite
transactions, which keep theirs in another record. -/
structure PurgeCall where
  peerId : Bytes
  blockNum : UInt64
  txns : Option (List Bytes)
  hasPvtData : Bool
  phase : PurgePhase := .start

structure Deletion where
  peerId : Bytes
  blockNum : UInt64
  txIds : List Bytes

structure SharedStore (S : Type) where
  heights : AMap Bytes S := ∅
  entries : Bytes → Bool := fun _ => false
  txnsByBlock : AMap Bytes S := ∅
  calls : List PurgeCall := []
  deletions : List Deletion := []

inductive PurgeEvent
  | silent
  | setHeight (peerId : Bytes) (height : UInt64)
  | decided (call : PurgeCall)
  | deleted (peerId : Bytes) (blockNum : UInt64) (txIds : List Bytes)

namespace PurgeCall

def purgeByTxids (call : PurgeCall) (minPeerId : Option Bytes) : PurgePhase :=
  if call.hasPvtData then
    match call.txns with
    | none => .crashed
    | some txIds => if minPeerId = some call.peerId then .deleting txIds else .byHeight
  else .byHeight

def purgeBelowHeight (call : PurgeCall) (transientBlockRetention : UInt64) (minPeerId : Option Bytes) : PurgePhase :=
  if transientBlockRetention < call.blockNum then
    if minPeerId = some call.peerId then .selecting else .done
  else .done

end PurgeCall

namespace SharedStore

variable {S : Type} [LinearOrder S]

def del (s : SharedStore S) (call : PurgeCall) (txIds : List Bytes) : SharedStore S :=
  { s with
    entries := fun txid => if txid ∈ txIds then false else s.entries txid
    txnsByBlock := txIds.foldl (fun m txid => m.erase txid) s.txnsByBlock
    deletions := ⟨call.peerId, call.blockNum, txIds⟩ :: s.deletions }

def txnsBelow (s : SharedStore S) (score : S) : List Bytes :=
  (s.txnsByBlock.toPairs.filter fun e => decide (e.2 ≤ score)).map Prod.fst

def Registered (s : SharedStore S) (peerId : Bytes) : Prop :=
  ∃ height, s.heights.lookup peerId = some height

end SharedStore

def PurgePhase.Decided : PurgePhase → Prop
  | .start | .crashed => False
  | _ => True

def PurgePhase.Found : PurgePhase → Prop
  | .deleting _ | .selecting | .removing _ => True
  | _ => False

section

variable {S : Type} [LinearOrder S] (score : UInt64 → S) (blockTxns : UInt64 → List Bytes)
  (transientBlockRetention : UInt64)

/-- The steps of the peers that share a store: heights are set, private data is stored, purges start after the height of
their block is set, and each purge goes through its reads and deletes one by one. -/
inductive PurgeStep (s : SharedStore S) : PurgeEvent → SharedStore S → Prop
  | setHeight (peerId : Bytes) (height : UInt64)
      (hmono : ∀ old, s.heights.lookup peerId = some old → old ≤ score height) :
      PurgeStep s (.setHeight peerId height) { s with heights := s.heights.insert peerId (score height) }
  -- The batcher stores the entry under the lowest height it has read.
  | persist (txid : Bytes) (minHeight : S) :
      PurgeStep s .silent
        { s with
          entries := Function.update s.entries txid true
          txnsByBlock := s.txnsByBlock.insert txid minHeight }
  | start (call : PurgeCall) (hphase : call.phase = .start)
      (hcommitted : ∃ height, s.heights.lookup call.peerId = some height ∧ score call.blockNum ≤ height)
      (htxns : ∀ txIds, call.txns = some txIds → txIds = blockTxns call.blockNum) :
      PurgeStep s .silent { s with calls := call :: s.calls }
  | decide (before after : List PurgeCall) {call : PurgeCall} (hcalls : s.calls = before ++ call :: after)
      (hphase : call.phase = .start) :
      PurgeStep s (.decided call)
        { s with
          calls := before ++ { call with phase := call.purgeByTxids (getMinHeight s.heights) } :: after }
  | delete (before after : List PurgeCall) {call : PurgeCall} {txIds : List Bytes}
      (hcalls : s.calls = before ++ call :: after) (hphase : call.phase = .deleting txIds) :
      PurgeStep s (.deleted call.peerId call.blockNum txIds)
        { s.del call txIds with calls := before ++ { call with phase := .byHeight } :: after }
  | checkHeight (before after : List PurgeCall) {call : PurgeCall} (hcalls : s.calls = before ++ call :: after)
      (hphase : call.phase = .byHeight) :
      PurgeStep s .silent
        { s with
          calls := before ++
            { call with phase := call.purgeBelowHeight transientBlockRetention (getMinHeight s.heights) } :: after }
  | select (before after : List PurgeCall) {call : PurgeCall} (hcalls : s.calls = before ++ call :: after)
      (hphase : call.phase = .selecting) :
      PurgeStep s .silent
        { s with
          calls := before ++
            { call with phase := .removing (s.txnsBelow (score (call.blockNum - transientBlockRetention - 1))) } ::
              after }
  | remove (before after : List PurgeCall) {call : PurgeCall} {txIds : List Bytes}
      (hcalls : s.calls = before ++ call :: after) (hphase : call.phase = .removing txIds) :
      PurgeStep s (.deleted call.peerId call.blockNum txIds)
        { s.del call txIds with calls := before ++ { call with phase := .done } :: after }

def PurgeRun : SharedStore S → Prop :=
  Reachable (fun s => s = {}) fun s t => ∃ event, PurgeStep score blockTxns transientBlockRetention s event t

/-- A purge has deleted the transactions of the block or is about to. -/
def SharedStore.Purging (s : SharedStore S) (blockNum : UInt64) : Prop :=
  (∃ call ∈ s.calls, call.blockNum = blockNum ∧ call.phase = .deleting (blockTxns blockNum)) ∨
    ∃ d ∈ s.deletions, d.blockNum = blockNum ∧ d.txIds = blockTxns blockNum

/-- Where some peer has private data of a block and no purge of it has gone ahead, the peer that decides last about the
block has private data of it and is the first in the sorted set of heights; and no peer sets its first height below a
block whose purge is between its check and its delete. -/
def SharedStore.Sound (s : SharedStore S) : PurgeEvent → Prop
  | .decided call =>
    (∃ other ∈ s.calls, other.blockNum = call.blockNum ∧ other.hasPvtData = true) →
    ¬ s.Purging blockTxns call.blockNum →
    (∀ q, s.Registered q → q ≠ call.peerId →
      ∃ other ∈ s.calls, other.peerId = q ∧ other.blockNum = call.blockNum ∧ other.phase.Decided) →
    call.hasPvtData = true ∧ getMinHeight s.heights = some call.peerId
  | .setHeight peerId height => s.heights.lookup peerId = none →
      ∀ call ∈ s.calls, call.phase.Found → score call.blockNum ≤ score height
  | _ => True

def SoundPurgeRun : SharedStore S → Prop :=
  Reachable (fun s => s = {}) fun s t =>
    ∃ event, PurgeStep score blockTxns transientBlockRetention s event t ∧ s.Sound score blockTxns event

end

section

variable {S : Type} [LinearOrder S] {a b : Bytes × S} {peerId : Bytes}

theorem precedes_le (h : precedes a b = true) : a.2 ≤ b.2 := by
  simp only [precedes, Bool.or_eq_true, Bool.and_eq_true, decide_eq_true_eq] at h
  rcases h with h | ⟨h, _⟩
  · exact le_of_lt h
  · exact le_of_eq h

theorem le_of_not_precedes (h : ¬ precedes a b = true) : b.2 ≤ a.2 := by
  simp only [precedes, Bool.or_eq_true, decide_eq_true_eq, not_or] at h
  exact not_lt.mp h.1

theorem firstMember_spec {l : List (Bytes × S)} {f : Bytes × S} (h : firstMember l = some f) :
    f ∈ l ∧ ∀ e ∈ l, f.2 ≤ e.2 := by
  induction l generalizing f with
  | nil => cases h
  | cons e l ih =>
    rw [firstMember] at h
    cases hl : firstMember l with
    | none =>
      rw [hl] at h
      cases h
      refine ⟨mem_cons_self, ?_⟩
      cases l with
      | nil => simp
      | cons e' l =>
        rw [firstMember] at hl
        split at hl <;> cases hl
    | some g =>
      obtain ⟨hg, hle⟩ := ih hl
      rw [hl] at h
      cases h
      split_ifs with hp
      · refine ⟨mem_cons_of_mem _ hg, ?_⟩
        exact forall_mem_cons.mpr ⟨precedes_le hp, hle⟩
      · refine ⟨mem_cons_self, ?_⟩
        exact forall_mem_cons.mpr ⟨le_refl _, fun a ha => le_trans (le_of_not_precedes hp) (hle a ha)⟩

theorem getMinHeight_le {heights : AMap Bytes S} {q : Bytes} {height own : S} (h : getMinHeight heights = some peerId)
    (ho : heights.lookup peerId = some own) (hq : heights.lookup q = some height) : own ≤ height := by
  obtain ⟨first, hf, rfl⟩ := Option.map_eq_some_iff.mp h
  obtain ⟨hm, hle⟩ := firstMember_spec hf
  cases ho.symm.trans (AMap.mem_toPairs.mp hm)
  exact hle (q, height) (AMap.mem_toPairs.mpr hq)

variable {score : UInt64 → S} {blockTxns : UInt64 → List Bytes} {transientBlockRetention : UInt64}

/-- Every registered peer has decided about the block, one of them with private data of it. -/
structure SharedStore.AllDecided (s : SharedStore S) (blockNum : UInt64) : Prop where
  pvtData : ∃ call ∈ s.calls, call.blockNum = blockNum ∧ call.hasPvtData = true ∧ call.phase.Decided
  registered : ∀ q, s.Registered q →
    ∃ call ∈ s.calls, call.peerId = q ∧ call.blockNum = blockNum ∧ call.phase.Decided

structure SharedStore.Inv (score : UInt64 → S) (blockTxns : UInt64 → List Bytes) (s : SharedStore S) : Prop where
  committed : ∀ call ∈ s.calls, ∃ height, s.heights.lookup call.peerId = some height ∧ score call.blockNum ≤ height
  txns : ∀ call ∈ s.calls, ∀ txIds, call.txns = some txIds → txIds = blockTxns call.blockNum
  deleting : ∀ call ∈ s.calls, ∀ txIds, call.phase = .deleting txIds → txIds = blockTxns call.blockNum
  found : ∀ call ∈ s.calls, call.phase.Found →
    ∀ q height, s.heights.lookup q = some height → score call.blockNum ≤ height
  complete : ∀ blockNum, s.AllDecided blockNum → s.Purging blockTxns blockNum

variable {call : PurgeCall} {after before : List PurgeCall} {s t : SharedStore S} {minPeerId : Option Bytes}

omit [LinearOrder S] in
theorem SharedStore.AllDecided.of_calls {blockNum : UInt64} (h : t.AllDecided blockNum) (hh : t.heights = s.heights)
    (hc : ∀ c ∈ t.calls, c.blockNum = blockNum → c.phase.Decided → ∃ d ∈ s.calls,
      d.peerId = c.peerId ∧ d.blockNum = c.blockNum ∧ d.hasPvtData = c.hasPvtData ∧ d.phase.Decided) :
    s.AllDecided blockNum := by
  constructor
  · obtain ⟨c, hm, hb, hp, hd⟩ := h.pvtData
    obtain ⟨d, hm', -, hb', hp', hd'⟩ := hc c hm hb hd
    exact ⟨d, hm', hb'.trans hb, hp'.trans hp, hd'⟩
  · intro q hq
    obtain ⟨c, hm, hr, hb, hd⟩ := h.registered q (by rwa [SharedStore.Registered, hh])
    obtain ⟨d, hm', hr', hb', -, hd'⟩ := hc c hm hb hd
    exact ⟨d, hm', hr'.trans hr, hb'.trans hb, hd'⟩

section

variable (hs : s.Inv score blockTxns) (hcalls : s.calls = before ++ call :: after)
include hs hcalls

/-- A call moves on to a phase in which what it will delete is known and, if it is to delete, its peer was found first.
All but the completeness of the purge follows from that. -/
theorem SharedStore.Inv.advance (phase : PurgePhase)
    (hd : ∀ txIds, phase = .deleting txIds → txIds = blockTxns call.blockNum)
    (hf : phase.Found → ∀ q height, s.heights.lookup q = some height → score call.blockNum ≤ height)
    (hh : t.heights = s.heights) (hn : t.calls = before ++ { call with phase } :: after)
    (hcm : ∀ blockNum, t.AllDecided blockNum → t.Purging blockTxns blockNum) : t.Inv score blockTxns := by
  have hm : call ∈ s.calls := by simp [hcalls]
  have ho : ∀ P : PurgeCall → Prop, P { call with phase } → (∀ c ∈ s.calls, P c) → ∀ c ∈ t.calls, P c := by
    intro P hp ha c hc
    rw [hn] at hc
    rcases mem_replaced hc with rfl | hc
    · exact hp
    · exact ha c (hcalls ▸ hc)
  refine ⟨?_, ho _ (hs.txns call hm) hs.txns, ho _ hd hs.deleting, ?_, hcm⟩
  · rw [hh]
    exact ho _ (hs.committed call hm) hs.committed
  · rw [hh]
    exact ho _ hf hs.found

theorem SharedStore.Inv.moveOn (hdc : call.phase.Decided) (phase : PurgePhase)
    (hdl : ∀ txIds, phase ≠ .deleting txIds)
    (hf : phase.Found → ∀ q height, s.heights.lookup q = some height → score call.blockNum ≤ height)
    (hh : t.heights = s.heights) (hnw : t.calls = before ++ { call with phase } :: after)
    (hk : ∀ d ∈ s.deletions, d ∈ t.deletions)
    (hde : ∀ txIds, call.phase = .deleting txIds → ∃ d ∈ t.deletions, d.blockNum = call.blockNum ∧ d.txIds = txIds) :
    t.Inv score blockTxns := by
  refine hs.advance hcalls phase (fun txIds h => absurd h (hdl txIds)) hf hh hnw ?_
  intro blockNum ha
  have hb : s.AllDecided blockNum := by
    refine ha.of_calls hh fun c hc _ hp => ?_
    rw [hnw] at hc
    rcases mem_replaced hc with rfl | hc
    · exact ⟨call, by simp [hcalls], rfl, rfl, rfl, hdc⟩
    · exact ⟨c, hcalls ▸ hc, rfl, rfl, rfl, hp⟩
  rcases hs.complete blockNum hb with ⟨c, hc, hbl, hp⟩ | ⟨d, hd, hr⟩
  · by_cases hsa : c = call
    · subst hsa
      obtain ⟨d, hd, hn, htx⟩ := hde _ hp
      exact Or.inr ⟨d, hd, hn.trans hbl, htx⟩
    · exact Or.inl ⟨c, hnw ▸ mem_replaced_of_ne (hcalls ▸ hc) hsa, hbl, hp⟩
  · exact Or.inr ⟨d, hk d hd, hr⟩

end

theorem SharedStore.Inv.le_of_first (hs : s.Inv score blockTxns) (hc : call ∈ s.calls)
    (hf : getMinHeight s.heights = some call.peerId) (q : Bytes) (height : S)
    (hq : s.heights.lookup q = some height) : score call.blockNum ≤ height := by
  obtain ⟨own, ho, hle⟩ := hs.committed call hc
  exact le_trans hle (getMinHeight_le hf ho hq)

theorem PurgeCall.found_purgeByTxids (h : (call.purgeByTxids minPeerId).Found) :
    minPeerId = some call.peerId ∧ ∃ txIds, call.txns = some txIds ∧ call.purgeByTxids minPeerId = .deleting txIds := by
  cases hp : call.hasPvtData with
  | false => simp [purgeByTxids, hp, PurgePhase.Found] at h
  | true =>
    cases ht : call.txns with
    | none => simp [purgeByTxids, hp, ht, PurgePhase.Found] at h
    | some txIds =>
      by_cases hf : minPeerId = some call.peerId
      · exact ⟨hf, txIds, rfl, by simp [purgeByTxids, hp, ht, hf]⟩
      · simp [purgeByTxids, hp, ht, hf, PurgePhase.Found] at h

theorem PurgeCall.found_purgeBelowHeight (h : (call.purgeBelowHeight transientBlockRetention minPeerId).Found) :
    minPeerId = some call.peerId := by
  unfold purgeBelowHeight at h
  split_ifs at h
  · assumption
  · cases h
  · cases h

theorem SharedStore.Inv.setHeight (hs : s.Inv score blockTxns) {height : UInt64}
    (hm : ∀ old, s.heights.lookup peerId = some old → old ≤ score height)
    (hsn : s.Sound score blockTxns (.setHeight peerId height)) :
    SharedStore.Inv score blockTxns { s with heights := s.heights.insert peerId (score height) } where
  committed := by
    intro call hc
    obtain ⟨own, ho, hle⟩ := hs.committed call hc
    by_cases hp : call.peerId = peerId
    · subst hp
      exact ⟨score height, AList.lookup_insert _, le_trans hle (hm own ho)⟩
    · exact ⟨own, (AList.lookup_insert_ne hp).trans ho, hle⟩
  txns := hs.txns
  deleting := hs.deleting
  found := by
    intro call hc hf q h hq
    rw [AMap.lookup_insert_eq] at hq
    split_ifs at hq with hp
    · cases hq
      cases hol : s.heights.lookup peerId with
      | none => exact hsn hol call hc hf
      | some old => exact le_trans (hs.found call hc hf peerId old hol) (hm old hol)
    · exact hs.found call hc hf q h hq
  complete := by
    intro blockNum ha
    refine hs.complete blockNum ⟨ha.pvtData, fun q ⟨h, hq⟩ => ha.registered q ?_⟩
    by_cases hp : q = peerId
    · subst hp
      exact ⟨score height, AList.lookup_insert _⟩
    · exact ⟨h, (AList.lookup_insert_ne hp).trans hq⟩

theorem SharedStore.Inv.decide (hs : s.Inv score blockTxns) (hcalls : s.calls = before ++ call :: after)
    (hp : call.phase = .start) (hsn : s.Sound score blockTxns (.decided call)) :
    SharedStore.Inv score blockTxns
      { s with calls := before ++ { call with phase := call.purgeByTxids (getMinHeight s.heights) } :: after } := by
  have hm : call ∈ s.calls := by simp [hcalls]
  have hdl : ∀ txIds, call.purgeByTxids (getMinHeight s.heights) = .deleting txIds →
      txIds = blockTxns call.blockNum := by
    intro txIds h
    have hf : (call.purgeByTxids (getMinHeight s.heights)).Found := by
      rw [h]
      trivial
    obtain ⟨-, txIds', ht, hde⟩ := PurgeCall.found_purgeByTxids hf
    cases h.symm.trans hde
    exact hs.txns call hm txIds ht
  refine hs.advance hcalls _ hdl ?_ rfl rfl ?_
  · intro hf
    exact hs.le_of_first hm (PurgeCall.found_purgeByTxids hf).1
  intro blockNum ha
  by_cases hpg : s.Purging blockTxns blockNum
  · refine hpg.imp_left fun ⟨c, hc, hbl, hde⟩ => ⟨c, mem_replaced_of_ne (hcalls ▸ hc) ?_, hbl, hde⟩
    rintro rfl
    cases hp.symm.trans hde
  have ho : ∀ c ∈ before ++ { call with phase := call.purgeByTxids (getMinHeight s.heights) } :: after,
      c = { call with phase := call.purgeByTxids (getMinHeight s.heights) } ∨ c ∈ s.calls :=
    fun c hc => (mem_replaced hc).imp_right fun h => hcalls ▸ h
  by_cases hown : call.blockNum = blockNum ∧ (call.purgeByTxids (getMinHeight s.heights)).Decided
  · -- nothing has been deleted, so this is the last peer to decide
    obtain ⟨rfl, hdc⟩ := hown
    have hpv : ∃ other ∈ s.calls, other.blockNum = call.blockNum ∧ other.hasPvtData = true := by
      obtain ⟨c, hc, hbl, hpd, -⟩ := ha.pvtData
      rcases ho c hc with rfl | hc
      · exact ⟨call, hm, rfl, hpd⟩
      · exact ⟨c, hc, hbl, hpd⟩
    obtain ⟨hpd, hfr⟩ := hsn hpv hpg fun q hq hne => by
      obtain ⟨c, hc, hpr, hr⟩ := ha.registered q hq
      rcases ho c hc with rfl | hc
      · exact absurd hpr.symm hne
      · exact ⟨c, hc, hpr, hr⟩
    refine Or.inl ⟨_, mem_append_right _ mem_cons_self, rfl, ?_⟩
    cases ht : call.txns with
    | none => simp [PurgeCall.purgeByTxids, hpd, ht, PurgePhase.Decided] at hdc
    | some txIds =>
      rw [← hs.txns call hm txIds ht]
      simp [PurgeCall.purgeByTxids, hpd, ht, hfr]
  · refine absurd (hs.complete blockNum (ha.of_calls rfl fun c hc hbl hdc => ?_)) hpg
    rcases ho c hc with rfl | hc
    · exact absurd ⟨hbl, hdc⟩ hown
    · exact ⟨c, hc, rfl, rfl, rfl, hdc⟩

theorem PurgeStep.inv {event : PurgeEvent} (h : PurgeStep score blockTxns transientBlockRetention s event t)
    (hsn : s.Sound score blockTxns event) (hs : s.Inv score blockTxns) : t.Inv score blockTxns := by
  cases h with
  | setHeight peerId height hm => exact hs.setHeight hm hsn
  | persist txid minHeight => exact { hs with complete := fun blockNum ⟨hp, hr⟩ => hs.complete blockNum ⟨hp, hr⟩ }
  | start call hp hcm ht =>
    refine ⟨forall_mem_cons.mpr ⟨hcm, hs.committed⟩, forall_mem_cons.mpr ⟨ht, hs.txns⟩,
      forall_mem_cons.mpr ⟨?_, hs.deleting⟩, forall_mem_cons.mpr ⟨?_, hs.found⟩, ?_⟩
    · intro txIds h
      cases hp.symm.trans h
    · intro h
      rw [hp] at h
      cases h
    intro blockNum ha
    refine (hs.complete blockNum (ha.of_calls rfl ?_)).imp_left fun ⟨c, hc, hr⟩ => ⟨c, mem_cons_of_mem _ hc, hr⟩
    rintro c (_ | ⟨_, hc⟩) _ hdc
    · rw [hp] at hdc
      cases hdc
    · exact ⟨c, hc, rfl, rfl, rfl, hdc⟩
  | decide before after hcalls hp => exact hs.decide hcalls hp hsn
  | delete before after hcalls hp =>
    refine hs.moveOn hcalls (by rw [hp]; trivial) .byHeight (fun _ h => by cases h) (fun h => by cases h) rfl rfl
      (fun d hd => mem_cons_of_mem _ hd) ?_
    intro txIds hdl
    cases hp.symm.trans hdl
    exact ⟨_, mem_cons_self, rfl, rfl⟩
  | checkHeight before after hcalls hp =>
    refine hs.moveOn hcalls (by rw [hp]; trivial) _ ?_ ?_ rfl rfl (fun _ hd => hd)
      (fun _ hdl => by cases hp.symm.trans hdl)
    · intro txIds hdl
      unfold PurgeCall.purgeBelowHeight at hdl
      split_ifs at hdl
    · intro hf
      exact hs.le_of_first (by simp [hcalls]) (PurgeCall.found_purgeBelowHeight hf)
  | select before after hcalls hp =>
    exact hs.moveOn hcalls (by rw [hp]; trivial) _ (fun _ h => by cases h)
      (fun _ => hs.found _ (by simp [hcalls]) (by rw [hp]; trivial)) rfl rfl (fun _ hd => hd)
      (fun _ hdl => by cases hp.symm.trans hdl)
  | remove before after hcalls hp =>
    exact hs.moveOn hcalls (by rw [hp]; trivial) .done (fun _ h => by cases h) (fun h => by cases h) rfl rfl
      (fun d hd => mem_cons_of_mem _ hd) (fun _ hdl => by cases hp.symm.trans hdl)

theorem SoundPurgeRun.inv (h : SoundPurgeRun score blockTxns transientBlockRetention s) : s.Inv score blockTxns := by
  refine h.invariant (SharedStore.Inv score blockTxns) ?_ fun s t hs ⟨_, hst, hsn⟩ => hst.inv hsn hs
  rintro _ rfl
  refine ⟨by simp, by simp, by simp, by simp, ?_⟩
  rintro blockNum ⟨⟨_, hc, -⟩, -⟩
  cases hc

end

section

def transferTxns (blockNum : UInt64) : List Bytes :=
  if blockNum = 5 then [ascii "tx"] else []

def transferPurge (peerId : String) : PurgeCall where
  peerId := ascii peerId
  blockNum := 5
  txns := some [ascii "tx"]
  hasPvtData := true

end

end Drunix.Gossip
