import Drunix.Lib.Transition
import Drunix.Peer.Recovery

namespace Drunix.Peer

open Lib Proto Ledger Ledger.Validation Ledger.Expiry Outcome List

/-- The peer on one channel; it is not `running` from a crash until the next sync is through. -/
structure Process where
  ledger : KvLedger
  running : Bool

/-- Blocks are committed by the path of their format, with the private data of the ledger when it has
some already. Both a commit and a sync can be cut off between two writes, or within the writes to the state database: then
its rows are any, and only its savepoint counts. -/
inductive Process.Step (s : CommitSupport) : Process → Process → Prop
  | commit {l l' : KvLedger} {blk : FlaggedBlock} {path : CommitPath} {pvtdata : UInt64 → Option TxPvtData}
      (hpath : recommitPath s.codec blk.block.data = .ok path)
      (hpvtdata : l.height < l.pvtdataStore.height → pvtdata = s.getPvtDataByBlockNum l.pvtdataStore blk.number)
      (hcommit : l.commit s path blk pvtdata = .ok l') : Step s ⟨l, true⟩ ⟨l', true⟩
  | commitCutOff {l l' : KvLedger} {blk : FlaggedBlock} {path : CommitPath} {pvtdata : UInt64 → Option TxPvtData}
      (stage : CommitStage) (txmgr : TxMgr) (htorn : stage = .blockStored ∨ txmgr = l'.stateDB.txmgr)
      (hpath : recommitPath s.codec blk.block.data = .ok path)
      (hpvtdata : l.height < l.pvtdataStore.height → pvtdata = s.getPvtDataByBlockNum l.pvtdataStore blk.number)
      (hcommit : l.commitUpTo s stage path blk pvtdata = .ok l') : Step s ⟨l, true⟩ ⟨(l'.withState txmgr).restart, false⟩
  | crash (l : KvLedger) : Step s ⟨l, true⟩ ⟨l.restart, false⟩
  | syncCutOff {l l' : KvLedger} {recoverers : List (Recoverable × Nat)} (n : Nat) (txmgr : TxMgr) (hheight : 0 < l.height)
      (hrecoverers : l.recoverers (l.height - 1) l.recoverables = .ok recoverers)
      (hrecommit : l.recommitLostBlocks s ((l.lostTo recoverers).take n) = .ok l') :
      Step s ⟨l, false⟩ ⟨(l'.withState txmgr).restart, false⟩
  | sync {l l' : KvLedger} (hsync : l.syncStateAndHistoryDBWithBlockstore s = .ok l') : Step s ⟨l, false⟩ ⟨l', true⟩

structure Process.Init (p : Process) : Prop where
  blockStore : p.ledger.blockStore = []
  savepoint : p.ledger.stateDB.savepoint = none
  historyDB : ∀ d, p.ledger.historyDB = some d → d = {}

section

variable {s : CommitSupport} {l l' : KvLedger} {blk : FlaggedBlock} {path : CommitPath}
  {pvtdata : UInt64 → Option TxPvtData} {pos : Recoverable → Nat} {p : Process}

theorem Numbered.concat {blocks : List FlaggedBlock} (h : Numbered blocks) (hbl : blk.number.toNat = blocks.length) :
    Numbered (blocks ++ [blk]) := by
  intro i b hb
  obtain hb | ⟨rfl, rfl⟩ := getElem?_concat_eq_some hb
  · exact h i b hb
  · exact hbl

theorem Levels.withState (h : Levels s.codec l pos) (txmgr : TxMgr) : Levels s.codec (l.withState txmgr) pos := by
  intro r
  cases r with
  | state => exact h .state
  | history => exact h .history

theorem levels_withBlock (hlevels : Levels s.codec l pos) (hpos : ∀ r, pos r ≤ l.height) (blk : FlaggedBlock)
    (commitHash : Bytes) :
    Levels s.codec (l.withBlock blk commitHash) pos := by
  intro r
  cases r with
  | state => exact hlevels .state
  | history =>
    intro d hd
    have ht : (l.withBlock blk commitHash).blockStore.take (pos .history) = l.blockStore.take (pos .history) :=
      take_append_of_le_length (hpos .history)
    rw [ht]
    exact hlevels .history d hd

structure Process.Inv (s : CommitSupport) (p : Process) : Prop where
  numbered : Numbered p.ledger.blockStore
  levels : ∃ pos, (∀ r, pos r ≤ p.ledger.height) ∧ Levels s.codec p.ledger pos
  current : p.running = true → Levels s.codec p.ledger fun _ => p.ledger.height

theorem Process.Inv.of_current (hn : Numbered l.blockStore) (hlevels : Levels s.codec l fun _ => l.height)
    (running : Bool) : Process.Inv s ⟨l, running⟩ :=
  ⟨hn, ⟨fun _ => l.height, fun _ => le_rfl, hlevels⟩, fun _ => hlevels⟩

theorem Process.Inv.of_levels (pos : Recoverable → Nat) (hn : Numbered l.blockStore) (hpos : ∀ r, pos r ≤ l.height)
    (hlevels : Levels s.codec l pos) : Process.Inv s ⟨l, false⟩ :=
  ⟨hn, ⟨pos, hpos, hlevels⟩, nofun⟩

theorem Process.Inv.withState (h : Process.Inv s ⟨l, false⟩) (txmgr : TxMgr) : Process.Inv s ⟨l.withState txmgr, false⟩ := by
  obtain ⟨pos, hpos, hlevels⟩ := h.levels
  exact .of_levels pos h.numbered hpos (hlevels.withState txmgr)

/-- What a commit leaves behind that is cut off after a stage. -/
theorem Process.Inv.commitUpTo {stage : CommitStage} (h : Process.Inv s ⟨l, true⟩)
    (hpath : recommitPath s.codec blk.block.data = .ok path) (hcm : l.commitUpTo s stage path blk pvtdata = .ok l') :
    Process.Inv s ⟨l', decide (stage = .committed)⟩ := by
  have hcr := h.current rfl
  obtain ⟨⟨flags, u, purges, pvtUpdates⟩, -, hcm⟩ := bind_eq_ok.mp hcm
  obtain ⟨l₁, hst, hcm⟩ := bind_eq_ok.mp hcm
  obtain ⟨pvtdataStore, rfl⟩ := storePvtdata_eq_ok hst
  have hn₁ : Numbered ({ l with pvtdataStore } : KvLedger).blockStore := h.numbered
  have hlv₁ : Levels s.codec { l with pvtdataStore } fun _ => l.height := by
    intro r
    cases r with
    | state => exact hcr .state
    | history => exact hcr .history
  dsimp only at hcm
  by_cases hs : stage = .pvtdataStored
  · rw [if_pos hs] at hcm
    cases hcm
    exact .of_current hn₁ hlv₁ _
  rw [if_neg hs] at hcm
  obtain ⟨l₂, ha, hcm⟩ := bind_eq_ok.mp hcm
  obtain ⟨hnm, rfl⟩ := addBlock_eq_ok.mp ha
  generalize l.addBlockCommitHash s { blk with flags } u = commitHash at hcm
  have hn₂ := hn₁.concat hnm
  have hlv₂ := levels_withBlock hlv₁ (fun _ => le_rfl) { blk with flags } commitHash
  have hh : (KvLedger.withBlock { l with pvtdataStore } { blk with flags } commitHash).height = l.height + 1 :=
    length_append
  by_cases hs : stage = .blockStored
  · rw [if_pos hs] at hcm
    cases hcm
    rw [hs]
    exact .of_levels _ hn₂ (fun r => by rw [hh]; exact Nat.le_succ _) hlv₂
  rw [if_neg hs] at hcm
  obtain ⟨txmgr, -, hcm⟩ := bind_eq_ok.mp hcm
  have hlv₃ : LevelAt s.codec (KvLedger.stateCommitted (KvLedger.withBlock { l with pvtdataStore } { blk with flags }
      commitHash) { blk with flags } txmgr) .state (l.height + 1) := by
    change some blk.number.toNat = _
    rw [show blk.number.toNat = l.height from hnm, if_neg (Nat.succ_ne_zero _), Nat.add_sub_cancel]
  by_cases hs : stage = .stateCommitted
  · rw [if_pos hs] at hcm
    cases hcm
    rw [hs]
    refine .of_levels (Function.update (fun _ => l.height) .state (l.height + 1)) hn₂ (fun r => ?_) fun r => ?_
    · change _ ≤ (KvLedger.withBlock { l with pvtdataStore } { blk with flags } commitHash).height
      rw [hh]
      cases r with
      | state => exact le_rfl
      | history => exact Nat.le_succ _
    · cases r with
      | state => exact hlv₃
      | history => exact hlv₂ .history
  rw [if_neg hs] at hcm
  have hhc := orPanic_eq_ok.mp hcm
  have hlv₄ : LevelAt s.codec l' .history (l.height + 1) := by
    refine levelAt_commitHistory ?_ ?_ ?_ hhc
    · exact hpath
    · exact getElem?_concat_length
    · exact hlv₂ .history
  obtain ⟨historyDB, rfl, -⟩ := commitHistory_eq_ok hhc
  refine .of_current hn₂ ?_ _
  change Levels s.codec _ fun _ => (KvLedger.withBlock { l with pvtdataStore } { blk with flags } commitHash).height
  rw [hh]
  intro r
  cases r with
  | state => exact hlv₃
  | history => exact hlv₄

theorem Process.Inv.init (h : Process.Init p) : Process.Inv s p := by
  have hh : p.ledger.height = 0 := by rw [KvLedger.height, h.blockStore, length_nil]
  refine .of_current ?_ ?_ p.running
  · intro i blk hb
    rw [h.blockStore] at hb
    cases hb
  · rw [hh]
    intro r
    cases r with
    | state => exact h.savepoint
    | history =>
      intro d hd
      rw [h.historyDB d hd]
      refine ⟨rfl, fun k => iff_of_false (Finset.notMem_empty k) ?_⟩
      rintro ⟨blk, hm, _⟩
      cases hm

theorem Process.Inv.step {p' : Process} (h : Process.Inv s p) (hst : Process.Step s p p') : Process.Inv s p' := by
  cases hst with
  | commit hpath _ hc => exact h.commitUpTo hpath hc
  | commitCutOff stage txmgr _ hpath _ hc =>
    obtain ⟨hn, hlevels, -⟩ := h.commitUpTo hpath hc
    exact (Process.Inv.withState ⟨hn, hlevels, nofun⟩ txmgr).withState _
  | crash l => exact Process.Inv.withState ⟨h.numbered, h.levels, nofun⟩ _
  | syncCutOff n txmgr hh hrc hre =>
    obtain ⟨pos, hpos, hlevels⟩ := h.levels
    obtain ⟨hsm, pos', hp', hlv'⟩ := exists_levels_of_recommitLostBlocks_take h.numbered hpos hlevels hh hrc hre
    exact ((Process.Inv.of_levels _ (hsm.blockStore ▸ h.numbered) hp' hlv').withState txmgr).withState _
  | sync hsy =>
    obtain ⟨pos, hpos, hlevels⟩ := h.levels
    obtain ⟨hsm, hlv'⟩ := levels_of_sync h.numbered hpos hlevels hsy
    exact .of_current (hsm.blockStore ▸ h.numbered) hlv' true

/-- Whatever was cut off before, after a sync the state is at the last block, and the history at the last vanilla block,
with exactly the public writes of the vanilla blocks. -/
theorem sync_of_reachable (h : Reachable Process.Init (Process.Step s) p)
    (hsync : p.ledger.syncStateAndHistoryDBWithBlockstore s = .ok l') :
    l'.blockStore = p.ledger.blockStore ∧ l'.historyDB.isSome = p.ledger.historyDB.isSome ∧
      l'.stateDB.savepoint = (if l'.height = 0 then none else some (l'.height - 1)) ∧
      ∀ d, l'.historyDB = some d → d.savepoint = lastVanilla s.codec l'.blockStore ∧
        ∀ k, k ∈ d.entries ↔ Recorded s.codec l'.blockStore k := by
  have hi := h.invariant (Process.Inv s) (fun _ => Process.Inv.init) fun _ _ => Process.Inv.step
  obtain ⟨pos, hpos, hlevels⟩ := hi.levels
  obtain ⟨hsm, hlv'⟩ := levels_of_sync hi.numbered hpos hlevels hsync
  refine ⟨hsm.blockStore, hsm.hasHistory, hlv' .state, ?_⟩
  intro d hd
  have hh := hlv' .history d hd
  rw [KvLedger.height, take_length] at hh
  exact ⟨hh.savepoint_eq, hh.mem_entries_iff⟩

end

def vanillaWriteSet : Vanilla.TxRwSet where
  nsRwSets := [{ nameSpace := ascii "cc", kvRwSet := { writes := [⟨ascii "j", false, ascii "w"⟩] } }]

def mixedSupport : CommitSupport where
  __ := liteSupport
  codec := { writeSetCodec [([0x02], vanillaWriteSet)] with
    envelope := .ofTable [] [(liteWrite, [0x01]), ({ payload := some [0x02] }, [0x02])] }

def vanillaWriteBlock : FlaggedBlock where
  block := { header := { number := 1 }, data := [[0x02]] }
  flags := [.valid]

/-- Block 0 is committed; block 1 is stored, and a crash comes within the writes of its state. -/
def mixedRun : Outcome Unit (KvLedger × KvLedger × KvLedger) := do
  let l ← newLedger.commit mixedSupport .lite liteWriteBlock fun _ => none
  let l' ← l.commitUpTo mixedSupport .blockStored .vanilla vanillaWriteBlock fun _ => none
  let synced ← (l'.withState TxMgr.init).restart.syncStateAndHistoryDBWithBlockstore mixedSupport
  return (l, l', synced)

theorem sync_of_reachable_mixedRun :
    ∃ l l' synced, mixedRun = .ok (l, l', synced) ∧ synced.blockStore = [liteWriteBlock, vanillaWriteBlock] ∧
      synced.stateDB.savepoint = some 1 ∧
      ∃ d, synced.historyDB = some d ∧ d.savepoint = some 1 ∧ ⟨ascii "cc", ascii "j", 1, 0⟩ ∈ d.entries := by
  have hb : (mixedRun >>= fun r => .ok (r.2.1.blockStore, r.1.pvtdataStore.height, r.1.height, r.2.1.historyDB.isSome)) =
      .ok ([liteWriteBlock, vanillaWriteBlock], 1, 1, true) := rfl
  obtain ⟨r, hrn, hb⟩ := bind_eq_ok.mp hb
  have hr' := hrn
  simp only [mixedRun, bind_eq_ok, pure_eq, ok.injEq] at hr'
  obtain ⟨l, hl, l', hvn, synced, hsy, rfl⟩ := hr'
  simp only [ok.injEq, Prod.mk.injEq] at hb
  obtain ⟨hb, hp, hhg, hh⟩ := hb
  have hrc : Reachable Process.Init (Process.Step mixedSupport) ⟨(l'.withState TxMgr.init).restart, false⟩ := by
    have hi : Process.Init ⟨newLedger, true⟩ := ⟨rfl, rfl, fun d hd => (Option.some.inj hd).symm⟩
    refine .step (.step (.init hi) (.commit rfl nofun hl)) (.commitCutOff .blockStored _ (.inl rfl) rfl ?_ hvn)
    intro hlt
    omega
  obtain ⟨hsm, hso, hst, hhl⟩ := sync_of_reachable hrc hsy
  have hbl : synced.blockStore = [liteWriteBlock, vanillaWriteBlock] := hsm.trans hb
  rw [KvLedger.height, hbl] at hst
  refine ⟨l, l', synced, hrn, hbl, hst, ?_⟩
  obtain ⟨d, hd⟩ := Option.isSome_iff_exists.mp (hso.trans hh)
  obtain ⟨hls, he⟩ := hhl d hd
  rw [hbl] at hls
  refine ⟨d, hd, hls, ?_⟩
  rw [he, hbl]
  exact ⟨vanillaWriteBlock, by simp, rfl, rfl, 0, [0x02], rfl, rfl, rfl, vanillaWriteSet,
    ⟨_, _, _, _, _, rfl, rfl, rfl, rfl, rfl, rfl, rfl⟩, _, mem_singleton_self _, rfl, _,
    mem_singleton_self _, rfl⟩

/-- The valid write of a lite block never gets into the history, and the savepoint of the history stays behind. -/
theorem liteWriteBlock_not_in_history :
    (newLedger.commitUpTo liteSupport .blockStored .lite liteWriteBlock (fun _ => none) >>= fun l => do
      let l ← l.restart.syncStateAndHistoryDBWithBlockstore liteSupport
      return (l.blockStore.map FlaggedBlock.flags, l.stateDB.savepoint,
        (l.stateDB.txmgr.store.db (encodeDataKey (ascii "cc") (ascii "k"))).map VersionedValue.value,
        l.historyDB.map HistoryDB.savepoint, l.historyDB.map HistoryDB.entries)) =
      .ok ([[.valid]], some 0, some (some (ascii "v")), some none, some ∅) := by
  rfl

end Drunix.Peer
