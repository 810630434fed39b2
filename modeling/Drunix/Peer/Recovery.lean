import Drunix.Peer.History

namespace Drunix.Peer

open Lib Proto Ledger.Validation Outcome List Option

variable {blk : FlaggedBlock}

def Numbered (blocks : List FlaggedBlock) : Prop :=
  ∀ (i : Nat) (blk : FlaggedBlock), blocks[i]? = some blk → blk.number.toNat = i

theorem Numbered.take {blocks : List FlaggedBlock} (h : Numbered blocks) (n : Nat) : Numbered (blocks.take n) := by
  intro i blk hblk
  rw [getElem?_take] at hblk
  split at hblk
  · exact h i blk hblk
  · cases hblk

structure HistoryDB.Holds (codec : Codec) (d : HistoryDB) (blocks : List FlaggedBlock) : Prop where
  savepoint_eq : d.savepoint = lastVanilla codec blocks
  mem_entries_iff : ∀ k, k ∈ d.entries ↔ Recorded codec blocks k

/-- How far a database is: the history up to the last vanilla block before the level. -/
def LevelAt (codec : Codec) (l : KvLedger) : Recoverable → Nat → Prop
  | .state, i => l.stateDB.savepoint = if i = 0 then none else some (i - 1)
  | .history, i => ∀ d, l.historyDB = some d → d.Holds codec (l.blockStore.take i)

section

variable {codec : Codec}

section

variable (blocks : List FlaggedBlock) (blk : FlaggedBlock)

theorem lastVanilla_concat :
    lastVanilla codec (blocks ++ [blk]) =
      if blk.IsVanilla codec then some blk.number.toNat else lastVanilla codec blocks := by
  rw [lastVanilla, foldl_append]
  rfl

theorem recorded_concat (k : HistoryKey) :
    Recorded codec (blocks ++ [blk]) k ↔ Recorded codec blocks k ∨ Recorded codec [blk] k := by
  simp only [Recorded, mem_append, or_and_right, exists_or]

end

theorem recorded_singleton (hvn : blk.IsVanilla codec) {keys : List HistoryKey}
    (h : blockHistory codec blk.number 0 blk.block.data blk.flags = .ok keys) (k : HistoryKey) :
    Recorded codec [blk] k ↔ k ∈ keys := by
  rw [mem_blockHistory h]
  simp only [Recorded, mem_singleton, exists_eq_left, Nat.zero_add]
  exact and_iff_right hvn

theorem not_recorded_singleton (hl : ¬ blk.IsVanilla codec) (k : HistoryKey) :
    ¬ Recorded codec [blk] k := by
  rintro ⟨blk', hm, hvn, _⟩
  obtain rfl := mem_singleton.mp hm
  exact hl hvn

variable {blocks : List FlaggedBlock} {d : HistoryDB}

theorem HistoryDB.Holds.lite (h : d.Holds codec blocks) (hl : ¬ blk.IsVanilla codec) :
    d.Holds codec (blocks ++ [blk]) where
  savepoint_eq := by
    rw [lastVanilla_concat, if_neg hl]
    exact h.savepoint_eq
  mem_entries_iff := by
    intro k
    rw [recorded_concat, or_iff_left (not_recorded_singleton hl k)]
    exact h.mem_entries_iff k

theorem HistoryDB.Holds.vanilla {d' : HistoryDB} (h : d.Holds codec blocks) (hvn : blk.IsVanilla codec)
    (hc : d.commit codec blk = .ok d') : d'.Holds codec (blocks ++ [blk]) := by
  simp only [HistoryDB.commit, bind_eq_ok, pure_eq, ok.injEq] at hc
  obtain ⟨keys, hk, rfl⟩ := hc
  constructor
  · rw [lastVanilla_concat, if_pos hvn]
  · intro k
    rw [recorded_concat, recorded_singleton hvn hk, Finset.mem_union, List.mem_toFinset, h.mem_entries_iff]

variable (codec) in
/-- Behind the last vanilla block there is nothing for the history. -/
theorem history_up_to_lastVanilla (hn : Numbered blocks) :
    ∃ h ≤ blocks.length, h = (lastVanilla codec blocks).elim 0 (· + 1) ∧
      lastVanilla codec (blocks.take h) = lastVanilla codec blocks ∧
      ∀ k, Recorded codec (blocks.take h) k ↔ Recorded codec blocks k := by
  induction blocks using List.reverseRecOn with
  | nil => exact ⟨0, le_rfl, rfl, rfl, fun _ => Iff.rfl⟩
  | append_singleton blocks blk ih =>
    rw [lastVanilla_concat]
    by_cases hvn : blk.IsVanilla codec
    · have hl : blk.number.toNat = blocks.length := hn _ _ (getElem?_concat_length ..)
      refine ⟨blocks.length + 1, by simp, ?_, ?_, ?_⟩
      · rw [if_pos hvn, hl, elim_some]
      · rw [take_of_length_le (by simp), lastVanilla_concat]
      · rw [take_of_length_le (by simp)]
        exact fun _ => Iff.rfl
    · obtain ⟨h, hle, heq, hl, hrec⟩ := ih fun i b hb =>
        hn i b (by rw [List.getElem?_append_left (List.getElem?_eq_some_iff.mp hb).1, hb])
      refine ⟨h, ?_, ?_, ?_, ?_⟩
      · rw [length_append]
        omega
      · rw [if_neg hvn, heq]
      · rw [if_neg hvn, take_append_of_le_length hle, hl]
      · intro k
        rw [take_append_of_le_length hle, hrec, recorded_concat, or_iff_left (not_recorded_singleton hvn k)]

end

section

variable {s : CommitSupport} {l l' : KvLedger} {i : Nat}

structure SameChain (l l' : KvLedger) : Prop where
  blockStore : l'.blockStore = l.blockStore
  hasHistory : l'.historyDB.isSome = l.historyDB.isSome

theorem SameChain.trans {l'' : KvLedger} (h : SameChain l l') (h' : SameChain l' l'') : SameChain l l'' where
  blockStore := h'.blockStore.trans h.blockStore
  hasHistory := h'.hasHistory.trans h.hasHistory

def Levels (codec : Codec) (l : KvLedger) (pos : Recoverable → Nat) : Prop :=
  ∀ r, LevelAt codec l r (pos r)

theorem commitHistory_eq_ok {path : CommitPath} (h : l.commitHistory s path blk = .ok l') :
    ∃ historyDB, l' = { l with historyDB } ∧ historyDB.isSome = l.historyDB.isSome := by
  unfold KvLedger.commitHistory at h
  split at h
  next d hd =>
    obtain ⟨d', _, h⟩ := bind_eq_ok.mp h
    cases h
    exact ⟨some d', rfl, by rw [hd, isSome_some, isSome_some]⟩
  next =>
    cases h
    exact ⟨_, rfl, rfl⟩

theorem levelAt_commitHistory {path : CommitPath} (hpath : recommitPath s.codec blk.block.data = .ok path)
    (hblk : l.blockStore[i]? = some blk) (hlv : LevelAt s.codec l .history i) (h : l.commitHistory s path blk = .ok l') :
    LevelAt s.codec l' .history (i + 1) := by
  unfold KvLedger.commitHistory at h
  intro d' hd'
  split at h
  next d hd =>
    obtain ⟨d'', hc, h⟩ := bind_eq_ok.mp h
    cases h
    cases hd'
    rw [take_succ_of_getElem? hblk]
    exact (hlv d hd).vanilla hpath hc
  next hn =>
    cases h
    have hl : ¬ blk.IsVanilla s.codec := by
      intro hvn
      cases hpath.symm.trans hvn
      exact hn d' rfl hd'
    rw [take_succ_of_getElem? hblk]
    exact (hlv d' hd').lite hl

/-- A block recommitted to the next level of a database takes it one level up. -/
theorem levels_of_recommit (hn : Numbered l.blockStore) {pos : Recoverable → Nat} (hlevels : Levels s.codec l pos)
    {r : Recoverable} (hblk : l.blockStore[pos r]? = some blk) (h : l.recommit s (blk, r) = .ok l') :
    SameChain l l' ∧ Levels s.codec l' (Function.update pos r (pos r + 1)) := by
  obtain ⟨path, hpath, h⟩ := bind_eq_ok.mp h
  cases r with
  | state =>
    obtain ⟨_, _, h⟩ := bind_eq_ok.mp h
    obtain ⟨txmgr, _, h⟩ := bind_eq_ok.mp h
    cases h
    refine ⟨⟨rfl, rfl⟩, fun r => ?_⟩
    cases r with
    | state =>
      change some blk.number.toNat = _
      rw [hn _ blk hblk, Function.update_self, if_neg (Nat.succ_ne_zero _), Nat.add_sub_cancel]
    | history => exact hlevels .history
  | history =>
    have hlv := levelAt_commitHistory hpath hblk (hlevels .history) h
    obtain ⟨historyDB, rfl, hsome⟩ := commitHistory_eq_ok h
    refine ⟨⟨rfl, hsome⟩, fun r => ?_⟩
    cases r with
    | state => exact hlevels .state
    | history => exact hlv

/-- From `pos`, each entry of the list is the next block of its database; at the end they stand at `pos'`. -/
def Follows (blocks : List FlaggedBlock) :
    (Recoverable → Nat) → List (FlaggedBlock × Recoverable) → (Recoverable → Nat) → Prop
  | pos, [], pos' => pos = pos'
  | pos, (blk, r) :: lost, pos' => blocks[pos r]? = some blk ∧ Follows blocks (Function.update pos r (pos r + 1)) lost pos'

variable {pos pos' : Recoverable → Nat} {lost : List (FlaggedBlock × Recoverable)} {blocks : List FlaggedBlock}

section

variable (h : Follows blocks pos lost pos')
include h

theorem Follows.append {lost' : List (FlaggedBlock × Recoverable)} {pos'' : Recoverable → Nat}
    (h' : Follows blocks pos' lost' pos'') : Follows blocks pos (lost ++ lost') pos'' := by
  induction lost generalizing pos with
  | nil =>
    obtain rfl : pos = pos' := h
    exact h'
  | cons e lost ih => exact ⟨h.1, ih h.2⟩

theorem Follows.take (n : Nat) : ∃ mid, Follows blocks pos (lost.take n) mid := by
  induction lost generalizing pos n with
  | nil => exact ⟨pos, by rw [take_nil]; rfl⟩
  | cons e lost ih =>
    cases n with
    | zero => exact ⟨pos, rfl⟩
    | succ n =>
      obtain ⟨mid, hm⟩ := ih h.2 n
      exact ⟨mid, h.1, hm⟩

theorem Follows.le (hpos : ∀ r, pos r ≤ blocks.length) (r : Recoverable) : pos' r ≤ blocks.length := by
  induction lost generalizing pos with
  | nil =>
    obtain rfl : pos = pos' := h
    exact hpos r
  | cons e lost ih =>
    refine ih h.2 ?_
    exact (Function.forall_update_iff _ fun _ n => n ≤ _).mpr
      ⟨(List.getElem?_eq_some_iff.mp h.1).1, fun r' _ => hpos r'⟩

end

theorem levels_of_recommitLostBlocks (hn : Numbered l.blockStore) (hlevels : Levels s.codec l pos)
    (h : Follows l.blockStore pos lost pos') (hl : l.recommitLostBlocks s lost = .ok l') :
    SameChain l l' ∧ Levels s.codec l' pos' := by
  induction lost generalizing l pos with
  | nil =>
    obtain rfl : pos = pos' := h
    cases hl
    exact ⟨⟨rfl, rfl⟩, hlevels⟩
  | cons e lost ih =>
    obtain ⟨l₁, hl₁, hl⟩ := bind_eq_ok.mp hl
    obtain ⟨hsm, hlv₁⟩ := levels_of_recommit hn hlevels h.1 hl₁
    have hrs := h.2
    rw [← hsm.blockStore] at hn hrs
    obtain ⟨hs₂, hlv₂⟩ := ih hn hlv₁ hrs hl
    exact ⟨hsm.trans hs₂, hlv₂⟩

def raise (pos : Recoverable → Nat) (rs : List Recoverable) (n : Nat) : Recoverable → Nat :=
  fun r => if r ∈ rs then n else pos r

variable {rs : List Recoverable} {n : Nat}

theorem raise_of_forall (h : ∀ r ∈ rs, pos r = n) : raise pos rs n = pos := by
  funext r
  by_cases hr : r ∈ rs
  · exact (if_pos hr).trans (h r hr).symm
  · exact if_neg hr

theorem raise_raise {rs' : List Recoverable} (h : rs ⊆ rs') (m n : Nat) :
    raise (raise pos rs m) rs' n = raise pos rs' n := by
  funext r
  by_cases hr : r ∈ rs'
  · simp [raise, hr]
  · simp [raise, hr, mt (@h r) hr]

theorem raise_update (r : Recoverable) (rs : List Recoverable) (n : Nat) :
    raise (Function.update pos r n) rs n = raise pos (r :: rs) n := by
  funext r'
  by_cases heq : r' = r
  · rw [heq, raise, raise, Function.update_self, ite_self, if_pos (by simp)]
  · rw [raise, raise]
    simp [heq]

theorem follows_row (hblk : blocks[i]? = some blk) (hrs : rs.Nodup) (hpos : ∀ r ∈ rs, pos r = i) :
    Follows blocks pos (rs.map (blk, ·)) (raise pos rs (i + 1)) := by
  induction rs generalizing pos with
  | nil => exact (raise_of_forall fun _ h => absurd h not_mem_nil).symm
  | cons r rs ih =>
    rw [nodup_cons] at hrs
    have hr : pos r = i := hpos r (by simp)
    have hre : ∀ r' ∈ rs, Function.update pos r (i + 1) r' = i := by
      intro r' hr'
      have hne : r' ≠ r := by
        rintro rfl
        exact hrs.1 hr'
      rw [Function.update_of_ne hne]
      exact hpos r' (by simp [hr'])
    refine ⟨by rw [hr]; exact hblk, ?_⟩
    rw [hr, ← raise_update]
    exact ih hrs.2 hre

theorem follows_lostBlocks {first limit : Nat} (hle : first ≤ limit) (hlm : limit ≤ l.height) (hrs : rs.Nodup)
    (hpos : ∀ r ∈ rs, pos r = first) :
    Follows l.blockStore pos (l.lostBlocks first limit rs) (raise pos rs limit) := by
  induction limit, hle using Nat.le_induction with
  | base =>
    rw [KvLedger.lostBlocks, drop_eq_nil_of_le (length_take_le _ _)]
    exact (raise_of_forall hpos).symm
  | succ limit hle ih =>
    have hlt : limit < l.blockStore.length := hlm
    have hblk : l.blockStore[limit]? = some l.blockStore[limit] := getElem?_eq_getElem hlt
    have hlen : first ≤ (l.blockStore.take limit).length := by
      rw [length_take]
      omega
    have hrn : l.lostBlocks first (limit + 1) rs =
        l.lostBlocks first limit rs ++ rs.map (l.blockStore[limit], ·) := by
      rw [KvLedger.lostBlocks, take_succ_of_getElem? hblk, drop_append_of_le_length hlen, flatMap_append,
        flatMap_singleton]
      rfl
    rw [hrn, ← raise_raise (List.Subset.refl rs) limit]
    exact (ih (Nat.le_of_lt hlt)).append (follows_row hblk hrs fun r hr => if_pos hr)

/-- The lagging database catches up, then both go on together. -/
theorem follows_catchUp (hpos : ∀ r, pos r ≤ l.height) {lag other : Recoverable} (hne : lag ≠ other)
    (hle : pos lag ≤ pos other) :
    Follows l.blockStore pos
      (l.lostBlocks (pos lag) (pos other) [lag] ++ l.lostBlocks (pos other) l.height [lag, other])
      (raise pos [lag, other] l.height) := by
  have hf : Follows l.blockStore pos (l.lostBlocks (pos lag) (pos other) [lag]) (raise pos [lag] (pos other)) := by
    refine follows_lostBlocks hle (hpos other) (nodup_singleton lag) ?_
    intro r hr
    rw [mem_singleton.mp hr]
  have hlv : ∀ r ∈ [lag, other], raise pos [lag] (pos other) r = pos other := by
    intro r hr
    rcases mem_cons.mp hr with rfl | hot
    · exact if_pos (mem_singleton_self r)
    · rw [mem_singleton.mp hot]
      exact if_neg fun hm => hne (mem_singleton.mp hm).symm
  rw [← raise_raise (show [lag] ⊆ [lag, other] by simp) (pos other)]
  exact hf.append (follows_lostBlocks (hpos other) le_rfl (by simpa using hne) hlv)

theorem follows_lostTo (hpos : ∀ r, pos r ≤ l.height) (hrs : rs.Nodup) (ht : rs.length ≤ 2) :
    Follows l.blockStore pos (l.lostTo (rs.map fun r => (r, pos r))) (raise pos rs l.height) := by
  match rs, hrs, ht with
  | [], _, _ => exact (raise_of_forall fun _ h => absurd h not_mem_nil).symm
  | [r], hrs, _ =>
    refine follows_lostBlocks (hpos r) le_rfl hrs ?_
    intro r' hr'
    rw [mem_singleton.mp hr']
  | [r₀, r₁], hrs, _ =>
    have hne : r₀ ≠ r₁ := by simpa using hrs
    rw [map_cons, map_cons, KvLedger.lostTo]
    split_ifs with hlt
    · have hsw : raise pos [r₀, r₁] l.height = raise pos [r₁, r₀] l.height := by
        funext r
        simp only [raise, mem_pair, or_comm]
      rw [hsw]
      exact follows_catchUp hpos hne.symm hlt.le
    · exact follows_catchUp hpos hne (Nat.not_lt.mp hlt)

def KvLedger.nextRequiredBlock (l : KvLedger) (r : Recoverable) : Nat :=
  (l.savepoint r).elim 0 (· + 1)

theorem nextRequiredBlock_state (hlv : LevelAt s.codec l .state i) : l.nextRequiredBlock .state = i := by
  rw [KvLedger.nextRequiredBlock, KvLedger.savepoint, show l.stateDB.savepoint = _ from hlv]
  split_ifs with hz
  · rw [hz, elim_none]
  · rw [elim_some]
    omega

theorem levelAt_nextRequiredBlock_history (hnm : Numbered l.blockStore) (hlv : LevelAt s.codec l .history i) :
    LevelAt s.codec l .history (l.nextRequiredBlock .history) ∧ l.nextRequiredBlock .history ≤ l.height := by
  cases hdb : l.historyDB with
  | none =>
    refine ⟨?_, ?_⟩
    · intro d hd
      rw [hdb] at hd
      cases hd
    · rw [KvLedger.nextRequiredBlock, KvLedger.savepoint, hdb]
      exact Nat.zero_le _
  | some d =>
    have hh := hlv d hdb
    obtain ⟨h, hle, heq, hl, hrec⟩ := history_up_to_lastVanilla s.codec (hnm.take i)
    have hn : l.nextRequiredBlock .history = h := by
      rw [KvLedger.nextRequiredBlock, KvLedger.savepoint, hdb, bind_some, hh.savepoint_eq, heq]
    rw [length_take] at hle
    rw [take_take, min_eq_left (hle.trans (min_le_left _ _))] at hl hrec
    rw [hn]
    refine ⟨?_, hle.trans (min_le_right _ _)⟩
    intro d' hd'
    obtain rfl := Option.some.inj (hdb.symm.trans hd')
    constructor
    · rw [hl, hh.savepoint_eq]
    · intro k
      rw [hrec, hh.mem_entries_iff]

theorem levels_nextRequiredBlock (hnm : Numbered l.blockStore) (hpos : ∀ r, pos r ≤ l.height)
    (hlevels : Levels s.codec l pos) :
    Levels s.codec l l.nextRequiredBlock ∧ ∀ r, l.nextRequiredBlock r ≤ l.height := by
  have hst := nextRequiredBlock_state (hlevels .state)
  have hh := levelAt_nextRequiredBlock_history hnm (hlevels .history)
  refine forall_and.mp fun r => ?_
  cases r with
  | state =>
    rw [hst]
    exact ⟨hlevels .state, hpos .state⟩
  | history => exact hh

theorem recoverers_eq (hh : 0 < l.height) (hn : ∀ r ∈ rs, l.nextRequiredBlock r ≤ l.height) :
    l.recoverers (l.height - 1) rs =
      .ok ((rs.filter fun r => l.nextRequiredBlock r ≠ l.height).map fun r => (r, l.nextRequiredBlock r)) := by
  induction rs with
  | nil => rfl
  | cons r rs ih =>
    have hle := hn r (by simp)
    have hsh : shouldRecover (l.savepoint r) (l.height - 1) =
        (decide (l.nextRequiredBlock r ≠ l.height), l.nextRequiredBlock r) := by
      rw [KvLedger.nextRequiredBlock]
      cases l.savepoint r with
      | none =>
        rw [shouldRecover, elim_none]
        simp only [Prod.mk.injEq, and_true]
        exact (decide_eq_true (by omega)).symm
      | some n =>
        rw [shouldRecover, elim_some]
        simp only [Prod.mk.injEq, and_true, decide_eq_decide]
        omega
    have hrq : l.nextRequiredBlock r ≤ l.height - 1 + 1 := by omega
    rw [KvLedger.recoverers, hsh, ih fun r' hr' => hn r' (by simp [hr'])]
    simp only [require, hrq, decide_true, if_true, ok_bind, pure_eq, filter_cons]
    split <;> rfl

theorem recoverables_nodup (l : KvLedger) : l.recoverables.Nodup := by
  rw [KvLedger.recoverables]
  split <;> decide

theorem length_recoverables_le (l : KvLedger) : l.recoverables.length ≤ 2 := by
  rw [KvLedger.recoverables]
  split <;> decide

theorem recoverers_recoverables_eq (hh : 0 < l.height) (hn : ∀ r, l.nextRequiredBlock r ≤ l.height) :
    ∃ recoverers, l.recoverers (l.height - 1) l.recoverables = .ok recoverers ∧
      Follows l.blockStore l.nextRequiredBlock (l.lostTo recoverers)
        (raise l.nextRequiredBlock l.recoverables l.height) := by
  refine ⟨_, recoverers_eq hh fun r _ => hn r, ?_⟩
  have hlen : (l.recoverables.filter fun r => l.nextRequiredBlock r ≠ l.height).length ≤ 2 :=
    (length_filter_le _ _).trans (length_recoverables_le l)
  have hrs : raise l.nextRequiredBlock l.recoverables l.height =
      raise l.nextRequiredBlock (l.recoverables.filter fun r => l.nextRequiredBlock r ≠ l.height) l.height := by
    funext r
    by_cases hlv : l.nextRequiredBlock r = l.height
    · simp [raise, hlv]
    · simp [raise, hlv]
  rw [hrs]
  exact follows_lostTo hn ((recoverables_nodup l).filter _) hlen

theorem levels_height (hlevels : Levels s.codec l (raise pos l.recoverables l.height)) :
    Levels s.codec l fun _ => l.height := by
  intro r
  have hr := hlevels r
  rw [raise, KvLedger.recoverables] at hr
  cases r with
  | state =>
    rw [if_pos (by split <;> simp)] at hr
    exact hr
  | history =>
    intro d hd
    rw [if_pos (by simp [hd])] at hr
    exact hr d hd

theorem SameChain.height (h : SameChain l l') : l'.height = l.height := by
  rw [KvLedger.height, h.blockStore, KvLedger.height]

theorem SameChain.recoverables (h : SameChain l l') : l'.recoverables = l.recoverables := by
  rw [KvLedger.recoverables, h.hasHistory, KvLedger.recoverables]

section

variable (hnm : Numbered l.blockStore) (hpos : ∀ r, pos r ≤ l.height) (hlevels : Levels s.codec l pos)
include hnm hpos hlevels

theorem levels_of_sync (h : l.syncStateAndHistoryDBWithBlockstore s = .ok l') :
    SameChain l l' ∧ Levels s.codec l' fun _ => l'.height := by
  rw [KvLedger.syncStateAndHistoryDBWithBlockstore] at h
  by_cases hz : l.height = 0
  · rw [if_pos hz] at h
    cases h
    refine ⟨⟨rfl, rfl⟩, fun r => ?_⟩
    have hle := hpos r
    have heq : l.height = pos r := by omega
    rw [heq]
    exact hlevels r
  · rw [if_neg hz] at h
    obtain ⟨hlv', hn⟩ := levels_nextRequiredBlock hnm hpos hlevels
    obtain ⟨recoverers, hrc, hf⟩ := recoverers_recoverables_eq (Nat.pos_of_ne_zero hz) hn
    rw [hrc, ok_bind] at h
    obtain ⟨hsm, hl''⟩ := levels_of_recommitLostBlocks hnm hlv' hf h
    rw [← hsm.height, ← hsm.recoverables] at hl''
    exact ⟨hsm, levels_height hl''⟩

theorem exists_levels_of_recommitLostBlocks_take {recoverers : List (Recoverable × Nat)} (hh : 0 < l.height)
    (hrc : l.recoverers (l.height - 1) l.recoverables = .ok recoverers)
    (h : l.recommitLostBlocks s ((l.lostTo recoverers).take n) = .ok l') :
    SameChain l l' ∧ ∃ pos', (∀ r, pos' r ≤ l'.height) ∧ Levels s.codec l' pos' := by
  obtain ⟨hl', hn⟩ := levels_nextRequiredBlock hnm hpos hlevels
  obtain ⟨recoverers', hr', hf⟩ := recoverers_recoverables_eq hh hn
  obtain rfl := ok.inj (hrc.symm.trans hr')
  obtain ⟨mid, hm⟩ := hf.take n
  obtain ⟨hsm, hlv₁⟩ := levels_of_recommitLostBlocks hnm hl' hm h
  refine ⟨hsm, mid, ?_, hlv₁⟩
  rw [hsm.height]
  exact hm.le hn

end

end

end Drunix.Peer
