import Drunix.Lib.Transition
import Drunix.Ledger.StateSql.ApplyUpdates

namespace Drunix.Ledger.StateSql

open Lib Proto List Option

structure CommittedBlock where
  batch : UpdateBatch
  height : Version

namespace SqlSchema

section

variable (s : SqlSchema) (chain : List CommittedBlock) (rows₀ : Rows)

def contents (ns key : Bytes) (blocks : List CommittedBlock) : Option VersionedValue :=
  blocks.foldl
    (fun row b => (b.batch.updates.lookup (ns, key)).elim row (s.written (encodeDataKey ns key)))
    (rows₀ (s.location (encodeDataKey ns key)))

def lastLifecycleHeight (blocks : List CommittedBlock) : Option Version :=
  ((blocks.filter fun b => b.batch.isLifecycleUpdate).getLast?).map CommittedBlock.height

def StoredSavepoint (rows : Rows) (n : Nat) : Prop :=
  rows (s.location savePointKey) = (chain.take n).getLast?.map fun b => heightRow b.height

/-- Every update of the first `n` blocks is applied, up to updates of the block that comes next, and the
lifecycle block number is that of the last of them that touched a lifecycle namespace. -/
structure AppliedUpTo (rows : Rows) (n : Nat) : Prop where
  applied : ∀ ns key, 0x00 ∉ ns → encodeDataKey ns key ≠ lastLifecycleBlockNumberKey →
    rows (s.location (encodeDataKey ns key)) = s.contents rows₀ ns key (chain.take n) ∨
      ∃ b vv, chain[n]? = some b ∧ b.batch.updates.lookup (ns, key) = some vv ∧
        rows (s.location (encodeDataKey ns key)) = s.written (encodeDataKey ns key) vv
  lifecycle : rows (s.location lastLifecycleBlockNumberKey) = (lastLifecycleHeight (chain.take n)).map heightRow

/-- The next block is applied, with whatever answers, or the peer starts again with a new handle. -/
inductive Step (P : ApplyAnswers → UpdateBatch → Prop) (h : Handle) : Handle → Prop
  | apply {n : Nat} {b : CommittedBlock} (a : ApplyAnswers) (hsaved : s.StoredSavepoint chain h.rows n)
      (hnext : chain[n]? = some b) (hP : P a b.batch) : Step P h (s.applyUpdates false a h b.batch (some b.height)).1
  | restart : Step P h { rows := h.rows }

end

/-- The savepoint and the lifecycle block number change together, and the block does not update the
latter as a key of its own. -/
def SavepointSafe (s : SqlSchema) (a : ApplyAnswers) (batch : UpdateBatch) : Prop :=
  s.SavepointTogether a batch ∧ batch.updates.lookup ([], ascii "LAST_LIFECYCLE_BLOCK_NUMBER") = none

section

variable {s : SqlSchema} {chain : List CommittedBlock} {rows₀ rows : Rows} {n : Nat} {b : CommittedBlock}
  {a : ApplyAnswers} {h : Handle} {batch : UpdateBatch} {height : Version}

theorem getLast?_take_succ (hb : chain[n]? = some b) : (chain.take (n + 1)).getLast? = some b := by
  rw [take_succ_of_getElem? hb, getLast?_concat]

theorem lastLifecycleHeight_succ (hb : chain[n]? = some b) :
    lastLifecycleHeight (chain.take (n + 1)) =
      if b.batch.isLifecycleUpdate then some b.height else lastLifecycleHeight (chain.take n) := by
  rw [lastLifecycleHeight, take_succ_of_getElem? hb, filter_append]
  cases hl : b.batch.isLifecycleUpdate with
  | true => simp [hl]
  | false =>
    simp only [Bool.false_eq_true, if_false]
    rw [filter_cons_of_neg (by simp [hl]), filter_nil, append_nil, lastLifecycleHeight]

theorem encodeDataKey_ne_savePointKey (ns key : Bytes) : encodeDataKey ns key ≠ savePointKey := by
  intro h
  exact absurd (List.cons.inj h).1 (by decide)

theorem storedSavepoint_writeUpdates (hsv : s.StoredSavepoint chain h.rows n) :
    s.StoredSavepoint chain (s.writeUpdates a h batch).1.rows n := by
  rcases writeUpdates_row_cases s a h batch (s.location savePointKey) with hsm | ⟨dataKey, vv, hl, htk, _⟩
  · exact hsm.trans hsv
  · obtain ⟨k, -, rfl⟩ := AMap.exists_of_lookup_mapKeys hl
    exact absurd (congrArg Prod.snd htk).symm (encodeDataKey_ne_savePointKey k.1 k.2)

theorem AppliedUpTo.writeUpdates (hi : s.AppliedUpTo chain rows₀ h.rows n) (hb : chain[n]? = some b)
    (hlf : b.batch.updates.lookup ([], ascii "LAST_LIFECYCLE_BLOCK_NUMBER") = none) :
    s.AppliedUpTo chain rows₀ (s.writeUpdates a h b.batch).1.rows n := by
  refine ⟨?_, ?_⟩
  · intro ns key hns hne
    rcases writeUpdates_row_cases s a h b.batch (s.location (encodeDataKey ns key)) with hsm | ⟨dataKey, vv, hl, htk, hr⟩
    · rw [hsm]
      exact hi.applied ns key hns hne
    · obtain rfl : encodeDataKey ns key = dataKey := congrArg Prod.snd htk
      rw [UpdateBatch.lookup_encoded hns] at hl
      exact .inr ⟨b, vv, hb, hl, hr⟩
  · rcases writeUpdates_row_cases s a h b.batch (s.location lastLifecycleBlockNumberKey) with hsm | ⟨dataKey, vv, hl, htk, _⟩
    · rw [hsm]
      exact hi.lifecycle
    · obtain rfl : lastLifecycleBlockNumberKey = dataKey := congrArg Prod.snd htk
      rw [lastLifecycleBlockNumberKey, UpdateBatch.lookup_encoded not_mem_nil, hlf] at hl
      cases hl

theorem set_savepoint_row {isLifecycleUpdate : Bool} {dataKey : Bytes} (h₁ : dataKey ≠ savePointKey)
    (h₂ : isLifecycleUpdate = true → dataKey ≠ lastLifecycleBlockNumberKey) :
    (s.set a.savepoint h (savepointData isLifecycleUpdate height)).1.rows (s.location dataKey) =
      h.rows (s.location dataKey) := by
  rcases set_row_cases s a.savepoint h (savepointData isLifecycleUpdate height) (s.location dataKey) with
    hsm | ⟨key, vv, hl, htk, _⟩
  · exact hsm
  · obtain rfl : dataKey = key := congrArg Prod.snd htk
    rcases (lookup_savepointData.mp hl).2 with hk | ⟨hlf, hk⟩
    · exact absurd hk h₁
    · exact absurd hk (h₂ hlf)

theorem AppliedUpTo.savepoint (hi : s.AppliedUpTo chain rows₀ h.rows n) (hb : chain[n]? = some b)
    (hu : ∀ dataKey vv, b.batch.encoded.lookup dataKey = some vv → h.rows (s.location dataKey) = s.written dataKey vv)
    (ha : ∀ key vv, (savepointData b.batch.isLifecycleUpdate b.height).lookup key = some vv →
      (s.set a.savepoint h (savepointData b.batch.isLifecycleUpdate b.height)).1.rows (s.location key) = some vv) :
    s.AppliedUpTo chain rows₀ (s.set a.savepoint h (savepointData b.batch.isLifecycleUpdate b.height)).1.rows (n + 1) := by
  refine ⟨?_, ?_⟩
  · intro ns key hns hne
    left
    rw [set_savepoint_row (encodeDataKey_ne_savePointKey ns key) fun _ => hne, contents, take_succ_of_getElem? hb,
      foldl_append, foldl_cons, foldl_nil]
    cases hl : b.batch.updates.lookup (ns, key) with
    | some vv =>
      exact hu _ vv ((UpdateBatch.lookup_encoded hns).trans hl)
    | none =>
      rcases hi.applied ns key hns hne with hr | ⟨b', vv, hb', hl', _⟩
      · exact hr
      · rw [hb, Option.some.injEq] at hb'
        rw [← hb', hl] at hl'
        cases hl'
  · rw [lastLifecycleHeight_succ hb]
    cases hlf : b.batch.isLifecycleUpdate with
    | true =>
      rw [hlf] at ha
      exact ha _ _ (lookup_savepointData.mpr ⟨rfl, .inr ⟨rfl, rfl⟩⟩)
    | false =>
      rw [set_savepoint_row (by decide) (by simp)]
      exact hi.lifecycle

theorem storedSavepoint_unique (hh : (chain.map CommittedBlock.height).Nodup) {m : Nat} (hn : n ≤ chain.length)
    (hm : m ≤ chain.length) (h₁ : s.StoredSavepoint chain rows n) (h₂ : s.StoredSavepoint chain rows m) : n = m := by
  have heq : (chain.take n).getLast?.map (fun b => heightRow b.height) =
      (chain.take m).getLast?.map fun b => heightRow b.height := h₁.symm.trans h₂
  cases n with
  | zero =>
    cases m with
    | zero => rfl
    | succ m =>
      rw [getLast?_take_succ (getElem?_eq_getElem (by omega))] at heq
      cases heq
  | succ n =>
    rw [getLast?_take_succ (getElem?_eq_getElem (by omega))] at heq
    cases m with
    | zero => cases heq
    | succ m =>
      rw [getLast?_take_succ (getElem?_eq_getElem (by omega)), map_some, map_some, Option.some.injEq] at heq
      have hhg : chain[n].height = chain[m].height := congrArg VersionedValue.version heq
      have hlt : n < (chain.map CommittedBlock.height).length := by
        rw [length_map]
        omega
      have hlt' : m < (chain.map CommittedBlock.height).length := by
        rw [length_map]
        omega
      have hg : (chain.map CommittedBlock.height)[n] = (chain.map CommittedBlock.height)[m] := by
        rw [getElem_map, getElem_map, hhg]
      rw [hh.getElem_inj_iff.mp hg]

/-- The ways a block can go: nothing is done, its updates are tried, or they are all in and the savepoint
is tried. -/
theorem applyUpdates_cases (s : SqlSchema) (a : ApplyAnswers) (h : Handle) (batch : UpdateBatch) (height : Version) :
    (s.applyUpdates false a h batch (some height)).1 = h ∧ (s.applyUpdates false a h batch (some height)).2 ≠ .ok () ∨
      (s.applyUpdates false a h batch (some height)).1 = (s.writeUpdates a h batch).1 ∧
        (s.applyUpdates false a h batch (some height)).2 ≠ .ok () ∨
      (s.writeUpdates a h batch).2 = .ok () ∧
        s.applyUpdates false a h batch (some height) =
          s.set a.savepoint (s.writeUpdates a h batch).1 (savepointData batch.isLifecycleUpdate height) := by
  simp only [applyUpdates, Bool.false_eq_true, if_false]
  by_cases hsc : batch.schemaUpdates.all a.exec
  · rw [if_neg (by simpa using hsc)]
    by_cases hok : (s.writeUpdates a h batch).2 = .ok ()
    · rw [if_neg (by simpa using hok)]
      by_cases hh : a.setHeight
      · exact .inr (.inr ⟨hok, if_pos hh⟩)
      · rw [if_neg hh]
        exact .inr (.inl ⟨rfl, by simp⟩)
    · rw [if_pos hok]
      exact .inr (.inl ⟨rfl, hok⟩)
  · rw [if_pos (by simpa using hsc)]
    exact .inl ⟨rfl, by simp⟩

def Level (s : SqlSchema) (chain : List CommittedBlock) (rows₀ : Rows) (h : Handle) : Prop :=
  ∃ n ≤ chain.length, s.StoredSavepoint chain h.rows n ∧ s.AppliedUpTo chain rows₀ h.rows n

theorem Level.step (hh : (chain.map CommittedBlock.height).Nodup) {h' : Handle} (hi : s.Level chain rows₀ h)
    (hst : s.Step chain s.SavepointSafe h h') : s.Level chain rows₀ h' := by
  obtain ⟨n, hn, hsv, ha⟩ := hi
  cases hst with
  | restart => exact ⟨n, hn, hsv, ha⟩
  | @apply m b a hs' hnx hP =>
    have hm : m < chain.length := (List.getElem?_eq_some_iff.mp hnx).1
    obtain rfl := storedSavepoint_unique hh hn (Nat.le_of_lt hm) hsv hs'
    have hs₁ : s.StoredSavepoint chain (s.writeUpdates a h b.batch).1.rows n := storedSavepoint_writeUpdates hsv
    have ha₁ : s.AppliedUpTo chain rows₀ (s.writeUpdates a h b.batch).1.rows n := ha.writeUpdates hnx hP.2
    rcases applyUpdates_cases s a h b.batch b.height with ⟨hsm, _⟩ | ⟨ht, _⟩ | ⟨hok, hse⟩
    · rw [hsm]
      exact ⟨n, hn, hsv, ha⟩
    · rw [ht]
      exact ⟨n, hn, hs₁, ha₁⟩
    · rw [hse]
      rcases savepoint_all_or_none hP.1 b.height with hnn | hal
      · refine ⟨n, hn, ?_, ?_⟩
        · rwa [hnn]
        · rwa [hnn]
      · refine ⟨n + 1, hm, ?_, ha₁.savepoint hnx (fun _ _ hl => writeUpdates_row_of_ok hok hl) hal⟩
        rw [StoredSavepoint, getLast?_take_succ hnx]
        exact hal _ _ (lookup_savepointData.mpr ⟨rfl, .inl rfl⟩)

theorem savepoint_of_ok (hok : (s.applyUpdates false a h batch (some height)).2 = .ok ()) :
    (s.applyUpdates false a h batch (some height)).1.rows (s.location savePointKey) = some (heightRow height) ∧
      ∀ answers, s.getLatestSavePoint false answers (s.applyUpdates false a h batch (some height)).1 = .ok (some height) := by
  have hl : (savepointData batch.isLifecycleUpdate height).lookup savePointKey = some (heightRow height) :=
    lookup_savepointData.mpr ⟨rfl, .inl rfl⟩
  rcases applyUpdates_cases s a h batch height with ⟨_, hne⟩ | ⟨_, hne⟩ | ⟨_, hst⟩
  · exact absurd hok hne
  · exact absurd hok hne
  · rw [hst] at hok ⊢
    refine ⟨?_, ?_⟩
    · rw [set_row_of_ok hok hl, stored_of_lifecycleTable (table_savepointData hl)]
    · intro answers
      have hc := set_cached_of_ok hok hl (by rw [getTable_savePointKey])
      rw [getLatestSavePoint, get_of_cached (by rw [getTable_savePointKey]) hc]
      simp only [Outcome.ok_bind, heightRow, getD_some, newHeightFromBytes_heightToBytes]
      rfl

end

/-- Whatever fails, the stored savepoint says which blocks are applied, as long as savepoint and lifecycle
block number change together; and a block whose updates are reported applied has the savepoint. -/
theorem savepoint_says_applied (s : SqlSchema) (chain : List CommittedBlock) (rows₀ : Rows)
    (hheights : (chain.map CommittedBlock.height).Nodup) (hnew : rows₀ (s.location savePointKey) = none)
    (hlife : rows₀ (s.location lastLifecycleBlockNumberKey) = none) :
    (∀ h, Reachable (fun h => h = { rows := rows₀ }) (s.Step chain s.SavepointSafe) h →
      ∀ n ≤ chain.length, s.StoredSavepoint chain h.rows n → s.AppliedUpTo chain rows₀ h.rows n) ∧
      ∀ a h batch height, (s.applyUpdates false a h batch (some height)).2 = .ok () →
        (s.applyUpdates false a h batch (some height)).1.rows (s.location savePointKey) = some (heightRow height) ∧
          ∀ answers, s.getLatestSavePoint false answers (s.applyUpdates false a h batch (some height)).1 =
            .ok (some height) := by
  refine ⟨?_, fun _ _ _ _ hok => savepoint_of_ok hok⟩
  intro h hr n hn hsv
  have hlv : s.Level chain rows₀ h := by
    refine hr.invariant _ ?_ fun _ _ hi hst => hi.step hheights hst
    rintro _ rfl
    exact ⟨0, Nat.zero_le _, hnew, fun ns key _ _ => .inl rfl, hlife⟩
  obtain ⟨m, hm, hs', ha⟩ := hlv
  obtain rfl := storedSavepoint_unique hheights hn hm hsv hs'
  exact ha

def definitionBlock : CommittedBlock where
  batch :=
    { updates := AList.singleton (ascii "_lifecycle", ascii "k") definition
      ns_zero := by
        intro k hk
        obtain rfl := mem_singleton.mp hk
        decide }
  height := ⟨1, 0⟩

theorem savepoint_says_applied_definition :
    channelSchema.AppliedUpTo [definitionBlock] (fun _ => none)
      (channelSchema.applyUpdates false {} { rows := fun _ => none } definitionBlock.batch (some definitionBlock.height)).1.rows 1 :=
  (savepoint_says_applied channelSchema [definitionBlock] (fun _ => none) (by decide) rfl rfl).1 _
    (.step (.init rfl) (.apply (n := 0) {} rfl rfl ⟨.inl (Nat.le_refl 2), rfl⟩)) 1 (by decide) rfl

/-- With statements of one row, the savepoint can be stored without the lifecycle block number. -/
def rowByRow : SqlSchema := { channelSchema with batchsize := 1 }

theorem lifecycle_number_lost :
    ∃ h, Reachable (fun h => h = { rows := fun _ => none }) (rowByRow.Step [definitionBlock] fun _ _ => True) h ∧
      rowByRow.StoredSavepoint [definitionBlock] h.rows 1 ∧
        ¬ rowByRow.AppliedUpTo [definitionBlock] (fun _ => none) h.rows 1 := by
  let failing : ApplyAnswers := { savepoint := { statement := fun i => if i = 0 then .failed else .done } }
  refine ⟨_, .step (.init rfl) (.apply (n := 0) failing rfl rfl trivial), rfl, ?_⟩
  intro ha
  exact absurd ha.lifecycle (by decide)

end SqlSchema

end Drunix.Ledger.StateSql
