import Drunix.Lib.Transition
import Drunix.Peer.KeyLevel

namespace Drunix.Peer

open Lib Proto Outcome

structure LedgerKeyID where
  cc : Bytes
  coll : Bytes
  key : Bytes
  deriving DecidableEq

/-- The keys for which `ExtractValidationParameterDependency` adds a dependency; a broken read-write set is discarded. -/
def metadataUpdates (codec : Codec) (rwsetBytes : Bytes) : List LedgerKeyID :=
  match codec.txRwSet.unmarshal rwsetBytes with
  | none => []
  | some rwset => rwset.nsRwSets.flatMap fun rws =>
      rws.kvRwSet.metadataWrites.map (fun mw => ⟨rws.nameSpace, [], mw.key⟩) ++
        rws.collHashedRwSets.flatMap fun cw =>
          cw.hashedRwSet.metadataWrites.map fun mw => ⟨rws.nameSpace, cw.collectionName, mw.keyHash⟩

/-- The read-write set updates the metadata of the key, public or in a collection. -/
def UpdatesMetadata (codec : Codec) (rwsetBytes : Bytes) (k : LedgerKeyID) : Prop :=
  ∃ rwset, codec.txRwSet.unmarshal rwsetBytes = some rwset ∧ ∃ rws ∈ rwset.nsRwSets, rws.nameSpace = k.cc ∧
    ((k.coll = [] ∧ ∃ mw ∈ rws.kvRwSet.metadataWrites, mw.key = k.key) ∨
      ∃ cw ∈ rws.collHashedRwSets, cw.collectionName = k.coll ∧ ∃ mw ∈ cw.hashedRwSet.metadataWrites, mw.keyHash = k.key)

theorem mem_metadataUpdates {codec : Codec} {rwsetBytes : Bytes} {k : LedgerKeyID} :
    k ∈ metadataUpdates codec rwsetBytes ↔ UpdatesMetadata codec rwsetBytes k := by
  obtain ⟨cc, coll, key⟩ := k
  unfold metadataUpdates UpdatesMetadata
  cases codec.txRwSet.unmarshal rwsetBytes with
  | none => simp
  | some rwset =>
    simp only [List.mem_flatMap, List.mem_append, List.mem_map, Option.some.injEq, exists_eq_left', LedgerKeyID.mk.injEq]
    refine exists_congr fun rws => and_congr_right fun _ => ?_
    grind

instance (codec : Codec) (rwsetBytes : Bytes) (k : LedgerKeyID) : Decidable (UpdatesMetadata codec rwsetBytes k) :=
  decidable_of_iff _ mem_metadataUpdates

/-- What `GetValidationParameterForKey` returns when no dependency stands in the way. -/
def committedParameter (vpmgr : VpManager) (kid : LedgerKeyID) : Outcome VpError Bytes := do
  let md ← (vpmgr.metadata kid.cc kid.coll kid.key).mapErr .state
  .orErr .translation (vpmgr.translate md)

inductive QueryPhase where
  | waitingForDeps (n : Nat)
  | collecting (deps : List Nat)
  | returned (r : Outcome VpError Bytes)

/-- The dependencies of a block, by the numbers of the transactions, and the calls of `GetValidationParameterForKey`. A
block has less than `2 ^ 63` transactions, so that no number is negative as an index. -/
structure VpContext (Call : Type) where
  extracting : Nat → List LedgerKeyID
  depInserted : List Nat := []
  depsByLedgerKeyID : LedgerKeyID → List Nat := fun _ => []
  validationResult : Nat → Bytes → Option Bool := fun _ _ => none
  phase : Call → QueryPhase

namespace VpContext

section

variable {Call : Type} (codec : Codec) (block : List Bytes) (vpmgr : VpManager) (kid : Call → LedgerKeyID)
  (txNum : Call → Nat)

def keys (i : Nat) : List LedgerKeyID :=
  (block[i]?).elim [] (metadataUpdates codec)

def init : VpContext Call where
  extracting := keys codec block
  phase c := .waitingForDeps (txNum c)

/-- The snapshot of the dependencies has the order of a map. -/
inductive QueryStep (s : VpContext Call) (c : Call) : QueryPhase → QueryPhase → Prop
  | depInserted {n : Nat} (h : n ∈ s.depInserted) : QueryStep s c (.waitingForDeps (n + 1)) (.waitingForDeps n)
  | snapshot {deps : List Nat} (h : ∀ i, i ∈ deps ↔ i ∈ s.depsByLedgerKeyID (kid c) ∧ i < txNum c) :
      QueryStep s c (.waitingForDeps 0) (.collecting deps)
  | updated {i : Nat} {deps : List Nat} (h : s.validationResult i (kid c).cc = some true) :
      QueryStep s c (.collecting (i :: deps)) (.returned (.err .updated))
  | invalid {i : Nat} {deps : List Nat} (h : s.validationResult i (kid c).cc = some false) :
      QueryStep s c (.collecting (i :: deps)) (.collecting deps)
  | fetchState : QueryStep s c (.collecting []) (.returned (committedParameter vpmgr (kid c)))

/-- The channel of a transaction is closed once, and a transaction is validated once for a namespace. -/
inductive VpStep [DecidableEq Call] (s : VpContext Call) : VpContext Call → Prop
  | addDependency {i : Nat} {k : LedgerKeyID} {rest : List LedgerKeyID} (h : s.extracting i = k :: rest) :
      VpStep s { s with
        extracting := Function.update s.extracting i rest
        depsByLedgerKeyID := Function.update s.depsByLedgerKeyID k (i :: s.depsByLedgerKeyID k) }
  | signalDepInserted {i : Nat} (h : s.extracting i = []) (hnew : i ∉ s.depInserted) :
      VpStep s { s with depInserted := i :: s.depInserted }
  | setTxValidationResult {i : Nat} {ns : Bytes} (ok : Bool) (h : s.validationResult i ns = none) :
      VpStep s { s with
        validationResult := Function.update s.validationResult i (Function.update (s.validationResult i) ns (some ok)) }
  | query (c : Call) {p : QueryPhase} (h : QueryStep vpmgr kid txNum s c (s.phase c) p) :
      VpStep s { s with phase := Function.update s.phase c p }

variable (s : VpContext Call)

/-- The transaction `i` updates the metadata of the key and comes before the transaction `n`. -/
def Earlier (k : LedgerKeyID) (n i : Nat) : Prop :=
  i < n ∧ ∃ rwsetBytes, block[i]? = some rwsetBytes ∧ UpdatesMetadata codec rwsetBytes k

structure Tracked : Prop where
  inserted : ∀ i ∈ s.depInserted, s.extracting i = []
  deps : ∀ i k, k ∈ keys codec block i ↔ k ∈ s.extracting i ∨ i ∈ s.depsByLedgerKeyID k

/-- What a call knows: it returns when all earlier updates of the key were found to be invalid, or a valid one was met. -/
def Knows (k : LedgerKeyID) (n : Nat) : QueryPhase → Prop
  | .waitingForDeps m => m ≤ n ∧ ∀ i, m ≤ i → i < n → i ∈ s.depInserted
  | .collecting deps => (∀ i ∈ deps, Earlier codec block k n i) ∧
      ∀ i, Earlier codec block k n i → i ∈ deps ∨ s.validationResult i k.cc = some false
  | .returned r => (r = .err .updated ∧ ∃ i, Earlier codec block k n i ∧ s.validationResult i k.cc = some true) ∨
      r = committedParameter vpmgr k ∧ ∀ i, Earlier codec block k n i → s.validationResult i k.cc = some false

/-- The calls wait for what is only added to. -/
structure Grows (s t : VpContext Call) : Prop where
  inserted : s.depInserted ⊆ t.depInserted
  results : ∀ i ns ok, s.validationResult i ns = some ok → t.validationResult i ns = some ok

def Updated (k : LedgerKeyID) (n : Nat) : Prop :=
  ∃ i, Earlier codec block k n i ∧ s.validationResult i k.cc = some true

def Ready (k : LedgerKeyID) (n : Nat) : Prop :=
  (∀ i < n, i ∈ s.depInserted) ∧ ∀ i, Earlier codec block k n i → (s.validationResult i k.cc).isSome

def IsReturned (p : QueryPhase) : Prop :=
  ∃ r, p = .returned r

/-- What the sequential model of key-level validation reads. -/
def manager : VpManager :=
  { vpmgr with
    updates := fun cc coll key => (List.range block.length).filterMap fun i =>
      if ((block[i]?).any fun rwsetBytes => UpdatesMetadata codec rwsetBytes ⟨cc, coll, key⟩) then
        (s.validationResult i cc).map (UInt64.ofNat i, ·)
      else none }

end

section

variable {Call : Type} {codec : Codec} {block : List Bytes} {vpmgr : VpManager} {kid : Call → LedgerKeyID}
  {txNum : Call → Nat} {s t : VpContext Call} {k : LedgerKeyID} {n : Nat} {p p' : QueryPhase} {c : Call}

theorem Knows.mono (h : Knows codec block vpmgr s k n p) (ht : Grows s t) : Knows codec block vpmgr t k n p := by
  cases p with
  | waitingForDeps m => exact ⟨h.1, fun i hm hn => ht.inserted (h.2 i hm hn)⟩
  | collecting deps => exact ⟨h.1, fun i hi => (h.2 i hi).imp_right (ht.results i _ _)⟩
  | returned r =>
    rcases h with ⟨hr, i, hi, hv⟩ | ⟨hr, hv⟩
    · exact .inl ⟨hr, i, hi, ht.results _ _ _ hv⟩
    · exact .inr ⟨hr, fun i hi => ht.results _ _ _ (hv i hi)⟩

theorem mem_keys_iff {i : Nat} : k ∈ keys codec block i ↔
    ∃ rwsetBytes, block[i]? = some rwsetBytes ∧ UpdatesMetadata codec rwsetBytes k := by
  rw [keys]
  cases block[i]? with
  | none => simp
  | some rwsetBytes => simp [mem_metadataUpdates]

theorem Tracked.earlier_iff (h : Tracked codec block s) (hn : ∀ i < n, i ∈ s.depInserted) (i : Nat) :
    i ∈ s.depsByLedgerKeyID k ∧ i < n ↔ Earlier codec block k n i := by
  rw [Earlier, and_comm, and_congr_right_iff]
  intro hi
  rw [← mem_keys_iff, h.deps, h.inserted i (hn i hi)]
  simp

theorem Knows.step (hs : Tracked codec block s) (h : Knows codec block vpmgr s (kid c) (txNum c) p)
    (hst : QueryStep vpmgr kid txNum s c p p') : Knows codec block vpmgr s (kid c) (txNum c) p' := by
  cases hst with
  | @depInserted m hm =>
    refine ⟨(Nat.le_succ m).trans h.1, fun i hi hn => ?_⟩
    rcases hi.eq_or_lt with rfl | hi
    · exact hm
    · exact h.2 i hi hn
  | snapshot hd =>
    have he := hs.earlier_iff (k := kid c) fun i hi => h.2 i i.zero_le hi
    exact ⟨fun i hi => (he i).mp ((hd i).mp hi), fun i hi => .inl ((hd i).mpr ((he i).mpr hi))⟩
  | @updated i deps hv => exact .inl ⟨rfl, i, h.1 i List.mem_cons_self, hv⟩
  | @invalid i deps hv =>
    refine ⟨fun j hj => h.1 j (List.mem_cons_of_mem i hj), fun j hj => ?_⟩
    rcases h.2 j hj with hm | hf
    · rcases List.mem_cons.mp hm with rfl | hm
      · exact .inr hv
      · exact .inl hm
    · exact .inr hf
  | fetchState => exact .inr ⟨rfl, fun i hi => (h.2 i hi).resolve_left List.not_mem_nil⟩

theorem Tracked.addDependency (h : Tracked codec block s) {i : Nat} {rest : List LedgerKeyID}
    (hi : s.extracting i = k :: rest) :
    Tracked codec block { s with
      extracting := Function.update s.extracting i rest
      depsByLedgerKeyID := Function.update s.depsByLedgerKeyID k (i :: s.depsByLedgerKeyID k) } := by
  constructor
  · intro j hj
    have hne : j ≠ i := by
      rintro rfl
      have hnil := h.inserted j hj
      rw [hi] at hnil
      cases hnil
    exact (Function.update_of_ne hne _ _).trans (h.inserted j hj)
  · intro j k'
    rw [h.deps]
    by_cases hj : j = i
    · subst hj
      by_cases hk : k' = k
      · subst hk
        simp [hi]
      · simp [hi, hk]
    · by_cases hk : k' = k
      · subst hk
        simp [hj]
      · simp [hj, hk]

theorem committedParameter_ne_updated : committedParameter vpmgr k ≠ .err .updated := by
  rw [committedParameter]
  cases vpmgr.metadata k.cc k.coll k.key with
  | ok md =>
    change orErr VpError.translation (vpmgr.translate md) ≠ _
    cases vpmgr.translate md <;> nofun
  | err e => nofun
  | panic => nofun

theorem inevitable_collecting {deps : List Nat} (h : ∀ i ∈ deps, (s.validationResult i (kid c).cc).isSome) :
    Inevitable (QueryStep vpmgr kid txNum s c) IsReturned (.collecting deps) := by
  induction deps with
  | nil =>
    refine .later ⟨_, .fetchState⟩ fun p hp => .now ?_
    cases hp
    exact ⟨_, rfl⟩
  | cons i deps ih =>
    obtain ⟨ok, hok⟩ := Option.isSome_iff_exists.mp (h i List.mem_cons_self)
    refine .later ?_ fun p hp => ?_
    · cases ok with
      | true => exact ⟨_, .updated hok⟩
      | false => exact ⟨_, .invalid hok⟩
    · cases hp with
      | updated => exact .now ⟨_, rfl⟩
      | invalid => exact ih fun j hj => h j (List.mem_cons_of_mem i hj)

theorem inevitable_waitingForDeps (hs : Tracked codec block s) (h : Ready codec block s (kid c) (txNum c)) {m : Nat}
    (hm : m ≤ txNum c) : Inevitable (QueryStep vpmgr kid txNum s c) IsReturned (.waitingForDeps m) := by
  induction m with
  | zero =>
    have hdp : ∀ i, i ∈ (s.depsByLedgerKeyID (kid c)).filter (· < txNum c) ↔
        i ∈ s.depsByLedgerKeyID (kid c) ∧ i < txNum c := by simp
    refine .later ⟨_, .snapshot hdp⟩ fun p hp => ?_
    cases hp with
    | snapshot hd => exact inevitable_collecting fun i hi => h.2 i ((hs.earlier_iff h.1 i).mp ((hd i).mp hi))
  | succ m ih =>
    refine .later ⟨_, .depInserted (h.1 m hm)⟩ fun p hp => ?_
    cases hp
    exact ih (Nat.le_of_succ_le hm)

theorem not_updated (h : ∀ i, Earlier codec block k n i → s.validationResult i k.cc = some false) :
    ¬ Updated codec block s k n := by
  rintro ⟨i, hi, hv⟩
  rw [h i hi] at hv
  cases hv

theorem any_updates_manager_iff (hn : n < block.length) (hl : block.length ≤ UInt64.size) :
    (((manager codec block vpmgr s).updates k.cc k.coll k.key).any fun dep => dep.1 < UInt64.ofNat n ∧ dep.2) = true ↔
      Updated codec block s k n := by
  have hlt : ∀ i < block.length, UInt64.ofNat i < UInt64.ofNat n ↔ i < n := by
    intro i hi
    rw [UInt64.lt_iff_toNat_lt, UInt64.toNat_ofNat_of_lt' (hi.trans_le hl), UInt64.toNat_ofNat_of_lt' (hn.trans_le hl)]
  simp only [manager, List.any_eq_true, List.mem_filterMap, List.mem_range, Option.ite_none_right_eq_some,
    Option.map_eq_some_iff, Option.any_eq_true, Updated, Earlier, decide_eq_true_eq]
  constructor
  · rintro ⟨_, ⟨i, hi, hk, ok, hok, rfl⟩, hlt', rfl⟩
    exact ⟨i, ⟨(hlt i hi).mp hlt', hk⟩, hok⟩
  · rintro ⟨i, ⟨hi, hk⟩, hok⟩
    exact ⟨_, ⟨i, hi.trans hn, hk, true, hok, rfl⟩, (hlt i (hi.trans hn)).mpr hi, rfl⟩

variable [DecidableEq Call]

/-- The invariant of every interleaving. -/
theorem knows_of_reachable (h : Reachable (· = init codec block txNum) (VpStep vpmgr kid txNum) s) :
    Tracked codec block s ∧ ∀ c, Knows codec block vpmgr s (kid c) (txNum c) (s.phase c) := by
  refine h.invariant (fun s => Tracked codec block s ∧ ∀ c, Knows codec block vpmgr s (kid c) (txNum c) (s.phase c)) ?_ ?_
  · rintro _ rfl
    refine ⟨⟨nofun, fun i k => ?_⟩, fun c => ⟨le_rfl, fun i hi hn => absurd hn hi.not_gt⟩⟩
    simp [init]
  · rintro s t ⟨hs, hk⟩ hst
    cases hst with
    | addDependency hi => exact ⟨hs.addDependency hi, fun c => (hk c).mono ⟨fun _ => id, fun _ _ _ => id⟩⟩
    | @signalDepInserted i hi =>
      refine ⟨⟨fun j hj => ?_, hs.deps⟩, fun c => (hk c).mono ⟨List.subset_cons_self i _, fun _ _ _ => id⟩⟩
      rcases List.mem_cons.mp hj with rfl | hj
      · exact hi
      · exact hs.inserted j hj
    | @setTxValidationResult i ns ok hnn =>
      refine ⟨⟨hs.inserted, hs.deps⟩, fun c => (hk c).mono ⟨fun _ => id, fun j ns' ok' hj => ?_⟩⟩
      by_cases hi : j = i
      · subst hi
        have hne : ns' ≠ ns := by
          rintro rfl
          rw [hnn] at hj
          cases hj
        simpa [hne] using hj
      · simpa [hi] using hj
    | @query c p hc =>
      have hd := (Function.forall_update_iff s.phase fun d p => Knows codec block vpmgr s (kid d) (txNum d) p).mpr
        ⟨(hk c).step hs hc, fun d _ => hk d⟩
      exact ⟨⟨hs.inserted, hs.deps⟩, fun d => (hd d).mono ⟨fun _ => id, fun _ _ _ => id⟩⟩

/-- The sequential model is what every interleaving computes. -/
theorem returned_eq_getValidationParameterForKey
    (h : Reachable (· = init codec block txNum) (VpStep vpmgr kid txNum) s) (hn : txNum c < block.length)
    (hl : block.length ≤ UInt64.size) {r : Outcome VpError Bytes} (hr : s.phase c = .returned r) :
    r = getValidationParameterForKey (manager codec block vpmgr s) (kid c).cc (kid c).coll (kid c).key
      (UInt64.ofNat (txNum c)) := by
  rw [getValidationParameterForKey]
  have hk := (knows_of_reachable h).2 c
  rw [hr] at hk
  rcases hk with ⟨rfl, hu⟩ | ⟨rfl, hf⟩
  · rw [if_pos ((any_updates_manager_iff hn hl).mpr hu)]
  · rw [if_neg fun hu => not_updated hf ((any_updates_manager_iff hn hl).mp hu)]
    rfl

end

def ownedKey : VpManager where
  updates _ _ _ := []
  metadata _ _ _ := .ok [3]
  translate := some

def ownedKeyID : LedgerKeyID where
  cc := [1]
  coll := []
  key := [2]

/-- The bytes `[5]` are a write set that changes the metadata of the key. -/
def ownerCodec : Codec :=
  { Codec.none with
    txRwSet := .ofTable [] [(⟨[{ nameSpace := [1], kvRwSet := { metadataWrites := [⟨[2], []⟩] }, collHashedRwSets := [] }]⟩,
      [5])] }

/-- The first transaction of the block hands the key over, and the second one asks for the parameter of the key after the
first one was found to be valid. -/
theorem reachable_handedOver : ∃ s : VpContext Unit,
    Reachable (· = init ownerCodec [[5], []] fun _ => 1) (VpStep ownedKey (fun _ => ownedKeyID) fun _ => 1) s ∧
      s.phase () = .returned (.err .updated) := by
  have hi : Reachable (· = init ownerCodec [[5], []] fun _ => 1)
      (VpStep ownedKey (fun _ : Unit => ownedKeyID) fun _ => 1) _ := .init rfl
  have hd := (hi.step (.addDependency (i := 0) (k := ownedKeyID) rfl)).step (.signalDepInserted (i := 0) rfl (by decide))
  have hv := hd.step (@VpStep.setTxValidationResult _ _ _ _ _ _ 0 [1] true rfl)
  have hw := hv.step (.query () (.depInserted (n := 0) (by decide)))
  have hc := hw.step (.query () (p := .collecting [0]) (.snapshot fun i => by simp [init]))
  exact ⟨_, hc.step (.query () (.updated rfl)), rfl⟩

theorem returned_eq_updated : ∃ s : VpContext Unit, s.phase () = .returned (.err .updated) ∧
    .err .updated = getValidationParameterForKey (manager ownerCodec [[5], []] ownedKey s) [1] [] [2] 1 := by
  obtain ⟨s, hs, hp⟩ := reachable_handedOver
  exact ⟨s, hp, returned_eq_getValidationParameterForKey (c := ()) hs (by decide) (by decide) hp⟩

end VpContext

end Drunix.Peer
