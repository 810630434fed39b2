import Drunix.Ledger.Expiry.Schedule
import Drunix.Lib.Varint

namespace Drunix.Ledger.Expiry

open Lib Proto Validation Option

structure BatchInStep (sha256 : Bytes → Bytes) (c : CompositeKey) (n : UInt64) (u : PublicAndHashUpdates)
    (p : PvtUpdates) : Prop where
  named : NamedUpdates u
  pvtNamed : NamedKeys p
  version : ∀ c' vv, c'.coll ≠ [] → u.get c' = some vv → vv.version.blockNum = n
  pvtVersion : ∀ k vv, p.lookup k = some vv → vv.value ≠ none → vv.version.blockNum = n
  deleted : ∀ k vv hv, hashedKey sha256 k = c → p.lookup k = some vv → vv.value = none → u.get c = some hv → hv.value = none
  written : ∀ k vv, hashedKey sha256 k = c → p.lookup k = some vv → vv.value ≠ none → u.get c ≠ none

structure KeeperInv (policy : BTLPolicy) (sha256 : Bytes → Bytes) (c : CompositeKey) (keeper : ExpirySchedule)
    (height : UInt64) : Prop where
  past : ∀ ek, ∀ e ∈ keysAt keeper ek, ek.committingBlk.toNat < height.toNat
  named : ∀ ek, ∀ e ∈ keysAt keeper ek, e.hashed.WellNamed
  hashed : ∀ ek, ∀ e ∈ keysAt keeper ek, e.key ≠ [] → e.hashed.key = sha256 e.key
  expiring : ∀ ek, ∀ e ∈ keysAt keeper ek, ∃ btl, policy.getBTL e.hashed.ns e.hashed.coll = some btl ∧
    ek.expiryBlk = computeExpiringBlock ek.committingBlk btl
  unique : ∀ ek, ∀ e ∈ keysAt keeper ek, ∀ e' ∈ keysAt keeper ek, e.hashed = c → e'.hashed = c → e = e'

variable {ek : ExpiryInfoKey} {e : KeyAndHash} {b btl n : UInt64} {vv : VersionedValue} {keeper : ExpirySchedule}
  {row' update : Option VersionedValue}

section

variable {policy : BTLPolicy} {sha256 : Bytes → Bytes} {c : CompositeKey} {n : UInt64} {u : PublicAndHashUpdates}
  {p : PvtUpdates} {keeper schedule : ExpirySchedule} {toClear : List ExpiryInfoKey}

theorem add_one_ne_zero (hn : n ≠ maxUint64) : n + 1 ≠ 0 := by
  unfold maxUint64 at hn
  grind

theorem toNat_eq_of_expiring (hn : n ≠ maxUint64) (h : n = computeExpiringBlock b btl) :
    n.toNat = b.toNat + btl.toNat + 1 := by
  have hne : n.toNat ≠ maxUint64.toNat := fun heq => hn (UInt64.toNat_inj.mp heq)
  have hmin := toNat_computeExpiringBlock b btl
  rw [← h] at hmin
  omega

theorem expiring_eq_of_toNat (h : n.toNat = b.toNat + btl.toNat + 1) : computeExpiringBlock b btl = n := by
  have hlt := n.toNat_lt
  have hmax : maxUint64.toNat = 18446744073709551615 := rfl
  apply UInt64.toNat_inj.mp
  rw [toNat_computeExpiringBlock]
  omega

theorem BatchInStep.get_of_scheduled (hb : BatchInStep sha256 c n u p) (h : (e, vv) ∈ scheduled sha256 p u.hashUpdates)
    (hvl : vv.value ≠ none) :
    e.hashed.WellNamed ∧ vv.version.blockNum = n ∧ (e.key ≠ [] → e.hashed.key = sha256 e.key) := by
  rcases mem_scheduled.mp h with ⟨k, hk, rfl⟩ | ⟨hl, hky, _⟩
  · have hnm := hb.pvtNamed k (by simp [hk])
    exact ⟨⟨hnm.ns_zero, hnm.ns_dollar, hnm.coll_zero⟩, hb.pvtVersion k vv hk hvl, fun _ => rfl⟩
  · have hm : e.hashed ∈ u.hashUpdates := AList.lookup_isSome.mp (by rw [hl]; rfl)
    have hg := (u.get_hashed (u.coll_ne_nil _ hm)).trans hl
    exact ⟨wellNamed_of_mem_hashUpdates hb.named hm, hb.version _ vv (u.coll_ne_nil _ hm) hg,
      fun hne => absurd hky hne⟩

theorem BatchInStep.of_mem_keysAt (hb : BatchInStep sha256 c n u p)
    (hs : buildExpirySchedule policy sha256 p u.hashUpdates = .ok schedule) (he : e ∈ keysAt schedule ek) :
    ek.committingBlk = n ∧ e.hashed.WellNamed ∧ (e.key ≠ [] → e.hashed.key = sha256 e.key) := by
  obtain ⟨vv, hm, hd⟩ := (mem_keysAt_buildExpirySchedule hs).mp he
  obtain ⟨hnm, hvr, hh⟩ := hb.get_of_scheduled hm hd.value
  exact ⟨hd.committing.trans hvr, hnm, hh⟩

theorem KeeperInv.notMem_of_mem_schedule {e' : KeyAndHash} (hk : KeeperInv policy sha256 c keeper n)
    (hb : BatchInStep sha256 c n u p) (hs : buildExpirySchedule policy sha256 p u.hashUpdates = .ok schedule)
    (he : e ∈ keysAt schedule ek) : e' ∉ keysAt keeper ek := by
  intro he'
  have hp := hk.past ek e' he'
  rw [(hb.of_mem_keysAt hs he).1] at hp
  exact Nat.lt_irrefl _ hp

theorem mem_keysAt_of_mem_updateKeeper (h : e ∈ keysAt (updateKeeper (updateKeeper keeper schedule []) ∅ toClear) ek) :
    e ∈ keysAt schedule ek ∨ e ∈ keysAt keeper ek := by
  rw [keysAt_updateKeeper] at h
  split at h
  · cases h
  · rw [keysAt]
    cases hl : schedule.lookup ek with
    | none => exact .inr (by rwa [hl] at h)
    | some keys => exact .inl (by rwa [hl] at h)

theorem mem_updateKeeper_of_schedule (hcl : ek ∉ toClear) (h : e ∈ keysAt schedule ek) :
    e ∈ keysAt (updateKeeper (updateKeeper keeper schedule []) ∅ toClear) ek := by
  rw [keysAt_updateKeeper, if_neg hcl]
  cases hl : schedule.lookup ek with
  | none => simp [keysAt, hl] at h
  | some keys => simpa [keysAt, hl] using h

theorem mem_updateKeeper_of_keeper (hk : KeeperInv policy sha256 c keeper n) (hb : BatchInStep sha256 c n u p)
    (hs : buildExpirySchedule policy sha256 p u.hashUpdates = .ok schedule) (hcl : ek ∉ toClear)
    (h : e ∈ keysAt keeper ek) :
    e ∈ keysAt (updateKeeper (updateKeeper keeper schedule []) ∅ toClear) ek := by
  have hf : schedule.lookup ek = none := by
    by_contra hne
    obtain ⟨e', he'⟩ := List.exists_mem_of_ne_nil _ (keysAt_ne_nil hs hne)
    exact hk.notMem_of_mem_schedule hb hs he' h
  rw [keysAt_updateKeeper, if_neg hcl, hf]
  exact h

theorem scheduled_unique (hinj : ∀ k k', hashedKey sha256 k = c → hashedKey sha256 k' = c → k = k') {e' : KeyAndHash}
    {vv' : VersionedValue} (h : (e, vv) ∈ scheduled sha256 p u.hashUpdates)
    (h' : (e', vv') ∈ scheduled sha256 p u.hashUpdates) (he : e.hashed = c) (he' : e'.hashed = c) : e = e' := by
  rcases mem_scheduled.mp h with ⟨k, hk, rfl⟩ | ⟨_, hky, hl⟩ <;>
    rcases mem_scheduled.mp h' with ⟨k', hk', rfl⟩ | ⟨_, hky', hl'⟩
  · rw [hinj k k' he he']
  · rw [hl' k (he.trans he'.symm)] at hk
    cases hk
  · rw [hl k' (he'.trans he.symm)] at hk'
    cases hk'
  · cases e
    cases e'
    cases hky
    cases hky'
    exact congrArg (KeyAndHash.mk · []) (he.trans he'.symm)

theorem KeeperInv.commit (hk : KeeperInv policy sha256 c keeper n) (hb : BatchInStep sha256 c n u p)
    (hs : buildExpirySchedule policy sha256 p u.hashUpdates = .ok schedule) (hn : n ≠ maxUint64)
    (hinj : ∀ k k', hashedKey sha256 k = c → hashedKey sha256 k' = c → k = k') (toClear : List ExpiryInfoKey) :
    KeeperInv policy sha256 c (updateKeeper (updateKeeper keeper schedule []) ∅ toClear) (n + 1) where
  past := by
    intro ek e he
    rw [toNat_add_one (add_one_ne_zero hn)]
    rcases mem_keysAt_of_mem_updateKeeper he with he | he
    · rw [(hb.of_mem_keysAt hs he).1]
      exact Nat.lt_succ_self _
    · exact Nat.lt_succ_of_lt (hk.past ek e he)
  named := fun ek e he =>
    (mem_keysAt_of_mem_updateKeeper he).elim (fun he => (hb.of_mem_keysAt hs he).2.1) (hk.named ek e)
  hashed := fun ek e he =>
    (mem_keysAt_of_mem_updateKeeper he).elim (fun he => (hb.of_mem_keysAt hs he).2.2) (hk.hashed ek e)
  expiring := by
    intro ek e he
    rcases mem_keysAt_of_mem_updateKeeper he with he | he
    · obtain ⟨vv, _, hd⟩ := (mem_keysAt_buildExpirySchedule hs).mp he
      exact hd.expiring
    · exact hk.expiring ek e he
  unique := by
    intro ek e he e' he' hc hc'
    rcases mem_keysAt_of_mem_updateKeeper he with he | he <;> rcases mem_keysAt_of_mem_updateKeeper he' with he' | he'
    · obtain ⟨vv, hm, _⟩ := (mem_keysAt_buildExpirySchedule hs).mp he
      obtain ⟨vv', hm', _⟩ := (mem_keysAt_buildExpirySchedule hs).mp he'
      exact scheduled_unique hinj hm hm' hc hc'
    · exact absurd he' (hk.notMem_of_mem_schedule hb hs he)
    · exact absurd he (hk.notMem_of_mem_schedule hb hs he')
    · exact hk.unique ek e he e' he' hc hc'

end

/-- A key whose last write was in the block `written`: its row is there until the key expires, and as long as it is there
one of the entries `q` is scheduled. -/
structure Tracked (btl : UInt64) (keeper : ExpirySchedule) (height : UInt64) (written : Option UInt64)
    (row : Option VersionedValue) (q : KeyAndHash → Prop) : Prop where
  version : ∀ vv, row = some vv → written = some vv.version.blockNum
  past : ∀ b, written = some b → b.toNat < height.toNat
  present : ∀ b, written = some b → (row.isSome ↔ height.toNat ≤ b.toNat + btl.toNat + 1)
  scheduled : ∀ b, written = some b → row.isSome → computeExpiringBlock b btl ≠ maxUint64 →
    ∃ e ∈ keysAt keeper ⟨b, computeExpiringBlock b btl⟩, q e

theorem Tracked.of_none (btl : UInt64) (keeper : ExpirySchedule) (height : UInt64) (q : KeyAndHash → Prop) :
    Tracked btl keeper height none none q :=
  ⟨by simp, by simp, by simp, by simp⟩

theorem Tracked.step {keeper' : ExpirySchedule} {written : Option UInt64} {row : Option VersionedValue}
    {q : KeyAndHash → Prop} (h : Tracked btl keeper n written row q) (hn : n ≠ maxUint64)
    (hkp : ∀ ek, ∀ e ∈ keysAt keeper ek, ek.expiryBlk ≠ n → e ∈ keysAt keeper' ek)
    (hu : ∀ vv, update = some vv → row' = vv.stored ∧ (vv.value ≠ none → vv.version.blockNum = n ∧
      (computeExpiringBlock n btl ≠ maxUint64 → ∃ e ∈ keysAt keeper' ⟨n, computeExpiringBlock n btl⟩, q e)))
    (hnn : update = none → (∀ vv, row' = some vv → row = some vv) ∧ ∀ b, written = some b → row.isSome →
      (row'.isSome ↔ n.toNat ≠ b.toNat + btl.toNat + 1)) :
    Tracked btl keeper' (n + 1) (writtenBy n update written) row' q := by
  have hsu := toNat_add_one (add_one_ne_zero hn)
  cases update with
  | some vv =>
    obtain ⟨hr, hpt⟩ := hu vv rfl
    cases hvl : vv.value with
    | none =>
      -- The key is deleted: there is no last write any more.
      have hw : writtenBy n (some vv) written = none := by simp [writtenBy, hvl]
      have hst : row' = none := by simp [hr, VersionedValue.stored, hvl]
      rw [hw, hst]
      exact .of_none ..
    | some value =>
      obtain ⟨hvr, hsc⟩ := hpt (by simp [hvl])
      have hw : writtenBy n (some vv) written = some n := by simp [writtenBy, hvl]
      have hst : row' = some vv := by simp [hr, VersionedValue.stored, hvl]
      rw [hw, hst]
      refine ⟨?_, ?_, ?_, ?_⟩
      · rintro vv' ⟨rfl⟩
        rw [hvr]
      · rintro b ⟨rfl⟩
        omega
      · rintro b ⟨rfl⟩
        simp only [isSome_some, true_iff]
        omega
      · rintro b ⟨rfl⟩ _ hmax
        exact hsc hmax
  | none =>
    obtain ⟨hsub, hex⟩ := hnn rfl
    have hws : row'.isSome → row.isSome := by
      intro hsm
      obtain ⟨vv, hvv⟩ := isSome_iff_exists.mp hsm
      rw [hsub vv hvv]
      rfl
    refine ⟨fun vv hvv => h.version vv (hsub vv hvv), ?_, ?_, ?_⟩
    · intro b hb
      have hp := h.past b hb
      omega
    · intro b hb
      have hpr := h.present b hb
      constructor
      · intro hsm
        have hne := (hex b hb (hws hsm)).mp hsm
        have hle := hpr.mp (hws hsm)
        omega
      · intro hle
        have hsm := hpr.mpr (by omega)
        exact (hex b hb hsm).mpr (by omega)
    · intro b hb hsm hmax
      obtain ⟨e, he, hq⟩ := h.scheduled b hb (hws hsm) hmax
      refine ⟨e, hkp _ e he fun hexp => ?_, hq⟩
      exact (hex b hb (hws hsm)).mp hsm (toNat_eq_of_expiring hn hexp.symm)

structure ExpiryInv (policy : BTLPolicy) (sha256 : Bytes → Bytes) (c : CompositeKey) (btl : UInt64) (s : PeerState) :
    Prop where
  workingset : s.workingset = none ∨ s.workingset = some (prepareWorkingsetFor s.store.db s.expKeeper s.height)
  keeper : KeeperInv policy sha256 c s.expKeeper s.height
  hash : Tracked btl s.expKeeper s.height (s.hashWritten c) (s.store.db c.dataKey) fun e => e.hashed = c
  pvt : ∀ k, hashedKey sha256 k = c →
    Tracked btl s.expKeeper s.height (s.pvtWritten k) (s.store.db (pvtDataKey k)) fun e => e = ⟨c, k.key⟩
  order : ∀ k b b', hashedKey sha256 k = c → s.pvtWritten k = some b → s.hashWritten c = some b' → b.toNat ≤ b'.toNat
  keyed : ∀ k ek b, hashedKey sha256 k = c → ⟨c, k.key⟩ ∈ keysAt s.expKeeper ek → s.pvtWritten k = some b →
    ek.committingBlk.toNat ≤ b.toNat

variable {k : CompositeKey}

section

variable {policy : BTLPolicy} {sha256 : Bytes → Bytes} {c : CompositeKey} {btl : UInt64} {s : PeerState}

theorem KeeperInv.expiring_of_hashed {key : Bytes} {height : UInt64} (hk : KeeperInv policy sha256 c keeper height)
    (hbtl : policy.getBTL c.ns c.coll = some btl) (hn : n ≠ maxUint64) (h : ⟨c, key⟩ ∈ keysAt keeper ⟨b, n⟩) :
    n.toNat = b.toNat + btl.toNat + 1 := by
  obtain ⟨btl', hb', he⟩ := hk.expiring _ _ h
  cases hbtl.symm.trans hb'
  exact toNat_eq_of_expiring hn he

theorem keyHashBlock_eq (hcoll : c.coll ≠ []) (db : StateDB) :
    (getKeyHashVersion db c.ns c.coll c.key).map Version.blockNum =
      (db c.dataKey).map fun vv => vv.version.blockNum := by
  rw [CompositeKey.dataKey_hashed hcoll, getKeyHashVersion, getVersion, map_map]
  rfl

section

variable (h : ExpiryInv policy sha256 c btl s) (hcoll : c.coll ≠ []) (hbtl : policy.getBTL c.ns c.coll = some btl)
  (hn : s.height ≠ maxUint64)
include h hcoll hbtl hn

theorem ExpiryInv.purged_hash_iff (hb : s.hashWritten c = some b) (hr : (s.store.db c.dataKey).isSome) :
    (∃ kv, (prepareWorkingsetFor s.store.db s.expKeeper s.height).toPurge.lookup c = some kv ∧ kv.purgeKeyOnly = false) ↔
      s.height.toNat = b.toNat + btl.toNat + 1 := by
  obtain ⟨vv, hvv⟩ := isSome_iff_exists.mp hr
  have hbl : (getKeyHashVersion s.store.db c.ns c.coll c.key).map Version.blockNum = some b := by
    rw [keyHashBlock_eq hcoll, hvv]
    exact (h.hash.version vv hvv).symm.trans hb
  rw [lookup_toPurge]
  constructor
  · rintro ⟨kv, hkv, ho⟩
    obtain ⟨kv₀, hkv₀, hst⟩ := bind_eq_some_iff.mp hkv
    obtain ⟨_, hm⟩ := scheduled_of_lookup_transform hkv₀
    obtain ⟨_, hsm⟩ | ⟨rfl, _, _⟩ := stillCommitted_eq_some hst
    · rw [hbl, Option.some.injEq] at hsm
      rw [hsm]
      exact h.keeper.expiring_of_hashed hbtl hn hm
    · cases ho
  · intro heq
    have hex := expiring_eq_of_toNat heq
    obtain ⟨e, he, rfl⟩ := h.hash.scheduled b hb hr (by rw [hex]; exact hn)
    rw [hex] at he
    obtain ⟨kv, hkv⟩ := exists_lookup_transform he
    obtain ⟨ho, hm⟩ := scheduled_of_lookup_transform hkv
    have hcm : kv.committingBlock = b := by
      have he' := h.keeper.expiring_of_hashed hbtl hn hm
      apply UInt64.toNat_inj.mp
      omega
    refine ⟨kv, ?_, ho⟩
    rw [hkv, bind_some, stillCommitted, if_pos (by rw [hbl, hcm])]

theorem ExpiryInv.purged_key_iff (hk : hashedKey sha256 k = c) (hky : k.key ≠ []) (hb : s.pvtWritten k = some b)
    (hr : (s.store.db (pvtDataKey k)).isSome) :
    (∃ kv, (prepareWorkingsetFor s.store.db s.expKeeper s.height).toPurge.lookup c = some kv ∧ kv.key = k.key) ↔
      s.height.toNat = b.toNat + btl.toNat + 1 := by
  obtain ⟨vv, hvv⟩ := isSome_iff_exists.mp hr
  have hbl : (s.store.db (pvtDataKey k)).map (fun vv => vv.version.blockNum) = some b := by
    rw [hvv]
    exact ((h.pvt k hk).version vv hvv).symm.trans hb
  have hsl : (⟨c.ns, c.coll, k.key⟩ : CompositeKey) = k := by
    rw [← hk]
    rfl
  rw [lookup_toPurge]
  constructor
  · rintro ⟨kv, hkv, hkvk⟩
    obtain ⟨kv₀, hkv₀, hst⟩ := bind_eq_some_iff.mp hkv
    obtain ⟨_, hm⟩ := scheduled_of_lookup_transform hkv₀
    have hex := h.keeper.expiring_of_hashed hbtl hn hm
    obtain ⟨rfl, hsm⟩ | ⟨rfl, _, hsm⟩ := stillCommitted_eq_some hst
    · -- The hash was last written with this entry, so the key was not written later, and not before either.
      rw [keyHashBlock_eq hcoll] at hsm
      obtain ⟨hv, hhv, hblk⟩ := map_eq_some_iff.mp hsm
      have hw := h.hash.version hv hhv
      rw [hblk] at hw
      have hle := h.order k b _ hk hb hw
      rw [hkvk] at hm
      have hge := h.keyed k _ b hk hm hb
      dsimp only at hge
      omega
    · rw [hkvk, hsl, hbl, Option.some.injEq] at hsm
      rw [hsm]
      exact hex
  · intro heq
    have hex := expiring_eq_of_toNat heq
    obtain ⟨e, he, rfl⟩ := (h.pvt k hk).scheduled b hb hr (by rw [hex]; exact hn)
    rw [hex] at he
    obtain ⟨kv, hkv⟩ := exists_lookup_transform he
    obtain ⟨_, hm⟩ := scheduled_of_lookup_transform hkv
    have hcm : kv.committingBlock = b := by
      have he' := h.keeper.expiring_of_hashed hbtl hn hm
      apply UInt64.toNat_inj.mp
      omega
    rw [hcm] at hm
    have hkvk : kv.key = k.key := congrArg KeyAndHash.key (h.keeper.unique _ _ hm _ he rfl rfl)
    rw [hkv, bind_some, stillCommitted]
    by_cases hsm : (getKeyHashVersion s.store.db c.ns c.coll c.key).map Version.blockNum = some kv.committingBlock
    · rw [if_pos hsm]
      exact ⟨kv, rfl, hkvk⟩
    · have hp : kv.key ≠ [] ∧ (s.store.db (pvtDataKey ⟨c.ns, c.coll, kv.key⟩)).map (fun vv => vv.version.blockNum) =
          some kv.committingBlock := by
        rw [hkvk, hsl, hcm]
        exact ⟨hky, hbl⟩
      rw [if_neg hsm, if_pos hp]
      exact ⟨_, rfl, hkvk⟩

end

end

def PeerState.expiring (s : PeerState) : Workingset :=
  prepareWorkingsetFor s.store.db s.expKeeper s.height

def PeerState.nextBatches (s : PeerState) (u : PublicAndHashUpdates) (p : PvtUpdates) : Batches :=
  addExpiredEntriesToUpdateBatch s.expiring (u, p)

def PeerState.nextKeeper (s : PeerState) (schedule : ExpirySchedule) : ExpirySchedule :=
  updateKeeper (updateKeeper s.expKeeper schedule []) ∅ s.expiring.toClearFromSchedule

section

variable {policy : BTLPolicy} {sha256 : Bytes → Bytes} {c : CompositeKey} {btl : UInt64} {s t : PeerState}
  {u : PublicAndHashUpdates} {p : PvtUpdates} {schedule : ExpirySchedule}

theorem writtenBy_eq_some {before : Option UInt64} :
    writtenBy n update before = some b ↔
      (∃ vv, update = some vv ∧ vv.value ≠ none ∧ b = n) ∨ (update = none ∧ before = some b) := by
  cases update with
  | none => simp [writtenBy]
  | some vv => cases hvl : vv.value <;> simp [writtenBy, hvl, eq_comm]

theorem expire_row (purge : Option KeyAndVersion) (test : KeyAndVersion → Bool) (ws : Workingset)
    (row : Option VersionedValue)
    (h : row' = (purge.elim none fun kv => if test kv then some (expired ws) else none).elim row VersionedValue.stored) :
    (∀ vv, row' = some vv → row = some vv) ∧
      (row.isSome → (row'.isSome ↔ ¬ ∃ kv, purge = some kv ∧ test kv = true)) := by
  subst h
  cases purge with
  | none => simp
  | some kv =>
    cases ht : test kv with
    | false => simp [ht]
    | true => simp [ht, expired, VersionedValue.stored]

section

variable (hk : KeeperInv policy sha256 c s.expKeeper s.height)
include hk

theorem KeeperInv.named_toPurge {c' : CompositeKey} {kv : KeyAndVersion} (h : s.expiring.toPurge.lookup c' = some kv) :
    c'.WellNamed ∧ (kv.key ≠ [] → c'.key = sha256 kv.key) := by
  rw [PeerState.expiring, lookup_toPurge] at h
  obtain ⟨kv₀, hkv₀, hst⟩ := bind_eq_some_iff.mp h
  obtain ⟨_, hm⟩ := scheduled_of_lookup_transform hkv₀
  have hky : kv.key = kv₀.key := by
    obtain ⟨rfl, _⟩ | ⟨rfl, _⟩ := stillCommitted_eq_some hst <;> rfl
  rw [hky]
  exact ⟨hk.named _ _ hm, hk.hashed _ _ hm⟩

theorem KeeperInv.namedUpdates (hu : NamedUpdates u) : NamedUpdates (s.nextBatches u p).1 := by
  intro c' hg
  rw [PeerState.nextBatches, get_addExpiredEntries] at hg
  cases hl : s.expiring.toPurge.lookup c' with
  | none =>
    rw [hl] at hg
    exact hu c' hg
  | some kv => exact (hk.named_toPurge hl).1

theorem KeeperInv.namedKeys (hp : NamedKeys p) : NamedKeys (s.nextBatches u p).2 := by
  rw [PeerState.nextBatches, addExpiredEntriesToUpdateBatch]
  refine List.foldlRecOn (motive := fun b : Batches => NamedKeys b.2) _ _ hp fun b hb e he k hg => ?_
  have hm := (hk.named_toPurge (AMap.mem_toPairs.mp he)).1
  dsimp only [addExpiredEntry] at hg
  split at hg
  · rw [AMap.lookup_insert_eq] at hg
    split_ifs at hg with hke
    · rw [hke]
      exact ⟨hm.ns_zero, hm.ns_dollar, hm.coll_zero⟩
    · exact hb k hg
  · exact hb k hg

end

theorem notMem_toClear (h : ek.expiryBlk ≠ s.height) : ek ∉ s.expiring.toClearFromSchedule := by
  intro hm
  obtain ⟨_, _, rfl⟩ := List.mem_map.mp hm
  exact h rfl

theorem ExpiryInv.kept (h : ExpiryInv policy sha256 c btl s) (hb : BatchInStep sha256 c s.height u p)
    (hschedule : buildExpirySchedule policy sha256 p u.hashUpdates = .ok schedule) :
    ∀ ek, ∀ e ∈ keysAt s.expKeeper ek, ek.expiryBlk ≠ s.height → e ∈ keysAt (s.nextKeeper schedule) ek := by
  intro ek e he hne
  exact mem_updateKeeper_of_keeper h.keeper hb hschedule (notMem_toClear hne) he

theorem BatchInStep.added (hb : BatchInStep sha256 c s.height u p)
    (hschedule : buildExpirySchedule policy sha256 p u.hashUpdates = .ok schedule)
    (hbtl : policy.getBTL c.ns c.coll = some btl) (hn : s.height ≠ maxUint64)
    (hm : (e, vv) ∈ scheduled sha256 p u.hashUpdates) (hec : e.hashed = c) (hvl : vv.value ≠ none)
    (hmax : computeExpiringBlock s.height btl ≠ maxUint64) :
    e ∈ keysAt (s.nextKeeper schedule) ⟨s.height, computeExpiringBlock s.height btl⟩ := by
  refine mem_updateKeeper_of_schedule (notMem_toClear fun he => ?_) ?_
  · have heq := toNat_eq_of_expiring hn he.symm
    omega
  · refine (mem_keysAt_buildExpirySchedule hschedule).mpr ⟨vv, hm, hvl, ?_, ⟨btl, ?_, rfl⟩, hmax⟩
    · exact (hb.get_of_scheduled hm hvl).2.1.symm
    · rw [hec]
      exact hbtl

section

variable (h : ExpiryInv policy sha256 c btl s) (hc : c.WellNamed) (hcoll : c.coll ≠ [])
  (hbtl : policy.getBTL c.ns c.coll = some btl) (hn : s.height ≠ maxUint64) (hb : BatchInStep sha256 c s.height u p)
  (hschedule : buildExpirySchedule policy sha256 p u.hashUpdates = .ok schedule)
include h hc hcoll hbtl hn hb hschedule

theorem ExpiryInv.hash_commit :
    Tracked btl (s.nextKeeper schedule) (s.height + 1) (writtenBy s.height (u.get c) (s.hashWritten c))
      ((s.store.applyUpdates (s.nextBatches u p).1 (s.nextBatches u p).2).db c.dataKey) fun e => e.hashed = c := by
  have hr : (s.store.applyUpdates (s.nextBatches u p).1 (s.nextBatches u p).2).db c.dataKey =
      ((s.nextBatches u p).1.get c).elim (s.store.db c.dataKey) VersionedValue.stored :=
    applyUpdates_dataKey (h.keeper.namedUpdates hb.named) (h.keeper.namedKeys hb.pvtNamed) hc
  have hg : (s.nextBatches u p).1.get c = (s.expiring.toPurge.lookup c).elim (u.get c) fun kv =>
      if (u.get c).isNone ∧ kv.purgeKeyOnly = false then some (expired s.expiring) else u.get c := get_addExpiredEntries
  rw [hg] at hr
  refine h.hash.step hn (h.kept hb hschedule) ?_ ?_
  · intro vv hvv
    refine ⟨?_, fun hvl => ⟨hb.version c vv hcoll hvv, fun hmax => ?_⟩⟩
    · rw [hvv] at hr
      cases hl : s.expiring.toPurge.lookup c <;> simpa [hl] using hr
    -- The private key that hashes to `c`, if it is in the batch, is not deleted there.
    by_cases hex : ∃ k vv', hashedKey sha256 k = c ∧ p.lookup k = some vv'
    · obtain ⟨k, vv', hk, hl⟩ := hex
      have hv' : vv'.value ≠ none := fun hnn => hvl (hb.deleted k vv' vv hk hl hnn hvv)
      exact ⟨⟨hashedKey sha256 k, k.key⟩,
        hb.added hschedule hbtl hn (mem_scheduled.mpr (.inl ⟨k, hl, rfl⟩)) hk hv' hmax, hk⟩
    · refine ⟨⟨c, []⟩, hb.added hschedule hbtl hn (mem_scheduled.mpr (.inr ⟨?_, rfl, fun k hk => ?_⟩)) rfl hvl hmax, rfl⟩
      · rw [← hvv]
        exact (u.get_hashed hcoll).symm
      · by_contra hne
        obtain ⟨vv', hvv'⟩ := ne_none_iff_exists'.mp hne
        exact hex ⟨k, vv', hk, hvv'⟩
  · intro hnn
    obtain ⟨hsub, he⟩ := expire_row (s.expiring.toPurge.lookup c) (fun kv => !kv.purgeKeyOnly) s.expiring
      (s.store.db c.dataKey) (by simpa [hnn] using hr)
    refine ⟨hsub, fun b hw hsm => (he hsm).trans (not_congr ?_)⟩
    rw [← h.purged_hash_iff hcoll hbtl hn hw hsm]
    simp only [Bool.not_eq_true']
    rfl

theorem ExpiryInv.pvt_commit (hk : hashedKey sha256 k = c) (hky : k.key ≠ []) :
    Tracked btl (s.nextKeeper schedule) (s.height + 1) (writtenBy s.height (p.lookup k) (s.pvtWritten k))
      ((s.store.applyUpdates (s.nextBatches u p).1 (s.nextBatches u p).2).db (pvtDataKey k))
      fun e => e = ⟨c, k.key⟩ := by
  have hnm : k.WellNamed := by
    rw [← hk] at hc
    exact ⟨hc.ns_zero, hc.ns_dollar, hc.coll_zero⟩
  have hr : (s.store.applyUpdates (s.nextBatches u p).1 (s.nextBatches u p).2).db (pvtDataKey k) =
      ((s.nextBatches u p).2.lookup k).elim (s.store.db (pvtDataKey k)) VersionedValue.stored :=
    applyUpdates_pvtDataKey (h.keeper.namedUpdates hb.named) (h.keeper.namedKeys hb.pvtNamed) hnm
  have hg : (s.nextBatches u p).2.lookup k = (s.expiring.toPurge.lookup c).elim (p.lookup k) fun kv =>
      if kv.key = k.key ∧ (p.lookup k).isNone then some (expired s.expiring) else p.lookup k := by
    rw [← hk]
    exact lookup_addExpiredEntries (fun c' kv hl => (h.keeper.named_toPurge hl).2) hky
  rw [hg] at hr
  refine (h.pvt k hk).step hn (h.kept hb hschedule) ?_ ?_
  · intro vv hvv
    refine ⟨?_, fun hvl => ⟨hb.pvtVersion k vv hvv hvl, fun hmax => ⟨⟨c, k.key⟩, ?_, rfl⟩⟩⟩
    · rw [hvv] at hr
      cases hl : s.expiring.toPurge.lookup c <;> simpa [hl] using hr
    · exact hb.added hschedule hbtl hn (mem_scheduled.mpr (.inl ⟨k, hvv, by rw [hk]⟩)) rfl hvl hmax
  · intro hnn
    obtain ⟨hsub, he⟩ := expire_row (s.expiring.toPurge.lookup c) (fun kv => kv.key = k.key) s.expiring
      (s.store.db (pvtDataKey k)) (by simpa [hnn] using hr)
    refine ⟨hsub, fun b hw hsm => (he hsm).trans (not_congr ?_)⟩
    rw [← h.purged_key_iff hcoll hbtl hn hk hky hw hsm]
    simp only [decide_eq_true_eq]
    rfl

end

section

variable (h : ExpiryInv policy sha256 c btl s) (hb : BatchInStep sha256 c s.height u p)
include h hb

theorem ExpiryInv.order_commit (hk : hashedKey sha256 k = c) {b' : UInt64}
    (hp : writtenBy s.height (p.lookup k) (s.pvtWritten k) = some b)
    (hh : writtenBy s.height (u.get c) (s.hashWritten c) = some b') : b.toNat ≤ b'.toNat := by
  rcases writtenBy_eq_some.mp hp with ⟨vv, hvv, hvl, rfl⟩ | ⟨_, hbf⟩
  · rcases writtenBy_eq_some.mp hh with ⟨_, _, _, rfl⟩ | ⟨hnn, _⟩
    · exact Nat.le_refl _
    · exact absurd hnn (hb.written k vv hk hvv hvl)
  · rcases writtenBy_eq_some.mp hh with ⟨_, _, _, rfl⟩ | ⟨_, hb'⟩
    · exact Nat.le_of_lt ((h.pvt k hk).past b hbf)
    · exact h.order k b b' hk hbf hb'

theorem ExpiryInv.keyed_commit (hschedule : buildExpirySchedule policy sha256 p u.hashUpdates = .ok schedule)
    (hk : hashedKey sha256 k = c) (hky : k.key ≠ []) (hm : ⟨c, k.key⟩ ∈ keysAt (s.nextKeeper schedule) ek)
    (hw : writtenBy s.height (p.lookup k) (s.pvtWritten k) = some b) : ek.committingBlk.toNat ≤ b.toNat := by
  rcases mem_keysAt_of_mem_updateKeeper hm with hm | hm
  · rw [(hb.of_mem_keysAt hschedule hm).1]
    obtain ⟨vv, hsc, _⟩ := (mem_keysAt_buildExpirySchedule hschedule).mp hm
    rcases mem_scheduled.mp hsc with ⟨k', hk', heq⟩ | ⟨_, hnil, _⟩
    · rcases writtenBy_eq_some.mp hw with ⟨_, _, _, rfl⟩ | ⟨hnn, _⟩
      · exact Nat.le_refl _
      · have hsm : k' = k := by
          rw [← hk] at heq
          exact (congrArg (fun e : KeyAndHash => (⟨e.hashed.ns, e.hashed.coll, e.key⟩ : CompositeKey)) heq).symm
        rw [← hsm, hk'] at hnn
        cases hnn
    · exact absurd hnil hky
  · rcases writtenBy_eq_some.mp hw with ⟨_, _, _, rfl⟩ | ⟨_, hbf⟩
    · exact Nat.le_of_lt (h.keeper.past ek _ hm)
    · exact h.keyed k ek b hk hm hbf

end

theorem ExpiryInv.commit_eq_ok (h : ExpiryInv policy sha256 c btl s)
    (hcm : commit policy sha256 s s.height u p = .ok t) :
    ∃ schedule, buildExpirySchedule policy sha256 p u.hashUpdates = .ok schedule ∧ t = {
      store := s.store.applyUpdates (s.nextBatches u p).1 (s.nextBatches u p).2
      expKeeper := s.nextKeeper schedule
      workingset := some (prepareWorkingsetFor (s.store.applyUpdates (s.nextBatches u p).1 (s.nextBatches u p).2).db
        (s.nextKeeper schedule) (s.height + 1))
      height := s.height + 1
      hashWritten c := writtenBy s.height (u.get c) (s.hashWritten c)
      pvtWritten k := writtenBy s.height (p.lookup k) (s.pvtWritten k) } := by
  have hw : s.workingsetFor s.height = s.expiring := by
    rcases h.workingset with hws | hws <;> rw [TxMgr.workingsetFor, hws] <;> rfl
  simp only [Expiry.commit, TxMgr.commit, TxMgr.updateExpiryInfo, hw, Outcome.bind_eq_ok, Outcome.pure_eq, Outcome.ok.injEq] at hcm
  obtain ⟨_, ⟨_, ⟨schedule, hschedule, rfl⟩, rfl⟩, rfl⟩ := hcm
  exact ⟨schedule, hschedule, rfl⟩

theorem ExpiryInv.commit (h : ExpiryInv policy sha256 c btl s) (hc : c.WellNamed) (hcoll : c.coll ≠ [])
    (hbtl : policy.getBTL c.ns c.coll = some btl)
    (hinj : ∀ k k', hashedKey sha256 k = c → hashedKey sha256 k' = c → k = k')
    (hky : ∀ k, hashedKey sha256 k = c → k.key ≠ []) (hn : s.height ≠ maxUint64)
    (hb : BatchInStep sha256 c s.height u p) (hcm : commit policy sha256 s s.height u p = .ok t) :
    ExpiryInv policy sha256 c btl t := by
  obtain ⟨schedule, hschedule, rfl⟩ := h.commit_eq_ok hcm
  exact {
    workingset := .inr rfl
    keeper := h.keeper.commit hb hschedule hn hinj _
    hash := h.hash_commit hc hcoll hbtl hn hb hschedule
    pvt := fun k hk => h.pvt_commit hc hcoll hbtl hn hb hschedule hk (hky k hk)
    order := fun k b b' hk hp hh => h.order_commit hb hk hp hh
    keyed := fun k ek b hk hm hw => h.keyed_commit hb hschedule hk (hky k hk) hm hw }

end

end Drunix.Ledger.Expiry
