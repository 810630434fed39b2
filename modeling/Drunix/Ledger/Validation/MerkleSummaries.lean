import Mathlib.Data.Countable.Basic
import Mathlib.Data.Countable.Small
import Mathlib.Logic.Equiv.List
import Drunix.Ledger.Validation.RangeReplay

namespace Drunix.Ledger.Validation

open Lib Proto List

/-- Hashes that are put together can be told apart, as hashes of one length can, and with that the bytes
that were hashed; serialized reads differ from each other and from hashes put together. -/
structure CollisionFree (hashFunc : Bytes → Bytes) (ser : List KVRead → Bytes) : Prop where
  hashes : ∀ xs ys : List Bytes, (xs.map hashFunc).flatten = (ys.map hashFunc).flatten → xs = ys
  reads : Function.Injective ser
  apart : ∀ reads, reads ≠ [] → ∀ xs : List Bytes, ser reads ≠ (xs.map hashFunc).flatten

inductive Covers (hashFunc : Bytes → Bytes) (ser : List KVRead → Bytes) : List Bytes → List KVRead → Prop
  | nil : Covers hashFunc ser [] []
  | leaf {reads rs : List KVRead} {hs : List Bytes} (hne : reads ≠ []) (hrest : Covers hashFunc ser hs rs) :
      Covers hashFunc ser (hashFunc (ser reads) :: hs) (reads ++ rs)
  | node {children hs : List Bytes} {reads rs : List KVRead} (hchildren : Covers hashFunc ser children reads)
      (hrest : Covers hashFunc ser hs rs) :
      Covers hashFunc ser (computeCombinedHash hashFunc children :: hs) (reads ++ rs)

namespace Covers

variable {hashFunc : Bytes → Bytes} {ser : List KVRead → Bytes} {hs hs' : List Bytes} {rs rs' : List KVRead} {h : Bytes}

theorem exists_map (h : Covers hashFunc ser hs rs) : ∃ xs : List Bytes, hs = xs.map hashFunc := by
  induction h with
  | nil => exact ⟨[], rfl⟩
  | leaf _ _ ih =>
    obtain ⟨xs, rfl⟩ := ih
    exact ⟨_ :: xs, rfl⟩
  | node _ _ _ ih =>
    obtain ⟨xs, rfl⟩ := ih
    exact ⟨_ :: xs, rfl⟩

theorem of_cons {l : List Bytes} (hl : Covers hashFunc ser l rs) (heq : l = h :: hs) :
    ∃ reads rest, rs = reads ++ rest ∧ Covers hashFunc ser hs rest ∧
      (reads ≠ [] ∧ h = hashFunc (ser reads) ∨
        ∃ children, h = computeCombinedHash hashFunc children ∧ Covers hashFunc ser children reads) := by
  cases hl with
  | nil => cases heq
  | leaf hne hr =>
    cases heq
    exact ⟨_, _, rfl, hr, .inl ⟨hne, rfl⟩⟩
  | node hc hr =>
    cases heq
    exact ⟨_, _, rfl, hr, .inr ⟨_, rfl, hc⟩⟩

theorem unique (hf : CollisionFree hashFunc ser) (h : Covers hashFunc ser hs rs)
    (h' : Covers hashFunc ser hs rs') : rs = rs' := by
  have hinj : Function.Injective hashFunc := fun x y hxy => singleton_inj.mp (hf.hashes [x] [y] (by simp [hxy]))
  induction h generalizing rs' with
  | nil =>
    cases h'
    rfl
  | @leaf reads _ _ hne _ ih =>
    obtain ⟨reads', rest', rfl, hr', ⟨-, heq⟩ | ⟨children, heq, hc⟩⟩ := h'.of_cons rfl
    · rw [hf.reads (hinj heq), ih hr']
    · obtain ⟨xs, rfl⟩ := hc.exists_map
      exact absurd (hinj heq) (hf.apart reads hne xs)
  | @node children _ _ _ hc _ ihchildren ih =>
    obtain ⟨xs, rfl⟩ := hc.exists_map
    obtain ⟨reads', rest', rfl, hr', ⟨hne, heq⟩ | ⟨children', heq, hc'⟩⟩ := h'.of_cons rfl
    · exact absurd (hinj heq.symm) (hf.apart reads' hne xs)
    · obtain ⟨xs', rfl⟩ := hc'.exists_map
      rw [← hf.hashes xs xs' (hinj heq)] at hc'
      rw [ihchildren hc', ih hr']

theorem append (h : Covers hashFunc ser hs rs) (h' : Covers hashFunc ser hs' rs') :
    Covers hashFunc ser (hs ++ hs') (rs ++ rs') := by
  induction h with
  | nil => exact h'
  | leaf hne _ ih =>
    rw [append_assoc]
    exact .leaf hne ih
  | node hc _ _ ih =>
    rw [append_assoc]
    exact .node hc ih

theorem split (h : Covers hashFunc ser (hs ++ hs') rs) :
    ∃ reads reads', rs = reads ++ reads' ∧ Covers hashFunc ser hs reads ∧
      Covers hashFunc ser hs' reads' := by
  induction hs generalizing rs with
  | nil => exact ⟨[], rs, rfl, .nil, h⟩
  | cons x hs ih =>
    obtain ⟨reads, rest, rfl, hr, hx⟩ := h.of_cons rfl
    obtain ⟨reads', reads'', rfl, h₁, h₂⟩ := ih hr
    refine ⟨reads ++ reads', reads'', (append_assoc ..).symm, ?_, h₂⟩
    rcases hx with ⟨hne, rfl⟩ | ⟨children, rfl, hc⟩
    · exact .leaf hne h₁
    · exact .node hc h₁

theorem combined (h : Covers hashFunc ser hs rs) :
    Covers hashFunc ser [computeCombinedHash hashFunc hs] rs := by
  simpa using Covers.node h .nil

theorem promote (h : Covers hashFunc ser hs rs) :
    Covers hashFunc ser (promote hashFunc hs) rs := by
  rw [Validation.promote.eq_def]
  split
  · exact h
  · exact h
  · exact h.combined

variable {maxDegree : Nat} {levels : List (List Bytes)}

theorem merkleUpdate (hl : Covers hashFunc ser levels.reverse.flatten rs) (hh : Covers hashFunc ser [h] rs') :
    Covers hashFunc ser (merkleUpdate hashFunc maxDegree levels h).reverse.flatten (rs ++ rs') := by
  induction levels generalizing h rs rs' with
  | nil =>
    cases hl
    simpa [Validation.merkleUpdate] using hh
  | cons hashes levels ih =>
    rw [reverse_cons, flatten_concat] at hl
    rw [Validation.merkleUpdate]
    split
    · rw [reverse_cons, flatten_concat, ← append_assoc]
      exact hl.append hh
    · obtain ⟨reads, reads', rfl, h₁, h₂⟩ := hl.split
      rw [reverse_cons, flatten_concat, append_nil, append_assoc]
      exact ih h₁ (h₂.append hh).combined

theorem merkleDone {carry : List Bytes} (hne : levels ≠ [])
    (h : Covers hashFunc ser (levels.reverse.flatten ++ carry) rs) :
    Covers hashFunc ser ((merkleDone hashFunc maxDegree carry levels).getLastD []) rs := by
  induction levels generalizing carry with
  | nil => exact absurd rfl hne
  | cons hashes levels ih =>
    rw [reverse_cons, flatten_concat, append_assoc] at h
    cases levels with
    | nil =>
      rw [Validation.merkleDone]
      split
      · exact h.combined
      · exact h
    | cons hashes' levels =>
      obtain ⟨reads, reads', rfl, h₁, h₂⟩ := h.split
      have hdn := ih (cons_ne_nil _ _) (h₁.append h₂.promote)
      rw [Validation.merkleDone]
      cases hd : Validation.merkleDone hashFunc maxDegree (Validation.promote hashFunc (hashes ++ carry))
          (hashes' :: levels) with
      | nil => rwa [hd] at hdn
      | cons l ls => rwa [hd] at hdn
      simp

end Covers

section

variable {hashFunc : Bytes → Bytes} {ser : List KVRead → Bytes} {maxDegree : Nat} {helper : ResultsHelper}
  {kvReads : List KVRead}

def ResultsHelper.Holds (hashFunc : Bytes → Bytes) (ser : List KVRead → Bytes) (helper : ResultsHelper)
    (kvReads : List KVRead) : Prop :=
  ∃ hashed, Covers hashFunc ser helper.levels.reverse.flatten hashed ∧
    kvReads = hashed ++ helper.pendingResults

section

variable (h : helper.Holds hashFunc ser kvReads)
include h

theorem ResultsHelper.Holds.processPendingResults (hne : helper.pendingResults ≠ []) :
    (helper.processPendingResults hashFunc ser maxDegree).Holds hashFunc ser kvReads := by
  obtain ⟨hashed, hc, rfl⟩ := h
  refine ⟨_, hc.merkleUpdate (by simpa using Covers.leaf hne .nil), ?_⟩
  exact (append_nil _).symm

theorem ResultsHelper.Holds.foldl_addResult (l : List KVRead) :
    (l.foldl (ResultsHelper.addResult hashFunc ser maxDegree) helper).Holds hashFunc ser
      (kvReads ++ l) := by
  induction l generalizing helper kvReads with
  | nil => rwa [append_nil]
  | cons kvRead l ih =>
    have ha : { helper with pendingResults := helper.pendingResults ++ [kvRead] : ResultsHelper }.Holds hashFunc
        ser (kvReads ++ [kvRead]) := by
      obtain ⟨hashed, hc, rfl⟩ := h
      exact ⟨hashed, hc, append_assoc ..⟩
    rw [foldl_cons, append_cons, ResultsHelper.addResult]
    split
    · exact ih (ha.processPendingResults (by simp))
    · exact ih ha

theorem ResultsHelper.Holds.covers (hnil : helper.pendingResults = []) :
    Covers hashFunc ser (getSummary (merkleDone hashFunc maxDegree [] helper.levels)).maxLevelHashes kvReads := by
  obtain ⟨hashed, hc, rfl⟩ := h
  rw [hnil, append_nil]
  apply Covers.merkleDone helper.levels_ne_nil
  rwa [append_nil]

end

theorem ResultsHelper.covers_of_done {merkle : MerkleSummary}
    (h : (kvReads.foldl (ResultsHelper.addResult hashFunc ser maxDegree) newRangeQueryResultsHelper).done
      hashFunc ser maxDegree = some merkle) : Covers hashFunc ser merkle.maxLevelHashes kvReads := by
  have hn : newRangeQueryResultsHelper.Holds hashFunc ser [] := ⟨[], .nil, rfl⟩
  have hh : (kvReads.foldl (ResultsHelper.addResult hashFunc ser maxDegree)
      newRangeQueryResultsHelper).Holds hashFunc ser kvReads := hn.foldl_addResult kvReads
  generalize kvReads.foldl (ResultsHelper.addResult hashFunc ser maxDegree) newRangeQueryResultsHelper =
    helper at h hh
  rw [ResultsHelper.done] at h
  by_cases hlv : helper.levels = [[]]
  · rw [if_pos hlv] at h
    cases h
  · rw [if_neg hlv] at h
    cases h
    split_ifs with hnil
    · exact hh.covers hnil
    · exact (hh.processPendingResults hnil).covers rfl

end

/-- Unary numbers with an end mark can be put together and told apart. -/
theorem exists_collisionFree : ∃ hashFunc ser, CollisionFree hashFunc ser := by
  have hvr : Function.Injective fun v : Version => (v.blockNum.toNat, v.txNum.toNat) := by
    rintro ⟨b, t⟩ ⟨b', t'⟩ h
    simpa [UInt64.toNat_inj] using h
  have : Countable Version := hvr.countable
  have hb : Function.Injective UInt8.toNat := fun a b h => UInt8.toNat_inj.mp h
  have : Countable UInt8 := hb.countable
  have hkr : Function.Injective fun r : KVRead => ((r.key : List UInt8), r.version) := by
    rintro ⟨k, v⟩ ⟨k', v'⟩ h
    simpa using h
  have : Countable KVRead := hkr.countable
  obtain ⟨f, hf⟩ := exists_injective_nat (List UInt8)
  obtain ⟨g, hg⟩ := exists_injective_nat (List KVRead)
  refine ⟨fun b => List.replicate (f b) 1 ++ [0], fun reads => 2 :: List.replicate (g reads) 2, ?_, ?_, ?_⟩
  · intro xs ys h
    induction xs generalizing ys with
    | nil => cases ys <;> simp at h ⊢
    | cons x xs ih =>
      cases ys with
      | nil => simp at h
      | cons y ys =>
        simp only [map_cons, flatten_cons, append_assoc, cons_append, nil_append] at h
        obtain ⟨hxy, hr⟩ := append_cons_inj (by simp) (by simp) h
        have hx : x = y := hf (by simpa using congrArg List.length hxy)
        rw [hx, ih ys hr]
  · exact fun a b h => hg (by simpa using congrArg List.length h)
  · intro reads _ xs h
    have hm := h ▸ mem_cons_self
    simp [mem_replicate] at hm

def readsOf (keys : List UInt8) : List (Bytes × Version) :=
  keys.map fun k => ([k], ⟨1, 0⟩)

end Drunix.Ledger.Validation
