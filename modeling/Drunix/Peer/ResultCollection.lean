import Drunix.Peer.BlockValidation

namespace Drunix.Peer

open Lib Proto List

def flagOf : TxResult → TxValidationCode
  | .ok _ => .valid
  | .err (.invalid code) => code
  | .err .halt | .panic => .notValidated

def carriedId : TxResult → Bytes
  | .ok txid => txid
  | _ => []

variable {r : TxResult}

theorem eq_ok_of_carriedId_ne (h : carriedId r ≠ []) : r = .ok (carriedId r) := by
  cases r with
  | ok txid => rfl
  | err e => exact absurd rfl h
  | panic => exact absurd rfl h

/-! ### The reading loop -/

structure Collects (st : Collected) (tIdx : Nat) (r : TxResult) (st' : Collected) : Prop where
  errPos : st.errPos = none
  goesOn : r ≠ .err .halt
  flag : st'.txsfltr = st.txsfltr.set tIdx (flagOf r)
  carried : st'.txidArray = st.txidArray.set tIdx (carriedId r) ∨ st'.txidArray = st.txidArray ∧ carriedId r = []

variable {st st' : Collected}

theorem collect_eq_ok {res : Nat × TxResult} (h : collect st res = .ok st') (hn : st'.errPos = none) :
    Collects st res.1 res.2 st' := by
  obtain ⟨tIdx, r⟩ := res
  cases r with
  | panic => cases h
  | ok txid =>
    cases h
    exact ⟨hn, by simp, rfl, .inl rfl⟩
  | err e =>
    cases e with
    | invalid code =>
      cases h
      exact ⟨hn, by simp, rfl, .inr ⟨rfl, rfl⟩⟩
    | halt =>
      cases h
      cases hn

variable {tIdx : Nat}

theorem Collects.frame {i : Nat} (h : Collects st tIdx r st') (hne : i ≠ tIdx) :
    st'.txsfltr[i]? = st.txsfltr[i]? ∧ st'.txidArray[i]? = st.txidArray[i]? := by
  refine ⟨by rw [h.flag, getElem?_set_ne (Ne.symm hne)], ?_⟩
  rcases h.carried with hc | ⟨hc, _⟩
  · rw [hc, getElem?_set_ne (Ne.symm hne)]
  · rw [hc]

theorem Collects.written (h : Collects st tIdx r st') (hf : tIdx < st.txsfltr.length)
    (ht : st.txidArray[tIdx]? = some []) :
    st'.txsfltr[tIdx]? = some (flagOf r) ∧ st'.txidArray[tIdx]? = some (carriedId r) := by
  refine ⟨by rw [h.flag, getElem?_set_self hf], ?_⟩
  rcases h.carried with hc | ⟨hc, hnil⟩
  · rw [hc, List.getElem?_set_self (List.getElem?_eq_some_iff.mp ht).1]
  · rw [hc, ht, hnil]

theorem foldlM_collect {results : List (Nat × TxResult)} (h : results.foldlM collect st = .ok st')
    (hn : st'.errPos = none) : st.errPos = none ∧ (∀ res ∈ results, res.2 ≠ .err .halt) ∧
      (∀ i, i ∉ results.map Prod.fst → st'.txsfltr[i]? = st.txsfltr[i]? ∧ st'.txidArray[i]? = st.txidArray[i]?) ∧
      ((results.map Prod.fst).Nodup → ∀ i r, (i, r) ∈ results → i < st.txsfltr.length → st.txidArray[i]? = some [] →
        st'.txsfltr[i]? = some (flagOf r) ∧ st'.txidArray[i]? = some (carriedId r)) := by
  induction results generalizing st with
  | nil =>
    cases h
    exact ⟨hn, by simp, fun _ _ => ⟨rfl, rfl⟩, by simp⟩
  | cons res results ih =>
    rw [foldlM_cons, Outcome.bind_eq_ok] at h
    obtain ⟨st₁, hst, hr⟩ := h
    obtain ⟨hn₁, hg, hfr, hw⟩ := ih hr
    have hc := collect_eq_ok hst hn₁
    refine ⟨hc.errPos, forall_mem_cons.mpr ⟨hc.goesOn, hg⟩, ?_, ?_⟩
    · intro i hi
      rw [map_cons, mem_cons, not_or] at hi
      obtain ⟨hf, ht⟩ := hfr i hi.2
      obtain ⟨hf₁, ht₁⟩ := hc.frame hi.1
      exact ⟨hf.trans hf₁, ht.trans ht₁⟩
    · intro hnd i r hm hfl htx
      rw [map_cons, nodup_cons] at hnd
      rcases mem_cons.mp hm with rfl | hm
      · obtain ⟨hf, ht⟩ := hfr i hnd.1
        obtain ⟨hf₁, ht₁⟩ := hc.written hfl htx
        exact ⟨hf.trans hf₁, ht.trans ht₁⟩
      · have hne : i ≠ res.1 := by
          rintro rfl
          exact hnd.1 (mem_map.mpr ⟨_, hm, rfl⟩)
        refine hw hnd.2 i r hm ?_ ((hc.frame hne).2.trans htx)
        rw [hc.flag, length_set]
        exact hfl

/-! ### The marking loop -/

theorem getElem?_markTXIdDuplicates (txidMap : List Bytes) (txs : List (Bytes × TxValidationCode)) (j : Nat) :
    (markTXIdDuplicates txidMap txs)[j]? = txs[j]?.map fun tx =>
      if tx.1 ≠ [] ∧ tx.1 ∈ txidMap ++ (txs.take j).map Prod.fst then .duplicateTxid else tx.2 := by
  induction txs generalizing txidMap j with
  | nil => rfl
  | cons tx txs ih =>
    cases j with
    | zero =>
      simp only [markTXIdDuplicates]
      split_ifs <;> simp_all
    | succ j =>
      simp only [take_succ_cons, map_cons, markTXIdDuplicates, getElem?_cons_succ]
      split_ifs with hnil hin
      · rw [getElem?_cons_succ, ih]
        congr 1
        funext tx
        congr 1
        simp only [mem_append, mem_cons, hnil]
        exact propext (and_congr_right fun hne => or_congr_right (or_iff_right hne).symm)
      · rw [getElem?_cons_succ, ih]
        congr 1
        funext tx
        congr 1
        simp only [mem_append, mem_cons]
        refine propext (and_congr_right fun _ => ⟨Or.imp_right .inr, ?_⟩)
        rintro (h | h | h)
        · exact .inl h
        · exact .inl (h ▸ hin)
        · exact .inr h
      · rw [getElem?_cons_succ, ih]
        congr 1
        funext tx
        congr 1
        simp only [mem_append, mem_cons]
        exact propext (and_congr_right fun _ => by rw [or_assoc, or_left_comm])

/-! ### The flags of a block -/

def finalFlag (verdict : Nat → TxResult) (j : Nat) : TxValidationCode :=
  if carriedId (verdict j) ≠ [] ∧ carriedId (verdict j) ∈ (List.range j).map (carriedId ∘ verdict) then .duplicateTxid
  else flagOf (verdict j)

theorem markTXIdDuplicates_verdicts (verdict : Nat → TxResult) (n : Nat) :
    markTXIdDuplicates [] (((List.range n).map (carriedId ∘ verdict)).zip ((List.range n).map (flagOf ∘ verdict))) =
      (List.range n).map (finalFlag verdict) := by
  apply ext_getElem?
  intro j
  rw [getElem?_markTXIdDuplicates, zip_map', getElem?_map, getElem?_map]
  by_cases hj : j < n
  · rw [getElem?_range hj, Option.map_some, nil_append, ← map_take, map_map, take_range, Nat.min_eq_left hj.le]
    rfl
  · rw [getElem?_eq_none (by simpa using hj)]
    rfl

end Drunix.Peer
