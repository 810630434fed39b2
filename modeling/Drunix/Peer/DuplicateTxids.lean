import Drunix.Peer.ResultCollection
import Drunix.Peer.Retarget

namespace Drunix.Peer

open Lib Proto List

namespace PeerAdapter

variable {a : PeerAdapter} {data : List Bytes} (run : Arrivals (a.handlings data) a.batchSize) {i : Nat} {d : Bytes}
  {r : TxResult}

def verdict (i : Nat) : TxResult :=
  (data[i]?.map fun d => run.verdict i (a.handle i d)).getD .panic

def txIdAt (a : PeerAdapter) (data : List Bytes) (i : Nat) : Option Bytes :=
  data[i]?.bind a.txId

theorem handlings_keys : (a.handlings data).map Prod.fst = List.range data.length := by
  rw [handlings, map_map, range_eq_range', ← zipIdx_map_snd 0 data]
  rfl

theorem mem_handlings (h : data[i]? = some d) : (i, a.handle i d) ∈ a.handlings data :=
  mem_map.mpr ⟨(d, i), mem_zipIdx_iff_getElem?.mpr h, rfl⟩

theorem validateResults_eq_ok {flags : List TxValidationCode}
    (h : validateResults data.length run.results = .ok flags) :
    flags = (List.range data.length).map (finalFlag (verdict run)) := by
  rw [validateResults, Outcome.bind_eq_ok] at h
  obtain ⟨st, hfo, h⟩ := h
  cases her : st.errPos with
  | some p => simp [her] at h
  | none =>
    have hk := run.results_keys_perm
    rw [handlings_keys] at hk
    obtain ⟨_, _, hfr, hw⟩ := foldlM_collect hfo her
    have hw := hw (hk.nodup_iff.mpr nodup_range)
    have he : ∀ i : Nat, st.txsfltr[i]? = ((List.range data.length).map (flagOf ∘ verdict run))[i]? ∧
        st.txidArray[i]? = ((List.range data.length).map (carriedId ∘ verdict run))[i]? := by
      intro i
      rw [getElem?_map, getElem?_map]
      by_cases hi : i < data.length
      · have hd : data[i]? = some data[i] := getElem?_eq_getElem hi
        have hv : verdict run i = run.verdict i (a.handle i data[i]) := by rw [verdict, hd]; rfl
        obtain ⟨hf, ht⟩ := hw i _ (run.mem_results (mem_handlings hd)) (by simpa [Collected.new] using hi)
          (by simp [Collected.new, hi])
        rw [getElem?_range hi, hf, ht, ← hv]
        exact ⟨rfl, rfl⟩
      · have hn : i ∉ run.results.map Prod.fst := by
          rw [hk.mem_iff, mem_range]
          exact hi
        obtain ⟨hf, ht⟩ := hfr i hn
        rw [hf, ht]
        simp [Collected.new, hi]
    have hfl : st.txsfltr = (List.range data.length).map (flagOf ∘ verdict run) :=
      ext_getElem? fun i => (he i).1
    have htx : st.txidArray = (List.range data.length).map (carriedId ∘ verdict run) :=
      ext_getElem? fun i => (he i).2
    simp only [her, hfl, htx, markTXIdDuplicates_verdicts, allValidated] at h
    split at h
    · cases h
    · exact (Outcome.ok.inj h).symm

theorem ofDupCheck_carriedId {check : Outcome TxFailure Unit} (h : Handling.ofDupCheck check = .result r) :
    carriedId r = [] := by
  cases check with
  | ok u => cases h
  | err e =>
    cases h
    rfl
  | panic =>
    cases h
    rfl

theorem validateTxAt_carriedId {env : Envelope} (h : carriedId (a.validateTxAt i env) ≠ []) :
    ∃ chdr, payloadChannelHeader a.codec env = .ok chdr ∧ chdr.txId = carriedId (a.validateTxAt i env) := by
  obtain ⟨chdr, hc, ⟨_, htx, _⟩ | ⟨_, htx⟩⟩ := validateTx_eq_ok (eq_ok_of_carriedId_ne h)
  · exact ⟨chdr, hc, htx.symm⟩
  · exact absurd htx h

theorem txId_of_handle (hh : a.handle i d = .result r) (h : carriedId r ≠ []) : a.txId d = some (carriedId r) := by
  unfold handle at hh
  cases he : getEnvelopeFromBlock a.codec d with
  | none =>
    rw [he] at hh
    cases hh
    exact absurd rfl h
  | some env =>
    simp only [he] at hh
    have hlc : r = a.validateTxAt i env ∧ ¬ (a.leanFormatEnabled ∧ env.type = .endorserTransaction) := by
      split at hh
      · unfold handleLtx at hh
        split at hh
        · split at hh
          · cases hh
            exact absurd rfl h
          · exact absurd (ofDupCheck_carriedId hh) h
        · rename_i ht
          cases hh
          exact ⟨rfl, fun hc => ht hc.2⟩
      · rename_i hl
        unfold handleVanilla at hh
        split at hh
        · split at hh
          · exact absurd (ofDupCheck_carriedId hh) h
          · cases hh
            exact ⟨rfl, fun hc => hl hc.1⟩
        · cases hh
          exact absurd rfl h
        · cases hh
          exact absurd rfl h
    obtain ⟨rfl, hrt⟩ := hlc
    obtain ⟨chdr, hch, htx⟩ := validateTxAt_carriedId h
    simp [txId, he, hrt, hch, htx]

theorem txId_of_carried (h : carriedId (verdict run i) ≠ []) : a.txIdAt data i = some (carriedId (verdict run i)) := by
  cases hd : data[i]? with
  | none => simp [verdict, hd, carriedId] at h
  | some d =>
    have hv : verdict run i = run.verdict i (a.handle i d) := by rw [verdict, hd]; rfl
    rw [hv] at h ⊢
    rw [txIdAt, hd]
    cases hh : a.handle i d with
    | toService =>
      -- the answers of the service carry no id
      rw [hh, Arrivals.verdict] at h
      cases hb : run.batchOf i with
      | none => simp [hb, carriedId] at h
      | some batch =>
        simp only [hb, Option.map_some, Option.getD_some, VsccService.result] at h
        split at h
        · exact absurd rfl h
        · split at h <;> exact absurd rfl h
    | result r =>
      rw [hh] at h
      exact txId_of_handle hh h

end PeerAdapter

/-- No id is valid twice: a later transaction with the id of a valid one is flagged as a duplicate. -/
def DuplicatesFlagged (a : PeerAdapter) (data : List Bytes) (flags : List TxValidationCode) : Prop :=
  ∀ i j id, i < j → a.txIdAt data i = some id → a.txIdAt data j = some id → flags[i]? = some .valid →
    flags[j]? = some .duplicateTxid

/-- Of two transactions with one id, the first of them found valid, the second has been found a duplicate
by its own validation, or both have been found valid by the peer itself, which enters their id. -/
def DuplicatesEntered {a : PeerAdapter} {data : List Bytes} (run : Arrivals (a.handlings data) a.batchSize) : Prop :=
  ∀ i j id, i < j → a.txIdAt data i = some id → a.txIdAt data j = some id → flagOf (a.verdict run i) = .valid →
    flagOf (a.verdict run j) = .duplicateTxid ∨
      id ≠ [] ∧ a.verdict run i = .ok id ∧ a.verdict run j = .ok id

variable {id : Bytes}

section

variable {verdict : Nat → TxResult} {i j : Nat}

theorem finalFlag_eq_duplicate (h : finalFlag verdict j = .duplicateTxid) :
    flagOf (verdict j) = .duplicateTxid ∨
      carriedId (verdict j) ≠ [] ∧ ∃ k < j, carriedId (verdict k) = carriedId (verdict j) := by
  unfold finalFlag at h
  split_ifs at h with hmr
  · exact .inr (by simpa using hmr)
  · exact .inl h

theorem finalFlag_of_entered (hlt : i < j) (hid : id ≠ []) (hi : verdict i = .ok id) (hj : verdict j = .ok id) :
    finalFlag verdict j = .duplicateTxid := by
  rw [finalFlag, if_pos]
  refine ⟨by rwa [hj], mem_map.mpr ⟨i, mem_range.mpr hlt, ?_⟩⟩
  rw [Function.comp_apply, hi, hj]

theorem finalFlag_of_duplicate (h : flagOf (verdict j) = .duplicateTxid) : finalFlag verdict j = .duplicateTxid := by
  unfold finalFlag
  split
  · rfl
  · exact h

theorem exists_first_valid (hid : id ≠ []) (h : carriedId (verdict j) = id) :
    ∃ k ≤ j, carriedId (verdict k) = id ∧ finalFlag verdict k = .valid := by
  have hex : ∃ k, carriedId (verdict k) = id := ⟨j, h⟩
  have hsp := Nat.find_spec hex
  have hne : carriedId (verdict (Nat.find hex)) ≠ [] := by rwa [hsp]
  have hok : verdict (Nat.find hex) = .ok id := (eq_ok_of_carriedId_ne hne).trans (by rw [hsp])
  refine ⟨Nat.find hex, Nat.find_min' hex h, hsp, ?_⟩
  rw [finalFlag, if_neg]
  · rw [hok]
    rfl
  · rintro ⟨_, hmm⟩
    obtain ⟨m, hm, heq⟩ := mem_map.mp hmm
    exact Nat.find_min hex (mem_range.mp hm) (heq.trans hsp)

end

section

variable {a : PeerAdapter} {data : List Bytes} {run : Arrivals (a.handlings data) a.batchSize}
  {flags : List TxValidationCode}

variable {i j : Nat}

section

variable (h : validateResults data.length run.results = .ok flags)
include h

theorem getElem?_flags (hid : a.txIdAt data i = some id) : flags[i]? = some (finalFlag (a.verdict run) i) := by
  have hi : i < data.length := by
    by_contra hge
    rw [PeerAdapter.txIdAt, getElem?_eq_none (by omega)] at hid
    cases hid
  rw [PeerAdapter.validateResults_eq_ok run h, getElem?_map, getElem?_range hi]
  rfl

theorem DuplicatesEntered.flagged (he : DuplicatesEntered run) : DuplicatesFlagged a data flags := by
  intro i j id hlt hi hj hvl
  rw [getElem?_flags h hi, Option.some.injEq] at hvl
  rw [getElem?_flags h hj, Option.some.injEq]
  have hf : flagOf (a.verdict run i) = .valid := by
    unfold finalFlag at hvl
    split at hvl
    · cases hvl
    · exact hvl
  rcases he i j id hlt hi hj hf with hd | ⟨hid, hvi, hvj⟩
  · exact finalFlag_of_duplicate hd
  · exact finalFlag_of_entered hlt hid hvi hvj

theorem DuplicatesFlagged.finalFlag_eq (hflagged : DuplicatesFlagged a data flags) (hlt : i < j)
    (hi : a.txIdAt data i = some id) (hj : a.txIdAt data j = some id) (hvl : finalFlag (a.verdict run) i = .valid) :
    finalFlag (a.verdict run) j = .duplicateTxid := by
  have hd := hflagged i j id hlt hi hj (by rw [getElem?_flags h hi, hvl])
  rwa [getElem?_flags h hj, Option.some.injEq] at hd

end

theorem carriedId_eq_txId (hne : carriedId (a.verdict run i) ≠ []) (hi : a.txIdAt data i = some id) :
    carriedId (a.verdict run i) = id :=
  Option.some.inj ((PeerAdapter.txId_of_carried run hne).symm.trans hi)

theorem exists_valid_of_carried (hne : carriedId (a.verdict run j) ≠ []) (hj : a.txIdAt data j = some id) :
    ∃ k ≤ j, carriedId (a.verdict run k) = id ∧ a.txIdAt data k = some id ∧
      finalFlag (a.verdict run) k = .valid := by
  have hcj := carriedId_eq_txId hne hj
  obtain ⟨k, hk, hck, hvl⟩ := exists_first_valid (hcj ▸ hne) hcj
  refine ⟨k, hk, hck, ?_, hvl⟩
  rw [PeerAdapter.txId_of_carried run (by rwa [hck, ← hcj]), hck]

section

variable (h : validateResults data.length run.results = .ok flags) (hflagged : DuplicatesFlagged a data flags)
include h hflagged

section

variable (hlt : i < j) (hi : a.txIdAt data i = some id) (hj : a.txIdAt data j = some id)
include hlt hi hj

theorem DuplicatesFlagged.of_valid (hvl : finalFlag (a.verdict run) i = .valid)
    (hnil : carriedId (a.verdict run i) = []) : flagOf (a.verdict run j) = .duplicateTxid := by
  rcases finalFlag_eq_duplicate (hflagged.finalFlag_eq h hlt hi hj hvl) with hd | ⟨hne, _⟩
  · exact hd
  exfalso
  obtain ⟨k, -, hck, hk, hvk⟩ := exists_valid_of_carried hne hj
  -- `k` has entered the id, so it is not `i`, and the later of the two is a duplicate
  rcases Nat.lt_trichotomy k i with hki | rfl | hik
  · rw [hflagged.finalFlag_eq h hki hk hi hvk] at hvl
    cases hvl
  · exact hne ((carriedId_eq_txId hne hj).trans (hck.symm.trans hnil))
  · rw [hflagged.finalFlag_eq h hik hi hk hvl] at hvk
    cases hvk

theorem DuplicatesFlagged.duplicate (hf : flagOf (a.verdict run i) = .valid) :
    finalFlag (a.verdict run) j = .duplicateTxid := by
  by_cases hvl : finalFlag (a.verdict run) i = .valid
  · exact hflagged.finalFlag_eq h hlt hi hj hvl
  · have hmr : carriedId (a.verdict run i) ≠ [] := by
      intro hnil
      apply hvl
      rw [finalFlag, if_neg (by simp [hnil])]
      exact hf
    obtain ⟨k, hki, -, hk, hvk⟩ := exists_valid_of_carried hmr hi
    exact hflagged.finalFlag_eq h (by omega) hk hj hvk

end

theorem DuplicatesFlagged.entered : DuplicatesEntered run := by
  intro i j id hlt hi hj hf
  rcases finalFlag_eq_duplicate (hflagged.duplicate h hlt hi hj hf) with hd | ⟨hn, _⟩
  · exact .inl hd
  by_cases hnil : carriedId (a.verdict run i) = []
  · refine .inl (hflagged.of_valid h hlt hi hj ?_ hnil)
    rw [finalFlag, if_neg (by simp [hnil])]
    exact hf
  · have hci := carriedId_eq_txId hnil hi
    have hcj := carriedId_eq_txId hn hj
    refine .inr ⟨hci ▸ hnil, ?_, ?_⟩
    · rw [eq_ok_of_carriedId_ne hnil, hci]
    · rw [eq_ok_of_carriedId_ne hn, hcj]

end

end

/-- A block validated without error has its duplicate ids flagged just when they are found by the
transactions' own validation or entered by the peer: what the service has validated is never compared. -/
theorem duplicates_flagged_iff (a : PeerAdapter) (data : List Bytes) (run : Arrivals (a.handlings data) a.batchSize)
    (flags : List TxValidationCode) (h : validateResults data.length run.results = .ok flags) :
    DuplicatesFlagged a data flags ↔ DuplicatesEntered run :=
  ⟨fun hflagged => hflagged.entered h, fun he => he.flagged h⟩

def leanAdapter : PeerAdapter where
  codec := { transferCodec with envelope := .ofTable [] [(transfer, [0x0a])] }
  crypto := plainCrypto
  cr := oneChannel
  lcr := policyOfA
  policies := signedByA
  vpmgr := { updates := fun _ _ _ => [], metadata := fun _ _ _ => .ok [], translate := some }
  leanFormatEnabled := true
  batchSize := 10

def repeatedTransfer : Arrivals (leanAdapter.handlings [[0x0a], [0x0a]]) leanAdapter.batchSize where
  endorsersTxns := [0, 1]
  gathered := .refl _
  service := fun _ => some fun _ => .valid
  results := [(1, .ok []), (0, .ok [])]
  arrived := by
    rw [show batches leanAdapter.batchSize [0, 1] = [[0, 1]] by simp [batches, leanAdapter]]
    exact .swap _ _ _

theorem duplicates_flagged_iff_repeated :
    DuplicatesFlagged leanAdapter [[0x0a], [0x0a]] [.valid, .valid] ↔ DuplicatesEntered repeatedTransfer :=
  duplicates_flagged_iff leanAdapter [[0x0a], [0x0a]] repeatedTransfer [.valid, .valid] (by decide)

/-- One transfer twice in a block, and valid twice. -/
theorem repeated_transfer_valid :
    validateResults 2 repeatedTransfer.results = .ok [.valid, .valid] ∧
      leanAdapter.txIdAt [[0x0a], [0x0a]] 0 = some transferLeanEnv.txId ∧
      leanAdapter.txIdAt [[0x0a], [0x0a]] 1 = some transferLeanEnv.txId ∧
      ¬ DuplicatesFlagged leanAdapter [[0x0a], [0x0a]] [.valid, .valid] := by
  refine ⟨by decide, by decide, by decide, ?_⟩
  intro h
  exact absurd (h 0 1 transferLeanEnv.txId (by decide) (by decide) (by decide) rfl) (by decide)

end Drunix.Peer
