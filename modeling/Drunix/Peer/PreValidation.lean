import Drunix.Lib.Transition
import Drunix.Peer.Plugin

namespace Drunix.Peer

open Lib Proto Outcome List

/-- `blockDep` of a key-level validator, and of the validation context its height and the transactions of that block whose
dependencies are inserted; the map of the context is nil before the first block. -/
structure KeyLevelValidator where
  blockNum : UInt64 := 0
  txDepOnce : List Bool := []
  blockHeight : UInt64 := 0
  depInserted : Option (List Nat) := none

/-- What `extractDependenciesForTx` decodes; it returns at an error, and nothing is inserted then. -/
def extractedResults (codec : Codec) (envelopeBytes : Bytes) : Outcome Unit Bytes := do
  let env ← .orErr () (getEnvelopeFromBlock codec envelopeBytes)
  let payl ← .orErr () (unmarshalPayload codec env.payload)
  let tx ← .orErr () (codec.transaction.unmarshal (payl.data.getD []))
  let first ← .deref tx.actions.head?
  let cap ← .orErr () (codec.chaincodeActionPayload.unmarshal first.payload)
  let action ← .deref cap.action
  let pRespPayload ← .orErr () (codec.vanillaResponsePayload.unmarshal action.proposalResponsePayload)
  let respPayload ← .orErr () (codec.vanillaChaincodeAction.unmarshal pRespPayload.extension)
  return respPayload.results

namespace KeyLevelValidator

section

variable (codec : Codec) (number : UInt64) (data : List Bytes) (v : KeyLevelValidator)

def forBlock : Outcome Unit KeyLevelValidator :=
  if number < v.blockHeight then .panic
  else .ok (if v.blockHeight < number then { v with blockHeight := number, depInserted := some [] } else v)

/-- `ExtractValidationParameterDependency` up to the signal: a channel that is closed again panics. -/
def signalDepInserted (txNum : Nat) : Outcome Unit KeyLevelValidator := do
  let v ← v.forBlock number
  let inserted ← .deref v.depInserted
  if txNum ∈ inserted then .panic else return { v with depInserted := some (txNum :: inserted) }

/-- The function that is handed to `txDepOnce[i].Do`, if it has not run yet. -/
def once (i : Nat) : Outcome Unit KeyLevelValidator := do
  let done ← .deref v.txDepOnce[i]?
  if done then return v
  else do
    let envelopeBytes ← .deref data[i]?
    match extractedResults codec envelopeBytes with
    | .ok _ => signalDepInserted number { v with txDepOnce := v.txDepOnce.set i true } i
    | .err _ => return { v with txDepOnce := v.txDepOnce.set i true }
    | .panic => .panic

def loop (v : KeyLevelValidator) : Nat → Outcome Unit KeyLevelValidator
  | 0 => return v
  | i + 1 => do
      let v ← once codec number data v i
      loop v i

def entered : KeyLevelValidator :=
  if v.blockNum = number then v else { v with blockNum := number, txDepOnce := replicate data.length false }

/-- The index of the loop is the number of the transaction as a signed integer. -/
def preValidate (txNum : UInt64) : Outcome Unit KeyLevelValidator :=
  loop codec number data (entered number data v) (if txNum.toNat < 2 ^ 63 then txNum.toNat + 1 else 0)

def inserted : List Nat :=
  if v.blockHeight = number then v.depInserted.getD [] else []

/-- The call returns, and the dependencies of the transactions up to `txNum` are inserted. -/
def PreValidates (txNum : UInt64) : Prop :=
  ∃ v', v.preValidate codec number data txNum = .ok v' ∧ ∀ i ≤ txNum.toNat, i < data.length → i ∈ v'.inserted number

def Extractable (i : Nat) : Prop :=
  ∃ envelopeBytes results, data[i]? = some envelopeBytes ∧ extractedResults codec envelopeBytes = .ok results

/-- Calls for a block that is later than those before, or the first one for a new validator. -/
def PreValidationRun : KeyLevelValidator → Prop :=
  Reachable (fun v => v = {} ∨ v.blockNum < number ∧ v.blockHeight < number)
    fun v v' => ∃ txNum, v.preValidate codec number data txNum = .ok v'

structure Started : Prop where
  length : v.txDepOnce.length = data.length
  ready : v.blockHeight < number ∨ v.blockHeight = number ∧ v.depInserted.isSome
  inserted_iff : ∀ i, i ∈ v.inserted number ↔ v.txDepOnce[i]? = some true ∧ Extractable codec data i

end

variable {codec : Codec} {number : UInt64} {data : List Bytes} {v v' : KeyLevelValidator}

theorem signalDepInserted_eq {i : Nat} (hr : v.blockHeight < number ∨ v.blockHeight = number ∧ v.depInserted.isSome)
    (hi : i ∉ v.inserted number) :
    signalDepInserted number v i = .ok { v with blockHeight := number, depInserted := some (i :: v.inserted number) } := by
  rcases hr with hlt | ⟨rfl, hsm⟩
  · have hn : ¬ number < v.blockHeight := UInt64.not_lt.mpr (UInt64.le_of_lt hlt)
    have he : v.inserted number = [] := if_neg (UInt64.ne_of_lt hlt)
    simp [signalDepInserted, forBlock, hn, hlt, he, deref]
  · obtain ⟨l, hl⟩ := Option.isSome_iff_exists.mp hsm
    have hin : v.inserted v.blockHeight = l := by simp [inserted, hl]
    rw [hin] at hi ⊢
    simp [signalDepInserted, forBlock, hl, hi, deref]

namespace Started

theorem once_eq {i : Nat} (hv : Started codec number data v) (hd : v.txDepOnce[i]? = some false)
    (hi : Extractable codec data i) :
    once codec number data v i = .ok { v with
      txDepOnce := v.txDepOnce.set i true, blockHeight := number, depInserted := some (i :: v.inserted number) } := by
  obtain ⟨envelopeBytes, results, hb, hrs⟩ := hi
  have hn : i ∉ v.inserted number := by simp [hv.inserted_iff, hd]
  simp only [KeyLevelValidator.once, hd, hb, hrs, deref, ok_bind, Bool.false_eq_true, if_false]
  exact signalDepInserted_eq hv.ready hn

theorem once {i : Nat} (hv : Started codec number data v) (h : once codec number data v i = .ok v') :
    Started codec number data v' ∧ v'.blockNum = v.blockNum ∧
      ∀ j, v'.txDepOnce[j]? = some true ↔ j = i ∨ v.txDepOnce[j]? = some true := by
  have hr := h
  obtain ⟨done, hd, h⟩ := bind_eq_ok.mp h
  rw [deref_eq_ok] at hd
  cases done with
  | true =>
    cases h
    refine ⟨hv, rfl, fun j => ?_⟩
    simp only [iff_or_self]
    rintro rfl
    exact hd
  | false =>
    have hf : ∀ j, (v.txDepOnce.set i true)[j]? = some true ↔ j = i ∨ v.txDepOnce[j]? = some true := by
      intro j
      obtain ⟨hlt, -⟩ := List.getElem?_eq_some_iff.mp hd
      by_cases hj : i = j
      · subst hj
        simp [hlt]
      · simp [getElem?_set_ne hj, Ne.symm hj]
    by_cases hi : Extractable codec data i
    · rw [hv.once_eq hd hi] at hr
      cases hr
      refine ⟨⟨by simp [hv.length], .inr ⟨rfl, rfl⟩, fun j => ?_⟩, rfl, hf⟩
      simp only [inserted, if_true, Option.getD_some, mem_cons, hf]
      rw [← inserted, hv.inserted_iff, or_and_right]
      exact or_congr_left ⟨fun hj => ⟨hj, hj ▸ hi⟩, And.left⟩
    · -- Nothing could be decoded, and the attempt is not repeated.
      obtain rfl : v' = { v with txDepOnce := v.txDepOnce.set i true } := by
        rw [if_neg Bool.false_ne_true, bind_eq_ok] at h
        obtain ⟨envelopeBytes, hb, h⟩ := h
        rw [deref_eq_ok] at hb
        cases hrs : extractedResults codec envelopeBytes with
        | ok results => exact absurd ⟨envelopeBytes, results, hb, hrs⟩ hi
        | err => simpa [hrs] using h.symm
        | panic => simp [hrs] at h
      refine ⟨⟨by simp [hv.length], hv.ready, fun j => ?_⟩, rfl, hf⟩
      simp only [hf, or_and_right]
      rw [or_iff_right fun hj : j = i ∧ _ => hi (hj.1 ▸ hj.2)]
      exact hv.inserted_iff j

theorem exists_once {i : Nat} (hv : Started codec number data v) (hi : Extractable codec data i) :
    ∃ v', KeyLevelValidator.once codec number data v i = .ok v' := by
  obtain ⟨envelopeBytes, -, hb, -⟩ := id hi
  obtain ⟨hlt, -⟩ := List.getElem?_eq_some_iff.mp hb
  rw [← hv.length] at hlt
  cases hd : v.txDepOnce[i] with
  | true => exact ⟨v, by simp [KeyLevelValidator.once, hlt, hd, deref]⟩
  | false => exact ⟨_, hv.once_eq (by simp [hlt, hd]) hi⟩

theorem loop {n : Nat} (hv : Started codec number data v) (h : loop codec number data v n = .ok v') :
    Started codec number data v' ∧ v'.blockNum = v.blockNum ∧
      ∀ j, v'.txDepOnce[j]? = some true ↔ j < n ∨ v.txDepOnce[j]? = some true := by
  induction n generalizing v with
  | zero =>
    cases h
    simpa using hv
  | succ n ih =>
    obtain ⟨v₁, hv₁, h⟩ := bind_eq_ok.mp h
    obtain ⟨hst, hn, hf⟩ := hv.once hv₁
    obtain ⟨hs', hn', hf'⟩ := ih hst h
    refine ⟨hs', hn'.trans hn, fun j => ?_⟩
    rw [hf', hf, ← or_assoc, Nat.lt_succ_iff_lt_or_eq]

theorem exists_loop {n : Nat} (hv : Started codec number data v) (hn : ∀ i < n, Extractable codec data i) :
    ∃ v', KeyLevelValidator.loop codec number data v n = .ok v' := by
  induction n generalizing v with
  | zero => exact ⟨v, rfl⟩
  | succ n ih =>
    obtain ⟨v₁, hv₁⟩ := hv.exists_once (hn n n.lt_succ_self)
    obtain ⟨v', hv'⟩ := ih (hv.once hv₁).1 fun i hi => hn i (Nat.lt_succ_of_lt hi)
    exact ⟨v', by rw [KeyLevelValidator.loop, hv₁, ok_bind, hv']⟩

end Started

theorem started_entered (hv : v.blockNum < number ∧ v.blockHeight < number ∨ Started codec number data v ∧ v.blockNum = number) :
    Started codec number data (entered number data v) := by
  rcases hv with ⟨hn, hh⟩ | ⟨hv, hn⟩
  · rw [entered, if_neg (UInt64.ne_of_lt hn)]
    refine ⟨by simp, .inl hh, fun i => ?_⟩
    simp [inserted, UInt64.ne_of_lt hh, getElem?_replicate]
  · rwa [entered, if_pos hn]

theorem started_of_run (hnm : number ≠ 0) (h : PreValidationRun codec number data v) :
    v.blockNum < number ∧ v.blockHeight < number ∨ Started codec number data v ∧ v.blockNum = number := by
  refine h.invariant (fun v => v.blockNum < number ∧ v.blockHeight < number ∨
    Started codec number data v ∧ v.blockNum = number) ?_ ?_
  · rintro v (rfl | hv)
    · exact .inl ⟨UInt64.pos_iff_ne_zero.mpr hnm, UInt64.pos_iff_ne_zero.mpr hnm⟩
    · exact .inl hv
  · rintro v v' hv ⟨txNum, hc⟩
    obtain ⟨hst, hn, -⟩ := (started_entered hv).loop hc
    refine .inr ⟨hst, hn.trans ?_⟩
    rw [entered]
    split_ifs with heq
    · exact heq
    · rfl

theorem inserted_entered : (entered number data v).inserted number = v.inserted number := by
  rw [entered]
  split_ifs <;> rfl

theorem eq_new_of_run (h : PreValidationRun codec 0 data v) : v = {} := by
  refine h.invariant (fun v => v = {}) ?_ ?_
  · rintro v (rfl | ⟨hv, -⟩)
    · rfl
    · exact absurd hv UInt64.not_lt_zero
  · rintro _ v' rfl ⟨txNum, hc⟩
    rw [preValidate] at hc
    split_ifs at hc
    · cases hc
    · cases hc
      rfl

/-- Dependencies are inserted for the transactions up to `txNum` exactly if that is one of the block and all of them can be
decoded down to their results. A number that is negative as a signed integer inserts nothing. -/
theorem preValidate_inserts_iff (h : PreValidationRun codec number data v) (txNum : UInt64) :
    v.PreValidates codec number data txNum ↔
      if txNum.toNat < 2 ^ 63 then number ≠ 0 ∧ txNum.toNat < data.length ∧ ∀ i ≤ txNum.toNat, Extractable codec data i
      else ∀ i ≤ txNum.toNat, i < data.length → i ∈ v.inserted number := by
  by_cases hsg : txNum.toNat < 2 ^ 63
  · simp only [PreValidates, preValidate, if_pos hsg]
    by_cases hnm : number = 0
    · subst hnm
      cases eq_new_of_run h
      simp only [ne_eq, not_true_eq_false, false_and, iff_false]
      rintro ⟨v', hv', -⟩
      cases hv'
    · have hv := started_entered (started_of_run hnm h)
      constructor
      · rintro ⟨v', hv', hin⟩
        obtain ⟨hst, -, hf⟩ := hv.loop hv'
        have hlt : txNum.toNat < data.length := by
          obtain ⟨hlt, -⟩ := List.getElem?_eq_some_iff.mp ((hf txNum.toNat).mpr (.inl txNum.toNat.lt_succ_self))
          exact hst.length ▸ hlt
        exact ⟨hnm, hlt, fun i hi => ((hst.inserted_iff i).mp (hin i hi (hi.trans_lt hlt))).2⟩
      · rintro ⟨-, -, he⟩
        obtain ⟨v', hv'⟩ := hv.exists_loop fun i hi => he i (Nat.le_of_lt_succ hi)
        obtain ⟨hst, -, hf⟩ := hv.loop hv'
        exact ⟨v', hv', fun i hi _ =>
          (hst.inserted_iff i).mpr ⟨(hf i).mpr (.inl (Nat.lt_succ_of_le hi)), he i hi⟩⟩
  · simp only [PreValidates, preValidate, if_neg hsg, loop, pure_eq, ok.injEq, exists_eq_left', inserted_entered]

/-- The empty envelope has no transaction; `[1]` is one with an action. -/
def actionCodec : Codec :=
  { Codec.none with
    envelope := .ofTable [] [({}, []), ({ payload := some [1] }, [1])]
    payload := .ofTable [] [({}, []), ({ data := some [1] }, [1])]
    transaction := .ofTable [] [({}, []), ({ actions := [{ payload := [1] }] }, [1])]
    chaincodeActionPayload := .ofTable [] [({ action := some {} }, [1])]
    vanillaResponsePayload := .ofTable [] [({}, [])]
    vanillaChaincodeAction := .ofTable [] [({}, [])] }

theorem preValidate_inserts_action :
    PreValidationRun actionCodec 1 [[1]] {} ∧ PreValidates actionCodec 1 [[1]] {} 0 := by
  have hr : PreValidationRun actionCodec 1 [[1]] {} := .init (.inl rfl)
  refine ⟨hr, (preValidate_inserts_iff hr 0).mpr ⟨by decide, by decide, fun i hi => ?_⟩⟩
  obtain rfl : i = 0 := Nat.le_zero.mp hi
  exact ⟨[1], [], rfl, rfl⟩

/-- Bytes that cannot be decoded: nothing is inserted, and who waits for the signal waits for ever. The empty envelope panics. -/
theorem undecodable_not_inserted :
    PreValidationRun actionCodec 1 [[0xff]] {} ∧
      preValidate actionCodec 1 [[0xff]] {} 0 = .ok { blockNum := 1, txDepOnce := [true] } ∧
      ¬ PreValidates actionCodec 1 [[0xff]] {} 0 ∧ preValidate actionCodec 1 [[]] {} 0 = .panic := by
  refine ⟨.init (.inl rfl), rfl, ?_, rfl⟩
  rintro ⟨v', hv', hin⟩
  cases hv'
  exact List.not_mem_nil (hin 0 le_rfl Nat.zero_lt_one)

end KeyLevelValidator

end Drunix.Peer
