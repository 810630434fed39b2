import Mathlib.Algebra.GroupWithZero.Nat
import Drunix.Lib.AMap
import Drunix.Lib.Transition
import Drunix.Proto.Messages

namespace Drunix.Transient

open Lib Proto List

/-- A `Set` that waits on a response channel of its own. -/
structure KeyValue where
  key : Bytes
  value : AMap Bytes Bytes
  responseChan : ℕ

inductive BatchFailure where
  | getMinHeight
  | hSet
  | zAdd
  | exec

/-- `flushBatchToRedis`: at its start, with commands for `added` in the pipeline, and with responses left to send. -/
inductive Flush where
  | started (batch : List KeyValue)
  | adding (added todo : List KeyValue)
  | responding (err : Option BatchFailure) (todo : List KeyValue)

def Flush.pending : Flush → List KeyValue
  | .started batch => batch
  | .adding added todo => added ++ todo
  | .responding _ todo => todo

/-- With the responses that a step sends, and the requests whose pipeline it executes with success. -/
inductive FlushStep : Flush → Flush → List (KeyValue × Option BatchFailure) → List KeyValue → Prop
  | noMinHeight (batch : List KeyValue) : FlushStep (.started batch) (.responding (some .getMinHeight) batch) [] []
  | minHeight (batch : List KeyValue) : FlushStep (.started batch) (.adding [] batch) [] []
  | hSet (added todo : List KeyValue) (kv : KeyValue) :
      FlushStep (.adding added (kv :: todo)) (.adding (added ++ [kv]) todo) [] []
  | hSetFails (added todo : List KeyValue) (kv : KeyValue) :
      FlushStep (.adding added (kv :: todo)) (.adding added todo) [(kv, some .hSet)] []
  | zAddFails (added : List KeyValue) : FlushStep (.adding added []) (.responding (some .zAdd) added) [] []
  | execFails (added : List KeyValue) : FlushStep (.adding added []) (.responding (some .exec) added) [] []
  | exec (added : List KeyValue) : FlushStep (.adding added []) (.responding none added) [] added
  | respond (err : Option BatchFailure) (todo : List KeyValue) (kv : KeyValue) :
      FlushStep (.responding err (kv :: todo)) (.responding err todo) [(kv, err)] []

/-- The state of a batcher, with every `Set` queued so far, the responses sent and the requests in pipelines that
were executed with success. -/
structure KvStoreBatcher where
  queued : List KeyValue := []
  channel : List KeyValue := []
  batch : List KeyValue := []
  flushes : List Flush := []
  responses : List (KeyValue × Option BatchFailure) := []
  executed : List KeyValue := []

namespace KvStoreBatcher

/-- The listener and the flushes. The ticker flushes a batch that has requests; nothing else does. -/
inductive BatchStep : KvStoreBatcher → KvStoreBatcher → Prop
  | receive {s : KvStoreBatcher} {kv : KeyValue} {rest : List KeyValue} (h : s.channel = kv :: rest) :
      BatchStep s { s with channel := rest, batch := s.batch ++ [kv] }
  | tick {s : KvStoreBatcher} (h : s.batch ≠ []) :
      BatchStep s { s with batch := [], flushes := .started s.batch :: s.flushes }
  | flush {s : KvStoreBatcher} {fs fs' : List Flush} {f f' : Flush} {sent : List (KeyValue × Option BatchFailure)}
      {done : List KeyValue} (h : s.flushes = fs ++ f :: fs') (hstep : FlushStep f f' sent done) :
      BatchStep s { s with
        flushes := fs ++ f' :: fs', responses := s.responses ++ sent, executed := s.executed ++ done }

/-- A `Set` is queued when the channel has room, and returns an error otherwise. -/
inductive Step : KvStoreBatcher → KvStoreBatcher → Prop
  | set {s : KvStoreBatcher} {kv : KeyValue} (h : ∀ kv' ∈ s.queued, kv'.responseChan ≠ kv.responseChan) :
      Step s { s with queued := s.queued ++ [kv], channel := s.channel ++ [kv] }
  | batch {s t : KvStoreBatcher} (h : BatchStep s t) : Step s t

def responsesTo (s : KvStoreBatcher) (kv : KeyValue) : List (KeyValue × Option BatchFailure) :=
  s.responses.filter fun r => r.1.responseChan = kv.responseChan

/-- Every request is in one place. -/
def places (s : KvStoreBatcher) : List KeyValue :=
  s.channel ++ s.batch ++ s.flushes.flatMap Flush.pending ++ s.responses.map Prod.fst

structure Inv (s : KvStoreBatcher) : Prop where
  once : s.places ~ s.queued
  channels : (s.queued.map KeyValue.responseChan).Nodup
  responding : ∀ todo, .responding none todo ∈ s.flushes → ∀ kv ∈ todo, kv ∈ s.executed
  executed : ∀ kv, (kv, none) ∈ s.responses → kv ∈ s.executed

variable {s t : KvStoreBatcher} {f f' : Flush} {sent : List (KeyValue × Option BatchFailure)} {done : List KeyValue}

theorem pending_perm (h : FlushStep f f' sent done) : f.pending ~ f'.pending ++ sent.map Prod.fst := by
  cases h with
  | hSet added todo kv => simp [Flush.pending]
  | hSetFails added todo kv => simpa [Flush.pending] using perm_middle.trans (perm_append_singleton kv _).symm
  | respond err todo kv => exact (perm_append_singleton kv todo).symm
  | _ => simp [Flush.pending]

theorem places_perm (h : BatchStep s t) : s.places ~ t.places := by
  cases h with
  | @receive kv rest h => simpa [places, h] using (@perm_middle _ kv (rest ++ s.batch) _).symm
  | tick h => simp [places, Flush.pending]
  | @flush fs fs' f f' sent done h hst =>
    have hp := (pending_perm hst).append_right (fs'.flatMap Flush.pending ++ s.responses.map Prod.fst)
    rw [append_assoc] at hp
    have hq := hp.trans (perm_append_comm.append_left f'.pending)
    simpa [places, h] using hq.append_left (s.channel ++ s.batch ++ fs.flatMap Flush.pending)

theorem queued_eq (h : BatchStep s t) : t.queued = s.queued := by
  cases h <;> rfl

/-- Where a nil response to a request comes from. -/
theorem nil_of_flushStep {kv : KeyValue} (h : FlushStep f f' sent done)
    (hn : (kv, none) ∈ sent ∨ ∃ todo, f' = .responding none todo ∧ kv ∈ todo) :
    kv ∈ done ∨ ∃ todo, f = .responding none todo ∧ kv ∈ todo := by
  cases h with
  | respond err todo kv' =>
    right
    rcases hn with hn | ⟨_, heq, hk⟩
    · cases mem_singleton.mp hn
      exact ⟨_, rfl, mem_cons_self⟩
    · cases heq
      exact ⟨_, rfl, mem_cons_of_mem _ hk⟩
  | _ => simp_all

theorem Inv.batchStep (hs : s.Inv) (h : BatchStep s t) : t.Inv := by
  refine ⟨queued_eq h ▸ (places_perm h).symm.trans hs.once, queued_eq h ▸ hs.channels, ?_, ?_⟩
  · cases h with
    | receive h => exact hs.responding
    | tick h => exact fun todo ht => hs.responding todo (by simpa using ht)
    | @flush fs fs' f f' sent done h hst =>
      intro todo ht kv hk
      rw [mem_append, mem_cons] at ht
      by_cases hf : .responding none todo = f'
      · rcases nil_of_flushStep hst (.inr ⟨todo, hf.symm, hk⟩) with hd | ⟨todo', rfl, hk'⟩
        · exact mem_append_right _ hd
        · exact mem_append_left _ (hs.responding todo' (by simp [h]) kv hk')
      · refine mem_append_left _ (hs.responding todo ?_ kv hk)
        rw [h, mem_append, mem_cons]
        tauto
  · cases h with
    | receive h => exact hs.executed
    | tick h => exact hs.executed
    | flush h hst =>
      intro kv hk
      rcases mem_append.mp hk with hk | hk
      · exact mem_append_left _ (hs.executed kv hk)
      · rcases nil_of_flushStep hst (.inl hk) with hd | ⟨todo', rfl, hk'⟩
        · exact mem_append_right _ hd
        · exact mem_append_left _ (hs.responding todo' (by simp [h]) kv hk')

theorem inv_of_reachable (h : Reachable (· = {}) Step s) : s.Inv := by
  refine h.invariant Inv ?_ ?_
  · rintro _ rfl
    exact ⟨.refl _, nodup_nil, nofun, nofun⟩
  · intro s t hs hst
    cases hst with
    | @set kv hn =>
      refine ⟨?_, ?_, hs.responding, hs.executed⟩
      · have hp := hs.once.append_right [kv]
        refine Perm.trans ?_ hp
        have hc := @perm_append_comm _ [kv] (s.batch ++ s.flushes.flatMap Flush.pending ++ s.responses.map Prod.fst)
        simpa [places] using hc.append_left s.channel
      · rw [map_append, nodup_append]
        exact ⟨hs.channels, nodup_singleton _, by simpa using hn⟩
    | batch h => exact hs.batchStep h

def weight : Flush → ℕ
  | .started batch => 2 * batch.length + 2
  | .adding added todo => added.length + 2 * todo.length + 1
  | .responding _ todo => todo.length

def measure (s : KvStoreBatcher) : ℕ :=
  6 * s.channel.length + 5 * s.batch.length + (s.flushes.map weight).sum

theorem measure_lt (h : BatchStep s t) : t.measure < s.measure := by
  cases h with
  | receive h => simp [measure, h]; omega
  | tick h =>
    have hpos := length_pos_iff.mpr h
    simp [measure, weight]
    omega
  | @flush fs fs' f f' sent done h hst =>
    have hw : weight f' < weight f := by
      cases hst <;> simp [weight] <;> omega
    simp [measure, h]
    omega

theorem exists_batchStep (h : s.channel ≠ [] ∨ s.batch ≠ [] ∨ ∃ f ∈ s.flushes, f.pending ≠ []) : ∃ t, BatchStep s t := by
  rcases h with h | h | ⟨f, hf, hp⟩
  · obtain ⟨kv, rest, h⟩ := exists_cons_of_ne_nil h
    exact ⟨_, .receive h⟩
  · exact ⟨_, .tick h⟩
  · obtain ⟨fs, fs', h⟩ := append_of_mem hf
    match f with
    | .started batch => exact ⟨_, .flush h (.minHeight batch)⟩
    | .adding added [] => exact ⟨_, .flush h (.exec added)⟩
    | .adding added (kv :: todo) => exact ⟨_, .flush h (.hSet added todo kv)⟩
    | .responding err (kv :: todo) => exact ⟨_, .flush h (.respond err todo kv)⟩

theorem length_responsesTo (s : KvStoreBatcher) (kv : KeyValue) :
    (s.responsesTo kv).length = (s.responses.map fun r => r.1.responseChan).count kv.responseChan := by
  rw [responsesTo, count, countP_map, countP_eq_length_filter]
  rfl

theorem Inv.nodup_responses (hs : s.Inv) : (s.responses.map fun r => r.1.responseChan).Nodup := by
  have hn := (hs.once.map KeyValue.responseChan).nodup_iff.mpr hs.channels
  rw [places, map_append, map_map] at hn
  exact hn.of_append_right

/-- A queued `Set` never gets a second response, and a nil one only from a pipeline that was executed with success; and
once no further ones come, all that are queued get their response whatever the order of the steps. -/
theorem set_answered_once (h : Reachable (· = {}) Step s) :
    (∀ kv, (s.responsesTo kv).length ≤ 1) ∧ (∀ kv, (kv, none) ∈ s.responses → kv ∈ s.executed) ∧
      Inevitable BatchStep (fun t => t.queued = s.queued ∧ ∀ kv ∈ s.queued, (t.responsesTo kv).length = 1) s := by
  have hs := inv_of_reachable h
  refine ⟨fun kv => ?_, hs.executed, ?_⟩
  · rw [length_responsesTo]
    exact nodup_iff_count_le_one.mp hs.nodup_responses _
  · refine Inevitable.of_measure (fun t => t.Inv ∧ t.queued = s.queued) measure ?_ ⟨hs, rfl⟩
    rintro t ⟨ht, hq⟩
    by_cases hp : t.channel ≠ [] ∨ t.batch ≠ [] ∨ ∃ f ∈ t.flushes, f.pending ≠ []
    · exact .inr ⟨exists_batchStep hp, fun u hu => ⟨⟨ht.batchStep hu, (queued_eq hu).trans hq⟩, measure_lt hu⟩⟩
    · refine .inl ⟨hq, fun kv hk => ?_⟩
      have hr : t.responses.map Prod.fst ~ t.queued := by
        have hpl := ht.once
        simp only [not_or, not_not, not_exists, not_and] at hp
        rwa [places, hp.1, hp.2.1, flatMap_eq_nil_iff.mpr hp.2.2] at hpl
      rw [length_responsesTo]
      refine count_eq_one_of_mem ht.nodup_responses ?_
      obtain ⟨r, hm, rfl⟩ := mem_map.mp (hr.mem_iff.mpr (hq ▸ hk))
      exact mem_map_of_mem hm

/-- One `Set` is being flushed when another one is queued. -/
theorem two_sets_answered : ∃ s : KvStoreBatcher, s.queued = [⟨ascii "t1", ∅, 0⟩, ⟨ascii "t2", ∅, 1⟩] ∧
    s.flushes = [.started [⟨ascii "t1", ∅, 0⟩]] ∧ s.channel = [⟨ascii "t2", ∅, 1⟩] ∧
    Inevitable BatchStep (fun t => t.queued = s.queued ∧ ∀ kv ∈ s.queued, (t.responsesTo kv).length = 1) s := by
  have h₁ : Reachable (· = {}) Step _ := .step (.init rfl) (@Step.set {} ⟨ascii "t1", ∅, 0⟩ (by simp))
  have h₂ := (h₁.step (.batch (.receive rfl))).step (.batch (.tick (by simp)))
  have h₃ := h₂.step (@Step.set _ ⟨ascii "t2", ∅, 1⟩ (by simp))
  exact ⟨_, rfl, rfl, rfl, (set_answered_once h₃).2.2⟩

end KvStoreBatcher

end Drunix.Transient
