import Drunix.Orderer.ConfigInvariant

namespace Drunix.Orderer

open Lib Proto Outcome List

variable {κ : Type} {env : Envelope} {c : Chain κ} {data : List Bytes}

/-- No block with a normal message is a config block or written as one, and every config block that is
written, whether that panics, creates a channel or updates the configuration, holds an envelope made by
`ProcessConfigUpdateMsg`. -/
structure ConfigSafe (c : Chain κ) (s : Cluster κ) : Prop where
  notConfigBlock : ∀ env ∈ s.normals, ∀ data ∈ s.proposed ++ s.log, c.codec.envelope.marshal env ∈ data →
    isConfigBlock c.codec data = false
  notWritten : ∀ env ∈ s.normals, ∀ w ∈ s.writes, c.codec.envelope.marshal env ∈ w.data → w.kind = .block
  authorized : ∀ w ∈ s.writes, ∀ result, w.kind = .configBlock result →
    ∃ env, w.data = [c.codec.envelope.marshal env] ∧ c.ByConfigUpdate env

theorem isConfigBlock_singleton {codec : Codec} (h : codec.envelope.RoundTrips env) :
    isConfigBlock codec [codec.envelope.marshal env] = carriesConfig codec env := by
  have hr : codec.envelope.unmarshal (codec.envelope.marshal env) = some env := h
  cases hh : payloadChannelHeader codec env with
  | ok hdr => simp only [isConfigBlock, getEnvelopeFromBlock, carriesConfig, hr, hh]
  | err e => simp only [isConfigBlock, getEnvelopeFromBlock, carriesConfig, hr, hh]
  | panic => simp only [isConfigBlock, getEnvelopeFromBlock, carriesConfig, hr, hh]

theorem configBlock_of_madeOf (hd : c.MadeOf (Ordinary c) data) (h : isConfigBlock c.codec data = true) :
    ∃ env, data = [c.codec.envelope.marshal env] ∧ c.codec.envelope.RoundTrips env ∧
      carriesConfig c.codec env = true ∧ c.ByConfigUpdate env := by
  obtain ⟨envs, rfl, he⟩ := hd
  match envs with
  | [] => cases h
  | [env] =>
    obtain ⟨hw, hor⟩ := he env mem_cons_self
    rw [Chain.createNextBlock, map_singleton, isConfigBlock_singleton hw] at h
    exact ⟨env, rfl, hw, h, hor.resolve_right (by simp [h])⟩
  | _ :: _ :: _ => cases h

theorem normal_not_configBlock (hw : c.codec.envelope.RoundTrips env) (hpl : carriesConfig c.codec env = false)
    (hd : c.MadeOf (Ordinary c) data) (hm : c.codec.envelope.marshal env ∈ data) :
    isConfigBlock c.codec data = false := by
  by_contra hc
  obtain ⟨env', rfl, hw', hc', -⟩ := configBlock_of_madeOf hd (Bool.not_eq_false _ ▸ hc)
  have heq : env = env' := Wire.marshal_injOn hw hw' (mem_singleton.mp hm)
  rw [heq, hc'] at hpl
  cases hpl

theorem Inv.configSafe {s : Cluster κ} (h : Inv c s) : ConfigSafe c s where
  notConfigBlock := by
    intro env he data hd hmm
    obtain ⟨hwr, hpl⟩ := h.normals env he
    have hm : c.MadeOf (Ordinary c) data := forall_mem_append.mpr ⟨h.proposed, h.log⟩ data hd
    exact normal_not_configBlock hwr hpl hm hmm
  notWritten := by
    intro env he w hw hmm
    obtain ⟨hwr, hpl⟩ := h.normals env he
    obtain ⟨hm, config, hk⟩ := h.writes w hw
    rw [hk, Chain.writeBlock, normal_not_configBlock hwr hpl hm hmm]
    rfl
  authorized := by
    intro w hw result hrs
    obtain ⟨hm, config, hk⟩ := h.writes w hw
    cases hc : isConfigBlock c.codec w.data with
    | true =>
      obtain ⟨env, hd, -, -, hu⟩ := configBlock_of_madeOf hm hc
      exact ⟨env, hd, hu⟩
    | false =>
      rw [hrs, Chain.writeBlock, hc] at hk
      cases hk

/-- In every run in which ingest takes in plain normal messages only, config blocks are those of authorized
config updates. -/
theorem config_blocks_authorized (c : Chain κ) (config : κ)
    (hupdate : ∀ env, c.ByConfigUpdate env → c.codec.envelope.RoundTrips env) (s : Cluster κ)
    (h : Cluster.Reached c (PlainNormal c.codec) config s) : ConfigSafe c s := by
  have hi : Inv c s := by
    refine Reachable.invariant (Inv c) ?_ ?_ h
    · rintro _ rfl
      exact Inv.init c config
    · intro s t hs hst
      exact hs.step hupdate hst
  exact hi.configSafe

section Payments

def payments : Bytes := [112]

def signedConfig : Envelope where
  payload := some [10]

def forgedConfig : Envelope where
  payload := some [11]
  leanEnv := some { channelId := payments }

def configUpdate : Envelope where
  payload := some [12]

def transfer : Envelope where
  type := .endorserTransaction
  leanEnv := some { channelId := payments }

def headedPayload (channelHeader data : Bytes) : Payload where
  header := some { channelHeader := some channelHeader }
  data := some data

def paymentsCodec : Codec :=
  { Codec.none with
    envelope := .ofTable [] [(signedConfig, [20]), (forgedConfig, [21]), (configUpdate, [22]), (transfer, [23])]
    payload := .ofTable []
      [({}, []), (headedPayload [1] [7], [10]), (headedPayload [1] [], [11]), (headedPayload [2] [8], [12])]
    channelHeader := .ofTable []
      [({ type := .config, channelId := payments }, [1]), ({ type := .configUpdate, channelId := payments }, [2])] }

def paymentsSupport : ChannelSupport UInt64 where
  channelID := payments
  signer := { newSignatureHeader := some {}, sign := fun _ => some [] }
  sequence config := config
  batchSize _ := { maxMessageCount := 10, preferredMaxBytes := 100 }
  consensusTypeMigration _ := false
  consensusStateNormal _ := true
  filters _ _ := true
  maintenanceFilter _ _ := true
  proposeConfigUpdate _ env := if env = configUpdate then some [7] else none
  proposeNewChannel _ _ := none
  lastUpdate _ := none
  applyConfig config _ data := if data = [7] then some (config + 1) else none
  checkForEvictionNCertRotation _ _ := false

def paymentsChain : Chain UInt64 where
  codec := paymentsCodec
  support := paymentsSupport
  isSystemChannel := false
  followerBatching := false
  maxBatchSize := 0

def paymentsOrderer : Registrar where
  chains := [payments]
  systemChannel := none

theorem payments_byConfigUpdate (h : paymentsChain.ByConfigUpdate env) : env = signedConfig := by
  have hst : ∃ config msg configSeq,
      StandardChannel.processConfigUpdateMsg paymentsCodec paymentsSupport config msg = .ok (env, configSeq) := by
    obtain ⟨config, msg, configSeq, h | h⟩ := h
    · exact ⟨config, msg, configSeq, h⟩
    · exact ⟨config, msg, configSeq, h⟩
  obtain ⟨config, msg, configSeq, h⟩ := hst
  obtain ⟨_, -, h⟩ := bind_eq_ok.mp h
  obtain ⟨configEnvelope, hpr, h⟩ := bind_eq_ok.mp h
  obtain ⟨signed, hsg, h⟩ := bind_eq_ok.mp h
  have hc : configEnvelope = [7] := by
    rw [orErr_eq_ok] at hpr
    simp only [paymentsSupport] at hpr
    split at hpr
    · exact (Option.some.inj hpr).symm
    · cases hpr
  subst hc
  cases h
  rfl

theorem payments_update_roundTrips (env : Envelope) (h : paymentsChain.ByConfigUpdate env) :
    paymentsChain.codec.envelope.RoundTrips env := by
  rw [payments_byConfigUpdate h]
  decide

def received (isConfig : Bool) (msg payload : Envelope) (s : Cluster UInt64) : Cluster UInt64 :=
  (s.enqueue false 0 { payload, lastValidationSeq := 0 }).recordNormal isConfig msg

def ledByFirst : Cluster UInt64 := (Cluster.init 0).elect (some 0)

def forgedOrdered : Cluster UInt64 :=
  (received false forgedConfig forgedConfig ledByFirst).order paymentsChain 0
    { batches := [[forgedConfig]], receiver := {} }

def forgedWritten : Cluster UInt64 :=
  ({ forgedOrdered with log := [[[21]]] } : Cluster UInt64).write paymentsChain 0 [[21]]

theorem forgedWritten_reached : Cluster.Reached paymentsChain (fun _ => True) 0 forgedWritten := by
  have hi : Cluster.Reached paymentsChain (fun _ => True) 0 (Cluster.init 0) := .init rfl
  have hl : Cluster.Reached paymentsChain (fun _ => True) 0 ledByFirst := hi.step (.elect _ (by decide))
  have hw : paymentsCodec.envelope.RoundTrips forgedConfig := by decide
  have hrc := hl.step (.broadcast 0 paymentsOrderer hw rfl (fun _ => trivial) rfl)
  have hor : Cluster.Reached paymentsChain (fun _ => True) 0 forgedOrdered :=
    hrc.step (.order 0 rfl rfl mem_cons_self rfl)
  have hpr : [[21]] ∈ forgedOrdered.proposed := mem_cons_self
  exact (hor.step (.commit hpr)).step (.write 0 rfl)

/-- A client's lite envelope with a forged config transaction in its payload is classified as normal, and
writing its block as a config block panics. -/
theorem forged_config_written :
    (∀ env, paymentsChain.ByConfigUpdate env → paymentsChain.codec.envelope.RoundTrips env) ∧
      ∃ s, Cluster.Reached paymentsChain (fun _ => True) 0 s ∧ forgedConfig ∈ s.normals ∧
        ⟨0, [paymentsCodec.envelope.marshal forgedConfig], .configBlock .panic⟩ ∈ s.writes ∧
        ¬ ConfigSafe paymentsChain s := by
  have hnr : forgedConfig ∈ forgedWritten.normals := mem_cons_self
  have hw : ⟨0, [paymentsCodec.envelope.marshal forgedConfig], .configBlock .panic⟩ ∈ forgedWritten.writes :=
    mem_cons_self
  refine ⟨payments_update_roundTrips, forgedWritten, forgedWritten_reached, hnr, hw, ?_⟩
  intro hsf
  have hk := hsf.notWritten forgedConfig hnr _ hw mem_cons_self
  cases hk

def updateOrdered : Cluster UInt64 :=
  ((received true configUpdate signedConfig (received false transfer transfer ledByFirst)).order paymentsChain 0
      { batches := [], receiver := { pendingBatch := [transfer] } }).order paymentsChain 0
    { batches := [[transfer], [signedConfig]], receiver := {} }

def updateWritten : Cluster UInt64 :=
  (({ updateOrdered with log := [[[23]], [[20]]] } : Cluster UInt64).write paymentsChain 0 [[23]]).write
    paymentsChain 0 [[20]]

theorem updateWritten_reached : Cluster.Reached paymentsChain (PlainNormal paymentsCodec) 0 updateWritten := by
  have hi : Cluster.Reached paymentsChain (PlainNormal paymentsCodec) 0 (Cluster.init 0) := .init rfl
  have hl : Cluster.Reached paymentsChain (PlainNormal paymentsCodec) 0 ledByFirst :=
    hi.step (.elect _ (by decide))
  have ht : paymentsCodec.envelope.RoundTrips transfer := by decide
  have hpl : PlainNormal paymentsCodec transfer := .inr rfl
  have hu : paymentsCodec.envelope.RoundTrips configUpdate := by decide
  have hrc := (hl.step (.broadcast 0 paymentsOrderer ht rfl (fun _ => hpl) rfl)).step
    (.broadcast 0 paymentsOrderer hu rfl Bool.noConfusion rfl)
  have hw := hrc.step (.order 0 rfl rfl mem_cons_self rfl)
  have hor : Cluster.Reached paymentsChain (PlainNormal paymentsCodec) 0 updateOrdered :=
    hw.step (.order 0 rfl rfl (mem_cons_of_mem _ mem_cons_self) rfl)
  have hf : [[23]] ∈ updateOrdered.proposed := mem_cons_self
  have hsc : [[20]] ∈ updateOrdered.proposed := mem_cons_of_mem _ mem_cons_self
  have hc := (hor.step (.commit hf)).step (.commit hsc)
  exact (hc.step (.write 0 rfl)).step (.write 0 rfl)

theorem config_blocks_authorized_payments :
    (updateWritten.nodes 0).config = 1 ∧ transfer ∈ updateWritten.normals ∧ ConfigSafe paymentsChain updateWritten :=
  ⟨rfl, mem_cons_self,
    config_blocks_authorized paymentsChain 0 payments_update_roundTrips updateWritten updateWritten_reached⟩

end Payments

end Drunix.Orderer
