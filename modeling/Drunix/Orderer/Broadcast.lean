import Drunix.Orderer.MsgProcessor

namespace Drunix.Orderer

open Lib Proto Outcome

structure Registrar where
  chains : List Bytes
  systemChannel : Option Bytes

def Registrar.getChain (r : Registrar) (chainID : Bytes) : Option Bytes :=
  r.chains.find? (· == chainID)

def Registrar.chainFor (r : Registrar) (channelId : Bytes) : Outcome MsgError Bytes :=
  match r.getChain channelId with
  | some cs => .ok cs
  | none => .orErr .noSystemChannel r.systemChannel

/-- The channel header, whether the message is a config update, and the channel that processes it. The
presence of the lite half alone makes a message a normal one. -/
def broadcastChannelSupport (codec : Codec) (r : Registrar) (msg : Envelope) :
    Outcome MsgError (ChannelHeader × Bool × Bytes) :=
  match msg.leanEnv with
  | some leanEnv => do
      let cs ← r.chainFor leanEnv.channelId
      .ok ({ channelId := leanEnv.channelId }, false, cs)
  | none => do
      let chdr ← channelHeader codec msg
      let chdr ← .deref chdr
      let cs ← r.chainFor chdr.channelId
      match classifyMsg chdr with
      | .configUpdateMsg => .ok (chdr, true, cs)
      | .configMsg => .err .notProcessedDirectly
      | .normalMsg => .ok (chdr, false, cs)

/-- A request as it is submitted, with an envelope as payload. -/
structure SubmitRequest where
  payload : Envelope
  lastValidationSeq : UInt64
  isConfig : Bool := false
  deriving DecidableEq

structure Chain (κ : Type) where
  codec : Codec
  support : ChannelSupport κ
  isSystemChannel : Bool
  followerBatching : Bool
  maxBatchSize : UInt32

namespace Chain

variable {κ : Type} (c : Chain κ)

def processor : Processor κ :=
  if c.isSystemChannel then newSystemChannel c.codec c.support else newStandardChannel c.codec c.support

def orderRequest (config : κ) (msg : Envelope) : Outcome MsgError SubmitRequest := do
  let configSeq ← c.processor.processNormalMsg config msg
  .ok { payload := msg, lastValidationSeq := configSeq }

/-- `Configure` leaves `isConfig` unset, `BatchConfigure` sets it. -/
def configureRequest (config : κ) (msg : Envelope) : Outcome MsgError SubmitRequest := do
  let (signed, configSeq) ← c.processor.processConfigUpdateMsg config msg
  .ok { payload := signed, lastValidationSeq := configSeq, isConfig := c.followerBatching }

def processMessage (config : κ) (isConfig : Bool) (msg : Envelope) : Outcome MsgError SubmitRequest :=
  if isConfig then c.configureRequest config msg else c.orderRequest config msg

/-- The envelope was returned by `ProcessConfigUpdateMsg`: by the channel's processor, or by the standard
channel inside a system channel's. -/
def ByConfigUpdate (env : Envelope) : Prop :=
  ∃ config msg configSeq, c.processor.processConfigUpdateMsg config msg = .ok (env, configSeq) ∨
    StandardChannel.processConfigUpdateMsg c.codec c.support config msg = .ok (env, configSeq)

end Chain

def carriesConfig (codec : Codec) (env : Envelope) : Bool :=
  match payloadChannelHeader codec env with
  | .ok hdr => isConfigType hdr.type
  | _ => false

variable {chdr : ChannelHeader} {env msg : Envelope} {codec : Codec}

theorem channelHeader_eq_ok (h : channelHeader codec env = .ok (some chdr)) :
    payloadChannelHeader codec env = .ok chdr := by
  unfold channelHeader at h
  split at h
  · cases h
  · obtain ⟨payload, hp, h⟩ := bind_eq_ok.mp h
    obtain ⟨header, hh, h⟩ := bind_eq_ok.mp h
    obtain ⟨bytes, hb, h⟩ := bind_eq_ok.mp h
    obtain ⟨chdr', hc, h⟩ := bind_eq_ok.mp h
    cases h
    rw [orErr_eq_ok] at hp hh hb hc
    simp [payloadChannelHeader, hp, hh, hb, hc, Outcome.orErr]

theorem isConfigType_of_normalMsg (h : classifyMsg chdr = .normalMsg) :
    isConfigType chdr.type = false := by
  unfold classifyMsg at h
  cases ht : chdr.type <;> simp_all [isConfigType]

theorem carriesConfig_of_normal {r : Registrar} {cs : Bytes}
    (h : broadcastChannelSupport codec r msg = .ok (chdr, false, cs)) (hl : msg.leanEnv = none) :
    carriesConfig codec msg = false := by
  simp only [broadcastChannelSupport, hl] at h
  obtain ⟨hdr, hh, hr⟩ := bind_eq_ok.mp h
  obtain ⟨hdr', hd, hr⟩ := bind_eq_ok.mp hr
  obtain ⟨cs', -, hc⟩ := bind_eq_ok.mp hr
  rw [deref_eq_ok] at hd
  subst hd
  have hrd := channelHeader_eq_ok hh
  cases hcl : classifyMsg hdr' with
  | normalMsg =>
    simp only [carriesConfig, hrd]
    exact isConfigType_of_normalMsg hcl
  | configUpdateMsg =>
    rw [hcl] at hc
    cases hc
  | configMsg =>
    rw [hcl] at hc
    cases hc

namespace Chain

variable {κ : Type} {c : Chain κ} {config : κ} {req : SubmitRequest}

theorem orderRequest_payload (h : c.orderRequest config msg = .ok req) : req.payload = msg := by
  obtain ⟨configSeq, -, h⟩ := bind_eq_ok.mp h
  cases h
  rfl

theorem configureRequest_payload (h : c.configureRequest config msg = .ok req) : c.ByConfigUpdate req.payload := by
  obtain ⟨⟨signed, configSeq⟩, hsg, h⟩ := bind_eq_ok.mp h
  cases h
  exact ⟨config, msg, configSeq, .inl hsg⟩

variable {signed : Envelope} {configSeq : UInt64}

theorem standard_processConfigMsg
    (h : StandardChannel.processConfigMsg c.codec c.support config env = .ok (signed, configSeq)) :
    c.ByConfigUpdate signed := by
  obtain ⟨data, -, h⟩ := bind_eq_ok.mp h
  obtain ⟨last, -, h⟩ := bind_eq_ok.mp h
  obtain ⟨update, -, h⟩ := bind_eq_ok.mp h
  exact ⟨config, update, configSeq, .inr h⟩

theorem system_processConfigMsg (hsy : c.isSystemChannel = true)
    (h : SystemChannel.processConfigMsg c.codec c.support config env = .ok (signed, configSeq)) :
    c.ByConfigUpdate signed := by
  obtain ⟨payload, -, h⟩ := bind_eq_ok.mp h
  obtain ⟨header, -, h⟩ := bind_eq_ok.mp h
  obtain ⟨bytes, -, h⟩ := bind_eq_ok.mp h
  obtain ⟨chdr, -, h⟩ := bind_eq_ok.mp h
  split at h
  · obtain ⟨last, -, h⟩ := bind_eq_ok.mp h
    obtain ⟨update, -, h⟩ := bind_eq_ok.mp h
    exact ⟨config, update, configSeq, .inr h⟩
  · obtain ⟨inner, -, h⟩ := bind_eq_ok.mp h
    obtain ⟨data, -, h⟩ := bind_eq_ok.mp h
    obtain ⟨last, -, h⟩ := bind_eq_ok.mp h
    obtain ⟨update, -, h⟩ := bind_eq_ok.mp h
    refine ⟨config, update, configSeq, .inl ?_⟩
    simp only [processor, hsy, if_true]
    exact h
  · cases h

theorem processConfigMsg_byConfigUpdate (h : c.processor.processConfigMsg config env = .ok (signed, configSeq)) :
    c.ByConfigUpdate signed := by
  cases hsy : c.isSystemChannel with
  | true =>
    simp only [processor, hsy, if_true] at h
    exact system_processConfigMsg hsy h
  | false =>
    simp only [processor, hsy, Bool.false_eq_true, if_false] at h
    exact standard_processConfigMsg h

end Chain

end Drunix.Orderer
