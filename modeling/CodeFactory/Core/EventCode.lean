import Mathlib.Data.BitVec
import CodeFactory.Core.MainLoop

/-!
# The event codes of a session

`gEventCode` is the set of events the server has still to hear of. The session thread copies it into an Inform, one code at a
time, and clears it as a whole when the Inform is acknowledged; the event thread and the host handler set codes at any time.
A code is kept when it stays in the set until an Inform that carried it has been acknowledged.
-/

namespace CodeFactory.Core

/-- The bit of a code in `EventCodeType`. -/
def EventCode.mask : EventCode → BitVec 32
  | .bootstrap => 1
  | .boot => 2
  | .periodic => 4
  | .scheduled => 8
  | .valueChange => 16
  | .kicked => 32
  | .connectionRequest => 64
  | .transferComplete => 128
  | .diagnostics => 256
  | .mReboot => 512
  | .requestDownload => 1024

/-- The test `( codes & code ) != 0`. -/
def Has (codes : BitVec 32) (e : EventCode) : Prop := codes &&& e.mask ≠ 0#32

instance (codes : BitVec 32) (e : EventCode) : Decidable (Has codes e) := inferInstanceAs (Decidable (_ ≠ _))

@[simp] theorem has_or (codes codes' : BitVec 32) (e : EventCode) :
    Has (codes ||| codes') e ↔ Has codes e ∨ Has codes' e := by
  rw [Has, BitVec.and_or_distrib_right, Ne, BitVec.or_eq_zero_iff, not_and_or]
  rfl

@[simp] theorem not_has_zero (e : EventCode) : ¬Has 0#32 e := by simp [Has]

/-- The text an Inform carries for a code. -/
def EventCode.text : EventCode → String
  | .bootstrap => "0 BOOTSTRAP"
  | .boot => "1 BOOT"
  | .periodic => "2 PERIODIC"
  | .scheduled => "3 SCHEDULED"
  | .valueChange => "4 VALUE CHANGE"
  | .kicked => "5 KICKED"
  | .connectionRequest => "6 CONNECTION REQUEST"
  | .transferComplete => "7 TRANSFER COMPLETE"
  | .diagnostics => "8 DIAGNOSTICS COMPLETE"
  | .mReboot => "M Reboot"
  | .requestDownload => "9 REQUEST DOWNLOAD"

/-- An entry of `eventStruct`: the text of a code and the command key that goes with it. -/
structure EventCodeStruct where
  eventCode : String
  commandKey : String
  deriving DecidableEq, Repr

/-- The agent, as far as the event codes go: where the session thread stands, the globals, and the `eventStruct` of the Inform
at hand. `late` is a ghost: the codes that were set after their test in the building of that Inform. -/
structure Agent where
  control : Control
  gEventCode : BitVec 32
  gScheduleCommandKey : String
  gTransferCommandKey : String
  gMRebootCommandKey : String
  eventStruct : List EventCodeStruct
  late : List EventCode
  deriving Repr

/-- At start: no code is set and no key is known. -/
def Agent.init : Agent := ⟨.init, 0#32, "", "", "", [], []⟩

/-- The codes whose test in `update_inform_content` is still to come: all of them, until the Inform at hand is begun and again
once it is settled. -/
def Point.untested : Point → List EventCode
  | .testCode rest => rest
  | .parameterList | .generate | .send | .response _ | .acknowledged => []
  | _ => EventCode.all

/-- `set_event_code`, with the ghost noting the codes whose test is over. -/
def Agent.setEventCode (s : Agent) (codes : BitVec 32) : Agent :=
  { s with
    gEventCode := s.gEventCode ||| codes
    late := s.late ++ EventCode.all.filter fun e => Has codes e ∧ e ∉ s.control.point.untested }

/-- The command key that goes with a code in an Inform. -/
def Agent.commandKey (s : Agent) : EventCode → String
  | .scheduled => s.gScheduleCommandKey
  | .transferComplete => s.gTransferCommandKey
  | .mReboot => s.gMRebootCommandKey
  | _ => ""

/-- One test of `update_inform_content`: a code that is set takes the next entry of `eventStruct`. -/
def Agent.testCode (s : Agent) (e : EventCode) : Agent :=
  if Has s.gEventCode e then { s with eventStruct := s.eventStruct ++ [⟨e.text, s.commandKey e⟩] } else s

/-- What a step of the session thread does to the codes and the keys. -/
def Agent.session (s : Agent) : SessionAct → Agent
  | .wakeUp true => s.setEventCode EventCode.requestDownload.mask
  | .transferCode key? =>
    -- `memset` of `eventStruct` comes first: a new Inform begins
    let s := { s with eventStruct := [], late := [] }
    match key? with
    | some key => { s.setEventCode EventCode.transferComplete.mask with gTransferCommandKey := key }
    | none => s
  | .mrebootCode (some key) => { s.setEventCode EventCode.mReboot.mask with gMRebootCommandKey := key }
  | .testCode =>
    match s.control.point with
    | .testCode (e :: _) => s.testCode e
    | _ => s
  | .reset => { s with gEventCode := 0#32, late := [] }
  | .finish true => s.setEventCode EventCode.bootstrap.mask
  | _ => s

/-- A step of the agent: of the session thread, or of the event thread or the host handler. -/
inductive AgentAct where
  | session (a : SessionAct)
  | setEventCode (codes : BitVec 32)
  | setScheduleCommandKey (key : String)
  | setTransferCommandKey (key : String)
  deriving DecidableEq, Repr

/-- One step of one thread. -/
def agentStep (s : Agent) : AgentAct → Option Agent
  | .session a => (mainSession s.control a).map fun c => { s.session a with control := c }
  | .setEventCode codes => some (s.setEventCode codes)
  | .setScheduleCommandKey key => some { s with gScheduleCommandKey := key }
  | .setTransferCommandKey key => some { s with gTransferCommandKey := key }

/-! ## What becomes of a code -/

/-- The entries carry the code. -/
def Carries (eventStruct : List EventCodeStruct) (e : EventCode) : Prop := ∃ x ∈ eventStruct, x.eventCode = e.text

instance (eventStruct : List EventCodeStruct) (e : EventCode) : Decidable (Carries eventStruct e) :=
  inferInstanceAs (Decidable (∃ x ∈ eventStruct, _))

/-- An InformResponse is at hand for an Inform that carried the code. -/
def Acknowledged (s : Agent) (e : EventCode) : Prop := s.control.point = .acknowledged ∧ Carries s.eventStruct e

instance (s : Agent) (e : EventCode) : Decidable (Acknowledged s e) := inferInstanceAs (Decidable (_ ∧ _))

/-- A code that is set stays set, unless an Inform that carried it has been acknowledged. -/
def KeepsCodes (s : Agent) (_ : AgentAct) (t : Agent) : Prop :=
  ∀ e, Has s.gEventCode e → Has t.gEventCode e ∨ Acknowledged s e

/-- The step is not a `reset_event_code` on an InformResponse to an Inform that misses a code set after its test. -/
def NoLateCode (s : Agent) (a : AgentAct) : Prop := a = .session .reset → ∀ e ∈ s.late, Carries s.eventStruct e

instance (s : Agent) (a : AgentAct) : Decidable (NoLateCode s a) := inferInstanceAs (Decidable (_ → _))

/-- What holds of every state of the agent: a set code whose test is over is in the Inform at hand or was set late, and a code
that was set late is still set. -/
structure CodeInv (s : Agent) : Prop where
  carried : ∀ e, e ∉ s.control.point.untested → Has s.gEventCode e → Carries s.eventStruct e ∨ e ∈ s.late
  late : ∀ e ∈ s.late, Has s.gEventCode e

theorem CodeInv.init : CodeInv Agent.init :=
  ⟨fun e he => absurd (EventCode.mem_all e) he, fun _ he => nomatch he⟩

theorem mem_late_setEventCode {s : Agent} {codes : BitVec 32} {e : EventCode} :
    e ∈ (s.setEventCode codes).late ↔ e ∈ s.late ∨ Has codes e ∧ e ∉ s.control.point.untested := by
  simp [Agent.setEventCode, EventCode.mem_all]

theorem CodeInv.setEventCode {s : Agent} (h : CodeInv s) (codes : BitVec 32) : CodeInv (s.setEventCode codes) := by
  refine ⟨fun e he hs => ?_, fun e he => ?_⟩
  · rw [mem_late_setEventCode]
    rcases (has_or _ _ _).1 hs with hs | hs
    · exact (h.carried e he hs).imp_right Or.inl
    · exact Or.inr (Or.inr ⟨hs, he⟩)
  · refine (has_or _ _ _).2 ?_
    rcases mem_late_setEventCode.1 he with he | ⟨hs, -⟩
    · exact Or.inl (h.late e he)
    · exact Or.inr hs

/-- Where the session thread goes, no test is undone; only the test of a code itself completes it. -/
theorem mainSession_untested {c c' : Control} {a : SessionAct} {e : EventCode} (h : mainSession c a = some c')
    (he : e ∉ c'.point.untested) :
    e ∉ c.point.untested ∨ a = .testCode ∧ ∃ rest, c.point = .testCode (e :: rest) := by
  cases a with
  | testCode =>
    simp only [mainSession] at h
    split at h
    · rename_i head e' rest hp
      obtain rfl := Option.some.inj h
      rw [hp]
      by_cases heq : e = head
      · exact Or.inr ⟨rfl, e' :: rest, by rw [heq]⟩
      · exact Or.inl fun hm => (List.mem_cons.1 hm).elim heq he
    · rename_i head hp
      rw [hp]
      by_cases heq : e = head
      · exact Or.inr ⟨rfl, [], by rw [heq]⟩
      · exact Or.inl fun hm => heq (List.mem_singleton.1 hm)
    · cases h
  | _ => grind [mainSession, Point.untested, EventCode.mem_all]

theorem mainSession_testCode {c c' : Control} (h : mainSession c .testCode = some c') :
    ∃ e rest, c.point = .testCode (e :: rest) := by
  simp only [mainSession] at h
  split at h
  · rename_i e e' rest hp
    exact ⟨e, e' :: rest, hp⟩
  · rename_i e hp
    exact ⟨e, [], hp⟩
  · cases h

/-- Going on to another point keeps the invariant when no more tests are over there. -/
theorem CodeInv.goto {s : Agent} (h : CodeInv s) {c : Control}
    (hc : ∀ e, e ∉ c.point.untested → e ∉ s.control.point.untested) : CodeInv { s with control := c } :=
  ⟨fun e he => h.carried e (hc e he), h.late⟩

/-- While no test is over, only what the ghost notes matters. -/
theorem CodeInv.ofUntested {s : Agent} (hp : s.control.point.untested = EventCode.all)
    (hl : ∀ e ∈ s.late, Has s.gEventCode e) : CodeInv s :=
  ⟨fun e he => absurd (EventCode.mem_all e) (hp ▸ he), hl⟩

/-- The test of a code puts it into the Inform when it is set, and leaves the other codes where they are. -/
theorem CodeInv.testCode {s : Agent} (h : CodeInv s) {e : EventCode} {rest : List EventCode} {c : Control}
    (hs : s.control.point = .testCode (e :: rest)) (hc : mainSession s.control .testCode = some c) :
    CodeInv { s.testCode e with control := c } := by
  have hother : ∀ e', e' ∉ c.point.untested → e' ≠ e → e' ∉ s.control.point.untested := by
    intro e' he' hne
    rcases mainSession_untested hc he' with he' | ⟨-, rest', hp⟩
    · exact he'
    · rw [hs] at hp
      cases hp
      exact absurd rfl hne
  unfold Agent.testCode
  split
  · refine ⟨fun e' he' hhas => ?_, h.late⟩
    by_cases heq : e' = e
    · exact Or.inl ⟨_, List.mem_append_right _ (List.mem_singleton.2 rfl), by rw [heq]⟩
    · refine (h.carried e' (hother e' he' heq) hhas).imp_left ?_
      rintro ⟨x, hx, hxe⟩
      exact ⟨x, List.mem_append_left _ hx, hxe⟩
  · rename_i hnot
    refine ⟨fun e' he' hhas => h.carried e' (hother e' he' ?_) hhas, h.late⟩
    rintro rfl
    exact hnot hhas

/-- Every step of the session thread keeps the invariant. -/
theorem CodeInv.session {s : Agent} (h : CodeInv s) {a : SessionAct} {c : Control}
    (hc : mainSession s.control a = some c) : CodeInv { s.session a with control := c } := by
  have hgo : a ≠ .testCode → ∀ e, e ∉ c.point.untested → e ∉ s.control.point.untested := by
    intro hne e he
    rcases mainSession_untested hc he with he | ⟨ha, -⟩
    · exact he
    · exact absurd ha hne
  cases a with
  | testCode =>
    obtain ⟨e, rest, hp⟩ := mainSession_testCode hc
    have hs : s.session .testCode = s.testCode e := by simp only [Agent.session, hp]
    rw [hs]
    exact h.testCode hp hc
  | transferCode key? =>
    simp only [mainSession, Option.ite_none_right_eq_some, Option.some.injEq] at hc
    obtain ⟨-, rfl⟩ := hc
    cases key? with
    | none => exact .ofUntested rfl fun e he => nomatch he
    | some key =>
      refine .ofUntested rfl fun e he => (has_or _ _ _).2 ?_
      rcases mem_late_setEventCode.1 he with he | ⟨hhas, -⟩
      · cases he
      · exact Or.inr hhas
  | reset => exact ⟨fun e _ hhas => absurd hhas (not_has_zero e), fun e he => nomatch he⟩
  | wakeUp requestDownload =>
    cases requestDownload with
    | false => exact h.goto (hgo nofun)
    | true => exact (h.setEventCode _).goto (hgo nofun)
  | mrebootCode key? =>
    cases key? with
    | none => exact h.goto (hgo nofun)
    | some key =>
      have hset := (h.setEventCode EventCode.mReboot.mask).goto (hgo nofun)
      exact ⟨hset.carried, hset.late⟩
  | finish urlChanged =>
    cases urlChanged with
    | false => exact h.goto (hgo nofun)
    | true => exact (h.setEventCode _).goto (hgo nofun)
  | _ => exact h.goto (hgo nofun)

/-- Every step of the agent keeps the invariant. -/
theorem CodeInv.step {s t : Agent} (h : CodeInv s) {a : AgentAct} (hs : agentStep s a = some t) : CodeInv t := by
  cases a with
  | session a =>
    obtain ⟨c, hc, rfl⟩ := Option.map_eq_some_iff.1 hs
    exact h.session hc
  | setEventCode codes =>
    obtain rfl := Option.some.inj hs
    exact h.setEventCode codes
  | setScheduleCommandKey key =>
    obtain rfl := Option.some.inj hs
    exact ⟨h.carried, h.late⟩
  | setTransferCommandKey key =>
    obtain rfl := Option.some.inj hs
    exact ⟨h.carried, h.late⟩

/-! ## No code is lost, and when one is -/

/-- Only `reset_event_code` takes codes out of `gEventCode`. -/
theorem agentStep_has {s t : Agent} {a : AgentAct} (hs : agentStep s a = some t) (ha : a ≠ .session .reset) {e : EventCode}
    (he : Has s.gEventCode e) : Has t.gEventCode e := by
  have hset : ∀ codes, Has (s.setEventCode codes).gEventCode e := fun _ => (has_or _ _ _).2 (Or.inl he)
  cases a with
  | session a =>
    obtain ⟨c, hc, rfl⟩ := Option.map_eq_some_iff.1 hs
    show Has (s.session a).gEventCode e
    unfold Agent.session
    split
    · exact hset _
    · split
      · exact (has_or _ _ _).2 (Or.inl he)
      · exact he
    · exact hset _
    · split
      · unfold Agent.testCode
        split
        · exact he
        · exact he
      · exact he
    · exact absurd rfl ha
    · exact hset _
    · exact he
  | setEventCode codes =>
    obtain rfl := Option.some.inj hs
    exact hset codes
  | setScheduleCommandKey key | setTransferCommandKey key =>
    obtain rfl := Option.some.inj hs
    exact he

theorem agentStep_reset {s t : Agent} (hs : agentStep s (.session .reset) = some t) :
    s.control.point = .acknowledged ∧ t.gEventCode = 0#32 := by
  obtain ⟨c, hc, rfl⟩ := Option.map_eq_some_iff.1 hs
  simp only [mainSession, Option.ite_none_right_eq_some] at hc
  exact ⟨hc.1, rfl⟩

/-- **No event code is lost, exactly when no reset meets a late one.** In a run of the agent, with the codes set by the other
threads at any point of it, every code that is set stays set until an Inform that carried it has been acknowledged, if and only
if no `reset_event_code` follows an Inform that misses a code set after its test in the building of that Inform. -/
theorem event_codes_kept_iff {tr : List (Transition Agent AgentAct)} {s : Agent}
    (hr : Run (Step.ofOption agentStep) Agent.init tr s) : Always KeepsCodes tr ↔ Meets NoLateCode tr := by
  refine Run.all_iff (I := CodeInv) CodeInv.init (fun s a t hi hg hs => ⟨hi.step hs, ?_⟩) (fun s a t hi hg hs hkeep => ?_) hr
  · intro e he
    by_cases ha : a = .session .reset
    · subst ha
      have hp := (agentStep_reset hs).1
      refine Or.inr ⟨hp, ?_⟩
      rcases hi.carried e (by simp [hp, Point.untested]) he with hc | hl
      · exact hc
      · exact hg rfl e hl
    · exact Or.inl (agentStep_has hs ha he)
  · refine hg fun ha e he => ?_
    subst ha
    rcases hkeep e (hi.late e he) with hhas | hack
    · rw [(agentStep_reset hs).2] at hhas
      exact absurd hhas (not_has_zero e)
    · exact hack.2

/-- The session thread from its waking up to the Inform ready to be sent. -/
def buildInform : List SessionAct :=
  [SessionAct.wakeUp false, SessionAct.connect true, SessionAct.transferCode none, SessionAct.mrebootCode none] ++
    List.replicate 11 SessionAct.testCode ++ [SessionAct.parameterList true, SessionAct.generate true]

/-- The Inform is sent, answered by an InformResponse, and the codes are reset. -/
def sendInform : List SessionAct := [.send true, .informResponse, .reset]

/-- A session that goes through: the boot code is set, the Inform is built, sent and acknowledged, and a value changes after
that. -/
def quietSession : List AgentAct :=
  .setEventCode EventCode.boot.mask :: (buildInform ++ sendInform).map .session ++
    [.setEventCode EventCode.valueChange.mask]

theorem event_codes_kept_quietSession : Always KeepsCodes (play agentStep Agent.init quietSession).1 :=
  (event_codes_kept_iff (Run.ofPlay agentStep Agent.init quietSession)).2 (by decide)

/-- The same session, with the value changing while the Inform is on its way. -/
def lateChange : List AgentAct :=
  .setEventCode EventCode.boot.mask :: buildInform.map .session ++
    .setEventCode EventCode.valueChange.mask :: sendInform.map .session

/-- A code set while the Inform is on its way is lost: the reset clears it with those the Inform carried. -/
theorem event_code_lost :
    ¬∀ (tr : List (Transition Agent AgentAct)) (s : Agent),
      Run (Step.ofOption agentStep) Agent.init tr s → Always KeepsCodes tr := by
  intro h
  have hkeep := h _ _ (Run.ofPlay agentStep Agent.init lateChange)
  -- the last step is the reset, with the changed value set and not in the Inform
  have hreset := hkeep _ (List.getLast_mem (l := (play agentStep Agent.init lateChange).1) (by decide)) .valueChange (by decide)
  exact absurd hreset (by decide)

end CodeFactory.Core
