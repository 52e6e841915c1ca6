import CodeFactory.Msg.TcmMsg

/-!
# Messages that arrive while a call waits

They are put back and sent to the scheduler again, in the order in which they arrived. Nothing is done when that fails, nor for
a message that is taken for the reply or not read to its end.
-/

namespace CodeFactory.Msg

open Oal

namespace Process

/-- Every message that was not waited for has been sent to the scheduler again or is in the queue, in the order of arrival,
and when no call is going on the queue is empty. -/
structure NothingLost (s : Process) : Prop where
  alive : s.failed = false
  kept : s.unrelated.map TcmMsg.requeued = s.handedBack ++ s.putBackQueue.map TcmMsg.requeued
  emptied : s.call = none → s.putBackQueue = []

/-- The message that a waiting call receives in full. -/
def received (c : Call) (r : Receive) : Option TcmMsg := (oalMsgReceive c.timeout r).bind Prod.snd

/-- A message that a call does not wait for is received in full and has another type than the request; the reply can be copied
to the buffer, if there is one; and a message that is sent to the scheduler again is sent in full. -/
def Safe (s : Process) : MsgAct → Prop
  | .sendAndGetReply .. => True
  | .receive r => ∀ c ∈ s.call, ∀ msg ∈ r.arrived,
    if Unrelated c msg then received c r = some msg ∧ msg.type ≠ c.sentType
    else received c r = some msg → ∀ b ∈ c.replyBuf, b.Takes msg
  | .requeue sent => s.putBackQueue = [] ∨ oalMsgSend sent = .success

instance (s : Process) (a : MsgAct) : Decidable (s.Safe a) :=
  match a with
  | .sendAndGetReply .. => inferInstanceAs (Decidable True)
  | .receive r => inferInstanceAs (Decidable (∀ c ∈ s.call, ∀ msg ∈ r.arrived,
      if Unrelated c msg then received c r = some msg ∧ msg.type ≠ c.sentType
      else received c r = some msg → ∀ b ∈ c.replyBuf, b.Takes msg))
  | .requeue sent => inferInstanceAs (Decidable (s.putBackQueue = [] ∨ oalMsgSend sent = .success))

variable {s t : Process}

/-- A message that is not received in full is lost when the call did not wait for it. -/
theorem NothingLost.receive_none (h : NothingLost s) {c : Call} {r : Receive} {ret : TcmRet} (hcall : s.call = some c)
    (hr : oalMsgReceive c.timeout r = some (ret, none)) :
    NothingLost ((s.note c r.arrived).afterReceive c (ret, none)) ↔ s.Safe (.receive r) := by
  have heq : (s.note c r.arrived).afterReceive c (ret, none) =
      { s.note c r.arrived with call := some { c with ended := some (.error ret) } } := by
    cases ret <;> rfl
  have hnone : received c r = none := by rw [received, hr]; rfl
  rw [heq]
  constructor
  · intro hl c' hc' msg hmsg
    obtain rfl : c = c' := Option.some.inj (hcall.symm.trans hc')
    rw [hnone]
    split
    · rename_i hu
      have hlen := congrArg List.length hl.kept
      have hlen' := congrArg List.length h.kept
      rw [Option.mem_def] at hmsg
      simp [note, hmsg, hu] at hlen hlen'
      omega
    · intro heq'
      cases heq'
  · intro hsafe
    have hfilter : (r.arrived.toList.filter fun msg => Unrelated c msg) = [] := by
      rw [List.filter_eq_nil_iff]
      intro msg hmsg hu
      have := hsafe c hcall msg (Option.mem_toList.1 hmsg)
      rw [if_pos (by simpa using hu), hnone] at this
      cases this.1
    refine ⟨h.alive, ?_, fun hcall => by cases hcall⟩
    show (s.unrelated ++ _).map _ = _
    rw [hfilter, List.append_nil]
    exact h.kept

/-- A message of the type of the request that is received ends the waiting; it is lost when the call did not wait for it. -/
theorem NothingLost.receive_reply (h : NothingLost s) {c : Call} {r : Receive} {msg : TcmMsg} (hcall : s.call = some c)
    (hr : oalMsgReceive c.timeout r = some (.success, some msg)) (htype : msg.type = c.sentType) :
    NothingLost ((s.note c r.arrived).afterReceive c (.success, some msg)) ↔ s.Safe (.receive r) := by
  obtain ⟨harrived, -⟩ := arrived_of_received hr
  have hreceived : received c r = some msg := by rw [received, hr]; rfl
  have hsafe : s.Safe (.receive r) ↔ ¬Unrelated c msg ∧ ∀ b ∈ c.replyBuf, b.Takes msg := by
    simp only [Safe, hcall, harrived, hreceived, Option.mem_def, Option.some.injEq, forall_eq']
    by_cases hu : Unrelated c msg
    · simp [hu, htype]
    · simp [hu]
  rw [hsafe, harrived]
  simp only [afterReceive]
  rw [if_pos htype]
  have hkept : (s.note c (some msg)).unrelated.map TcmMsg.requeued =
      (s.note c (some msg)).handedBack ++ (s.note c (some msg)).putBackQueue.map TcmMsg.requeued ↔ ¬Unrelated c msg := by
    have hlen := congrArg List.length h.kept
    by_cases hu : Unrelated c msg
    · refine iff_of_false ?_ (not_not_intro hu)
      intro hk
      have hlen' := congrArg List.length hk
      simp [note, hu] at hlen hlen'
      omega
    · exact iff_of_true (by simpa [note, hu] using h.kept) hu
  unfold takeReply
  cases hb : c.replyBuf with
  | none => exact ⟨fun hl => ⟨hkept.1 hl.kept, by simp⟩, fun hs => ⟨h.alive, hkept.2 hs.1, fun hc => by cases hc⟩⟩
  | some b =>
    by_cases htakes : b.Takes msg
    · simp only [if_pos htakes]
      exact ⟨fun hl => ⟨hkept.1 hl.kept, by simpa using htakes⟩, fun hs => ⟨h.alive, hkept.2 hs.1, fun hc => by cases hc⟩⟩
    · simp only [if_neg htakes]
      exact ⟨fun hl => (by cases hl.alive), fun hs => absurd (hs.2 b rfl) htakes⟩

/-- A message of another type that is received is put back. -/
theorem NothingLost.receive_other (h : NothingLost s) {c : Call} {r : Receive} {msg : TcmMsg} (hcall : s.call = some c)
    (hr : oalMsgReceive c.timeout r = some (.success, some msg)) (htype : msg.type ≠ c.sentType) :
    NothingLost ((s.note c r.arrived).afterReceive c (.success, some msg)) ↔ s.Safe (.receive r) := by
  obtain ⟨harrived, -⟩ := arrived_of_received hr
  have hreceived : received c r = some msg := by rw [received, hr]; rfl
  have hu : Unrelated c msg := fun h => htype h.2
  refine iff_of_true ?_ ?_
  · rw [harrived]
    simp only [afterReceive]
    rw [if_neg htype]
    refine ⟨h.alive, ?_, fun hc => by cases hc⟩
    have hkept := h.kept
    simp [note, hu, tcmMsgPutBack, hkept]
  · intro c' hc' m hm
    obtain rfl : c = c' := Option.some.inj (hcall.symm.trans hc')
    rw [harrived, Option.mem_def] at hm
    cases hm
    rw [if_pos hu]
    exact ⟨hreceived, htype⟩

/-- A step loses nothing when it is safe, and only then. -/
theorem NothingLost.step (h : NothingLost s) {a : MsgAct} (hs : s.step a = some t) : NothingLost t ↔ s.Safe a := by
  cases a with
  | sendAndGetReply type timeout replyBuf sent =>
    obtain ⟨hcall, -, rfl | ⟨ret, rfl⟩⟩ := step_sendAndGetReply hs
    · exact iff_of_true ⟨h.alive, h.kept, fun hc => by cases hc⟩ trivial
    · exact iff_of_true ⟨h.alive, h.kept, h.emptied⟩ trivial
  | receive r =>
    obtain ⟨c, ⟨ret, m⟩, hcall, -, -, hr, rfl⟩ := step_receive hs
    cases m with
    | none => exact h.receive_none hcall hr
    | some msg =>
      obtain ⟨-, rfl⟩ := arrived_of_received hr
      by_cases htype : msg.type = c.sentType
      · exact h.receive_reply hcall hr htype
      · exact h.receive_other hcall hr htype
  | requeue sent =>
    obtain ⟨c, e, hcall, -, -, rfl⟩ := step_requeue hs
    have hkept := h.kept
    unfold afterRequeue Safe
    cases hq : s.putBackQueue with
    | nil =>
      rw [hq] at hkept
      exact iff_of_true ⟨h.alive, by simpa using hkept, fun _ => rfl⟩ (Or.inl rfl)
    | cons msg rest =>
      rw [hq] at hkept
      by_cases hsent : oalMsgSend sent = .success
      · refine iff_of_true ⟨h.alive, ?_, fun hc => ?_⟩ (Or.inr hsent)
        · simpa [hsent] using hkept
        · exact absurd (hcall.symm.trans hc) (by simp)
      · refine iff_of_false ?_ (by simp [hsent])
        intro hl
        have hlen := congrArg List.length hl.kept
        have hlen' := congrArg List.length hkept
        simp [hsent] at hlen hlen'
        omega

/-- Two calls while which an event and a request arrive, the second of which gets no reply. -/
def interruptedActs : List MsgAct :=
  [.sendAndGetReply 7 none (some ⟨256, true⟩) .full, .receive (.header { emptyMsgHeader with type := 9, data := [1, 2, 3] } true
      [.bytes 2, .bytes 1]), .receive (.header { emptyMsgHeader with type := 7, answers := some 0 } true []),
    .requeue .full, .requeue .full, .sendAndGetReply 7 (some 300) none .full,
    .receive (.header { emptyMsgHeader with type := 8 } true []), .receive .notAvailable, .requeue .full, .requeue .full]

/-- An event arrives before the reply and cannot be sent to the scheduler again. -/
def unsentActs : List MsgAct :=
  [.sendAndGetReply 7 none none .full, .receive (.header { emptyMsgHeader with type := 9 } true []),
    .receive (.header { emptyMsgHeader with type := 7, answers := some 0 } true []), .requeue .failed, .requeue .full]

end Process

end CodeFactory.Msg
