import CodeFactory.Msg.TcmMsg

/-!
# Requests and their replies

A call takes the first message of the type of its request for the reply, whoever sent it and whichever request it answers.
-/

namespace CodeFactory.Msg

open Oal

namespace Process

/-- A call that takes a message for the reply takes the response to its request, and every value that a call has returned is
the `wordData` of the response to its request. -/
structure Paired (s : Process) : Prop where
  current : ∀ c msg, s.call = some c → c.ended = some (.reply msg) → msg.answers = some c.number
  returned : ∀ number e v, (number, e) ∈ s.returned → e.value = some v →
    ∃ msg, e = .reply msg ∧ msg.answers = some number ∧ msg.wordData = v

/-- The message that the call takes for its reply: one that is received in full, has the type of the request, and can be
copied to the buffer if there is one. -/
def takenBy (c : Call) (r : Receive) : Option TcmMsg :=
  match oalMsgReceive c.timeout r with
  | some (_, some msg) => if msg.type = c.sentType ∧ ∀ b ∈ c.replyBuf, b.Takes msg then some msg else none
  | _ => none

/-- What a waiting call takes for its reply is the response to its request. -/
def Matched (s : Process) : MsgAct → Prop
  | .receive r => ∀ c ∈ s.call, ∀ msg ∈ takenBy c r, msg.answers = some c.number
  | _ => True

instance (s : Process) (a : MsgAct) : Decidable (s.Matched a) :=
  match a with
  | .receive r => inferInstanceAs (Decidable (∀ c ∈ s.call, ∀ msg ∈ takenBy c r, msg.answers = some c.number))
  | .sendAndGetReply .. | .requeue .. => inferInstanceAs (Decidable True)

variable {s t : Process}

/-- A call is at its end with the message it takes for its reply; when it takes none, it is not at its end with one. -/
theorem afterReceive_ended {c : Call} {r : Receive} {result : TcmRet × Option TcmMsg} (hended : c.ended = none)
    (hcall : s.call = some c) (hr : oalMsgReceive c.timeout r = some result) :
    ∃ c', ((s.note c r.arrived).afterReceive c result).call = some c' ∧ c'.number = c.number ∧
      ∀ msg, c'.ended = some (.reply msg) ↔ takenBy c r = some msg := by
  obtain ⟨ret, received⟩ := result
  unfold takenBy
  rw [hr]
  cases received with
  | none =>
    have hnext : ((s.note c r.arrived).afterReceive c (ret, none)).call = some { c with ended := some (.error ret) } := by
      cases ret <;> rfl
    exact ⟨_, hnext, rfl, by simp⟩
  | some msg =>
    obtain ⟨-, rfl⟩ := arrived_of_received hr
    simp only [afterReceive]
    by_cases htype : msg.type = c.sentType
    · rw [if_pos htype]
      unfold takeReply
      cases hb : c.replyBuf with
      | none => exact ⟨_, rfl, rfl, by simp [htype]⟩
      | some b =>
        by_cases htakes : b.Takes msg
        · exact ⟨{ c with ended := some (.reply msg) }, by simp [htakes, hb], rfl, by simp [htakes, htype]⟩
        · exact ⟨c, by simp [htakes, note, hcall], rfl, by simp [htakes, hended]⟩
    · rw [if_neg htype]
      exact ⟨_, rfl, rfl, by simp [hended, htype]⟩

theorem afterReceive_returned {c : Call} {m : Option TcmMsg} {result : TcmRet × Option TcmMsg} :
    ((s.note c m).afterReceive c result).returned = s.returned := by
  unfold afterReceive takeReply
  repeat' split
  all_goals rfl

/-- A step keeps the pairing when the message it takes is matched, and only then. -/
theorem Paired.step (h : Paired s) {a : MsgAct} (hs : s.step a = some t) : Paired t ↔ s.Matched a := by
  cases a with
  | sendAndGetReply type timeout replyBuf sent =>
    obtain ⟨hcall, -, rfl | ⟨ret, rfl⟩⟩ := step_sendAndGetReply hs
    · refine iff_of_true ⟨?_, h.returned⟩ trivial
      intro c msg hc he
      cases hc
      cases he
    · refine iff_of_true ⟨h.current, ?_⟩ trivial
      intro number e v hmem hv
      rcases List.mem_append.1 hmem with hmem | hmem
      · exact h.returned number e v hmem hv
      · obtain ⟨rfl, rfl⟩ := Prod.mk.inj (List.mem_singleton.1 hmem)
        cases hv
  | receive r =>
    obtain ⟨c, result, hcall, -, hended, hr, rfl⟩ := step_receive hs
    obtain ⟨c', hcall', hnumber, htaken⟩ := afterReceive_ended hended hcall hr
    refine ⟨fun hp => ?_, fun hm => ⟨?_, afterReceive_returned (s := s) ▸ h.returned⟩⟩
    · intro c₀ hc₀ msg hmsg
      obtain rfl : c = c₀ := Option.some.inj (hcall.symm.trans hc₀)
      rw [← hnumber]
      exact hp.current c' msg hcall' ((htaken msg).2 hmsg)
    · intro c₀ msg hc₀ he
      obtain rfl : c' = c₀ := Option.some.inj (hcall'.symm.trans hc₀)
      rw [hnumber]
      exact hm c hcall msg ((htaken msg).1 he)
  | requeue sent =>
    obtain ⟨c, e, hcall, -, hended, rfl⟩ := step_requeue hs
    refine iff_of_true ?_ trivial
    unfold afterRequeue
    split
    · refine ⟨fun c msg hc' _ => (by cases hc'), ?_⟩
      intro number e' v hmem hv
      rcases List.mem_append.1 hmem with hmem | hmem
      · exact h.returned number e' v hmem hv
      · obtain ⟨rfl, rfl⟩ := Prod.mk.inj (List.mem_singleton.1 hmem)
        cases e' with
        | reply msg => exact ⟨msg, rfl, h.current c msg hcall hended, Option.some.inj hv⟩
        | error ret => cases hv
    · exact ⟨h.current, h.returned⟩

/-- A message of a type, with the request it answers and the word it carries. -/
def message (type : BitVec 32) (answers : Option Nat) (wordData : BitVec 32) : TcmMsg :=
  { emptyMsgHeader with type := type, response := answers.isSome, wordData := wordData, answers := answers }

/-- A request whose response comes after an event, a request of another application and a response that is too late. -/
def servedActs : List MsgAct :=
  [.sendAndGetReply 7 (some 300) none .full, .receive .notAvailable, .requeue .full,
    .sendAndGetReply 8 none none .full, .receive (.header (message 9 none 1) true []),
    .receive (.header (message 7 (some 0) 5) true []), .receive (.header (message 8 (some 1) 3) true []),
    .requeue .full, .requeue .full, .requeue .full]

/-- A request whose response comes too late, and a request of the same type. -/
def lateActs : List MsgAct :=
  [.sendAndGetReply 7 (some 300) none .full, .receive .notAvailable, .requeue .full,
    .sendAndGetReply 7 none none .full, .receive (.header (message 7 (some 0) 5) true []), .requeue .full]

/-- **Requests and replies.** In a run every value that a call returns comes from the response to its request if and only if no
call takes another message of that type before. -/
theorem replies_paired_iff {tr : List (Transition Process MsgAct)} (hr : Run (Step.ofOption Process.step) init tr s) :
    Always (fun _ _ t => Paired t) tr ↔ Meets Matched tr := by
  have h0 : Paired init := ⟨fun c msg hc _ => (by cases hc), fun number e v hmem _ => (by cases hmem)⟩
  exact Run.all_iff h0 (fun s a t hp hm hs => ⟨(hp.step hs).2 hm, (hp.step hs).2 hm⟩)
    (fun s a t hp hm hs ht => hm ((hp.step hs).1 ht)) hr

/-- A late response and another request arrive first, and the second call returns the word of its own response. -/
theorem replies_paired_served :
    (play Process.step init servedActs).2.returned = [(0, .error .timedOut), (1, .reply (message 8 (some 1) 3))] ∧
      Always (fun _ _ t => Paired t) (play Process.step init servedActs).1 :=
  ⟨by decide +kernel, (replies_paired_iff (Run.ofPlay Process.step init servedActs)).2 (by decide +kernel)⟩

/-- The second of two requests of one type returns the word of the response to the first one, which comes too late. -/
theorem reply_late :
    ¬∀ (tr : List (Transition Process MsgAct)) (s : Process), Run (Step.ofOption Process.step) init tr s → Paired s := by
  intro h
  have hpaired := (h _ _ (Run.ofPlay Process.step init lateActs)).returned 1 (.reply (message 7 (some 0) 5)) 5
    (by decide +kernel) rfl
  obtain ⟨msg, heq, hanswers, -⟩ := hpaired
  cases heq
  cases hanswers

end Process

end CodeFactory.Msg
