import CodeFactory.Core.EventHistory

/-!
# Dispatch

The event thread passes every event it takes to a function, once, and never one that was replaced or deleted before it expired.
Which function that is, the callback table decides: `add_event` indexes it with the number of the event type, and its rows are not
in the order of the enumeration.
-/

namespace CodeFactory.Core

variable {α : Type*}

/-- The step does right by the events that are dispatched: the call made is to the function of the event's own type, with the
argument that `add_event` last gave for it; every event taken so far was passed to its function once, except the one at hand; and
no cancelled event was. -/
structure DispatchOk (s : EventState α) (a : EventAct α) (t : EventState α) : Prop where
  handler : a = .run → ∀ p, s.timeout = some p → ∃ type arg, s.log.given[(s.node p).id]? = some (type, arg) ∧
    t.log.dispatched = s.log.dispatched ++ [⟨(s.node p).id, some type.handler, arg⟩]
  once : t.log.taken.Nodup ∧ t.log.taken = t.log.dispatchedIds ++ t.timeout.toList.map fun p => (t.node p).id
  cancelled : ∀ i ∈ t.log.cancelled, i ∉ t.log.dispatchedIds

/-- A type whose number is that of its row in the callback table. -/
def InOwnRow (type : Option EventType) : Prop := type ≠ some .stunNotify ∧ type ≠ some .schedule

instance (type : Option EventType) : Decidable (InOwnRow type) := inferInstanceAs (Decidable (_ ∧ _))

theorem eventFuncOf_eq_handler_iff (type : EventType) :
    eventFuncOf type = some type.handler ↔ InOwnRow (some type) := by
  cases type <;> decide

/-- The step does not pass an event of type STUN_NOTIFY or SCHEDULE to its function. -/
def RunsOwnRow (s : EventState α) : EventAct α → Prop
  | .run => ∀ p ∈ s.timeout, InOwnRow (s.node p).event.func.type
  | _ => True

instance (s : EventState α) : (a : EventAct α) → Decidable (RunsOwnRow s a)
  | .run => inferInstanceAs (Decidable (∀ p ∈ s.timeout, InOwnRow (s.node p).event.func.type))
  | .addEvent .. | .setEvent .. | .deleteEvent .. | .tick | .round | .tickEnd | .take => .isTrue trivial

/-- Every event that was taken is dispatched, once, unless it is at hand; no cancelled event is. -/
theorem Sound.once {s : EventState α} (h : Sound s) :
    (s.log.taken.Nodup ∧ s.log.taken = s.log.dispatchedIds ++ s.timeout.toList.map fun p => (s.node p).id) ∧
      ∀ i ∈ s.log.cancelled, i ∉ s.log.dispatchedIds := by
  obtain ⟨vs, ts, ys, hl, hh⟩ := h
  have htaken : s.log.taken = s.log.dispatchedIds ++ s.timeout.toList.map fun p => (s.node p).id := by
    refine hh.taken.trans ?_
    cases htimeout : s.timeout <;> simp [EventState.view, htimeout]
  refine ⟨⟨?_, htaken⟩, fun i hi hd => ?_⟩
  · exact (List.nodup_append.1 (hh.movedPerm.nodup_iff.2 hh.movedIds)).1
  · have hm : i ∈ s.log.taken := htaken ▸ List.mem_append_left _ hd
    exact hh.cancelled i hi (hh.movedPerm.mem_iff.1 (List.mem_append_left _ hm))

theorem Sound.run {s t : EventState α} (h : Sound s) (hs : eventStep s .run = some t) {p : EventPtr}
    (hp : s.timeout = some p) :
    ∃ type arg, s.log.given[(s.node p).id]? = some (type, arg) ∧ (s.node p).event.func.type = some type ∧
      t.log.dispatched = s.log.dispatched ++ [⟨(s.node p).id, eventFuncOf type, arg⟩] := by
  obtain ⟨vs, ts, ys, hl, hh⟩ := h
  obtain ⟨type, arg, hg, hfunc, harg⟩ := hh.given (s.node p) (Or.inr (Or.inr (by simp [EventState.view, hp])))
  refine ⟨type, arg, hg, by rw [hfunc], ?_⟩
  simp only [eventStep, hp, Option.some.injEq] at hs
  rw [← hs, hfunc, harg]

/-- **Dispatch is right exactly for the types in their own row.** In a run of the event module every event that is taken is passed
once, to the function of its own type with the argument last given, and no event that was replaced or deleted is, if and only
if no event of type STUN_NOTIFY or SCHEDULE is dispatched. -/
theorem dispatch_ok_iff {tr : List (Transition (EventState α) (EventAct α))} {s : EventState α}
    (hr : Run (Step.ofOption eventStep) EventState.init tr s) : Always DispatchOk tr ↔ Meets RunsOwnRow tr := by
  refine Run.all_iff (I := Sound) Sound.init (fun s a t hi hg hs => ?_) (fun s a t hi hg hs hok => hg ?_) hr
  · have ht := hi.step hs
    refine ⟨ht, ?_, ht.once.1, ht.once.2⟩
    rintro rfl p hp
    obtain ⟨type, arg, hgiven, htype, hd⟩ := hi.run hs hp
    refine ⟨type, arg, hgiven, ?_⟩
    rw [hd, (eventFuncOf_eq_handler_iff type).2 (htype ▸ hg p hp)]
  · cases a with
    | run =>
      intro p hp
      obtain ⟨type, arg, hgiven, htype, hd⟩ := hi.run hs hp
      obtain ⟨type', arg', hgiven', hd'⟩ := hok.handler rfl p hp
      obtain ⟨rfl, rfl⟩ := Prod.mk.inj (Option.some.inj (hgiven.symm.trans hgiven'))
      have hcall := List.append_cancel_left (hd.symm.trans hd')
      rw [htype, ← eventFuncOf_eq_handler_iff]
      exact (Dispatch.mk.inj (List.cons.inj hcall).1).2.1
    | _ => trivial

/-- One event of a type, from the call that adds it to the call that is made for it a second later. -/
def oneEvent (type : EventType) : List (EventAct Nat) :=
  [.addEvent (some 0) 1 type (some "event") (some 7), .tick, .round, .tickEnd, .take, .run]

theorem dispatch_ok_inform : Always DispatchOk (play eventStep EventState.init (oneEvent .inform)).1 :=
  (dispatch_ok_iff (Run.ofPlay eventStep EventState.init (oneEvent .inform))).2 (by decide)

/-- A notification of the STUN client is passed to the function for scheduled Informs. -/
theorem dispatch_not_ok :
    ¬∀ (tr : List (Transition (EventState Nat) (EventAct Nat))) (s : EventState Nat),
      Run (Step.ofOption eventStep) EventState.init tr s → Always DispatchOk tr := by
  intro h
  have hok := h _ _ (Run.ofPlay eventStep EventState.init (oneEvent .stunNotify))
  have hlast := hok _ (List.getLast_mem (l := (play eventStep EventState.init (oneEvent .stunNotify)).1) (by decide))
  obtain ⟨type, arg, hgiven, hd⟩ := hlast.handler rfl (.node 0) rfl
  cases hgiven
  cases hd

end CodeFactory.Core
