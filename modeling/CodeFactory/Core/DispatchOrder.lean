import CodeFactory.Core.EventHistory

/-!
# The order of dispatch

`timer_thread` links an event that is over in behind the header of the timeout list, and `event_thread` takes the one behind the
header: the list is a stack. Events are dispatched in the order of the ticks that moved them as long as the event thread keeps up;
an event left waiting when a later tick moves another one is dispatched after it.
-/

namespace CodeFactory.Core

variable {α : Type*}

/-- Before the event at hand is dispatched, every event that an earlier tick moved was. -/
def OrderOk (s : EventState α) (a : EventAct α) (_ : EventState α) : Prop :=
  a = .run → ∀ p, s.timeout = some p → ∀ i k k', ((s.node p).id, k') ∈ s.log.moved → (i, k) ∈ s.log.moved → k < k' →
    i ∈ s.log.dispatchedIds

/-- When the step moves an event, the event thread has taken every event that an earlier tick moved. -/
def Drained (s : EventState α) : EventAct α → Prop
  | .round => ∀ c ∈ s.timer, ∀ p ∈ c, (s.node p).countDown.time = 0 →
      ∀ x ∈ s.log.moved, x.1 ∉ s.log.taken → x.2 = s.log.ticks
  | _ => True

instance (s : EventState α) : (a : EventAct α) → Decidable (Drained s a)
  | .round => inferInstanceAs (Decidable (∀ c ∈ s.timer, ∀ p ∈ c, (s.node p).countDown.time = 0 →
      ∀ x ∈ s.log.moved, x.1 ∉ s.log.taken → x.2 = s.log.ticks))
  | .addEvent .. | .setEvent .. | .deleteEvent .. | .tick | .tickEnd | .take | .run => .isTrue trivial

/-- The events that wait were all moved by one tick, and not before the one at hand. -/
structure Level (v : EventView α) : Prop where
  same : ∀ n ∈ v.timeouts, ∀ n' ∈ v.timeouts, n.movedAt = n'.movedAt
  held : ∀ n, v.held = some n → ∀ n' ∈ v.timeouts, n.movedAt ≤ n'.movedAt

/-- Of the event at hand and those that wait, one is to be dispatched before another that an earlier tick moved. -/
def Inverted (v : EventView α) : Prop :=
  ∃ n n', [n, n'].Sublist (v.held.toList ++ v.timeouts) ∧ n'.movedAt < n.movedAt

variable {v w : EventView α} {a : EventAct α}

namespace Level

theorem init : Level (EventState.view (EventState.init : EventState α) [] [] []) := by
  constructor <;> simp [EventState.view, EventState.init]

/-- A step keeps the waiting events level when what it moves finds none of an earlier tick. -/
theorem step (h : Level v) (hh : History v)
    (hg : ∀ n ns, a = .round → v.ahead = n :: ns → n.countDown.time = 0 →
      ∀ x ∈ v.log.moved, x.1 ∉ v.log.taken → x.2 = v.log.ticks) (hs : ViewStep v a w) : Level w := by
  cases hs with
  | @moved n ns busy ahead expired =>
    have hold : ∀ e ∈ v.timeouts, e.movedAt = v.log.ticks := fun e he =>
      hg n ns rfl ahead expired _ (hh.movedAt e (Or.inl he)) (hh.not_taken he)
    have hnew : ∀ e ∈ { n.countDown with movedAt := v.log.ticks } :: v.timeouts, e.movedAt = v.log.ticks := by
      rintro e (_ | ⟨_, he⟩)
      · rfl
      · exact hold e he
    refine ⟨fun e he e' he' => (hnew e he).trans (hnew e' he').symm, fun e he e' he' => ?_⟩
    rw [hnew e' he']
    exact hh.movedBefore _ (hh.movedAt e (Or.inr he))
  | @taken n ns free timeouts =>
    refine ⟨fun e he e' he' => h.same e (timeouts ▸ List.mem_cons_of_mem _ he) e' (timeouts ▸ List.mem_cons_of_mem _ he'), ?_⟩
    intro e he e' he'
    obtain rfl := Option.some.inj he
    exact (h.same n (timeouts ▸ List.mem_cons_self) e' (timeouts ▸ List.mem_cons_of_mem _ he')).le
  | ran held => exact ⟨h.same, nofun⟩
  | _ => exact ⟨h.same, h.held⟩

/-- While the waiting events are level, those of earlier ticks were dispatched before the one at hand. -/
theorem dispatched (h : Level v) (hh : History v) {n : EventNode α} (hn : v.held = some n) {i k k' : Nat}
    (hk' : (n.id, k') ∈ v.log.moved) (hk : (i, k) ∈ v.log.moved) (hlt : k < k') : i ∈ v.log.dispatchedIds := by
  have hn' : k' = n.movedAt := hh.moved_unique hk' (hh.movedAt n (Or.inr hn))
  rcases hh.moved_cases hk with hi | ⟨e, he, rfl, rfl⟩
  · rw [hh.taken, hn] at hi
    rcases List.mem_append.1 hi with hi | hi
    · exact hi
    · obtain rfl : i = n.id := by simpa using hi
      exact absurd (hh.moved_unique hk hk') hlt.ne
  · have := h.held n hn e he
    omega

end Level

namespace Inverted

/-- A round that moves an event onto one of an earlier tick inverts the two. -/
theorem ofRound (hh : History v) {n : EventNode α} {ns : List (EventNode α)} (hahead : v.ahead = n :: ns)
    (hover : n.countDown.time = 0) {x : Nat × Nat} (hx : x ∈ v.log.moved) (htaken : x.1 ∉ v.log.taken)
    (hne : x.2 ≠ v.log.ticks) (hs : ViewStep v .round w) : Inverted w := by
  cases hs with
  | counted busy ahead left =>
    obtain ⟨rfl, rfl⟩ := List.cons.inj (hahead.symm.trans ahead)
    exact absurd hover left
  | @moved m ms busy ahead expired =>
    rcases hh.moved_cases hx with hi | ⟨e, he, -, hmoved⟩
    · exact absurd hi htaken
    · refine ⟨{ m.countDown with movedAt := v.log.ticks }, e, ?_, ?_⟩
      · refine List.Sublist.trans ?_ (List.sublist_append_right _ _)
        exact (List.singleton_sublist.2 he).cons_cons _
      · show e.movedAt < v.log.ticks
        have := hh.movedBefore _ hx
        omega

/-- Once two events are inverted they stay so until the dispatch that is out of order. -/
theorem step (h : Inverted v) (hh : History v)
    (hok : a = .run → ∀ n, v.held = some n → ∀ i k k', (n.id, k') ∈ v.log.moved → (i, k) ∈ v.log.moved → k < k' →
      i ∈ v.log.dispatchedIds) (hs : ViewStep v a w) : Inverted w := by
  obtain ⟨n, n', hsub, hlt⟩ := h
  cases hs with
  | moved busy ahead expired =>
    exact ⟨n, n', hsub.trans ((List.sublist_cons_self _ _).append_left _), hlt⟩
  | taken free timeouts =>
    refine ⟨n, n', ?_, hlt⟩
    rw [free, timeouts] at hsub
    exact hsub
  | @ran m held =>
    rw [held, Option.toList_some, List.singleton_append] at hsub
    rcases List.sublist_cons_iff.1 hsub with hsub | ⟨r, e, hsub⟩
    · exact ⟨n, n', hsub, hlt⟩
    · cases e
      have hn' : n' ∈ v.timeouts := List.singleton_sublist.1 hsub
      have hd := hok rfl n held _ _ _ (hh.movedAt n (Or.inr held)) (hh.movedAt n' (Or.inl hn')) hlt
      refine absurd ?_ (hh.not_taken hn')
      rw [hh.taken]
      exact List.mem_append_left _ hd
  | _ => exact ⟨n, n', hsub, hlt⟩

end Inverted

/-! ## On the heap -/

theorem OrderOk.held {s t : EventState α} {vs ts ys : List EventPtr} (h : OrderOk s a t) (ha : a = .run) {n : EventNode α}
    (hn : (s.view vs ts ys).held = some n) {i k k' : Nat} (hk' : (n.id, k') ∈ s.log.moved) (hk : (i, k) ∈ s.log.moved)
    (hlt : k < k') : i ∈ s.log.dispatchedIds := by
  obtain ⟨p, hp, rfl⟩ := Option.map_eq_some_iff.1 hn
  exact h ha p hp i k k' hk' hk hlt

/-- What the guard says about the event ahead of the timer thread. -/
theorem drained_iff {s : EventState α} {vs ts ys : List EventPtr} (hl : Layout s vs ts ys) {p : EventPtr}
    (hp : s.timer = some (some p)) :
    Drained s .round ↔ ∀ n ns, (s.view vs ts ys).ahead = n :: ns → n.countDown.time = 0 →
      ∀ x ∈ s.log.moved, x.1 ∉ s.log.taken → x.2 = s.log.ticks := by
  obtain ⟨ns, hahead⟩ := hl.ahead_eq hp
  refine ⟨fun h n ns' hn => ?_, fun h c hc q hq => ?_⟩
  · obtain ⟨rfl, rfl⟩ := List.cons.inj (hahead.symm.trans hn)
    exact h _ hp p rfl
  · obtain rfl : some p = c := Option.some.inj (hp.symm.trans hc)
    obtain rfl := Option.some.inj hq
    exact h _ _ hahead

/-- The heap holds two lists with a history, and the waiting events are level. -/
def InOrder (s : EventState α) : Prop := ∃ vs ts ys, Layout s vs ts ys ∧ History (s.view vs ts ys) ∧ Level (s.view vs ts ys)

theorem InOrder.init : InOrder (EventState.init : EventState α) := ⟨[], [], [], Layout.init, History.init, Level.init⟩

/-- A guarded step keeps the waiting events level and is right by the order. -/
theorem InOrder.step {s t : EventState α} (h : InOrder s) (hg : Drained s a) (hs : eventStep s a = some t) :
    InOrder t ∧ OrderOk s a t := by
  obtain ⟨vs, ts, ys, hl, hh, hlevel⟩ := h
  obtain ⟨vs', ts', ys', hl', hstep⟩ := hl.step hs
  refine ⟨⟨vs', ts', ys', hl', hh.step hstep, hlevel.step hh ?_ hstep⟩, ?_⟩
  · rintro n ns rfl
    obtain ⟨p, hp⟩ := eventStep_round hs
    exact (drained_iff hl hp).1 hg n ns
  · rintro rfl p hp i k k' hk' hk hlt
    exact hlevel.dispatched hh (by simp [EventState.view, hp]) hk' hk hlt

/-- A run that is right by the order has moved no event onto one of an earlier tick, or two events are left waiting the wrong way
round. -/
theorem drained_or_inverted {tr : List (Transition (EventState α) (EventAct α))} {s : EventState α}
    (hr : Run (Step.ofOption eventStep) EventState.init tr s) (hok : Always OrderOk tr) :
    ∃ vs ts ys, Layout s vs ts ys ∧ History (s.view vs ts ys) ∧ (Meets Drained tr ∨ Inverted (s.view vs ts ys)) := by
  induction hr with
  | nil => exact ⟨[], [], [], Layout.init, History.init, Or.inl (meets_nil _)⟩
  | @snoc tr s t a hr hs ih =>
    obtain ⟨hok, hlast⟩ := always_snoc.1 hok
    obtain ⟨vs, ts, ys, hl, hh, hcases⟩ := ih hok
    obtain ⟨vs', ts', ys', hl', hstep⟩ := hl.step hs
    refine ⟨vs', ts', ys', hl', hh.step hstep, ?_⟩
    rcases hcases with hC | hinv
    · by_cases hc : Drained s a
      · exact Or.inl (meets_snoc.2 ⟨hC, hc⟩)
      · refine Or.inr ?_
        cases a with
        | round =>
          obtain ⟨p, hp⟩ := eventStep_round hs
          rw [drained_iff hl hp] at hc
          push Not at hc
          obtain ⟨n, ns, hahead, hover, x, hx, htaken, hne⟩ := hc
          exact Inverted.ofRound hh hahead hover hx htaken hne hstep
        | _ => exact absurd trivial hc
    · exact Or.inr (hinv.step hh (fun ha n hn i k k' hk' hk hlt => hlast.held ha hn hk' hk hlt) hstep)

/-- **The timeout list is a stack.** In a run of the event module events are dispatched in the order of the ticks that moved them
if no tick moves an event while one that an earlier tick moved is waiting; and where the run leaves no event waiting, only
then. -/
theorem dispatch_order_iff {tr : List (Transition (EventState α) (EventAct α))} {s : EventState α}
    (hr : Run (Step.ofOption eventStep) EventState.init tr s) :
    (Meets Drained tr → Always OrderOk tr) ∧
      (s.links.next .timeoutList = none → (Always OrderOk tr ↔ Meets Drained tr)) := by
  have hif : Meets Drained tr → Always OrderOk tr :=
    Run.always (I := InOrder) InOrder.init (fun s a t hi hg hs => hi.step hg hs) hr
  refine ⟨hif, fun hempty => ⟨fun hok => ?_, hif⟩⟩
  obtain ⟨vs, ts, ys, hl, hh, hC | ⟨n, n', hsub, -⟩⟩ := drained_or_inverted hr hok
  · exact hC
  · -- nothing waits, so at most one event is left, the one at hand
    have hys : ys = [] := hl.timeouts.chain.unique hempty
    have hlen := hsub.length_le
    rw [hys] at hlen
    cases hheld : s.timeout <;> simp [EventState.view, hheld] at hlen

/-- Two events, moved by two ticks; the event thread runs when `first` says. -/
def twoEvents (first second : List (EventAct Nat)) : List (EventAct Nat) :=
  [.addEvent (some 0) 1 .inform (some "first") none, .addEvent (some 1) 2 .inform (some "second") none, .tick, .round, .round,
    .tickEnd] ++ first ++ [.tick, .round, .tickEnd] ++ second

theorem dispatch_order_twoEvents :
    Always OrderOk (play eventStep EventState.init (twoEvents [.take, .run] [.take, .run])).1 :=
  (dispatch_order_iff (Run.ofPlay eventStep EventState.init (twoEvents [.take, .run] [.take, .run]))).1 (by decide)

/-- With the event thread running only after both ticks, the event of the second tick is dispatched first. -/
theorem dispatch_order_not_ok :
    ¬∀ (tr : List (Transition (EventState Nat) (EventAct Nat))) (s : EventState Nat),
      Run (Step.ofOption eventStep) EventState.init tr s → Always OrderOk tr := by
  intro h
  have hok := h _ _ (Run.ofPlay eventStep EventState.init (twoEvents [] [.take, .run]))
  have hlast := hok _ (List.getLast_mem (l := (play eventStep EventState.init (twoEvents [] [.take, .run])).1) (by decide))
  have hfirst := hlast rfl (.node 1) rfl 0 1 2 (by decide) (by decide) (by decide)
  exact absurd hfirst (by decide)

end CodeFactory.Core
