import CodeFactory.Core.EventHistory

/-!
# Delays

The timer thread takes one second off every event of the timing list, and moves an event when none is left. So an event leaves the
list at the tick that its delay names, counted from the call that last armed it; but a delay of 0 wraps around at its first tick,
and the event stays for another 2^32 - 1.
-/

namespace CodeFactory.Core

variable {α : Type*}

/-- The tick at which an event is to leave the timing list: `max(delay, 1)` ticks after the call that last armed it. -/
def EventNode.due (n : EventNode α) : Nat := n.armedAt + max n.delay.toNat 1

/-- The timing list of the heap holds the event. -/
def InTiming (s : EventState α) (n : EventNode α) : Prop :=
  ∃ xs, s.links.Linked .timingList xs ∧ ∃ p ∈ xs, s.node p = n

/-- The timeout list of the heap holds the event. -/
def InTimeouts (s : EventState α) (n : EventNode α) : Prop :=
  ∃ ys, s.links.Linked .timeoutList ys ∧ ∃ p ∈ ys, s.node p = n

/-- The step does right by the timing list. -/
structure TimingOk (s : EventState α) (a : EventAct α) (t : EventState α) : Prop where
  /-- The list is well linked, and its events have names of their own. -/
  linked : ∃ xs, t.links.Linked .timingList xs ∧ (xs.map fun p => (t.node p).name).Nodup
  /-- An event leaves the list for the timeout list not earlier than it is due, and not twice. -/
  leaves : ∀ n n', InTiming s n → InTimeouts t n' → n'.id = n.id → s.log.ticks = n.due ∧ n.id ∉ s.log.movedIds
  /-- An event the timer thread finds due leaves the list. -/
  found : a = .round → ∀ p, s.timer = some (some p) → s.log.ticks = (s.node p).due →
    ∃ n', InTimeouts t n' ∧ n'.id = (s.node p).id
  /-- Between two ticks no event is left in the list that was due. -/
  waiting : t.timer = none → ∀ n, InTiming t n → t.log.ticks < n.due

/-- The step is not a round of the timer thread at an event that was armed with a delay of 0. -/
def CountsFromDelay (s : EventState α) : EventAct α → Prop
  | .round => ∀ c ∈ s.timer, ∀ p ∈ c, (s.node p).delay ≠ 0
  | _ => True

instance (s : EventState α) : (a : EventAct α) → Decidable (CountsFromDelay s a)
  | .round => inferInstanceAs (Decidable (∀ c ∈ s.timer, ∀ p ∈ c, (s.node p).delay ≠ 0))
  | .addEvent .. | .setEvent .. | .deleteEvent .. | .tick | .tickEnd | .take | .run => .isTrue trivial

/-- What the time left of an event is after `k` ticks: none, for a delay of 0, and then it has just been armed; otherwise what the
ticks since it was armed have left of its delay. -/
def EventNode.Pending (n : EventNode α) (k : Nat) : Prop :=
  n.armedAt ≤ k ∧ (n.delay = 0 → n.time = 0 ∧ n.armedAt = k) ∧
    (n.delay ≠ 0 → n.time ≠ 0 ∧ n.time.toNat + (k - n.armedAt) = n.delay.toNat)

namespace EventNode

variable {n : EventNode α} {k : Nat}

theorem Pending.armed (htime : n.time = n.delay) (harmed : n.armedAt = k) : n.Pending k := by
  refine ⟨harmed.le, fun h0 => ⟨htime.trans h0, harmed⟩, fun h0 => ⟨htime ▸ h0, ?_⟩⟩
  rw [htime, harmed, Nat.sub_self, Nat.add_zero]

theorem Pending.lt_due (h : n.Pending k) : k < n.due := by
  obtain ⟨hle, hzero, hpos⟩ := h
  unfold due
  by_cases h0 : n.delay = 0
  · have := (hzero h0).2
    omega
  · obtain ⟨hne, hsum⟩ := hpos h0
    have : n.time.toNat ≠ 0 := fun e => hne (BitVec.eq_of_toNat_eq (by simpa using e))
    omega

/-- A round at a pending event that was armed with a delay: one second less is left. -/
theorem Pending.countDown (h : n.Pending k) (h0 : n.delay ≠ 0) (hleft : n.countDown.time ≠ 0) :
    n.countDown.Pending (k + 1) := by
  obtain ⟨hle, -, hpos⟩ := h
  obtain ⟨hne, hsum⟩ := hpos h0
  refine ⟨Nat.le_succ_of_le hle, fun h => absurd h h0, fun _ => ⟨hleft, ?_⟩⟩
  have htime : n.countDown.time.toNat = n.time.toNat - 1 := by
    show (n.time - 1).toNat = n.time.toNat - 1
    bv_omega
  have : n.time.toNat ≠ 0 := fun e => hne (BitVec.eq_of_toNat_eq (by simpa using e))
  show n.countDown.time.toNat + (k + 1 - n.armedAt) = n.delay.toNat
  omega

/-- A round that finds no time left is at an event that is due. -/
theorem Pending.due_of_over (h : n.Pending k) (hover : n.countDown.time = 0) : k + 1 = n.due := by
  obtain ⟨hle, hzero, hpos⟩ := h
  have htime : n.time = 1 := by
    have : n.time - 1 = 0 := hover
    bv_omega
  have h0 : n.delay ≠ 0 := fun e => by
    have := (hzero e).1
    rw [htime] at this
    exact absurd this (by decide)
  have hsum := (hpos h0).2
  have h1 : n.time.toNat = 1 := by rw [htime]; rfl
  unfold due
  omega

theorem Pending.over_of_due (h : n.Pending k) (h0 : n.delay ≠ 0) (hdue : k + 1 = n.due) : n.countDown.time = 0 := by
  obtain ⟨hle, -, hpos⟩ := h
  obtain ⟨hne, hsum⟩ := hpos h0
  unfold due at hdue
  have : n.time.toNat ≠ 0 := fun e => hne (BitVec.eq_of_toNat_eq (by simpa using e))
  have h1 : n.time.toNat = 1 := by omega
  show n.time - 1 = 0
  bv_omega

theorem Pending.wraps (h : n.Pending k) (h0 : n.delay = 0) : k + 1 = n.due ∧ n.countDown.time ≠ 0 := by
  obtain ⟨htime, harmed⟩ := h.2.1 h0
  refine ⟨?_, ?_⟩
  · unfold due
    rw [h0, harmed]
    rfl
  · show n.time - 1 ≠ 0
    rw [htime]
    decide

end EventNode

/-- Every event of the timing list is pending: those ahead of the timer thread as of the tick before the current one, those it has
passed as of the current one, and they were armed with a delay. -/
structure Timed (v : EventView α) : Prop where
  ahead : ∀ n ∈ v.ahead, n.Pending (if v.ticking then v.log.ticks - 1 else v.log.ticks)
  passed : ∀ n ∈ v.passed, n.Pending v.log.ticks
  started : v.ticking = true → 0 < v.log.ticks

namespace Timed

variable {v w : EventView α} {a : EventAct α}

theorem init : Timed (EventState.view (EventState.init : EventState α) [] [] []) := by
  constructor <;> simp [EventState.view, EventState.init]

theorem ahead_idle (h : Timed v) (hidle : v.ticking = false) : ∀ n ∈ v.ahead, n.Pending v.log.ticks := by
  have := h.ahead
  simpa [hidle] using this

theorem head (h : Timed v) (hbusy : v.ticking = true) {n : EventNode α} {ns : List (EventNode α)}
    (hahead : v.ahead = n :: ns) : ∃ k, v.log.ticks = k + 1 ∧ n.Pending k := by
  refine ⟨v.log.ticks - 1, (Nat.sub_add_cancel (h.started hbusy)).symm, ?_⟩
  have := h.ahead n (hahead ▸ List.mem_cons_self)
  simpa [hbusy] using this

/-- Every step keeps the events pending, except a round at an event armed with a delay of 0. -/
theorem step (h : Timed v) (hh : History v)
    (hg : ∀ n ns, a = .round → v.ahead = n :: ns → n.delay ≠ 0) (hs : ViewStep v a w) : Timed w := by
  cases hs with
  | refusedAdd | refusedSet | refusedDelete => exact h
  | @added _ time type name arg idle =>
    refine ⟨fun n hn => ?_, h.passed, fun hbusy => absurd (idle.symm.trans hbusy) nofun⟩
    rw [if_neg (by simp [idle])]
    rcases mem_insertTimed.1 hn with rfl | ⟨hn, -⟩
    · exact .armed rfl rfl
    · exact h.ahead_idle idle n hn
  | @rearmed time name n idle mem named =>
    refine ⟨fun n hn => ?_, h.passed, fun hbusy => absurd (idle.symm.trans hbusy) nofun⟩
    rw [if_neg (by simp [idle])]
    rcases mem_insertTimed.1 hn with rfl | ⟨hn, -⟩
    · exact .armed rfl rfl
    · exact h.ahead_idle idle n hn
  | deleted idle =>
    refine ⟨fun n hn => ?_, h.passed, fun hbusy => absurd (idle.symm.trans hbusy) nofun⟩
    rw [if_neg (by simp [idle])]
    exact h.ahead_idle idle n (List.mem_filter.1 hn).1
  | tick idle =>
    refine ⟨fun n hn => ?_, fun n hn => ?_, fun _ => Nat.succ_pos _⟩
    · rw [if_pos rfl]
      exact h.ahead_idle idle n hn
    · have hn : n ∈ v.passed := hn
      rw [hh.idle idle] at hn
      cases hn
  | @counted n ns busy ahead left =>
    obtain ⟨k, hk, hn⟩ := h.head busy ahead
    refine ⟨fun e he => h.ahead e (ahead ▸ List.mem_cons_of_mem _ he), fun e he => ?_, h.started⟩
    rcases List.mem_append.1 he with he | he
    · exact h.passed e he
    · rw [List.mem_singleton.1 he]
      show n.countDown.Pending v.log.ticks
      rw [hk]
      exact hn.countDown (hg n ns rfl ahead) left
  | moved busy ahead expired =>
    exact ⟨fun e he => h.ahead e (ahead ▸ List.mem_cons_of_mem _ he), h.passed, h.started⟩
  | tickEnd busy ahead => exact ⟨fun n hn => h.passed n hn, nofun, nofun⟩
  | taken free timeouts => exact ⟨h.ahead, h.passed, h.started⟩
  | ran held => exact ⟨h.ahead, h.passed, h.started⟩

/-- Only a round moves an event, and only one that is due. -/
theorem leaves (h : Timed v) (hh : History v) (hs : ViewStep v a w) {n n' : EventNode α} (hn : n ∈ v.timing)
    (hn' : n' ∈ w.timeouts) (hid : n'.id = n.id) : v.log.ticks = n.due ∧ n.id ∉ v.log.movedIds := by
  have hold : n' ∉ v.timeouts := fun hm =>
    hh.unmoved n hn (hid ▸ List.mem_map_of_mem (hh.movedAt n' (Or.inl hm)))
  refine ⟨?_, hh.unmoved n hn⟩
  cases hs with
  | @moved m ns busy ahead expired =>
    rcases List.mem_cons.1 hn' with rfl | hn'
    · obtain ⟨k, hk, hm⟩ := h.head busy ahead
      have : m = n := hh.eq_of_id (List.mem_append_right _ (ahead ▸ List.mem_cons_self)) hn hid
      rw [hk, ← this]
      exact hm.due_of_over expired
    · exact absurd hn' hold
  | taken free timeouts => exact absurd (timeouts ▸ List.mem_cons_of_mem _ hn') hold
  | _ => exact absurd hn' hold

/-- A round at an event that is due moves it, unless it was armed with a delay of 0: then it stays. -/
theorem found (h : Timed v) (hh : History v) (hs : ViewStep v .round w) {n : EventNode α} {ns : List (EventNode α)}
    (hahead : v.ahead = n :: ns) (hdue : v.log.ticks = n.due) :
    (∃ n' ∈ w.timeouts, n'.id = n.id) ↔ n.delay ≠ 0 := by
  cases hs with
  | @counted m ms busy ahead left =>
    obtain ⟨rfl, rfl⟩ := List.cons.inj (hahead.symm.trans ahead)
    obtain ⟨k, hk, hn⟩ := h.head busy hahead
    refine ⟨fun ⟨n', hn', hid⟩ => ?_, fun h0 => absurd (hn.over_of_due h0 (hk ▸ hdue)) left⟩
    refine absurd (hid ▸ List.mem_map_of_mem (hh.movedAt n' (Or.inl hn'))) (hh.unmoved n ?_)
    exact List.mem_append_right _ (hahead ▸ List.mem_cons_self)
  | @moved m ms busy ahead expired =>
    obtain ⟨rfl, rfl⟩ := List.cons.inj (hahead.symm.trans ahead)
    obtain ⟨k, -, hn⟩ := h.head busy hahead
    exact ⟨fun _ h0 => (hn.wraps h0).2 expired, fun _ => ⟨_, List.mem_cons_self, rfl⟩⟩

theorem waiting (h : Timed v) (hh : History v) (hidle : v.ticking = false) {n : EventNode α} (hn : n ∈ v.timing) :
    v.log.ticks < n.due := by
  rw [EventView.timing, hh.idle hidle, List.nil_append] at hn
  exact (h.ahead_idle hidle n hn).lt_due

end Timed

/-! ## On the heap -/

section Heap

variable {s : EventState α} {vs ts ys : List EventPtr} {n : EventNode α}

theorem Layout.inTiming_iff (h : Layout s vs ts ys) : InTiming s n ↔ n ∈ (s.view vs ts ys).timing := by
  have hview : (s.view vs ts ys).timing = (vs ++ ts).map s.node := by simp [EventView.timing, EventState.view]
  rw [hview, List.mem_map]
  refine ⟨?_, fun hn => ⟨_, h.timing, hn⟩⟩
  rintro ⟨xs, hl, hn⟩
  rwa [← hl.chain.unique h.timing.chain]

theorem Layout.inTimeouts_iff (h : Layout s vs ts ys) : InTimeouts s n ↔ n ∈ (s.view vs ts ys).timeouts := by
  show _ ↔ n ∈ ys.map s.node
  rw [List.mem_map]
  refine ⟨?_, fun hn => ⟨_, h.timeouts, hn⟩⟩
  rintro ⟨xs, hl, hn⟩
  rwa [← hl.chain.unique h.timeouts.chain]

end Heap

/-- The heap holds two lists with a history, and the events of the timing list are pending. -/
def OnTime (s : EventState α) : Prop := ∃ vs ts ys, Layout s vs ts ys ∧ History (s.view vs ts ys) ∧ Timed (s.view vs ts ys)

theorem OnTime.init : OnTime (EventState.init : EventState α) := ⟨[], [], [], Layout.init, History.init, Timed.init⟩

/-- **Delays are kept exactly when none is 0.** In a run of the event module the timing list is well linked, its events have names
of their own, and every event leaves it for the timeout list `max(delay, 1)` ticks after the call that last armed it, not
earlier, not later and not twice, if and only if no tick finds an event in the list that was armed with a delay of 0. -/
theorem timing_ok_iff {tr : List (Transition (EventState α) (EventAct α))} {s : EventState α}
    (hr : Run (Step.ofOption eventStep) EventState.init tr s) : Always TimingOk tr ↔ Meets CountsFromDelay tr := by
  refine Run.all_iff (I := OnTime) OnTime.init (fun s a t hi hg hs => ?_) (fun s a t hi hg hs hok => hg ?_) hr
  · obtain ⟨vs, ts, ys, hl, hh, ht⟩ := hi
    obtain ⟨vs', ts', ys', hl', hstep⟩ := hl.step hs
    have hh' := hh.step hstep
    have hdelay : ∀ n ns, a = .round → (s.view vs ts ys).ahead = n :: ns → n.delay ≠ 0 := by
      rintro n ns rfl hahead
      obtain ⟨p, hp⟩ := eventStep_round hs
      obtain ⟨ns', hahead'⟩ := hl.ahead_eq hp
      obtain ⟨rfl, rfl⟩ := List.cons.inj (hahead'.symm.trans hahead)
      exact hg _ hp p rfl
    have ht' := ht.step hh hdelay hstep
    refine ⟨⟨vs', ts', ys', hl', hh', ht'⟩, ⟨_, hl'.timing, hl'.names⟩, ?_, ?_, ?_⟩
    · intro n n' hn hn' hid
      exact ht.leaves hh hstep (hl.inTiming_iff.1 hn) (hl'.inTimeouts_iff.1 hn') hid
    · rintro rfl p hp hdue
      obtain ⟨ns, hahead⟩ := hl.ahead_eq hp
      obtain ⟨n', hn', hid⟩ := (ht.found hh hstep hahead hdue).2 (hdelay _ _ rfl hahead)
      exact ⟨n', hl'.inTimeouts_iff.2 hn', hid⟩
    · intro hidle n hn
      exact ht'.waiting hh' (by simp [EventState.view, hidle]) (hl'.inTiming_iff.1 hn)
  · obtain ⟨vs, ts, ys, hl, hh, ht⟩ := hi
    cases a with
    | round =>
      rintro c hc p hp h0
      obtain rfl : c = some p := hp
      obtain ⟨vs', ts', ys', hl', hstep⟩ := hl.step hs
      obtain ⟨ns, hahead⟩ := hl.ahead_eq hc
      -- the event has just been armed, so it is due; but its time wraps around and it stays
      obtain ⟨k, hk, hn⟩ := ht.head (by simp [EventState.view, Option.mem_def.1 hc]) hahead
      have hdue : s.log.ticks = (s.node p).due := hk.trans (hn.wraps h0).1
      obtain ⟨n', hn', hid⟩ := hok.found rfl p hc hdue
      exact (ht.found hh hstep hahead hdue).1 ⟨n', hl'.inTimeouts_iff.1 hn', hid⟩ h0
    | _ => trivial

/-- An Inform added with a delay, and the first tick after that. -/
def informAfter (delay : BitVec 32) : List (EventAct Nat) :=
  [.addEvent (some 0) delay .inform (some "inform_event") none, .tick, .round, .tickEnd]

theorem timing_ok_now : Always TimingOk (play eventStep EventState.init (informAfter 1)).1 :=
  (timing_ok_iff (Run.ofPlay eventStep EventState.init (informAfter 1))).2 (by decide)

/-- An Inform added with a delay of 0 is still in the list after the first tick. -/
theorem timing_not_ok :
    ¬∀ (tr : List (Transition (EventState Nat) (EventAct Nat))) (s : EventState Nat),
      Run (Step.ofOption eventStep) EventState.init tr s → Always TimingOk tr := by
  intro h
  have hok := h _ _ (Run.ofPlay eventStep EventState.init (informAfter 0))
  have hlast := hok _ (List.getLast_mem (l := (play eventStep EventState.init (informAfter 0)).1) (by decide))
  have hdue := hlast.waiting rfl _ ⟨[.node 0], ⟨⟨rfl, rfl, rfl⟩, by decide⟩, .node 0, List.mem_cons_self, rfl⟩
  exact absurd hdue (by decide)

end CodeFactory.Core
