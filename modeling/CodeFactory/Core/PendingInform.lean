import CodeFactory.Core.EventCode
import CodeFactory.Core.Timing

/-!
# Pending Informs

All the causes of an Inform share one event, `inform_event`. `add_event` replaces a pending event of the name it is given, its time
and its argument, so a cause that arrives while an Inform is pending takes the place of the one before. An Inform stays owed, with
the codes it was added with and the tick it was to come at, until `event_inform` has left these codes in `gEventCode`.
-/

namespace CodeFactory.Core

def informEventName : String := "inform_event"

def now : BitVec 32 := 1

/-- All the codes of the first are among those of the second. -/
def Within (codes codes' : BitVec 32) : Prop := codes &&& codes' = codes

instance (codes codes' : BitVec 32) : Decidable (Within codes codes') := inferInstanceAs (Decidable (_ = _))

theorem within_iff {codes codes' : BitVec 32} :
    Within codes codes' ↔ ∀ i, codes.getLsbD i = true → codes'.getLsbD i = true := by
  unfold Within
  constructor
  · intro h i hi
    rw [← h, BitVec.getLsbD_and, Bool.and_eq_true] at hi
    exact hi.2
  · intro h
    apply BitVec.eq_of_getLsbD_eq
    intro i hi
    rw [BitVec.getLsbD_and]
    cases hc : codes.getLsbD i with
    | false => rfl
    | true => rw [h i hc, Bool.and_self]

theorem Within.refl (codes : BitVec 32) : Within codes codes := BitVec.and_self

theorem Within.trans {c c' c'' : BitVec 32} (h : Within c c') (h' : Within c' c'') : Within c c'' :=
  within_iff.2 fun i hi => within_iff.1 h' i (within_iff.1 h i hi)

theorem Within.or_left {c c' : BitVec 32} (h : Within c c') (codes : BitVec 32) : Within c (codes ||| c') := by
  refine within_iff.2 fun i hi => ?_
  rw [BitVec.getLsbD_or, within_iff.1 h i hi, Bool.or_true]

/-- The event codes in the `InformArg` of an Inform; none for a null argument. -/
def EventNode.codes (n : EventNode (BitVec 32)) : BitVec 32 := n.event.arg.getD 0

/-- The event module with `gEventCode`. The last field is a ghost: the Informs that are owed, each with its codes and the tick
it has to be dispatched at. -/
structure InformState where
  events : EventState (BitVec 32)
  gEventCode : BitVec 32
  owed : List (BitVec 32 × Nat)

/-- At start. -/
def InformState.init : InformState := ⟨.init, 0, []⟩

def eventInform (gEventCode : BitVec 32) (arg : Option (BitVec 32)) : BitVec 32 :=
  match arg with
  | some event => gEventCode ||| event
  | none => gEventCode

theorem within_eventInform {codes gEventCode : BitVec 32} {arg : Option (BitVec 32)} (h : Within codes (arg.getD 0)) :
    Within codes (eventInform gEventCode arg) := by
  cases arg with
  | some event => exact h.or_left gEventCode
  | none =>
    have h0 : codes = 0 := h.symm.trans BitVec.and_zero
    rw [h0]
    exact BitVec.zero_and

/-- The event thread calls the function of an event. After `event_inform` nothing is owed whose codes are set. -/
def InformState.dispatch (s : InformState) (n : EventNode (BitVec 32)) : InformState :=
  if n.event.func.eventFunc = some .eventInform then
    let codes := eventInform s.gEventCode n.event.arg
    { s with gEventCode := codes, owed := s.owed.filter fun o => ¬Within o.1 codes }
  else s

/-- The name a call is made with. -/
def EventAct.calledName {α : Type*} : EventAct α → Option String
  | .addEvent _ _ _ eventName _ | .setEvent _ eventName | .deleteEvent eventName => eventName
  | _ => none

/-- What can happen: an Inform is added, for whatever cause; the pending one is brought forward, which the schedule event does
when it has no memory for a new one; anything else of the event module, calls for the other events included; and the session
thread or the host handler changes the codes. -/
inductive InformAct where
  | inform (malloc : Option Nat) (time : BitVec 32) (arg : Option (BitVec 32))
  | hasten
  | other (a : EventAct (BitVec 32))
  | setCodes (codes : BitVec 32)

/-- One step. An Inform that was accepted is owed from now on. -/
def informStep (s : InformState) : InformAct → Option InformState
  | .inform malloc time arg =>
    (eventStep s.events (.addEvent malloc time .inform (some informEventName) arg)).map fun events =>
      { s with
        events := events
        owed :=
          if events.log.given.length = s.events.log.given.length then s.owed
          else s.owed ++ [(arg.getD 0, s.events.log.ticks + max time.toNat 1)] }
  | .hasten =>
    (eventStep s.events (.setEvent now (some informEventName))).map fun events => { s with events := events }
  | .other a =>
    if a.calledName = some informEventName then none
    else
      (eventStep s.events a).map fun events =>
        match a, s.events.timeout with
        | .run, some timeout => { s.dispatch (s.events.node timeout) with events := events }
        | _, _ => { s with events := events }
  | .setCodes codes => some { s with gEventCode := codes }

/-- Between two ticks, with every event dispatched that the timer thread has moved. -/
def InformState.Settled (s : InformState) : Prop :=
  s.events.timer = none ∧ s.events.timeout = none ∧ s.events.links.next .timeoutList = none

/-- The step leaves no Inform owed that had to be dispatched by now. -/
def InformKept (_ : InformState) (_ : InformAct) (t : InformState) : Prop :=
  t.Settled → ∀ o ∈ t.owed, t.events.log.ticks < o.2

/-- An Inform with this time and argument can take the place of the pending one: it has no more time than that has left and all its
codes, or it is in time for all that is owed and has the codes of it. -/
def Replaces (s : InformState) (p : EventPtr) (time : BitVec 32) (arg : Option (BitVec 32)) : Prop :=
  (time ≤ (s.events.node p).time ∧ Within (s.events.node p).codes (arg.getD 0)) ∨
    ∀ o ∈ s.owed, Within o.1 (arg.getD 0) ∧ s.events.log.ticks + max time.toNat 1 ≤ o.2

/-- The step is not an Inform added with a delay of 0, nor one in place of a pending Inform that it cannot replace. -/
def KeepsPending (s : InformState) : InformAct → Prop
  | .inform _ time arg =>
    time ≠ 0 ∧ ∀ found ∈ getEventFromTimingList s.events informEventName time, ∀ p ∈ found.1, Replaces s p time arg
  | _ => True

instance (s : InformState) (p : EventPtr) (time : BitVec 32) (arg : Option (BitVec 32)) : Decidable (Replaces s p time arg) :=
  inferInstanceAs (Decidable (_ ∨ _))

instance (s : InformState) : (a : InformAct) → Decidable (KeepsPending s a)
  | .inform _ time arg =>
    inferInstanceAs (Decidable (time ≠ 0 ∧ ∀ found ∈ getEventFromTimingList s.events informEventName time, ∀ p ∈ found.1,
      Replaces s p time arg))
  | .hasten | .other _ | .setCodes _ => .isTrue trivial

/-! ## What is owed is carried -/

/-- What is owed is carried by an Inform: it is pending and due in time, or has left the timing list. -/
def CarriedBy (v : EventView (BitVec 32)) (o : BitVec 32 × Nat) (n : EventNode (BitVec 32)) : Prop :=
  n.name = informEventName ∧ Within o.1 n.codes ∧ (n ∈ v.timing ∧ n.due ≤ o.2 ∨ n ∈ v.timeouts ∨ v.held = some n)

/-- A pending Inform was armed with a delay and has what the ticks since then left of it. -/
def InTime (k : Nat) (n : EventNode (BitVec 32)) : Prop := n.name = informEventName → n.delay ≠ 0 ∧ n.Pending k

/-- The pending Inform is in time, and everything owed is carried by an Inform. -/
structure Owing (v : EventView (BitVec 32)) (owed : List (BitVec 32 × Nat)) : Prop where
  ahead : ∀ n ∈ v.ahead, InTime (if v.ticking then v.log.ticks - 1 else v.log.ticks) n
  passed : ∀ n ∈ v.passed, InTime v.log.ticks n
  started : v.ticking = true → 0 < v.log.ticks
  idle : v.ticking = false → v.passed = []
  func : ∀ n, n ∈ v.timing ∨ n ∈ v.timeouts ∨ v.held = some n → n.name = informEventName →
    n.event.func.eventFunc = some .eventInform
  carried : ∀ o ∈ owed, ∃ n, CarriedBy v o n

namespace Owing

variable {v w : EventView (BitVec 32)} {owed : List (BitVec 32 × Nat)} {a : EventAct (BitVec 32)}

theorem init : Owing (EventState.view EventState.init [] [] []) [] := by
  constructor <;> simp [EventState.view, EventState.init, EventView.timing]

theorem timing_idle (h : Owing v owed) (hidle : v.ticking = false) : v.timing = v.ahead := by
  rw [EventView.timing, h.idle hidle, List.nil_append]

theorem ahead_idle (h : Owing v owed) (hidle : v.ticking = false) : ∀ n ∈ v.ahead, InTime v.log.ticks n := by
  have := h.ahead
  simpa [hidle] using this

theorem head (h : Owing v owed) (hbusy : v.ticking = true) {n : EventNode (BitVec 32)} {ns : List (EventNode (BitVec 32))}
    (hahead : v.ahead = n :: ns) : ∃ k, v.log.ticks = k + 1 ∧ InTime k n := by
  refine ⟨v.log.ticks - 1, (Nat.sub_add_cancel (h.started hbusy)).symm, ?_⟩
  have := h.ahead n (hahead ▸ List.mem_cons_self)
  simpa [hbusy] using this

/-- Between two ticks, with nothing left to dispatch, what is owed is still to come. -/
theorem settled (h : Owing v owed) (hidle : v.ticking = false) (htimeouts : v.timeouts = []) (hheld : v.held = none) :
    ∀ o ∈ owed, v.log.ticks < o.2 := by
  intro o ho
  obtain ⟨n, hname, -, hn | hn | hn⟩ := h.carried o ho
  · have hpending := (h.ahead_idle hidle n (h.timing_idle hidle ▸ hn.1) hname).2
    exact hpending.lt_due.trans_le hn.2
  · rw [htimeouts] at hn
    cases hn
  · rw [hheld] at hn
    cases hn

/-- A call changes the timing list and what is owed, and nothing else: the new timing list has to be in time, and to carry what
it has to. -/
theorem call (h : Owing v owed) (hidle : v.ticking = false) {ahead : List (EventNode (BitVec 32))}
    {given : List (EventType × Option (BitVec 32))} {cancelled : List Nat} {owed' : List (BitVec 32 × Nat)}
    (hahead : ∀ n ∈ ahead, InTime v.log.ticks n)
    (hfunc : ∀ n ∈ ahead, n.name = informEventName → n.event.func.eventFunc = some .eventInform)
    (hcarried : ∀ o ∈ owed', ∃ n, n.name = informEventName ∧ Within o.1 n.codes ∧
      (n ∈ ahead ∧ n.due ≤ o.2 ∨ n ∈ v.timeouts ∨ v.held = some n)) :
    Owing { v with ahead := ahead, log := { v.log with given := given, cancelled := cancelled } } owed' := by
  have hpassed := h.idle hidle
  have htiming : ∀ n, n ∈ v.passed ++ ahead ↔ n ∈ ahead := by simp [hpassed]
  constructor
  case ahead => simpa [hidle] using hahead
  case passed => exact h.passed
  case started => exact h.started
  case idle => exact h.idle
  case func =>
    rintro n (hn | hn)
    · exact hfunc n ((htiming n).1 hn)
    · exact h.func n (Or.inr hn)
  case carried =>
    intro o ho
    obtain ⟨n, hname, hcodes, hn | hn⟩ := hcarried o ho
    · exact ⟨n, hname, hcodes, Or.inl ⟨(htiming n).2 hn.1, hn.2⟩⟩
    · exact ⟨n, hname, hcodes, Or.inr hn⟩

/-- An Inform that is added takes the place of the pending one, and carries what that one did. -/
theorem inform (h : Owing v owed) (hidle : v.ticking = false) {time : BitVec 32} {arg : Option (BitVec 32)} (htime : time ≠ 0)
    (hless : ∀ n ∈ v.ahead, n.name = informEventName → (time ≤ n.time ∧ Within n.codes (arg.getD 0)) ∨
      ∀ o ∈ owed, Within o.1 (arg.getD 0) ∧ v.log.ticks + max time.toNat 1 ≤ o.2) :
    Owing
      { v with
        ahead := insertTimed time informEventName (v.log.newEvent time .inform informEventName arg) v.ahead
        log := { v.log with
          given := v.log.given ++ [(.inform, arg)], cancelled := v.log.cancelled ++ idsOf informEventName v.ahead } }
      (owed ++ [(arg.getD 0, v.log.ticks + max time.toNat 1)]) := by
  have hnew : v.log.newEvent time .inform informEventName arg ∈
      insertTimed time informEventName (v.log.newEvent time .inform informEventName arg) v.ahead :=
    mem_insertTimed.2 (Or.inl rfl)
  refine h.call hidle (fun n hn => ?_) (fun n hn hname => ?_) (fun o ho => ?_)
  · rcases mem_insertTimed.1 hn with rfl | ⟨hn, hname⟩
    · exact fun _ => ⟨htime, .armed rfl rfl⟩
    · exact fun hname' => absurd hname' hname
  · rcases mem_insertTimed.1 hn with rfl | ⟨hn, hname'⟩
    · rfl
    · exact absurd hname hname'
  · rcases List.mem_append.1 ho with ho | ho
    · obtain ⟨n, hname, hcodes, ⟨hn, hdue⟩ | hn⟩ := h.carried o ho
      · rw [h.timing_idle hidle] at hn
        rcases hless n hn hname with ⟨htle, hcle⟩ | howed
        · -- the new one is due no later than the one it replaces
          refine ⟨v.log.newEvent time .inform informEventName arg, rfl, hcodes.trans hcle, Or.inl ⟨hnew, le_trans ?_ hdue⟩⟩
          obtain ⟨h0, harmed, -, hpos⟩ := h.ahead_idle hidle n hn hname
          have hsum := (hpos h0).2
          have hle : time.toNat ≤ n.time.toNat := htle
          have hne : time.toNat ≠ 0 := fun e => htime (BitVec.eq_of_toNat_eq (by simpa using e))
          show v.log.ticks + max time.toNat 1 ≤ n.armedAt + max n.delay.toNat 1
          omega
        · exact ⟨v.log.newEvent time .inform informEventName arg, rfl, (howed o ho).1, Or.inl ⟨hnew, (howed o ho).2⟩⟩
      · exact ⟨n, hname, hcodes, Or.inr hn⟩
    · rw [List.mem_singleton.1 ho]
      exact ⟨v.log.newEvent time .inform informEventName arg, rfl, .refl _, Or.inl ⟨hnew, le_rfl⟩⟩

/-- The pending Inform is brought forward: it has a tick left at least. -/
theorem hasten (h : Owing v owed) (hidle : v.ticking = false) {n : EventNode (BitVec 32)} (hn : n ∈ v.ahead)
    (hunique : ∀ m ∈ v.ahead, m.name = informEventName → m = n) (hname : n.name = informEventName) :
    Owing { v with ahead := insertTimed now informEventName (n.rearm v.log now) v.ahead } owed := by
  have hnew : n.rearm v.log now ∈ insertTimed now informEventName (n.rearm v.log now) v.ahead :=
    mem_insertTimed.2 (Or.inl rfl)
  refine h.call hidle (fun m hm => ?_) (fun m hm hmname => ?_) (fun o ho => ?_)
  · rcases mem_insertTimed.1 hm with rfl | ⟨hm, hmname⟩
    · exact fun _ => ⟨(by decide : now ≠ 0), .armed rfl rfl⟩
    · exact fun hmname' => absurd hmname' hmname
  · rcases mem_insertTimed.1 hm with rfl | ⟨hm, hmname'⟩
    · exact h.func n (Or.inl (h.timing_idle hidle ▸ hn)) hname
    · exact absurd hmname hmname'
  · obtain ⟨m, hmname, hcodes, ⟨hm, hdue⟩ | hm⟩ := h.carried o ho
    · rw [h.timing_idle hidle] at hm
      obtain rfl := hunique m hm hmname
      refine ⟨m.rearm v.log now, hname, hcodes, Or.inl ⟨hnew, le_trans ?_ hdue⟩⟩
      have hlt := (h.ahead_idle hidle m hm hname).2.lt_due
      show v.log.ticks + max now.toNat 1 ≤ m.due
      have hone : max now.toNat 1 = 1 := rfl
      omega
    · exact ⟨m, hmname, hcodes, Or.inr hm⟩

/-- Another event is put into the timing list. -/
theorem inserted (h : Owing v owed) (hidle : v.ticking = false) {time : BitVec 32} {name : String} {m : EventNode (BitVec 32)}
    {given : List (EventType × Option (BitVec 32))} {cancelled : List Nat} (hother : informEventName ≠ name)
    (hm : m.name = name) :
    Owing { v with ahead := insertTimed time name m v.ahead, log := { v.log with given := given, cancelled := cancelled } }
      owed := by
  refine h.call hidle (fun n hn => ?_) (fun n hn hname => ?_) (fun o ho => ?_)
  · rcases mem_insertTimed.1 hn with rfl | ⟨hn, -⟩
    · exact fun hname => absurd (hname.symm.trans hm) hother
    · exact h.ahead_idle hidle n hn
  · rcases mem_insertTimed.1 hn with rfl | ⟨hn, -⟩
    · exact absurd (hname.symm.trans hm) hother
    · exact h.func n (Or.inl (h.timing_idle hidle ▸ hn)) hname
  · obtain ⟨n, hname, hcodes, ⟨hn, hdue⟩ | hn⟩ := h.carried o ho
    · rw [h.timing_idle hidle] at hn
      exact ⟨n, hname, hcodes, Or.inl ⟨mem_insertTimed.2 (Or.inr ⟨hn, hname.trans_ne hother⟩), hdue⟩⟩
    · exact ⟨n, hname, hcodes, Or.inr hn⟩

/-- The other steps do nothing to an Inform, except that they count it down and move it when it is due. -/
theorem other (h : Owing v owed) (ha : a.calledName ≠ some informEventName) (hrun : a ≠ .run) (hs : ViewStep v a w) :
    Owing w owed := by
  have hcalled : ∀ name : String, a.calledName = some name → informEventName ≠ name := fun name e e' => ha (e' ▸ e)
  cases hs with
  | refusedAdd | refusedSet | refusedDelete => exact h
  | added idle => exact h.inserted idle (hcalled _ rfl) rfl
  | rearmed idle mem named => exact h.inserted idle (hcalled _ rfl) named
  | @deleted name idle =>
    have hother := hcalled name rfl
    refine h.call idle (fun n hn => ?_) (fun n hn => ?_) (fun o ho => ?_)
    · exact h.ahead_idle idle n (List.mem_filter.1 hn).1
    · exact h.func n (Or.inl (h.timing_idle idle ▸ (List.mem_filter.1 hn).1))
    · obtain ⟨n, hname, hcodes, ⟨hn, hdue⟩ | hn⟩ := h.carried o ho
      · rw [h.timing_idle idle] at hn
        exact ⟨n, hname, hcodes, Or.inl ⟨List.mem_filter.2 ⟨hn, by simpa using hname.trans_ne hother⟩, hdue⟩⟩
      · exact ⟨n, hname, hcodes, Or.inr hn⟩
  | tick idle =>
    refine ⟨?_, ?_, fun _ => Nat.succ_pos _, ?_, h.func, h.carried⟩
    · intro n hn
      rw [if_pos rfl]
      exact h.ahead_idle idle n hn
    · intro n hn
      have hn : n ∈ v.passed := hn
      rw [h.idle idle] at hn
      cases hn
    · intro hidle
      cases hidle
  | @counted n ns busy ahead left =>
    obtain ⟨k, hk, hn⟩ := h.head busy ahead
    have htiming : ∀ m, m ∈ v.passed ++ [n.countDown] ++ ns ↔ m = n.countDown ∨ m ∈ v.passed ∨ m ∈ ns := by
      intro m
      simp only [List.mem_append, List.mem_singleton]
      tauto
    have hold : ∀ m, m ∈ v.timing ↔ m = n ∨ m ∈ v.passed ∨ m ∈ ns := by
      intro m
      simp only [EventView.timing, ahead, List.mem_append, List.mem_cons]
      tauto
    refine ⟨fun e he => h.ahead e (ahead ▸ List.mem_cons_of_mem _ he), ?_, h.started,
      fun hidle => absurd hidle (ne_false_of_eq_true busy), ?_, ?_⟩
    · intro e he
      rcases List.mem_append.1 he with he | he
      · exact h.passed e he
      · rw [List.mem_singleton.1 he]
        intro hname
        obtain ⟨h0, hpending⟩ := hn hname
        refine ⟨h0, ?_⟩
        show n.countDown.Pending v.log.ticks
        rw [hk]
        exact hpending.countDown h0 left
    · rintro e (he | he) hname
      · rcases (htiming e).1 he with rfl | he
        · exact h.func n (Or.inl ((hold n).2 (Or.inl rfl))) hname
        · exact h.func e (Or.inl ((hold e).2 (Or.inr he))) hname
      · exact h.func e (Or.inr he) hname
    · intro o ho
      obtain ⟨e, hname, hcodes, ⟨he, hdue⟩ | he⟩ := h.carried o ho
      · rcases (hold e).1 he with rfl | he
        · exact ⟨e.countDown, hname, hcodes, Or.inl ⟨(htiming _).2 (Or.inl rfl), hdue⟩⟩
        · exact ⟨e, hname, hcodes, Or.inl ⟨(htiming e).2 (Or.inr he), hdue⟩⟩
      · exact ⟨e, hname, hcodes, Or.inr he⟩
  | @moved n ns busy ahead expired =>
    have hold : ∀ m, m ∈ v.timing ↔ m = n ∨ m ∈ v.passed ++ ns := by
      intro m
      simp only [EventView.timing, ahead, List.mem_append, List.mem_cons]
      tauto
    refine ⟨fun e he => h.ahead e (ahead ▸ List.mem_cons_of_mem _ he), h.passed, h.started,
      fun hidle => absurd hidle (ne_false_of_eq_true busy), ?_, ?_⟩
    · rintro e (he | he | he) hname
      · exact h.func e (Or.inl ((hold e).2 (Or.inr he))) hname
      · rcases List.mem_cons.1 he with rfl | he
        · exact h.func n (Or.inl ((hold n).2 (Or.inl rfl))) hname
        · exact h.func e (Or.inr (Or.inl he)) hname
      · exact h.func e (Or.inr (Or.inr he)) hname
    · intro o ho
      obtain ⟨e, hname, hcodes, ⟨he, hdue⟩ | he | he⟩ := h.carried o ho
      · rcases (hold e).1 he with rfl | he
        · exact ⟨{ e.countDown with movedAt := v.log.ticks }, hname, hcodes, Or.inr (Or.inl List.mem_cons_self)⟩
        · exact ⟨e, hname, hcodes, Or.inl ⟨he, hdue⟩⟩
      · exact ⟨e, hname, hcodes, Or.inr (Or.inl (List.mem_cons_of_mem _ he))⟩
      · exact ⟨e, hname, hcodes, Or.inr (Or.inr he)⟩
  | tickEnd busy ahead =>
    have htiming : v.timing = v.passed := by rw [EventView.timing, ahead, List.append_nil]
    refine ⟨fun n hn => h.passed n hn, ?_, ?_, fun _ => rfl, ?_, ?_⟩
    · intro n hn
      cases hn
    · intro hbusy
      cases hbusy
    · rintro e (he | he) hname
      · exact h.func e (Or.inl (htiming ▸ he)) hname
      · exact h.func e (Or.inr he) hname
    · intro o ho
      obtain ⟨e, hname, hcodes, ⟨he, hdue⟩ | he⟩ := h.carried o ho
      · exact ⟨e, hname, hcodes, Or.inl ⟨htiming ▸ he, hdue⟩⟩
      · exact ⟨e, hname, hcodes, Or.inr he⟩
  | @taken n ns free timeouts =>
    refine ⟨h.ahead, h.passed, h.started, h.idle, ?_, fun o ho => ?_⟩
    · rintro e (he | he | he) hname
      · exact h.func e (Or.inl he) hname
      · exact h.func e (Or.inr (Or.inl (timeouts ▸ List.mem_cons_of_mem _ he))) hname
      · exact h.func e (Or.inr (Or.inl (timeouts ▸ Option.some.inj he ▸ List.mem_cons_self))) hname
    · obtain ⟨e, hname, hcodes, he | he | he⟩ := h.carried o ho
      · exact ⟨e, hname, hcodes, Or.inl he⟩
      · rw [timeouts] at he
        rcases List.mem_cons.1 he with rfl | he
        · exact ⟨e, hname, hcodes, Or.inr (Or.inr rfl)⟩
        · exact ⟨e, hname, hcodes, Or.inr (Or.inl he)⟩
      · rw [free] at he
        cases he
  | ran held => exact absurd rfl hrun

/-- After a dispatch nothing is owed that the event carried, if it was an Inform. -/
theorem ran (h : Owing v owed) {n : EventNode (BitVec 32)} (held : v.held = some n) {owed' : List (BitVec 32 × Nat)}
    {dispatched : List (Dispatch (BitVec 32))} (hsub : ∀ o ∈ owed', o ∈ owed)
    (hdone : n.name = informEventName → ∀ o ∈ owed', ¬Within o.1 n.codes) :
    Owing { v with held := none, log := { v.log with dispatched := dispatched } } owed' := by
  refine ⟨h.ahead, h.passed, h.started, h.idle, ?_, fun o ho => ?_⟩
  · rintro e (he | he | he) hname
    · exact h.func e (Or.inl he) hname
    · exact h.func e (Or.inr (Or.inl he)) hname
    · cases he
  · obtain ⟨e, hname, hcodes, he | he | he⟩ := h.carried o (hsub o ho)
    · exact ⟨e, hname, hcodes, Or.inl he⟩
    · exact ⟨e, hname, hcodes, Or.inr (Or.inl he)⟩
    · obtain rfl := Option.some.inj (held.symm.trans he)
      exact absurd hcodes (hdone hname o ho)

theorem dispatched {s : InformState} (h : Owing v s.owed) {n : EventNode (BitVec 32)} (held : v.held = some n)
    (hs : ViewStep v .run w) : Owing w (s.dispatch n).owed := by
  cases hs with
  | @ran m hm =>
    obtain rfl := Option.some.inj (held.symm.trans hm)
    refine h.ran held (fun o ho => ?_) (fun hname o ho => ?_)
    · unfold InformState.dispatch at ho
      split at ho
      · exact (List.mem_filter.1 ho).1
      · exact ho
    · rw [InformState.dispatch, if_pos (h.func _ (Or.inr (Or.inr held)) hname)] at ho
      have hnot : ¬Within o.1 (eventInform s.gEventCode n.event.arg) := by simpa using (List.mem_filter.1 ho).2
      exact fun hc => hnot (within_eventInform hc)

/-- A call that adds an Inform, accepted or not. -/
theorem added (h : Owing v owed) {malloc : Option Nat} {time : BitVec 32} {arg : Option (BitVec 32)} (htime : time ≠ 0)
    (hless : v.ticking = false → ∀ n ∈ v.ahead, n.name = informEventName → (time ≤ n.time ∧ Within n.codes (arg.getD 0)) ∨
      ∀ o ∈ owed, Within o.1 (arg.getD 0) ∧ v.log.ticks + max time.toNat 1 ≤ o.2)
    (hs : ViewStep v (.addEvent malloc time .inform (some informEventName) arg) w) :
    Owing w (if w.log.given.length = v.log.given.length then owed
      else owed ++ [(arg.getD 0, v.log.ticks + max time.toNat 1)]) := by
  cases hs with
  | refusedAdd => rwa [if_pos rfl]
  | added idle =>
    rw [if_neg (by simp)]
    exact h.inform idle htime (hless idle)

/-- A call that brings the pending Inform forward, accepted or not. -/
theorem hastened (h : Owing v owed) (hnames : (v.timing.map EventNode.name).Nodup)
    (hs : ViewStep v (.setEvent now (some informEventName)) w) : Owing w owed := by
  cases hs with
  | refusedSet => exact h
  | @rearmed _ _ n idle mem named =>
    rw [h.timing_idle idle] at hnames
    exact h.hasten idle mem (fun m hm hname => List.inj_on_of_nodup_map hnames hm mem (hname.trans named.symm)) named

end Owing

/-! ## On the heap -/

/-- The heap holds two lists whose Informs carry what is owed. -/
def InformState.Owes (s : InformState) : Prop :=
  ∃ vs ts ys, Layout s.events vs ts ys ∧ Owing (s.events.view vs ts ys) s.owed

theorem InformState.Owes.init : InformState.init.Owes := ⟨[], [], [], Layout.init, Owing.init⟩

/-- What the guard says of the pending Inform. -/
theorem KeepsPending.less {s : InformState} {ts ys : List EventPtr} (hl : Layout s.events [] ts ys) {malloc : Option Nat}
    {time : BitVec 32} {arg : Option (BitVec 32)} (hg : KeepsPending s (.inform malloc time arg)) :
    ∀ n ∈ (s.events.view [] ts ys).ahead, n.name = informEventName → (time ≤ n.time ∧ Within n.codes (arg.getD 0)) ∨
      ∀ o ∈ s.owed, Within o.1 (arg.getD 0) ∧ s.events.log.ticks + max time.toNat 1 ≤ o.2 := by
  intro n hn hname
  obtain ⟨q, hq, rfl⟩ := List.mem_map.1 hn
  obtain ⟨found, hget, hsome, hnone⟩ := hl.getEvent (by decide : informEventName ≠ "") time
  cases found with
  | none => exact absurd hname (hnone rfl q hq)
  | some p =>
    obtain ⟨hp, hpname⟩ := hsome p rfl
    have hqp : q = p := by
      refine List.inj_on_of_nodup_map hl.names hq hp ?_
      exact hname.trans hpname.symm
    exact hqp ▸ hg.2 _ hget p rfl

/-- Every step that keeps the pending Inform keeps what is owed carried. -/
theorem InformState.Owes.step {s t : InformState} {a : InformAct} (h : s.Owes) (hg : KeepsPending s a)
    (hs : informStep s a = some t) : t.Owes := by
  obtain ⟨vs, ts, ys, hl, ho⟩ := h
  cases a with
  | inform malloc time arg =>
    rw [informStep, Option.map_eq_some_iff] at hs
    obtain ⟨events, hev, rfl⟩ := hs
    obtain ⟨vs', ts', ys', hl', hstep⟩ := hl.step hev
    refine ⟨vs', ts', ys', hl', ho.added hg.1 (fun hidle => ?_) hstep⟩
    have hvs : vs = [] := hl.idle (by simpa [EventState.view] using hidle)
    subst hvs
    exact hg.less hl
  | hasten =>
    rw [informStep, Option.map_eq_some_iff] at hs
    obtain ⟨events, hev, rfl⟩ := hs
    obtain ⟨vs', ts', ys', hl', hstep⟩ := hl.step hev
    refine ⟨vs', ts', ys', hl', ho.hastened ?_ hstep⟩
    have := hl.names
    simpa [EventView.timing, EventState.view, Function.comp_def] using this
  | other a =>
    rw [informStep, Option.ite_none_left_eq_some, Option.map_eq_some_iff] at hs
    obtain ⟨ha, events, hev, rfl⟩ := hs
    obtain ⟨vs', ts', ys', hl', hstep⟩ := hl.step hev
    refine ⟨vs', ts', ys', ?_⟩
    split
    · rename_i p hheld
      exact ⟨hl', ho.dispatched (by simp [EventState.view, hheld]) hstep⟩
    · rename_i hno
      refine ⟨hl', ho.other ha ?_ hstep⟩
      rintro rfl
      cases hheld : s.events.timeout with
      | none => simp [eventStep, hheld] at hev
      | some p => exact hno p rfl hheld
  | setCodes codes =>
    cases hs
    exact ⟨vs, ts, ys, hl, ho⟩

/-- What is owed is still to come whenever the event thread has nothing to do. -/
theorem InformState.Owes.kept {s t : InformState} {a : InformAct} (h : t.Owes) : InformKept s a t := by
  obtain ⟨vs, ts, ys, hl, ho⟩ := h
  rintro ⟨hidle, hheld, hnext⟩
  refine ho.settled (by simp [EventState.view, hidle]) ?_ (by simp [EventState.view, hheld])
  cases ys with
  | nil => rfl
  | cons y ys =>
    have hnone : none = some y := hnext.symm.trans hl.timeouts.chain.1
    cases hnone

/-- **A pending Inform is kept while nothing takes its place for the worse.** In a run whose steps never add an Inform with a delay
of 0, nor one in place of a pending Inform with more time than that, or what is owed, has left or without one of its codes, every
Inform is dispatched at the tick its time names, with its codes set, as soon as the event thread has dispatched what the timer
thread has moved. -/
theorem pending_inform_kept {tr : List (Transition InformState InformAct)} {s : InformState}
    (hr : Run (Step.ofOption informStep) InformState.init tr s) (hg : Meets KeepsPending tr) : Always InformKept tr :=
  Run.always InformState.Owes.init (fun _ _ _ h hc hs => ⟨h.step hc hs, (h.step hc hs).kept⟩) hr hg

/-- Two Informs, the second added before the first tick, and the tick after them. -/
def twoInforms (first second : BitVec 32) : List InformAct :=
  [.inform (some 0) now (some first), .inform none now (some second), .other .tick, .other .round, .other .tickEnd,
    .other .take, .other .run]

theorem pending_inform_kept_same :
    Always InformKept (play informStep InformState.init (twoInforms EventCode.boot.mask EventCode.boot.mask)).1 :=
  pending_inform_kept (Run.ofPlay informStep InformState.init _) (by decide)

/-- The Inform for the end of a diagnosis takes the place of the one for the start of the agent: when it has been dispatched,
`1 BOOT` is not among the codes. -/
theorem pending_inform_not_kept :
    ¬∀ (tr : List (Transition InformState InformAct)) (s : InformState),
      Run (Step.ofOption informStep) InformState.init tr s → Always InformKept tr := by
  intro h
  have hkept := h _ _ (Run.ofPlay informStep InformState.init (twoInforms EventCode.boot.mask EventCode.diagnostics.mask))
  have hlast := hkept _ (List.getLast_mem
    (l := (play informStep InformState.init (twoInforms EventCode.boot.mask EventCode.diagnostics.mask)).1) (by decide))
  exact absurd (hlast ⟨rfl, rfl, rfl⟩ (EventCode.boot.mask, 1) (by decide)) (by decide)

end CodeFactory.Core
