import CodeFactory.Core.EventView

/-!
# The history of an event

An event is known by the number of the `add_event` call that made it. Here is what holds of every run, whatever the delays and
the types: an event in the timing list has neither been moved nor cancelled, an event is moved at most once, what was moved is
waiting, held or dispatched, and a node carries what its `add_event` call gave.
-/

namespace CodeFactory.Core

variable {α : Type*} {v w : EventView α} {a : EventAct α}

def EventView.timing (v : EventView α) : List (EventNode α) := v.passed ++ v.ahead

/-- The numbers of the events moved so far. -/
def EventLog.movedIds (log : EventLog α) : List Nat := log.moved.map Prod.fst

/-- The numbers of the events dispatched so far. -/
def EventLog.dispatchedIds (log : EventLog α) : List Nat := log.dispatched.map Dispatch.id

/-- The node carries the type, the function of the table and the argument that its `add_event` call gave. -/
def CarriesGiven (log : EventLog α) (n : EventNode α) : Prop :=
  ∃ type arg, log.given[n.id]? = some (type, arg) ∧ n.event.func = ⟨some type, eventFuncOf type⟩ ∧ n.event.arg = arg

theorem CarriesGiven.mono {log log' : EventLog α} {n : EventNode α} (h : CarriesGiven log n)
    (hgiven : log.given <+: log'.given) : CarriesGiven log' n := by
  obtain ⟨type, arg, hg, hrest⟩ := h
  obtain ⟨more, hmore⟩ := hgiven
  refine ⟨type, arg, ?_, hrest⟩
  rw [← hmore, List.getElem?_append_left (List.getElem?_eq_some_iff.1 hg).1]
  exact hg

/-- What the log and the lists have to do with each other. -/
structure History (v : EventView α) : Prop where
  idle : v.ticking = false → v.passed = []
  timingIds : (v.timing.map EventNode.id).Nodup
  given : ∀ n, n ∈ v.timing ∨ n ∈ v.timeouts ∨ v.held = some n → CarriesGiven v.log n
  unmoved : ∀ n ∈ v.timing, n.id ∉ v.log.movedIds
  uncancelled : ∀ n ∈ v.timing, n.id ∉ v.log.cancelled
  movedIds : v.log.movedIds.Nodup
  movedPerm : (v.log.taken ++ v.timeouts.map EventNode.id).Perm v.log.movedIds
  taken : v.log.taken = v.log.dispatchedIds ++ v.held.toList.map EventNode.id
  movedAt : ∀ n, n ∈ v.timeouts ∨ v.held = some n → (n.id, n.movedAt) ∈ v.log.moved
  movedBefore : ∀ x ∈ v.log.moved, x.2 ≤ v.log.ticks
  cancelled : ∀ i ∈ v.log.cancelled, i ∉ v.log.movedIds
  known : ∀ i, i ∈ v.log.movedIds ∨ i ∈ v.log.cancelled → i < v.log.given.length

theorem History.init : History (EventState.view (EventState.init : EventState α) [] [] []) := by
  constructor <;> simp [EventState.view, EventState.init, EventView.timing, EventLog.init, EventLog.movedIds,
    EventLog.dispatchedIds]

/-! ## The timing list after a call -/

theorem insertTimed_perm (time : BitVec 32) (name : String) (n : EventNode α) (l : List (EventNode α)) :
    (insertTimed time name n l).Perm (n :: l.filter (·.name ≠ name)) := by
  have h : l.rdropWhile (fun e => ¬e.time < time) ++ l.rtakeWhile (fun e => ¬e.time < time) = l :=
    List.rdropWhile_append_rtakeWhile
  have h' := congrArg (List.filter (·.name ≠ name)) h
  rw [List.filter_append] at h'
  rw [← h']
  exact List.perm_middle

theorem mem_insertTimed {time : BitVec 32} {name : String} {n e : EventNode α} {l : List (EventNode α)} :
    e ∈ insertTimed time name n l ↔ e = n ∨ e ∈ l ∧ e.name ≠ name := by
  rw [(insertTimed_perm time name n l).mem_iff, List.mem_cons, List.mem_filter, decide_eq_true_eq]

theorem mem_idsOf {name : String} {i : Nat} {l : List (EventNode α)} :
    i ∈ idsOf name l ↔ ∃ n ∈ l, n.name = name ∧ n.id = i := by
  simp [idsOf, and_assoc]

namespace History

theorem eq_of_id (h : History v) {n n' : EventNode α} (hn : n ∈ v.timing) (hn' : n' ∈ v.timing) (e : n.id = n'.id) :
    n = n' := List.inj_on_of_nodup_map h.timingIds hn hn' e

theorem id_lt (h : History v) {n : EventNode α} (hn : n ∈ v.timing) : n.id < v.log.given.length := by
  obtain ⟨type, arg, hg, -⟩ := h.given n (Or.inl hn)
  exact (List.getElem?_eq_some_iff.1 hg).1

theorem aheadIds (h : History v) : (v.ahead.map EventNode.id).Nodup := by
  have := h.timingIds
  rw [EventView.timing, List.map_append] at this
  exact (List.nodup_append.1 this).2.1

theorem moved_cases (h : History v) {i k : Nat} (hm : (i, k) ∈ v.log.moved) :
    i ∈ v.log.taken ∨ ∃ n ∈ v.timeouts, n.id = i ∧ n.movedAt = k := by
  have hi : i ∈ v.log.taken ++ v.timeouts.map EventNode.id := h.movedPerm.mem_iff.2 (List.mem_map_of_mem hm)
  rcases List.mem_append.1 hi with hi | hi
  · exact Or.inl hi
  · obtain ⟨n, hn, rfl⟩ := List.mem_map.1 hi
    have := List.inj_on_of_nodup_map h.movedIds (h.movedAt n (Or.inl hn)) hm rfl
    exact Or.inr ⟨n, hn, rfl, (Prod.mk.inj this).2⟩

theorem not_taken (h : History v) {n : EventNode α} (hn : n ∈ v.timeouts) : n.id ∉ v.log.taken := fun ht =>
  (List.nodup_append.1 (h.movedPerm.nodup_iff.2 h.movedIds)).2.2 _ ht _ (List.mem_map_of_mem hn) rfl

theorem moved_unique (h : History v) {i k k' : Nat} (hk : (i, k) ∈ v.log.moved) (hk' : (i, k') ∈ v.log.moved) : k = k' :=
  (Prod.mk.inj (List.inj_on_of_nodup_map h.movedIds hk hk' rfl)).2

/-- A call changes the timing list, the calls logged and the events cancelled, and nothing else. -/
theorem call (h : History v) (hidle : v.ticking = false) {ahead : List (EventNode α)} {given : List (EventType × Option α)}
    {cancelled : List Nat} (hids : (ahead.map EventNode.id).Nodup) (hgiven : v.log.given <+: given)
    (hcarries : ∀ n ∈ ahead, CarriesGiven { v.log with given := given } n) (hunmoved : ∀ n ∈ ahead, n.id ∉ v.log.movedIds)
    (huncancelled : ∀ n ∈ ahead, n.id ∉ cancelled)
    (hcancelled : ∀ i ∈ cancelled, i ∉ v.log.movedIds ∧ i < given.length) :
    History { v with ahead := ahead, log := { v.log with given := given, cancelled := cancelled } } := by
  have hpassed := h.idle hidle
  have htiming : ∀ n, n ∈ v.passed ++ ahead ↔ n ∈ ahead := by simp [hpassed]
  constructor
  case idle => exact fun _ => hpassed
  case timingIds => simpa [EventView.timing, hpassed] using hids
  case given =>
    rintro n (hn | hn)
    · exact hcarries n ((htiming n).1 hn)
    · exact (h.given n (Or.inr hn)).mono hgiven
  case unmoved => exact fun n hn => hunmoved n ((htiming n).1 hn)
  case uncancelled => exact fun n hn => huncancelled n ((htiming n).1 hn)
  case movedIds => exact h.movedIds
  case movedPerm => exact h.movedPerm
  case taken => exact h.taken
  case movedAt => exact h.movedAt
  case movedBefore => exact h.movedBefore
  case cancelled => exact fun i hi => (hcancelled i hi).1
  case known =>
    rintro i (hi | hi)
    · exact (h.known i (Or.inl hi)).trans_le hgiven.length_le
    · exact (hcancelled i hi).2

theorem added (h : History v) (hidle : v.ticking = false) (time : BitVec 32) (type : EventType) (name : String)
    (arg : Option α) :
    History
      { v with
        ahead := insertTimed time name (v.log.newEvent time type name arg) v.ahead
        log := { v.log with given := v.log.given ++ [(type, arg)], cancelled := v.log.cancelled ++ idsOf name v.ahead } } := by
  have hahead : ∀ n ∈ v.ahead, n ∈ v.timing := fun n hn => List.mem_append_right _ hn
  have hids := h.aheadIds
  -- the events of the name are cancelled, the others stay
  have hother : ∀ n ∈ v.ahead, n.name ≠ name → n.id ∉ idsOf name v.ahead := by
    intro n hn hne hm
    obtain ⟨n', hn', hname, hid⟩ := mem_idsOf.1 hm
    exact hne (h.eq_of_id (hahead n hn) (hahead n' hn') hid.symm ▸ hname)
  refine h.call hidle ?_ (List.prefix_append _ _) (fun n hn => ?_) (fun n hn => ?_) (fun n hn => ?_) (fun i hi => ?_)
  · refine ((insertTimed_perm ..).map _).nodup_iff.2 (List.nodup_cons.2 ⟨fun hm => ?_, ?_⟩)
    · obtain ⟨n, hn, hid⟩ := List.mem_map.1 hm
      have := h.id_lt (hahead n (List.mem_filter.1 hn).1)
      exact absurd (hid ▸ this) (Nat.lt_irrefl _)
    · exact hids.sublist (List.filter_sublist.map _)
  · rcases mem_insertTimed.1 hn with rfl | ⟨hn, -⟩
    · exact ⟨type, arg, by simp [EventLog.newEvent], rfl, rfl⟩
    · exact (h.given n (Or.inl (hahead n hn))).mono (List.prefix_append _ _)
  · rcases mem_insertTimed.1 hn with rfl | ⟨hn, -⟩
    · exact fun hm => absurd (h.known _ (Or.inl hm)) (Nat.lt_irrefl _)
    · exact h.unmoved n (hahead n hn)
  · rw [List.mem_append, not_or]
    rcases mem_insertTimed.1 hn with rfl | ⟨hn, hne⟩
    · refine ⟨fun hm => absurd (h.known _ (Or.inr hm)) (Nat.lt_irrefl _), fun hm => ?_⟩
      obtain ⟨n', hn', -, hid⟩ := mem_idsOf.1 hm
      exact absurd (hid ▸ h.id_lt (hahead n' hn')) (Nat.lt_irrefl _)
    · exact ⟨h.uncancelled n (hahead n hn), hother n hn hne⟩
  · rw [List.length_append]
    rcases List.mem_append.1 hi with hi | hi
    · exact ⟨h.cancelled i hi, Nat.lt_add_right _ (h.known i (Or.inr hi))⟩
    · obtain ⟨n, hn, -, rfl⟩ := mem_idsOf.1 hi
      exact ⟨h.unmoved n (hahead n hn), Nat.lt_add_right _ (h.id_lt (hahead n hn))⟩

/-- An event is given another delay: it stays the event it was. -/
theorem rearmed (h : History v) (hidle : v.ticking = false) {n : EventNode α} (hn : n ∈ v.ahead) (time : BitVec 32) :
    History { v with ahead := insertTimed time n.name (n.rearm v.log time) v.ahead } := by
  have hahead : ∀ n ∈ v.ahead, n ∈ v.timing := fun n hn => List.mem_append_right _ hn
  have hids := h.aheadIds
  -- every event of the new list has its number and its content from one of the old list
  have hold : ∀ e ∈ insertTimed time n.name (n.rearm v.log time) v.ahead, ∃ e' ∈ v.ahead, e.id = e'.id ∧ e.event = e'.event := by
    intro e he
    rcases mem_insertTimed.1 he with rfl | ⟨he, -⟩
    · exact ⟨n, hn, rfl, rfl⟩
    · exact ⟨e, he, rfl, rfl⟩
  refine h.call hidle ?_ (List.prefix_refl _) (fun e he => ?_) (fun e he => ?_) (fun e he => ?_) (fun i hi => ?_)
  · refine ((insertTimed_perm ..).map _).nodup_iff.2 (List.nodup_cons.2 ⟨fun hm => ?_, ?_⟩)
    · obtain ⟨e, he, hid⟩ := List.mem_map.1 hm
      obtain ⟨he, hne⟩ := List.mem_filter.1 he
      refine absurd ?_ (of_decide_eq_true hne)
      rw [h.eq_of_id (hahead e he) (hahead n hn) hid]
    · exact hids.sublist (List.filter_sublist.map _)
  · obtain ⟨e', he', hid, hevent⟩ := hold e he
    obtain ⟨type, arg, hg, hrest⟩ := h.given e' (Or.inl (hahead e' he'))
    exact ⟨type, arg, hid ▸ hg, hevent ▸ hrest⟩
  · obtain ⟨e', he', hid, -⟩ := hold e he
    exact hid ▸ h.unmoved e' (hahead e' he')
  · obtain ⟨e', he', hid, -⟩ := hold e he
    exact hid ▸ h.uncancelled e' (hahead e' he')
  · exact ⟨h.cancelled i hi, h.known i (Or.inr hi)⟩

/-- An event is deleted. -/
theorem deleted (h : History v) (hidle : v.ticking = false) (name : String) :
    History
      { v with
        ahead := v.ahead.filter (·.name ≠ name)
        log := { v.log with cancelled := v.log.cancelled ++ idsOf name v.ahead } } := by
  have hahead : ∀ n ∈ v.ahead, n ∈ v.timing := fun n hn => List.mem_append_right _ hn
  have hids := h.aheadIds
  refine h.call hidle (hids.sublist (List.filter_sublist.map _)) (List.prefix_refl _) (fun n hn => ?_) (fun n hn => ?_)
    (fun n hn => ?_) (fun i hi => ?_)
  · exact h.given n (Or.inl (hahead n (List.mem_filter.1 hn).1))
  · exact h.unmoved n (hahead n (List.mem_filter.1 hn).1)
  · obtain ⟨hn, hne⟩ := List.mem_filter.1 hn
    rw [List.mem_append, not_or]
    refine ⟨h.uncancelled n (hahead n hn), fun hm => ?_⟩
    obtain ⟨n', hn', hname, hid⟩ := mem_idsOf.1 hm
    exact of_decide_eq_true hne (h.eq_of_id (hahead n hn) (hahead n' hn') hid.symm ▸ hname)
  · rcases List.mem_append.1 hi with hi | hi
    · exact ⟨h.cancelled i hi, h.known i (Or.inr hi)⟩
    · obtain ⟨n, hn, -, rfl⟩ := mem_idsOf.1 hi
      exact ⟨h.unmoved n (hahead n hn), h.id_lt (hahead n hn)⟩

/-- A round that leaves its event in the timing list. -/
theorem counted (h : History v) {n : EventNode α} {ns : List (EventNode α)} (hbusy : v.ticking = true)
    (hahead : v.ahead = n :: ns) : History { v with passed := v.passed ++ [n.countDown], ahead := ns } := by
  have hids : ((v.passed ++ [n.countDown] ++ ns).map EventNode.id) = v.timing.map EventNode.id := by
    simp [EventView.timing, hahead, EventNode.countDown]
  have hold : ∀ e ∈ v.passed ++ [n.countDown] ++ ns, ∃ e' ∈ v.timing, e.id = e'.id ∧ e.event = e'.event := by
    intro e he
    have hn : n ∈ v.timing := List.mem_append_right _ (hahead ▸ List.mem_cons_self)
    rw [List.append_assoc, List.mem_append, List.mem_append, List.mem_singleton] at he
    rcases he with he | rfl | he
    · exact ⟨e, List.mem_append_left _ he, rfl, rfl⟩
    · exact ⟨n, hn, rfl, rfl⟩
    · exact ⟨e, List.mem_append_right _ (hahead ▸ List.mem_cons_of_mem _ he), rfl, rfl⟩
  constructor
  case idle => exact fun hidle => absurd (hbusy.symm.trans hidle) nofun
  case timingIds =>
    show ((v.passed ++ [n.countDown] ++ ns).map EventNode.id).Nodup
    rw [hids]
    exact h.timingIds
  case given =>
    rintro e (he | he)
    · obtain ⟨e', he', hid, hevent⟩ := hold e he
      obtain ⟨type, arg, hg, hrest⟩ := h.given e' (Or.inl he')
      exact ⟨type, arg, hid ▸ hg, hevent ▸ hrest⟩
    · exact h.given e (Or.inr he)
  case unmoved =>
    intro e he
    obtain ⟨e', he', hid, -⟩ := hold e he
    exact hid ▸ h.unmoved e' he'
  case uncancelled =>
    intro e he
    obtain ⟨e', he', hid, -⟩ := hold e he
    exact hid ▸ h.uncancelled e' he'
  case movedIds => exact h.movedIds
  case movedPerm => exact h.movedPerm
  case taken => exact h.taken
  case movedAt => exact h.movedAt
  case movedBefore => exact h.movedBefore
  case cancelled => exact h.cancelled
  case known => exact h.known

/-- A round that moves its event to the timeout list. -/
theorem moved (h : History v) {n : EventNode α} {ns : List (EventNode α)} (hbusy : v.ticking = true)
    (hahead : v.ahead = n :: ns) :
    History
      { v with
        ahead := ns
        timeouts := { n.countDown with movedAt := v.log.ticks } :: v.timeouts
        log := { v.log with moved := v.log.moved ++ [(n.id, v.log.ticks)] } } := by
  have hn : n ∈ v.timing := List.mem_append_right _ (hahead ▸ List.mem_cons_self)
  have hsub : (v.passed ++ ns).Sublist v.timing := by simp [EventView.timing, hahead]
  have hids : (n.id :: (v.passed ++ ns).map EventNode.id).Nodup := by
    refine (List.Perm.nodup_iff ?_).1 h.timingIds
    rw [EventView.timing, hahead, ← List.map_cons]
    exact List.perm_middle.map _
  have hmovedIds : ({ v.log with moved := v.log.moved ++ [(n.id, v.log.ticks)] } : EventLog α).movedIds =
      v.log.movedIds ++ [n.id] := by simp [EventLog.movedIds]
  constructor
  case idle => exact fun hidle => absurd (hbusy.symm.trans hidle) nofun
  case timingIds => exact (List.nodup_cons.1 hids).2
  case given =>
    rintro e (he | he | he)
    · exact h.given e (Or.inl (hsub.subset he))
    · rcases List.mem_cons.1 he with rfl | he
      · exact h.given n (Or.inl hn)
      · exact h.given e (Or.inr (Or.inl he))
    · exact h.given e (Or.inr (Or.inr he))
  case unmoved =>
    intro e he
    rw [hmovedIds, List.mem_append, List.mem_singleton, not_or]
    refine ⟨h.unmoved e (hsub.subset he), fun hid => ?_⟩
    exact (List.nodup_cons.1 hids).1 (hid ▸ List.mem_map_of_mem he)
  case uncancelled => exact fun e he => h.uncancelled e (hsub.subset he)
  case movedIds =>
    rw [hmovedIds]
    refine List.nodup_append.2 ⟨h.movedIds, List.nodup_singleton _, fun i hi j hj e => ?_⟩
    rw [List.mem_singleton.1 hj] at e
    exact h.unmoved n hn (e ▸ hi)
  case movedPerm =>
    rw [hmovedIds]
    show (v.log.taken ++ n.id :: v.timeouts.map EventNode.id).Perm _
    refine List.perm_middle.trans (List.Perm.trans ?_ (List.perm_append_singleton _ _).symm)
    exact h.movedPerm.cons _
  case taken => exact h.taken
  case movedAt =>
    rintro e (he | he)
    · rcases List.mem_cons.1 he with rfl | he
      · exact List.mem_append_right _ (List.mem_singleton.2 rfl)
      · exact List.mem_append_left _ (h.movedAt e (Or.inl he))
    · exact List.mem_append_left _ (h.movedAt e (Or.inr he))
  case movedBefore =>
    intro x hx
    rcases List.mem_append.1 hx with hx | hx
    · exact h.movedBefore x hx
    · rw [List.mem_singleton.1 hx]
  case cancelled =>
    intro i hi
    rw [hmovedIds, List.mem_append, List.mem_singleton, not_or]
    refine ⟨h.cancelled i hi, fun e => ?_⟩
    exact h.uncancelled n hn (e ▸ hi)
  case known =>
    intro i hi
    rw [hmovedIds, List.mem_append, List.mem_singleton] at hi
    rcases hi with (hi | rfl) | hi
    · exact h.known i (Or.inl hi)
    · exact h.id_lt hn
    · exact h.known i (Or.inr hi)

/-- The event thread takes an event. -/
theorem take (h : History v) {n : EventNode α} {ns : List (EventNode α)} (hfree : v.held = none)
    (htimeouts : v.timeouts = n :: ns) :
    History { v with timeouts := ns, held := some n, log := { v.log with taken := v.log.taken ++ [n.id] } } := by
  constructor
  case idle => exact h.idle
  case timingIds => exact h.timingIds
  case given =>
    rintro e (he | he | he)
    · exact h.given e (Or.inl he)
    · exact h.given e (Or.inr (Or.inl (htimeouts ▸ List.mem_cons_of_mem _ he)))
    · obtain rfl := Option.some.inj he
      exact h.given n (Or.inr (Or.inl (htimeouts ▸ List.mem_cons_self)))
  case unmoved => exact h.unmoved
  case uncancelled => exact h.uncancelled
  case movedIds => exact h.movedIds
  case movedPerm =>
    show (v.log.taken ++ [n.id] ++ ns.map EventNode.id).Perm v.log.movedIds
    have := h.movedPerm
    rw [htimeouts] at this
    simpa using this
  case taken =>
    have := h.taken
    rw [hfree] at this
    simpa [EventLog.dispatchedIds] using this
  case movedAt =>
    rintro e (he | he)
    · exact h.movedAt e (Or.inl (htimeouts ▸ List.mem_cons_of_mem _ he))
    · obtain rfl := Option.some.inj he
      exact h.movedAt n (Or.inl (htimeouts ▸ List.mem_cons_self))
  case movedBefore => exact h.movedBefore
  case cancelled => exact h.cancelled
  case known => exact h.known

/-- The event thread makes its call. -/
theorem ran (h : History v) {n : EventNode α} (hheld : v.held = some n) :
    History
      { v with
        held := none
        log := { v.log with dispatched := v.log.dispatched ++ [⟨n.id, n.event.func.eventFunc, n.event.arg⟩] } } := by
  constructor
  case idle => exact h.idle
  case timingIds => exact h.timingIds
  case given =>
    rintro e (he | he | he)
    · exact h.given e (Or.inl he)
    · exact h.given e (Or.inr (Or.inl he))
    · cases he
  case unmoved => exact h.unmoved
  case uncancelled => exact h.uncancelled
  case movedIds => exact h.movedIds
  case movedPerm => exact h.movedPerm
  case taken =>
    have := h.taken
    rw [hheld] at this
    simpa [EventLog.dispatchedIds] using this
  case movedAt =>
    rintro e (he | he)
    · exact h.movedAt e (Or.inl he)
    · cases he
  case movedBefore => exact h.movedBefore
  case cancelled => exact h.cancelled
  case known => exact h.known

/-- **Every step keeps the history.** -/
theorem step (h : History v) (hs : ViewStep v a w) : History w := by
  cases hs with
  | refusedAdd | refusedSet | refusedDelete => exact h
  | added idle => exact h.added idle ..
  | rearmed idle mem named =>
    subst named
    exact h.rearmed idle mem _
  | deleted idle => exact h.deleted idle _
  | tick idle =>
    exact
      { h with
        idle := fun hbusy => nomatch hbusy
        given := fun n hn => (h.given n hn).mono (List.prefix_refl _)
        movedBefore := fun x hx => Nat.le_succ_of_le (h.movedBefore x hx) }
  | counted busy ahead left => exact h.counted busy ahead
  | moved busy ahead expired => exact h.moved busy ahead
  | tickEnd busy ahead =>
    have htiming : v.timing = [] ++ v.passed := by simp [EventView.timing, ahead]
    have hmem : ∀ n, n ∈ [] ++ v.passed → n ∈ v.timing := fun n hn => htiming.symm ▸ hn
    exact
      { h with
        idle := fun _ => rfl
        timingIds := by
          show (([] ++ v.passed).map EventNode.id).Nodup
          rw [← htiming]
          exact h.timingIds
        given := fun n hn => h.given n (hn.imp_left (hmem n))
        unmoved := fun n hn => h.unmoved n (hmem n hn)
        uncancelled := fun n hn => h.uncancelled n (hmem n hn) }
  | taken free timeouts => exact h.take free timeouts
  | ran held => exact h.ran held

end History

/-- The heap holds two lists with a history. -/
def Sound (s : EventState α) : Prop := ∃ vs ts ys, Layout s vs ts ys ∧ History (s.view vs ts ys)

theorem Sound.init : Sound (EventState.init : EventState α) := ⟨[], [], [], Layout.init, History.init⟩

theorem Sound.step {s t : EventState α} (h : Sound s) (hs : eventStep s a = some t) : Sound t := by
  obtain ⟨vs, ts, ys, hl, hh⟩ := h
  obtain ⟨vs', ts', ys', hl', hstep⟩ := hl.step hs
  exact ⟨vs', ts', ys', hl', hh.step hstep⟩

end CodeFactory.Core
