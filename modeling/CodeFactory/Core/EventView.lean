import Mathlib.Data.List.DropRight
import CodeFactory.Core.Event

/-!
# The event module without its pointers

What the heap of the event module stands for: a timing list and a timeout list of events, and the event the event thread holds.
`Layout` says how the heap holds them, `ViewStep` what each step does to them, and `eventStep_view` that every step of the code is
such a step, whatever the threads do: the lists stay well linked and no operation meets a null pointer.
-/

namespace CodeFactory.Core

variable {α : Type*}

/-- The two lists. While the timer thread is in its loop, the timing list is what it has passed and what is still ahead of it;
outside, all of the list is ahead. -/
@[ext] structure EventView (α : Type*) where
  passed : List (EventNode α)
  ahead : List (EventNode α)
  ticking : Bool
  timeouts : List (EventNode α)
  held : Option (EventNode α)
  log : EventLog α

/-- The place `get_event_from_timing_list` finds for an event with `time` left, in a list without the events of a name: behind the
last of those with less time left. -/
def insertTimed (time : BitVec 32) (name : String) (n : EventNode α) (l : List (EventNode α)) : List (EventNode α) :=
  (l.rdropWhile (fun e => ¬e.time < time)).filter (·.name ≠ name) ++
    n :: (l.rtakeWhile (fun e => ¬e.time < time)).filter (·.name ≠ name)

/-- The numbers of the events of a name. -/
def idsOf (name : String) (l : List (EventNode α)) : List Nat := (l.filter (·.name = name)).map EventNode.id

/-- What a step can do. -/
inductive ViewStep : EventView α → EventAct α → EventView α → Prop where
  /-- A call that is refused, or fails, changes nothing. -/
  | refusedAdd {v : EventView α} {malloc time type eventName arg} : ViewStep v (.addEvent malloc time type eventName arg) v
  | refusedSet {v : EventView α} {time eventName} : ViewStep v (.setEvent time eventName) v
  | refusedDelete {v : EventView α} {eventName} : ViewStep v (.deleteEvent eventName) v
  /-- An event is added, in place of the one of its name if there is one. -/
  | added {v : EventView α} {malloc time type name arg} (idle : v.ticking = false) :
      ViewStep v (.addEvent malloc time type (some name) arg)
        { v with
          ahead := insertTimed time name (v.log.newEvent time type name arg) v.ahead
          log := { v.log with
            given := v.log.given ++ [(type, arg)], cancelled := v.log.cancelled ++ idsOf name v.ahead } }
  /-- An event is given another delay. -/
  | rearmed {v : EventView α} {time name n} (idle : v.ticking = false) (mem : n ∈ v.ahead) (named : n.name = name) :
      ViewStep v (.setEvent time (some name)) { v with ahead := insertTimed time name (n.rearm v.log time) v.ahead }
  /-- An event is deleted. -/
  | deleted {v : EventView α} {name} (idle : v.ticking = false) :
      ViewStep v (.deleteEvent (some name))
        { v with
          ahead := v.ahead.filter (·.name ≠ name)
          log := { v.log with cancelled := v.log.cancelled ++ idsOf name v.ahead } }
  | tick {v : EventView α} (idle : v.ticking = false) :
      ViewStep v .tick { v with ticking := true, log := { v.log with ticks := v.log.ticks + 1 } }
  /-- A round at an event that has time left. -/
  | counted {v : EventView α} {n ns} (busy : v.ticking = true) (ahead : v.ahead = n :: ns) (left : n.countDown.time ≠ 0) :
      ViewStep v .round { v with passed := v.passed ++ [n.countDown], ahead := ns }
  /-- A round at an event that has no time left: it goes to the front of the timeout list. -/
  | moved {v : EventView α} {n ns} (busy : v.ticking = true) (ahead : v.ahead = n :: ns) (expired : n.countDown.time = 0) :
      ViewStep v .round
        { v with
          ahead := ns
          timeouts := { n.countDown with movedAt := v.log.ticks } :: v.timeouts
          log := { v.log with moved := v.log.moved ++ [(n.id, v.log.ticks)] } }
  | tickEnd {v : EventView α} (busy : v.ticking = true) (ahead : v.ahead = []) :
      ViewStep v .tickEnd { v with passed := [], ahead := v.passed, ticking := false }
  | taken {v : EventView α} {n ns} (free : v.held = none) (timeouts : v.timeouts = n :: ns) :
      ViewStep v .take { v with timeouts := ns, held := some n, log := { v.log with taken := v.log.taken ++ [n.id] } }
  | ran {v : EventView α} {n} (held : v.held = some n) :
      ViewStep v .run
        { v with
          held := none
          log := { v.log with dispatched := v.log.dispatched ++ [⟨n.id, n.event.func.eventFunc, n.event.arg⟩] } }

theorem ViewStep.of_eq {v w w' : EventView α} {a : EventAct α} (h : ViewStep v a w) (e : w' = w) : ViewStep v a w' := e ▸ h

/-! ## How the heap holds the lists -/

/-- The heap holds the timing list, of which the timer thread has passed `vs` and not yet `ts`, and the timeout list `ys`. -/
structure Layout (s : EventState α) (vs ts ys : List EventPtr) : Prop where
  timing : s.links.Linked .timingList (vs ++ ts)
  timeouts : s.links.Linked .timeoutList ys
  /-- No node is in two places. -/
  nodup : (vs ++ ts ++ (ys ++ s.timeout.toList)).Nodup
  /-- Every node in use is allocated. -/
  used : ∀ p ∈ vs ++ ts ++ (ys ++ s.timeout.toList), p ∈ s.allocated
  /-- The headers are not allocated. -/
  allocated : ∀ p ∈ s.allocated, ∃ a, p = .node a
  idle : s.timer = none → vs = []
  cursor : ∀ c, s.timer = some c → c = ts.head?
  header : (s.node .timingList).time = 0 ∧ (s.node .timingList).name = ""
  names : ((vs ++ ts).map fun p => (s.node p).name).Nodup
  named : ∀ p ∈ vs ++ ts, (s.node p).name ≠ ""

/-- The lists the heap holds. -/
def EventState.view (s : EventState α) (vs ts ys : List EventPtr) : EventView α :=
  { passed := vs.map s.node
    ahead := ts.map s.node
    ticking := s.timer.isSome
    timeouts := ys.map s.node
    held := s.timeout.map s.node
    log := s.log }

theorem Layout.init : Layout (EventState.init : EventState α) [] [] [] where
  timing := ⟨rfl, by simp⟩
  timeouts := ⟨rfl, by simp⟩
  nodup := by simp [EventState.init]
  used := by simp [EventState.init]
  allocated := by simp [EventState.init]
  idle := fun _ => rfl
  cursor := by simp [EventState.init]
  header := ⟨rfl, rfl⟩
  names := by simp
  named := by simp

theorem rdropWhile_map {β γ : Type*} (f : β → γ) (p : γ → Bool) (l : List β) :
    (l.map f).rdropWhile p = (l.rdropWhile fun x => p (f x)).map f := by
  simp only [List.rdropWhile, ← List.map_reverse, List.dropWhile_map]
  rfl

theorem rtakeWhile_map {β γ : Type*} (f : β → γ) (p : γ → Bool) (l : List β) :
    (l.map f).rtakeWhile p = (l.rtakeWhile fun x => p (f x)).map f := by
  simp only [List.rtakeWhile, ← List.map_reverse, List.takeWhile_map]
  rfl

section Search

variable {s : EventState α} {ts ys : List EventPtr} {name : String} {time : BitVec 32}

/-- The timing list up to the place for an event with `time` left, and from there on. -/
def EventState.before (s : EventState α) (time : BitVec 32) (ts : List EventPtr) : List EventPtr :=
  ts.rdropWhile fun p => ¬(s.node p).time < time

def EventState.behind (s : EventState α) (time : BitVec 32) (ts : List EventPtr) : List EventPtr :=
  ts.rtakeWhile fun p => ¬(s.node p).time < time

theorem before_append_behind (s : EventState α) (time : BitVec 32) (ts : List EventPtr) :
    s.before time ts ++ s.behind time ts = ts := List.rdropWhile_append_rtakeWhile

theorem before_concat (s : EventState α) (time : BitVec 32) (ts : List EventPtr) (t : EventPtr) :
    s.before time (ts ++ [t]) = if (s.node t).time < time then ts ++ [t] else s.before time ts := by
  rw [EventState.before, List.rdropWhile_concat]
  by_cases ht : (s.node t).time < time
  · simp [ht]
  · simp [ht, EventState.before]

/-- What the loop of `get_event_from_timing_list` has found behind the header. -/
theorem getEvent_foldl (s : EventState α) (name : String) (time : BitVec 32) (ts : List EventPtr) :
    ∃ found, ts.foldl
        (fun (found : Option EventPtr × EventPtr) list =>
          (if (s.node list).name = name then some list else found.1, if (s.node list).time < time then list else found.2))
        (none, .timingList) = (found, (s.before time ts).getLastD .timingList) ∧
      (∀ p, found = some p → p ∈ ts ∧ (s.node p).name = name) ∧ (found = none → ∀ p ∈ ts, (s.node p).name ≠ name) := by
  induction ts using List.reverseRecOn with
  | nil => exact ⟨none, rfl, nofun, nofun⟩
  | append_singleton ts t ih =>
    obtain ⟨found, hfold, hsome, hnone⟩ := ih
    refine ⟨if (s.node t).name = name then some t else found, ?_, ?_, ?_⟩
    · rw [List.foldl_append, hfold, List.foldl_cons, List.foldl_nil, before_concat]
      by_cases ht : (s.node t).time < time
      · rw [if_pos ht, if_pos ht, List.getLastD_concat]
      · rw [if_neg ht, if_neg ht]
    · intro p hp
      split at hp
      · rename_i ht
        cases hp
        exact ⟨by simp, ht⟩
      · exact ⟨List.mem_append_left _ (hsome p hp).1, (hsome p hp).2⟩
    · intro hn p hp
      split at hn
      · cases hn
      · rename_i ht
        rcases List.mem_append.1 hp with hp | hp
        · exact hnone hn p hp
        · rwa [List.mem_singleton.1 hp]

theorem Layout.length_le {vs : List EventPtr} (h : Layout s vs ts ys) : (vs ++ ts).length ≤ s.allocated.length := by
  refine (List.nodup_append.1 h.nodup).1.length_le_of_subset fun p hp => ?_
  exact h.used p (List.mem_append_left _ hp)

theorem Layout.getEvent (h : Layout s [] ts ys) (hname : name ≠ "") (time : BitVec 32) :
    ∃ found, getEventFromTimingList s name time = some (found, (s.before time ts).getLastD .timingList) ∧
      (∀ p, found = some p → p ∈ ts ∧ (s.node p).name = name) ∧ (found = none → ∀ p ∈ ts, (s.node p).name ≠ name) := by
  obtain ⟨found, hfold, hfound⟩ := getEvent_foldl s name time ts
  refine ⟨found, ?_, hfound⟩
  have hlen := h.length_le
  rw [List.nil_append] at hlen
  rw [getEventFromTimingList, h.timing.chain.walk _ (by simpa using Nat.lt_succ_of_le hlen)]
  rw [List.nil_append, List.foldl_cons, if_neg (h.header.2 ▸ hname.symm), ite_self, hfold]

/-- The timing list with `p` taken out, if it is there, and put in at the place for an event with `time` left. -/
def EventState.placed (s : EventState α) (time : BitVec 32) (p : EventPtr) (ts : List EventPtr) : List EventPtr :=
  (s.before time ts).filter (· ≠ p) ++ p :: (s.behind time ts).filter (· ≠ p)

theorem placed_perm (s : EventState α) (time : BitVec 32) (p : EventPtr) (ts : List EventPtr) :
    (s.placed time p ts).Perm (p :: ts.filter (· ≠ p)) := by
  have h := congrArg (List.filter (· ≠ p)) (before_append_behind s time ts)
  rw [List.filter_append] at h
  rw [← h]
  exact List.perm_middle

theorem mem_placed {p q : EventPtr} : q ∈ s.placed time p ts ↔ q = p ∨ q ∈ ts := by
  rw [(placed_perm s time p ts).mem_iff, List.mem_cons, List.mem_filter]
  by_cases h : q = p
  · simp [h]
  · simp [h]

/-- Placing a node whose event is the one of its name is placing the event. -/
theorem placed_map {p : EventPtr} (n : EventNode α) (hp : ∀ q ∈ ts, (s.node q).name = name ↔ q = p) :
    (s.placed time p ts).map (s.setNode p n).node = insertTimed time name n (ts.map s.node) := by
  have hfilter : ∀ l : List EventPtr, (∀ q ∈ l, q ∈ ts) →
      (l.filter (· ≠ p)).map (s.setNode p n).node = (l.map s.node).filter (·.name ≠ name) := by
    intro l hl
    rw [List.filter_map]
    have hcongr : l.filter ((fun e => decide (e.name ≠ name)) ∘ s.node) = l.filter (· ≠ p) :=
      List.filter_congr fun q hq => by simp [hp q (hl q hq)]
    rw [hcongr]
    refine List.map_congr_left fun q hq => ?_
    have hqp : q ≠ p := by simpa using (List.mem_filter.1 hq).2
    simp [EventState.setNode, hqp]
  rw [insertTimed, rdropWhile_map, rtakeWhile_map, EventState.placed, List.map_append, List.map_cons, hfilter, hfilter]
  · simp [EventState.setNode, EventState.before, EventState.behind]
  · exact fun q hq => (before_append_behind s time ts) ▸ List.mem_append_right _ hq
  · exact fun q hq => (before_append_behind s time ts) ▸ List.mem_append_left _ hq

theorem Layout.exists_node {vs : List EventPtr} (h : Layout s vs ts ys) {p : EventPtr}
    (hp : p ∈ vs ++ ts ++ (ys ++ s.timeout.toList)) : ∃ a, p = .node a := h.allocated p (h.used p hp)

/-- The header and the nodes of the timeout list are not in the timing list. -/
theorem Layout.not_mem_timing {vs : List EventPtr} (h : Layout s vs ts ys) {r : EventPtr} (hr : r ∈ .timeoutList :: ys) :
    r ∉ .timingList :: (vs ++ ts) := by
  intro hm
  rcases List.mem_cons.1 hr with rfl | hr
  · rcases List.mem_cons.1 hm with e | hm
    · cases e
    · obtain ⟨a, e⟩ := h.exists_node (List.mem_append_left _ hm)
      cases e
  · have hr' := List.mem_append_left s.timeout.toList hr
    rcases List.mem_cons.1 hm with rfl | hm
    · obtain ⟨a, e⟩ := h.exists_node (List.mem_append_right _ hr')
      cases e
    · exact (List.nodup_append.1 h.nodup).2.2 r hm r hr' rfl

/-- The heap after an event has been placed in the timing list, in its own node or in a new one. -/
theorem Layout.place (h : Layout s [] ts ys) {p : EventPtr} {n : EventNode α} {links : Links EventPtr}
    {allocated : List EventPtr} {log : EventLog α} (hidle : s.timer = none)
    (hlinked : links.Linked .timingList (s.placed time p ts))
    (hframe : ∀ r ∉ .timingList :: ts, r ≠ p → links.next r = s.links.next r ∧ links.prev r = s.links.prev r)
    (hp : p ∉ ys ++ s.timeout.toList) (hpa : p ∈ allocated) (hall : ∀ q ∈ s.allocated, q ∈ allocated)
    (hnodes : ∀ q ∈ allocated, ∃ a, q = .node a) (hname : ∀ q ∈ ts, (s.node q).name = n.name → q = p) (hne : n.name ≠ "") :
    Layout { s.setNode p n with links := links, allocated := allocated, log := log } [] (s.placed time p ts) ys := by
  have hperm := placed_perm s time p ts
  have hother : ∀ q, q ≠ p → (s.setNode p n).node q = s.node q := fun q hq => by simp [EventState.setNode, hq]
  have hself : (s.setNode p n).node p = n := by simp [EventState.setNode]
  have hheader : ∀ r, (∀ a, r ≠ .node a) → r ≠ p := by
    rintro r hr rfl
    obtain ⟨a, rfl⟩ := hnodes r hpa
    exact hr a rfl
  constructor
  case timing => exact hlinked
  case timeouts =>
    refine h.timeouts.frame fun r hr => hframe r (h.not_mem_timing hr) ?_
    rcases List.mem_cons.1 hr with rfl | hr
    · exact hheader .timeoutList nofun
    · rintro rfl
      exact hp (List.mem_append_left _ hr)
  case nodup =>
    have hperm' : (s.placed time p ts ++ (ys ++ s.timeout.toList)).Perm (p :: (ts.filter (· ≠ p) ++ (ys ++ s.timeout.toList))) :=
      hperm.append_right _
    refine hperm'.nodup_iff.2 (List.nodup_cons.2 ⟨?_, ?_⟩)
    · rw [List.mem_append, not_or]
      exact ⟨by simp, hp⟩
    · exact h.nodup.sublist (List.filter_sublist.append_right _)
  case used =>
    intro q hq
    rcases List.mem_append.1 hq with hq | hq
    · rcases mem_placed.1 hq with rfl | hq
      · exact hpa
      · exact hall q (h.used q (List.mem_append_left _ hq))
    · exact hall q (h.used q (List.mem_append_right _ hq))
  case allocated => exact hnodes
  case idle => exact fun _ => rfl
  case cursor => simp [EventState.setNode, hidle]
  case header =>
    show ((s.setNode p n).node .timingList).time = 0 ∧ ((s.setNode p n).node .timingList).name = ""
    rw [hother _ (hheader .timingList nofun)]
    exact h.header
  case names =>
    refine ((hperm.map _).nodup_iff).2 ?_
    rw [List.map_cons]
    have hmap : (ts.filter (· ≠ p)).map (fun q => ((s.setNode p n).node q).name) =
        (ts.filter (· ≠ p)).map fun q => (s.node q).name := by
      refine List.map_congr_left fun q hq => ?_
      rw [hother q (by simpa using (List.mem_filter.1 hq).2)]
    refine List.nodup_cons.2 ⟨?_, ?_⟩
    · show ((s.setNode p n).node p).name ∉ (ts.filter (· ≠ p)).map fun q => ((s.setNode p n).node q).name
      rw [hmap, hself]
      intro hm
      obtain ⟨q, hq, hqn⟩ := List.mem_map.1 hm
      obtain ⟨hq, hqp⟩ := List.mem_filter.1 hq
      exact absurd (hname q hq hqn) (by simpa using hqp)
    · show ((ts.filter (· ≠ p)).map fun q => ((s.setNode p n).node q).name).Nodup
      rw [hmap]
      exact h.names.sublist (List.filter_sublist.map _)
  case named =>
    intro q hq
    show ((s.setNode p n).node q).name ≠ ""
    by_cases hqp : q = p
    · rw [hqp, hself]
      exact hne
    · rw [hother q hqp]
      exact h.named q ((mem_placed.1 hq).resolve_left hqp)

/-- What the heap holds after an event has been placed. -/
theorem view_place {p : EventPtr} (time : BitVec 32) (n : EventNode α) (links : Links EventPtr)
    (allocated : List EventPtr) (log : EventLog α)
    (hp : p ∉ ys ++ s.timeout.toList) (hname : ∀ q ∈ ts, (s.node q).name = name ↔ q = p) :
    ({ s.setNode p n with links := links, allocated := allocated, log := log } : EventState α).view []
        (s.placed time p ts) ys =
      { s.view [] ts ys with ahead := insertTimed time name n (s.view [] ts ys).ahead, log := log } := by
  have hother : ∀ q ∈ ys ++ s.timeout.toList, (s.setNode p n).node q = s.node q := by
    intro q hq
    have : q ≠ p := fun e => hp (e ▸ hq)
    simp [EventState.setNode, this]
  have hys : ys.map (s.setNode p n).node = ys.map s.node :=
    List.map_congr_left fun q hq => hother q (List.mem_append_left _ hq)
  have hheld : s.timeout.map (s.setNode p n).node = s.timeout.map s.node := by
    cases htimeout : s.timeout with
    | none => rfl
    | some q => rw [Option.map_some, Option.map_some, hother q (by simp [htimeout])]
  have hts : (s.placed time p ts).map (s.setNode p n).node = insertTimed time name n (ts.map s.node) := placed_map n hname
  unfold EventState.view
  rw [← hts, ← hys, ← hheld]
  rfl

theorem Layout.name_eq_iff {vs : List EventPtr} (h : Layout s vs ts ys) {p : EventPtr} (hp : p ∈ vs ++ ts) :
    ∀ q ∈ vs ++ ts, (s.node q).name = (s.node p).name ↔ q = p := by
  intro q hq
  refine ⟨fun e => ?_, fun e => e ▸ rfl⟩
  exact List.inj_on_of_nodup_map h.names hq hp e

theorem idsOf_eq_singleton {p : EventPtr} (hn : ts.Nodup) (hp : p ∈ ts) (hname : ∀ q ∈ ts, (s.node q).name = name ↔ q = p) :
    idsOf name (ts.map s.node) = [(s.node p).id] := by
  have hfilter : ts.filter ((fun e => decide (e.name = name)) ∘ s.node) = [p] := by
    have hcongr : ts.filter ((fun e => decide (e.name = name)) ∘ s.node) = ts.filter (· = p) :=
      List.filter_congr fun q hq => by simp [hname q hq]
    rw [hcongr, List.filter_eq, List.count_eq_one_of_mem hn hp]
    rfl
  rw [idsOf, List.filter_map, hfilter]
  rfl

theorem idsOf_eq_nil (hname : ∀ q ∈ ts, (s.node q).name ≠ name) : idsOf name (ts.map s.node) = [] := by
  rw [idsOf, List.filter_map, List.map_map, List.map_eq_nil_iff, List.filter_eq_nil_iff]
  intro q hq
  simpa using hname q hq

end Search

/-! ## The steps -/

section Steps

variable {s t : EventState α} {vs ts ys : List EventPtr} {name : String} {time : BitVec 32}

/-- Taking the event of a name out of the timing list and linking it in again at the place for `time`: no write is through a
null pointer. -/
theorem Layout.relink (h : Layout s [] ts ys) {p : EventPtr} (hp : p ∈ ts) (time : BitVec 32) :
    ∃ before links, stepBack s p ((s.before time ts).getLastD .timingList) = some before ∧
      s.links.deleteList p = some links ∧ (links.addList before p).Linked .timingList (s.placed time p ts) ∧
      ∀ r ∉ .timingList :: ts,
        (links.addList before p).next r = s.links.next r ∧ (links.addList before p).prev r = s.links.prev r := by
  have hsplit := before_append_behind s time ts
  have hl : s.links.Linked .timingList (s.before time ts ++ s.behind time ts) := by
    rw [hsplit]
    exact h.timing
  obtain ⟨before, links, hbefore, hdel, hlinked, hframe⟩ := hl.move (p := p) (by rwa [hsplit])
  rw [hsplit] at hframe
  exact ⟨before, links, hbefore, hdel, hlinked, hframe⟩

theorem Layout.addEvent (h : Layout s [] ts ys) (hidle : s.timer = none) {malloc : Option Nat} {type : EventType}
    {eventName : Option String} {arg : Option α} {r : Result}
    (hs : Core.addEvent s malloc time type eventName arg = some (r, t)) :
    ∃ ts', Layout t [] ts' ys ∧
      ViewStep (s.view [] ts ys) (.addEvent malloc time type eventName arg) (t.view [] ts' ys) := by
  unfold Core.addEvent at hs
  split at hs
  · cases hs
    exact ⟨ts, h, .refusedAdd⟩
  cases eventName with
  | none =>
    cases hs
    exact ⟨ts, h, .refusedAdd⟩
  | some name =>
  simp only at hs
  split at hs
  · cases hs
    exact ⟨ts, h, .refusedAdd⟩
  rename_i hname
  obtain ⟨found, hget, hsome, hnone⟩ := h.getEvent hname time
  rw [hget, Option.bind_some] at hs
  cases found with
  | some p =>
    obtain ⟨hp, hpn⟩ := hsome p rfl
    obtain ⟨before, links, hbefore, hdel, hlinked, hframe⟩ := h.relink hp time
    have hdel' : (s.cancel p).deleteList p = some { s.cancel p with links := links } := by
      rw [EventState.deleteList]
      show (s.links.deleteList p).map _ = _
      rw [hdel]
      rfl
    simp only at hs
    split at hs
    · cases hs
    rw [hbefore, Option.bind_some, hdel', Option.map_some] at hs
    cases hs
    have hname' : ∀ q ∈ ts, (s.node q).name = name ↔ q = p := hpn ▸ h.name_eq_iff hp
    have hdisj : p ∉ ys ++ s.timeout.toList := fun hm => (List.nodup_append.1 h.nodup).2.2 p hp p hm rfl
    refine ⟨s.placed time p ts, ?_, ?_⟩
    · exact h.place hidle hlinked (fun r hr _ => hframe r hr) hdisj (h.used p (List.mem_append_left _ hp)) (fun _ hq => hq)
        h.allocated (fun q hq => (hname' q hq).1) hname
    · have hview := view_place time (s.log.newEvent time type name arg) (links.addList before p) s.allocated
        { s.log with given := s.log.given ++ [(type, arg)], cancelled := s.log.cancelled ++ [(s.node p).id] } hdisj hname'
      refine (ViewStep.added (by simp [EventState.view, hidle])).of_eq (hview.trans ?_)
      rw [show idsOf name (s.view [] ts ys).ahead = [(s.node p).id] from
        idsOf_eq_singleton (List.nodup_cons.1 h.timing.nodup).2 hp hname']
      rfl
  | none =>
    have hfree := hnone rfl
    cases malloc with
    | none =>
      cases hs
      exact ⟨ts, h, .refusedAdd⟩
    | some address =>
      simp only at hs
      split at hs
      · cases hs
      rename_i hmalloc
      rw [not_or] at hmalloc
      cases hs
      have hnew : ∀ q ∈ [] ++ ts ++ (ys ++ s.timeout.toList), q ≠ .node address := by
        rintro q hq rfl
        exact hmalloc.2 (h.used _ hq)
      have hts : ∀ q ∈ ts, q ≠ .node address := fun q hq => hnew q (List.mem_append_left _ hq)
      have hdisj : .node address ∉ ys ++ s.timeout.toList := fun hm => hnew _ (List.mem_append_right _ hm) rfl
      have hname' : ∀ q ∈ ts, (s.node q).name = name ↔ q = .node address := fun q hq =>
        ⟨fun e => absurd e (hfree q hq), fun e => absurd e (hts q hq)⟩
      have hfilter : s.placed time (.node address) ts = s.before time ts ++ .node address :: s.behind time ts := by
        have hall := (before_append_behind s time ts)
        rw [EventState.placed, List.filter_eq_self.2, List.filter_eq_self.2]
        · exact fun q hq => by simpa using hts q (hall ▸ List.mem_append_right _ hq)
        · exact fun q hq => by simpa using hts q (hall ▸ List.mem_append_left _ hq)
      have hl : s.links.Linked .timingList (s.before time ts ++ s.behind time ts) := by
        rw [before_append_behind]
        exact h.timing
      have hnode : .node address ∉ .timingList :: (s.before time ts ++ s.behind time ts) := by
        rw [before_append_behind, List.mem_cons, not_or]
        exact ⟨nofun, fun hm => hts _ hm rfl⟩
      refine ⟨s.placed time (.node address) ts, ?_, ?_⟩
      · refine h.place hidle (hfilter ▸ hl.addList hnode) (fun r hr hra => hl.addList_frame ?_) hdisj List.mem_cons_self
          (fun _ => List.mem_cons_of_mem _) ?_ (fun q hq => (hname' q hq).1) hname
        · rw [← before_append_behind s time ts] at hr
          simp only [List.mem_cons, List.mem_append, not_or] at hr ⊢
          exact ⟨hr.1, hr.2.1, hra, hr.2.2⟩
        · rintro q (_ | ⟨_, hq⟩)
          · exact ⟨address, rfl⟩
          · exact h.allocated q hq
      · have hview := view_place time (s.log.newEvent time type name arg)
          (s.links.addList ((s.before time ts).getLastD .timingList) (.node address)) (.node address :: s.allocated)
          { s.log with given := s.log.given ++ [(type, arg)] } hdisj hname'
        refine (ViewStep.added (by simp [EventState.view, hidle])).of_eq (hview.trans ?_)
        rw [show idsOf name (s.view [] ts ys).ahead = [] from idsOf_eq_nil hfree, List.append_nil]
        rfl

theorem Layout.setEvent (h : Layout s [] ts ys) (hidle : s.timer = none) {eventName : Option String} {r : Result}
    (hs : Core.setEvent s time eventName = some (r, t)) :
    ∃ ts', Layout t [] ts' ys ∧ ViewStep (s.view [] ts ys) (.setEvent time eventName) (t.view [] ts' ys) := by
  unfold Core.setEvent at hs
  cases eventName with
  | none =>
    cases hs
    exact ⟨ts, h, .refusedSet⟩
  | some name =>
  simp only at hs
  split at hs
  · cases hs
    exact ⟨ts, h, .refusedSet⟩
  rename_i hname
  obtain ⟨found, hget, hsome, -⟩ := h.getEvent hname time
  rw [hget, Option.bind_some] at hs
  cases found with
  | none =>
    cases hs
    exact ⟨ts, h, .refusedSet⟩
  | some p =>
    obtain ⟨hp, rfl⟩ := hsome p rfl
    obtain ⟨before, links, hbefore, hdel, hlinked, hframe⟩ := h.relink hp time
    simp only [hbefore, Option.bind_some, EventState.deleteList, hdel, Option.map_some] at hs
    cases hs
    have hdisj : p ∉ ys ++ s.timeout.toList := fun hm => (List.nodup_append.1 h.nodup).2.2 p hp p hm rfl
    refine ⟨s.placed time p ts, ?_, ?_⟩
    · exact h.place hidle hlinked (fun r hr _ => hframe r hr) hdisj (h.used p (List.mem_append_left _ hp)) (fun _ hq => hq)
        h.allocated (fun q hq => (h.name_eq_iff hp q hq).1) hname
    · have hview := view_place time ((s.node p).rearm s.log time) (links.addList before p) s.allocated s.log hdisj
        (h.name_eq_iff hp)
      refine (ViewStep.rearmed (n := s.node p) (by simp [EventState.view, hidle]) ?_ rfl).of_eq hview
      exact List.mem_map_of_mem hp

theorem Layout.unlink (h : Layout s vs ts ys) {p : EventPtr} {as bs : List EventPtr} (hsplit : vs ++ ts = as ++ p :: bs) :
    ∃ links, s.links.deleteList p = some links ∧ links.Linked .timingList (as ++ bs) ∧ links.Linked .timeoutList ys := by
  have hl : s.links.Linked .timingList (as ++ p :: bs) := hsplit ▸ h.timing
  obtain ⟨hdel, hlinked⟩ := hl.deleteList
  refine ⟨_, hdel, hlinked, h.timeouts.frame fun r hr => hl.unlink_frame ?_⟩
  exact hsplit ▸ h.not_mem_timing hr

theorem Layout.deleteEvent (h : Layout s [] ts ys) (hidle : s.timer = none) {eventName : Option String} {r : Result}
    (hs : Core.deleteEvent s eventName = some (r, t)) :
    ∃ ts', Layout t [] ts' ys ∧ ViewStep (s.view [] ts ys) (.deleteEvent eventName) (t.view [] ts' ys) := by
  unfold Core.deleteEvent at hs
  cases eventName with
  | none =>
    cases hs
    exact ⟨ts, h, .refusedDelete⟩
  | some name =>
  simp only at hs
  split at hs
  · cases hs
    exact ⟨ts, h, .refusedDelete⟩
  rename_i hname
  obtain ⟨found, hget, hsome, -⟩ := h.getEvent hname 0#32
  rw [hget, Option.bind_some] at hs
  cases found with
  | none =>
    cases hs
    exact ⟨ts, h, .refusedDelete⟩
  | some p =>
    obtain ⟨hp, rfl⟩ := hsome p rfl
    obtain ⟨as, bs, rfl⟩ := List.append_of_mem hp
    obtain ⟨links, hdel, htiming, htimeouts⟩ := h.unlink (rfl : [] ++ (as ++ p :: bs) = as ++ p :: bs)
    have hdel' : (s.cancel p).deleteList p = some { s.cancel p with links := links } := by
      rw [EventState.deleteList]
      show (s.links.deleteList p).map _ = _
      rw [hdel]
      rfl
    simp only [hdel', Option.map_some] at hs
    cases hs
    have hn : (p :: (as ++ bs ++ (ys ++ s.timeout.toList))).Nodup := by
      refine (List.Perm.nodup_iff ?_).1 h.nodup
      simp
    have hsub : (as ++ bs).Sublist ([] ++ (as ++ p :: bs)) := by simp
    refine ⟨as ++ bs, ?_, ?_⟩
    · constructor
      case timing => exact htiming
      case timeouts => exact htimeouts
      case nodup => exact (List.nodup_cons.1 hn).2
      case used =>
        intro q hq
        have hqp : q ≠ p := fun e => (List.nodup_cons.1 hn).1 (e ▸ hq)
        refine (List.mem_erase_of_ne hqp).2 (h.used q ?_)
        exact (hsub.append_right _).subset hq
      case allocated => exact fun q hq => h.allocated q (List.mem_of_mem_erase hq)
      case idle => exact fun _ => rfl
      case cursor => exact fun c hc => absurd (hc.symm.trans hidle) nofun
      case header => exact h.header
      case names => exact h.names.sublist (hsub.map _)
      case named => exact fun q hq => h.named q (hsub.subset hq)
    · have hfilter : (as ++ p :: bs).filter ((fun e => decide (e.name ≠ (s.node p).name)) ∘ s.node) = as ++ bs := by
        rw [← Links.filter_ne_split (List.nodup_cons.1 h.timing.nodup).2]
        exact List.filter_congr fun q hq => by simp [h.name_eq_iff hp q hq]
      refine (ViewStep.deleted (by simp [EventState.view, hidle])).of_eq ?_
      have hids : idsOf (s.node p).name (s.view [] (as ++ p :: bs) ys).ahead = [(s.node p).id] :=
        idsOf_eq_singleton (List.nodup_cons.1 h.timing.nodup).2 hp (h.name_eq_iff hp)
      rw [hids]
      simp only [EventState.view, List.filter_map, hfilter]
      rfl

/-- Writing a node without changing its name keeps the lists. -/
theorem Layout.setNode (h : Layout s vs ts ys) {p : EventPtr} {n : EventNode α} (hn : n.name = (s.node p).name)
    (hp : p ≠ .timingList) : Layout (s.setNode p n) vs ts ys := by
  have hname : ∀ q, ((s.setNode p n).node q).name = (s.node q).name := by
    intro q
    by_cases hq : q = p
    · subst hq
      simpa [EventState.setNode] using hn
    · simp [EventState.setNode, hq]
  exact
    { timing := h.timing
      timeouts := h.timeouts
      nodup := h.nodup
      used := h.used
      allocated := h.allocated
      idle := h.idle
      cursor := h.cursor
      header := by
        rw [hname]
        exact ⟨by simpa [EventState.setNode, hp.symm] using h.header.1, h.header.2⟩
      names := by simpa only [hname] using h.names
      named := fun q hq => by simpa only [hname] using h.named q hq }

theorem map_setNode {p : EventPtr} {n : EventNode α} {l : List EventPtr} (hp : p ∉ l) :
    l.map (s.setNode p n).node = l.map s.node := by
  refine List.map_congr_left fun q hq => ?_
  have : q ≠ p := fun e => hp (e ▸ hq)
  simp [EventState.setNode, this]

theorem held_setNode {p : EventPtr} {n : EventNode α} (hp : p ∉ s.timeout.toList) :
    s.timeout.map (s.setNode p n).node = s.timeout.map s.node := by
  cases htimeout : s.timeout with
  | none => rfl
  | some q =>
    have : q ≠ p := fun e => hp (by simp [htimeout, e])
    simp [EventState.setNode, this]

/-- One round of the timer thread. -/
theorem Layout.round (h : Layout s vs ts ys) {p : EventPtr} (htimer : s.timer = some (some p))
    (hs : timerRound s p = some t) :
    ∃ vs' ts' ys', Layout t vs' ts' ys' ∧ ViewStep (s.view vs ts ys) .round (t.view vs' ts' ys') := by
  obtain ⟨ts, rfl⟩ : ∃ ts', ts = p :: ts' := by
    have := h.cursor _ htimer
    cases ts with
    | nil => cases this
    | cons q ts =>
      cases this
      exact ⟨ts, rfl⟩
  have hmem : p ∈ vs ++ p :: ts ++ (ys ++ s.timeout.toList) := by simp
  obtain ⟨a, ha⟩ := h.exists_node hmem
  have hn : (p :: (vs ++ ts ++ (ys ++ s.timeout.toList))).Nodup := by
    refine (List.Perm.nodup_iff ?_).1 h.nodup
    simp
  have hp := (List.nodup_cons.1 hn).1
  simp only [List.mem_append, not_or] at hp
  have hnext : s.links.next p = ts.head? := by
    have hc : s.links.Chain .timingList ((vs ++ [p]) ++ ts) := by simpa using h.timing.chain
    simpa using hc.next_getLastD
  have hnode : (s.setNode p (s.node p).countDown).node p = (s.node p).countDown := by simp [EventState.setNode]
  have hset := h.setNode (p := p) (n := (s.node p).countDown) rfl (by rw [ha]; exact nofun)
  unfold timerRound at hs
  simp only at hs
  split at hs
  · rename_i hover
    obtain ⟨links, hdel, htiming, htimeouts⟩ := h.unlink (rfl : vs ++ p :: ts = vs ++ p :: ts)
    simp only [EventState.deleteList, EventState.setNode, hdel, Option.map_some, EventState.addList, Function.update_idem] at hs
    cases hs
    have hset' := h.setNode (p := p) (n := { (s.node p).countDown with movedAt := s.log.ticks }) rfl (by rw [ha]; exact nofun)
    have hpy : p ∉ .timeoutList :: ([] ++ ys) := by
      rw [List.mem_cons, not_or, ha]
      exact ⟨nofun, ha ▸ hp.2.1⟩
    have hperm : (vs ++ p :: ts ++ (ys ++ s.timeout.toList)).Perm (vs ++ ts ++ (p :: ys ++ s.timeout.toList)) := by
      simp only [List.append_assoc, List.cons_append]
      exact (List.perm_middle.symm.append_left vs)
    have hsub : (vs ++ ts).Sublist (vs ++ p :: ts) := by simp
    have htimeouts' : links.Linked .timeoutList ([] ++ ys) := htimeouts
    refine ⟨vs, ts, p :: ys, ?_, ?_⟩
    · constructor
      case timing =>
        refine htiming.frame fun r hr => htimeouts'.addList_frame fun hm => ?_
        rcases List.mem_cons.1 hm with rfl | hm
        · exact h.not_mem_timing List.mem_cons_self (List.cons_subset_cons _ hsub.subset hr)
        · rcases List.mem_cons.1 hm with rfl | hm
          · rcases List.mem_cons.1 hr with e | hr
            · rw [ha] at e
              cases e
            · exact (List.mem_append.1 hr).elim hp.1.1 hp.1.2
          · exact h.not_mem_timing (List.mem_cons_of_mem _ hm) (List.cons_subset_cons _ hsub.subset hr)
      case timeouts => exact htimeouts'.addList hpy
      case nodup => exact hperm.nodup_iff.1 h.nodup
      case used => exact fun q hq => h.used q (hperm.mem_iff.2 hq)
      case allocated => exact h.allocated
      case idle => exact nofun
      case cursor =>
        rintro c hc
        exact (Option.some.inj hc).symm.trans hnext
      case header => exact hset'.header
      case names => exact hset'.names.sublist (hsub.map _)
      case named => exact fun q hq => hset'.named q (hsub.subset hq)
    · have hstep := ViewStep.moved (v := s.view vs (p :: ts) ys) (by simp [EventState.view, htimer]) rfl hover
      refine hstep.of_eq (EventView.ext (map_setNode hp.1.1) (map_setNode hp.1.2) ?_ ?_ (held_setNode hp.2.2) rfl)
      · simp [EventState.view, htimer]
      · show (s.setNode p { (s.node p).countDown with movedAt := s.log.ticks }).node p ::
          ys.map (s.setNode p { (s.node p).countDown with movedAt := s.log.ticks }).node = _
        rw [map_setNode hp.2.1]
        simp [EventState.setNode, EventState.view]
  · rename_i hleft
    cases hs
    refine ⟨vs ++ [p], ts, ys, ?_, ?_⟩
    · constructor
      case timing => simpa using hset.timing
      case timeouts => exact hset.timeouts
      case nodup => simpa using hset.nodup
      case used => simpa using hset.used
      case allocated => exact hset.allocated
      case idle => exact nofun
      case cursor =>
        rintro c hc
        exact (Option.some.inj hc).symm.trans hnext
      case header => exact hset.header
      case names => simpa using hset.names
      case named => simpa using hset.named
    · have hstep := ViewStep.counted (v := s.view vs (p :: ts) ys) (by simp [EventState.view, htimer]) rfl hleft
      refine hstep.of_eq (EventView.ext ?_ (map_setNode hp.1.2) ?_ (map_setNode hp.2.1) (held_setNode hp.2.2) rfl)
      · show (vs ++ [p]).map (s.setNode p (s.node p).countDown).node = _
        rw [List.map_append, map_setNode hp.1.1, List.map_singleton, hnode]
        rfl
      · simp [EventState.view, htimer]

/-- The event thread takes the first event of the timeout list. -/
theorem Layout.take (h : Layout s vs ts ys) (hs : eventStep s .take = some t) :
    ∃ ys', Layout t vs ts ys' ∧ ViewStep (s.view vs ts ys) .take (t.view vs ts ys') := by
  simp only [eventStep] at hs
  split at hs
  · rename_i p hfree hnext
    obtain ⟨ys, rfl⟩ : ∃ ys', ys = p :: ys' := by
      cases ys with
      | nil => exact absurd (hnext.symm.trans h.timeouts.chain) nofun
      | cons q ys => exact ⟨ys, by rw [Option.some.inj (hnext.symm.trans h.timeouts.chain.1)]⟩
    have htimeouts : s.links.Linked .timeoutList ([] ++ p :: ys) := h.timeouts
    obtain ⟨hdel, hlinked⟩ := htimeouts.deleteList
    simp only [EventState.deleteList, hdel, Option.map_some, Option.some.injEq] at hs
    cases hs
    have hperm : (vs ++ ts ++ (p :: ys ++ s.timeout.toList)).Perm (vs ++ ts ++ (ys ++ [p])) := by
      rw [hfree]
      refine List.Perm.append_left _ ?_
      simpa using (List.perm_append_singleton p ys).symm
    refine ⟨ys, ?_, ?_⟩
    · constructor
      case timing =>
        refine h.timing.frame fun r hr => htimeouts.unlink_frame fun hm => ?_
        exact h.not_mem_timing hm hr
      case timeouts => exact hlinked
      case nodup => exact hperm.nodup_iff.1 h.nodup
      case used => exact fun q hq => h.used q (hperm.mem_iff.2 hq)
      case allocated => exact h.allocated
      case idle => exact h.idle
      case cursor => exact h.cursor
      case header => exact h.header
      case names => exact h.names
      case named => exact h.named
    · exact .taken (by simp [EventState.view, hfree]) rfl
  · cases hs

/-- The event thread calls the function of the event it holds and frees the event. -/
theorem Layout.run (h : Layout s vs ts ys) (hs : eventStep s .run = some t) :
    Layout t vs ts ys ∧ ViewStep (s.view vs ts ys) .run (t.view vs ts ys) := by
  simp only [eventStep] at hs
  split at hs
  · rename_i p hheld
    cases hs
    have hnodup := h.nodup
    rw [hheld, ← List.append_assoc] at hnodup
    have hp : ∀ q ∈ vs ++ ts ++ ys, q ≠ p := fun q hq e =>
      (List.nodup_append.1 hnodup).2.2 q hq p (by simp) e
    refine ⟨?_, .ran (by simp [EventState.view, hheld])⟩
    constructor
    case timing => exact h.timing
    case timeouts => exact h.timeouts
    case nodup => simpa using (List.nodup_append.1 hnodup).1
    case used =>
      intro q hq
      replace hq : q ∈ vs ++ ts ++ ys := by simpa using hq
      refine (List.mem_erase_of_ne (hp q hq)).2 (h.used q ?_)
      rw [← List.append_assoc]
      exact List.mem_append_left _ hq
    case allocated => exact fun q hq => h.allocated q (List.mem_of_mem_erase hq)
    case idle => exact h.idle
    case cursor => exact h.cursor
    case header => exact h.header
    case names => exact h.names
    case named => exact h.named
  · cases hs

/-- The timer thread takes the lock and stands before the first event. -/
theorem Layout.tick (h : Layout s vs ts ys) (hs : eventStep s .tick = some t) :
    Layout t vs ts ys ∧ ViewStep (s.view vs ts ys) .tick (t.view vs ts ys) := by
  simp only [eventStep, Option.ite_none_right_eq_some] at hs
  obtain ⟨hidle, hs⟩ := hs
  cases hs
  obtain rfl := h.idle hidle
  refine ⟨?_, .tick (by simp [EventState.view, hidle])⟩
  constructor
  case timing => exact h.timing
  case timeouts => exact h.timeouts
  case nodup => exact h.nodup
  case used => exact h.used
  case allocated => exact h.allocated
  case idle => exact nofun
  case cursor =>
    rintro c hc
    rw [← Option.some.inj hc]
    have hchain : s.links.Chain .timingList ([] ++ ts) := h.timing.chain
    simpa using hchain.next_getLastD
  case header => exact h.header
  case names => exact h.names
  case named => exact h.named

/-- The timer thread has passed every event and releases the lock. -/
theorem Layout.tickEnd (h : Layout s vs ts ys) (hs : eventStep s .tickEnd = some t) :
    Layout t [] vs ys ∧ ViewStep (s.view vs ts ys) .tickEnd (t.view [] vs ys) := by
  simp only [eventStep, Option.ite_none_right_eq_some] at hs
  obtain ⟨hend, hs⟩ := hs
  cases hs
  obtain rfl : ts = [] := by
    have := h.cursor _ hend
    cases ts with
    | nil => rfl
    | cons q ts => cases this
  refine ⟨?_, .tickEnd (by simp [EventState.view, hend]) rfl⟩
  constructor
  case timing => simpa using h.timing
  case timeouts => exact h.timeouts
  case nodup => simpa using h.nodup
  case used => simpa using h.used
  case allocated => exact h.allocated
  case idle => exact fun _ => rfl
  case cursor => exact nofun
  case header => exact h.header
  case names => simpa using h.names
  case named => simpa using h.named

/-- **Every step of the code is a step on the lists.** Whatever the threads do, both lists stay well linked, the events in the
timing list keep names of their own, and the step does to the lists what `ViewStep` allows. -/
theorem Layout.step (h : Layout s vs ts ys) {a : EventAct α} (hs : eventStep s a = some t) :
    ∃ vs' ts' ys', Layout t vs' ts' ys' ∧ ViewStep (s.view vs ts ys) a (t.view vs' ts' ys') := by
  cases a with
  | addEvent malloc time type eventName arg =>
    simp only [eventStep, Option.ite_none_right_eq_some, Option.map_eq_some_iff] at hs
    obtain ⟨hidle, ⟨r, t⟩, hs, rfl⟩ := hs
    obtain rfl := h.idle hidle
    obtain ⟨ts', ht⟩ := h.addEvent hidle hs
    exact ⟨[], ts', ys, ht⟩
  | setEvent time eventName =>
    simp only [eventStep, Option.ite_none_right_eq_some, Option.map_eq_some_iff] at hs
    obtain ⟨hidle, ⟨r, t⟩, hs, rfl⟩ := hs
    obtain rfl := h.idle hidle
    obtain ⟨ts', ht⟩ := h.setEvent hidle hs
    exact ⟨[], ts', ys, ht⟩
  | deleteEvent eventName =>
    simp only [eventStep, Option.ite_none_right_eq_some, Option.map_eq_some_iff] at hs
    obtain ⟨hidle, ⟨r, t⟩, hs, rfl⟩ := hs
    obtain rfl := h.idle hidle
    obtain ⟨ts', ht⟩ := h.deleteEvent hidle hs
    exact ⟨[], ts', ys, ht⟩
  | tick => exact ⟨vs, ts, ys, h.tick hs⟩
  | round =>
    simp only [eventStep] at hs
    split at hs
    · rename_i p htimer
      exact h.round htimer hs
    · cases hs
  | tickEnd => exact ⟨[], vs, ys, h.tickEnd hs⟩
  | take =>
    obtain ⟨ys', ht⟩ := h.take hs
    exact ⟨vs, ts, ys', ht⟩
  | run => exact ⟨vs, ts, ys, h.run hs⟩

theorem Layout.ahead_eq (h : Layout s vs ts ys) {p : EventPtr} (hp : s.timer = some (some p)) :
    ∃ ns, (s.view vs ts ys).ahead = s.node p :: ns := by
  have hc := h.cursor _ hp
  cases ts with
  | nil => cases hc
  | cons q ts =>
    obtain rfl := Option.some.inj hc
    exact ⟨ts.map s.node, rfl⟩

theorem eventStep_round {s t : EventState α} (hs : eventStep s .round = some t) : ∃ p, s.timer = some (some p) := by
  simp only [eventStep] at hs
  split at hs
  · rename_i p hp
    exact ⟨p, hp⟩
  · cases hs

end Steps

end CodeFactory.Core
