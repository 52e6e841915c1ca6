import CodeFactory.Lib.Outcome
import CodeFactory.Lib.Run
import CodeFactory.Result

/-!
# The event list of the STUN client

`stun_event_list_push`, `stun_event_list_pull` and `stun_event_list_clean` work on events in memory that are linked from
`gStunEventList`. Beside the list it is kept here which codes have been pushed and which have gone, pulled or cleaned, so that it can
be said what a queue loses. A push asks for as many octets as a pointer has, writes a whole event, links it in front of the others,
and stores its code only when there is no other.
-/

namespace CodeFactory.Stun

/-! ## The functions of `stun_event.c` -/

/-- Where an event is in memory. -/
abbrev Address := Nat

/-- `StunEvent`. There is no code in it before one is written. -/
structure StunEvent where
  eventCode : Option Int
  nextEventPtr : Option Address
  deriving DecidableEq

/-- `gStunEventList` without its lock, and the events that are allocated. -/
structure StunEventHeader where
  heap : List (Address × StunEvent)
  eventPtr : Option Address
  eventCount : Int
  deriving DecidableEq

/-- What `PAL_MALLOC` hands out: where it is, and how many octets there are. -/
structure Block where
  address : Address
  size : Nat
  deriving DecidableEq

def seNone : Int := 1

/-- `sizeof(eventPtr)`, which is asked for; `pal` has platforms of 32 bits only. -/
def sizeofEventPtr : Nat := 4

/-- `sizeof(StunEvent)`: an `int` and a pointer. -/
def sizeofStunEvent : Nat := 8

def intMax : Int := 2147483647

namespace StunEventHeader

variable (l : StunEventHeader)

def stunEventListInit : StunEventHeader := ⟨[], none, 0⟩

/-- The allocated event at an address. -/
def eventAt (p : Address) : Option StunEvent := l.heap.lookup p

/-- `PAL_FREE`. -/
def free (p : Address) : StunEventHeader := { l with heap := l.heap.filter fun x => x.1 ≠ p }

/-- `stun_event_list_push`. The member `nextEventPtr` is written, in the last four octets of an event. -/
def stunEventListPush (eventCode : Int) : Option Block → Outcome (Result × StunEventHeader)
  | none => .done (.stunErrFailed, l)
  | some b =>
    if b.size < sizeofStunEvent ∨ l.eventCount = intMax then .undefined
    else if l.eventCount = 0 then
      .done (.tcmagentOk, ⟨(b.address, ⟨some eventCode, none⟩) :: l.heap, some b.address, l.eventCount + 1⟩)
    else .done (.tcmagentOk, ⟨(b.address, ⟨none, l.eventPtr⟩) :: l.heap, some b.address, l.eventCount + 1⟩)

/-- `stun_event_list_pull`. A code that was never written can be any number. -/
def stunEventListPull : Outcome (Option Int × StunEventHeader) :=
  if l.eventCount = 0 then .done (some seNone, l)
  else
    match l.eventPtr.bind fun p => (l.eventAt p).map fun e => (p, e) with
    | none => .undefined
    | some (p, e) =>
      if l.eventCount = 1 then .done (e.eventCode, { l.free p with eventPtr := none, eventCount := l.eventCount - 1 })
      else .done (e.eventCode, { l.free p with eventPtr := e.nextEventPtr, eventCount := l.eventCount - 1 })

/-- The loop of `stun_event_list_clean`, with the events that it frees. -/
def freeFrom : Nat → StunEventHeader → Option Address → Outcome (List StunEvent × StunEventHeader)
  | _, l, none => .done ([], l)
  | 0, _, some _ => .outOfFuel
  | rounds + 1, l, some p =>
    match l.eventAt p with
    | none => .undefined
    | some e => (freeFrom rounds (l.free p) e.nextEventPtr).map fun r => (e :: r.1, r.2)

/-- `stun_event_list_clean`. A round frees an allocated event, so there are no more rounds than events. -/
def stunEventListClean : Outcome (List StunEvent × StunEventHeader) :=
  if l.eventCount = 0 then .done ([], l)
  else (freeFrom l.heap.length l l.eventPtr).map fun r => (r.1, { r.2 with eventCount := 0 })

end StunEventHeader

/-! ## What has been pushed and what has gone -/

/-- How a code has left the list. -/
inductive Departure where
  | pulled (eventCode : Option Int)
  | cleaned (eventCode : Option Int)
  deriving DecidableEq

/-- The code that has left. -/
def Departure.eventCode : Departure → Option Int
  | pulled c => c
  | cleaned c => c

/-- The list, the codes whose push succeeded in the order of the pushes, and what has gone in the order of going. -/
structure EventList where
  list : StunEventHeader
  pushed : List Int
  gone : List Departure
  deriving DecidableEq

/-- The operations on the list. With a push comes what `PAL_MALLOC` hands out for it. -/
inductive Operation where
  | push (eventCode : Int) (block : Option Block)
  | pull
  | clean
  deriving DecidableEq

namespace EventList

def apply (s : EventList) : Operation → Outcome EventList
  | .push eventCode block => (s.list.stunEventListPush eventCode block).map fun r =>
      ⟨r.2, if r.1 = .tcmagentOk then s.pushed ++ [eventCode] else s.pushed, s.gone⟩
  | .pull => s.list.stunEventListPull.map fun r =>
      ⟨r.2, s.pushed, if s.list.eventCount = 0 then s.gone else s.gone ++ [.pulled r.1]⟩
  | .clean => s.list.stunEventListClean.map fun r => ⟨r.2, s.pushed, s.gone ++ r.1.map fun e => .cleaned e.eventCode⟩

/-- A block that `PAL_MALLOC` can hand out: not allocated, and of the size asked for at least. -/
def CanHandOut (s : EventList) : Operation → Prop
  | .push _ (some b) => s.list.eventAt b.address = none ∧ sizeofEventPtr ≤ b.size
  | _ => True

/-- An operation on what there is; after undefined behaviour nothing is defined. -/
def step : Step (Outcome EventList) Operation :=
  fun s a t => (∀ l, s = .done l → l.CanHandOut a) ∧ t = s.bind fun l => l.apply a

/-- Nothing has happened. -/
def start : EventList := ⟨StunEventHeader.stunEventListInit, [], []⟩

/-- The events from a pointer on, the last with the null pointer. -/
def Linked (l : StunEventHeader) : Option Address → List (Address × StunEvent) → Prop
  | p, [] => p = none
  | p, (q, e) :: events => p = some q ∧ l.eventAt q = some e ∧ Linked l e.nextEventPtr events

/-- The events that wait, the next to be pulled in front. Where none is counted, the pointer says nothing. -/
def Holds (l : StunEventHeader) (events : List (Address × StunEvent)) : Prop :=
  l.eventCount = events.length ∧ (events ≠ [] → Linked l l.eventPtr events)

/-- **First in, first out, and nothing is lost**: the codes pushed are those that have gone and behind them those that wait, in one
order, and as many events wait as are counted. -/
def InOrder (s : EventList) : Prop :=
  ∃ events, Holds s.list events ∧
    s.pushed.map some = s.gone.map Departure.eventCode ++ events.map fun x => x.2.eventCode

/-- What an operation leaves is defined and in order. -/
def LeavesInOrder (_ : Outcome EventList) (_ : Operation) (t : Outcome EventList) : Prop := ∃ s, t = .done s ∧ s.InOrder

/-- The condition on an operation: a push that gets a block finds no event in the list, and the block has room for an event. -/
def Alone : Outcome EventList → Operation → Prop
  | .done s, .push _ (some b) => s.list.eventCount = 0 ∧ sizeofStunEvent ≤ b.size
  | _, _ => True

instance (s : Outcome EventList) (a : Operation) : Decidable (Alone s a) := by
  unfold Alone
  split <;> infer_instance

/-! ## One event at most -/

variable {s : EventList} {t : Outcome EventList} {a : Operation}

/-- Between two operations that meet the condition there is one event at most, with the code it was pushed with. -/
inductive Waiting : StunEventHeader → List Int → Prop where
  | none (p : Option Address) : Waiting ⟨[], p, 0⟩ []
  | one (p : Address) (c : Int) : Waiting ⟨[(p, ⟨some c, Option.none⟩)], some p, 1⟩ [c]

/-- The codes pushed are those that have gone and behind them the one that waits. -/
def Tidy (s : EventList) : Prop :=
  ∃ codes, Waiting s.list codes ∧ s.pushed.map some = s.gone.map Departure.eventCode ++ codes.map some

theorem tidy_start : start.Tidy := ⟨[], .none none, rfl⟩

theorem Waiting.exists_holds {l : StunEventHeader} {codes : List Int} (h : Waiting l codes) :
    ∃ events, Holds l events ∧ events.map (fun x => x.2.eventCode) = codes.map some := by
  cases h with
  | none p => exact ⟨[], ⟨rfl, fun h => absurd rfl h⟩, rfl⟩
  | one p c =>
    refine ⟨[(p, ⟨some c, Option.none⟩)], ⟨rfl, fun _ => ⟨rfl, ?_, rfl⟩⟩, rfl⟩
    simp [StunEventHeader.eventAt]

theorem Tidy.inOrder (h : s.Tidy) : s.InOrder := by
  obtain ⟨codes, hw, hpushed⟩ := h
  obtain ⟨events, hholds, hcodes⟩ := hw.exists_holds
  exact ⟨events, hholds, by rw [hcodes, hpushed]⟩

theorem apply_push_none (s : EventList) (c : Int) : s.apply (.push c none) = .done s := rfl

/-- A push into the empty list. -/
theorem apply_push_empty {p : Option Address} {pushed : List Int} {gone : List Departure} {c : Int} {b : Block}
    (hroom : sizeofStunEvent ≤ b.size) : apply ⟨⟨[], p, 0⟩, pushed, gone⟩ (.push c (some b)) =
      .done ⟨⟨[(b.address, ⟨some c, none⟩)], some b.address, 1⟩, pushed ++ [c], gone⟩ := by
  have hdefined : ¬(b.size < sizeofStunEvent ∨ (0 : Int) = intMax) := by
    rintro (h | h)
    · omega
    · exact absurd h (by decide)
  unfold apply StunEventHeader.stunEventListPush
  simp only [if_neg hdefined]
  rfl

/-- A push beside another event: its code is not stored. -/
theorem apply_push_one {p : Address} {e : StunEvent} {pushed : List Int} {gone : List Departure} {c : Int} {b : Block}
    (hroom : sizeofStunEvent ≤ b.size) : apply ⟨⟨[(p, e)], some p, 1⟩, pushed, gone⟩ (.push c (some b)) =
      .done ⟨⟨[(b.address, ⟨none, some p⟩), (p, e)], some b.address, 2⟩, pushed ++ [c], gone⟩ := by
  have hdefined : ¬(b.size < sizeofStunEvent ∨ (1 : Int) = intMax) := by
    rintro (h | h)
    · omega
    · exact absurd h (by decide)
  unfold apply StunEventHeader.stunEventListPush
  simp only [if_neg hdefined]
  rfl

theorem apply_push_small {c : Int} {b : Block} (hsmall : b.size < sizeofStunEvent) :
    s.apply (.push c (some b)) = .undefined := by
  unfold apply StunEventHeader.stunEventListPush
  simp only [if_pos (Or.inl hsmall)]
  rfl

theorem apply_pull_empty (p : Option Address) (pushed : List Int) (gone : List Departure) :
    apply ⟨⟨[], p, 0⟩, pushed, gone⟩ .pull = .done ⟨⟨[], p, 0⟩, pushed, gone⟩ := rfl

theorem apply_pull_one (p : Address) (c : Option Int) (pushed : List Int) (gone : List Departure) :
    apply ⟨⟨[(p, ⟨c, none⟩)], some p, 1⟩, pushed, gone⟩ .pull =
      .done ⟨⟨[], none, 0⟩, pushed, gone ++ [.pulled c]⟩ := by
  simp [apply, StunEventHeader.stunEventListPull, StunEventHeader.eventAt, StunEventHeader.free, Outcome.map]

theorem apply_clean_empty (p : Option Address) (pushed : List Int) (gone : List Departure) :
    apply ⟨⟨[], p, 0⟩, pushed, gone⟩ .clean = .done ⟨⟨[], p, 0⟩, pushed, gone⟩ := by
  simp [apply, StunEventHeader.stunEventListClean, Outcome.map]

theorem apply_clean_one (p : Address) (c : Option Int) (pushed : List Int) (gone : List Departure) :
    apply ⟨⟨[(p, ⟨c, none⟩)], some p, 1⟩, pushed, gone⟩ .clean =
      .done ⟨⟨[], some p, 0⟩, pushed, gone ++ [.cleaned c]⟩ := by
  simp [apply, StunEventHeader.stunEventListClean, StunEventHeader.freeFrom, StunEventHeader.eventAt,
    StunEventHeader.free, Outcome.map]

/-- An operation that meets the condition keeps it so that there is one event at most. -/
theorem Tidy.apply (h : s.Tidy) (ha : Alone (.done s) a) : ∃ s', s.apply a = .done s' ∧ s'.Tidy := by
  obtain ⟨l, pushed, gone⟩ := s
  obtain ⟨codes, hw, hpushed⟩ := h
  cases a with
  | push c block =>
    cases block with
    | none => exact ⟨_, apply_push_none _ c, codes, hw, hpushed⟩
    | some b =>
      obtain ⟨hcount, hroom⟩ := ha
      cases hw with
      | none p =>
        refine ⟨_, apply_push_empty hroom, [c], .one b.address c, ?_⟩
        rw [List.map_append, hpushed, List.map_nil, List.append_nil]
      | one p c' => cases hcount
  | pull =>
    cases hw with
    | none p => exact ⟨_, apply_pull_empty p pushed gone, [], .none p, hpushed⟩
    | one p c =>
      refine ⟨_, apply_pull_one p c pushed gone, [], .none none, ?_⟩
      rw [hpushed, List.map_append]
      simp [Departure.eventCode]
  | clean =>
    cases hw with
    | none p => exact ⟨_, apply_clean_empty p pushed gone, [], .none p, hpushed⟩
    | one p c =>
      refine ⟨_, apply_clean_one p c pushed gone, [], .none (some p), ?_⟩
      rw [hpushed, List.map_append]
      simp [Departure.eventCode]

/-- A push beside another event stores no code, and one into a block without room for an event is not defined. -/
theorem Tidy.not_inOrder (h : s.Tidy) (ha : ¬Alone (.done s) a) {s' : EventList} (happly : s.apply a = .done s') :
    ¬s'.InOrder := by
  obtain ⟨l, pushed, gone⟩ := s
  obtain ⟨codes, hw, -⟩ := h
  cases a with
  | pull => exact absurd trivial ha
  | clean => exact absurd trivial ha
  | push c block =>
    cases block with
    | none => exact absurd trivial ha
    | some b =>
      by_cases hroom : sizeofStunEvent ≤ b.size
      · cases hw with
        | none p => exact absurd ⟨rfl, hroom⟩ ha
        | one p c' =>
          rw [apply_push_one hroom] at happly
          obtain rfl := Outcome.done.inj happly
          rintro ⟨events, ⟨hcount, hlinked⟩, hcodes⟩
          cases events with
          | nil => cases hcount
          | cons x events =>
            obtain ⟨q, e⟩ := x
            obtain ⟨hq, he, -⟩ := hlinked nofun
            -- the event in front is the one just pushed, and no code has been written to it
            have he' : e = ⟨none, some p⟩ := by
              obtain rfl := Option.some.inj hq
              simpa [StunEventHeader.eventAt] using he.symm
            have hmem : none ∈ List.map some (pushed ++ [c]) := by
              rw [hcodes]
              exact List.mem_append_right _ (List.mem_map.2 ⟨(q, e), List.mem_cons_self, by rw [he']⟩)
            obtain ⟨_, -, hnone⟩ := List.mem_map.1 hmem
            cases hnone
      · rw [apply_push_small (Nat.lt_of_not_le hroom)] at happly
        cases happly

/-- **The event list is a queue exactly as long as every push finds it empty**, in a block with room for an event: then, and only
then, is what every operation of a run leaves defined, with the codes that have gone and those that wait in the order of the pushes,
and as many events as are counted. -/
theorem inOrder_iff {tr : List (Transition (Outcome EventList) Operation)} (hr : Run step (.done start) tr t) :
    Always LeavesInOrder tr ↔ Meets Alone tr := by
  refine Run.all_iff (I := fun t => ∃ s, t = .done s ∧ s.Tidy) ⟨start, rfl, tidy_start⟩ ?_ ?_ hr
  · rintro _ a t ⟨s, rfl, hs⟩ ha ⟨-, rfl⟩
    obtain ⟨s', happly, hs'⟩ := hs.apply ha
    exact ⟨⟨s', happly, hs'⟩, s', happly, hs'.inOrder⟩
  · rintro _ a t ⟨s, rfl, hs⟩ ha ⟨-, rfl⟩ ⟨s', happly, hs'⟩
    exact hs.not_inOrder ha happly hs'

/-- A push and the pull behind it: the code comes back. -/
theorem inOrder_push_pull : Always LeavesInOrder
    [(.done start, .push 2 (some ⟨16, 12⟩), .done ⟨⟨[(16, ⟨some 2, none⟩)], some 16, 1⟩, [2], []⟩),
      (.done ⟨⟨[(16, ⟨some 2, none⟩)], some 16, 1⟩, [2], []⟩, .pull, .done ⟨⟨[], none, 0⟩, [2], [.pulled (some 2)]⟩)] := by
  have h₁ : step (.done start) (.push 2 (some ⟨16, 12⟩)) (.done ⟨⟨[(16, ⟨some 2, none⟩)], some 16, 1⟩, [2], []⟩) := by
    refine ⟨?_, by decide⟩
    rintro _ ⟨⟩
    exact ⟨rfl, by decide⟩
  have h₂ : step (.done ⟨⟨[(16, ⟨some 2, none⟩)], some 16, 1⟩, [2], []⟩) .pull
      (.done ⟨⟨[], none, 0⟩, [2], [.pulled (some 2)]⟩) := ⟨fun _ _ => trivial, by decide⟩
  exact (inOrder_iff (Run.snoc (Run.single h₁) h₂)).2 (by decide)

/-- Two pushes and a pull: the pull answers with the event pushed last, whose code was never stored. -/
theorem not_inOrder_two_pushes : ∃ tr t, Run step (.done start) tr t ∧
    tr.map (fun x => x.2.1) = [.push 2 (some ⟨16, 12⟩), .push 6 (some ⟨32, 12⟩), .pull] ∧
    t = .done ⟨⟨[(16, ⟨some 2, none⟩)], some 16, 1⟩, [2, 6], [.pulled none]⟩ ∧
    ¬Always LeavesInOrder tr := by
  have h₁ : step (.done start) (.push 2 (some ⟨16, 12⟩)) (.done ⟨⟨[(16, ⟨some 2, none⟩)], some 16, 1⟩, [2], []⟩) := by
    refine ⟨?_, by decide⟩
    rintro _ ⟨⟩
    exact ⟨rfl, by decide⟩
  have h₂ : step (.done ⟨⟨[(16, ⟨some 2, none⟩)], some 16, 1⟩, [2], []⟩) (.push 6 (some ⟨32, 12⟩))
      (.done ⟨⟨[(32, ⟨none, some 16⟩), (16, ⟨some 2, none⟩)], some 32, 2⟩, [2, 6], []⟩) := by
    refine ⟨?_, by decide⟩
    rintro _ ⟨⟩
    exact ⟨rfl, by decide⟩
  have h₃ : step (.done ⟨⟨[(32, ⟨none, some 16⟩), (16, ⟨some 2, none⟩)], some 32, 2⟩, [2, 6], []⟩) .pull
      (.done ⟨⟨[(16, ⟨some 2, none⟩)], some 16, 1⟩, [2, 6], [.pulled none]⟩) := ⟨fun _ _ => trivial, by decide⟩
  refine ⟨_, _, Run.snoc (Run.snoc (Run.single h₁) h₂) h₃, rfl, rfl, ?_⟩
  intro h
  obtain ⟨s, hs, events, -, hcodes⟩ := h _ (List.mem_append_right _ List.mem_cons_self)
  obtain rfl := Outcome.done.inj hs
  have hfirst := congrArg List.head? hcodes
  simp [Departure.eventCode] at hfirst

end EventList

end CodeFactory.Stun
