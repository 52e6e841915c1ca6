import CodeFactory.Lib.DList
import CodeFactory.Lib.Run
import CodeFactory.Result

/-!
# The event module

`event.c` keeps the delayed events in a list, `timingList`, that the timer thread counts down once a second; an event whose
count reaches zero is moved to a second list, `timeoutList`, from which the event thread takes one after the other and calls
its function. The state is the heap the C code works on: the nodes with their two links, the two headers, and the local
variables of the two threads. Every operation on the timing list, a whole tick included, runs under the lock of that list;
the event thread takes a node under the lock of the timeout list, which the timer thread holds only while it moves one.
-/

namespace CodeFactory.Core

inductive EventType where
  | inform | download | upload | stunNotify | schedule
  deriving DecidableEq, Repr

/-- The numbers of `EventType`. -/
def EventType.num : EventType → Nat
  | .inform => 1
  | .download => 2
  | .upload => 3
  | .stunNotify => 4
  | .schedule => 5

def IsValidEventType (type : EventType) : Prop := EventType.inform.num ≤ type.num ∧ type.num ≤ EventType.schedule.num

instance (type : EventType) : Decidable (IsValidEventType type) := inferInstanceAs (Decidable (_ ∧ _))

/-- The functions of the callback table. -/
inductive Handler where
  | eventInform | eventDownload | eventUpload | eventSchedule | eventStunNotify
  deriving DecidableEq, Repr

/-- The function that is meant for an event type: the one of its name. -/
def EventType.handler : EventType → Handler
  | .inform => .eventInform
  | .download => .eventDownload
  | .upload => .eventUpload
  | .stunNotify => .eventStunNotify
  | .schedule => .eventSchedule

/-- `EventFunc`; type 0 and the null function are `none`. -/
structure EventFunc where
  type : Option EventType
  eventFunc : Option Handler
  deriving DecidableEq, Repr

/-- The callback function table `eventFunc`, row by row. -/
def eventFunc : List EventFunc :=
  [⟨none, none⟩,
    ⟨some .inform, some .eventInform⟩,
    ⟨some .download, some .eventDownload⟩,
    ⟨some .upload, some .eventUpload⟩,
    ⟨some .schedule, some .eventSchedule⟩,
    ⟨some .stunNotify, some .eventStunNotify⟩]

/-- `eventFunc[type].event_func`. -/
def eventFuncOf (type : EventType) : Option Handler := (eventFunc[type.num]?).bind EventFunc.eventFunc

/-- `MAX_EVENTNAME_LEN`, the size of the name buffer of an event. -/
def maxEventNameLen : Nat := 64

/-- `Event`, its argument a pointer to a value of `α` or null. -/
structure Event (α : Type*) where
  func : EventFunc
  eventName : String
  arg : Option α

/-- The content of an `EventList` node. The last four fields are ghosts: the number of the `add_event` call that made the event
what it is, the tick count and the delay of the call that last armed it, and the tick that moved it to the timeout list. -/
structure EventNode (α : Type*) where
  time : BitVec 32
  event : Event α
  id : Nat
  armedAt : Nat
  delay : BitVec 32
  movedAt : Nat

/-- A node as `memset` leaves it. -/
def EventNode.zero {α : Type*} : EventNode α := ⟨0#32, ⟨⟨none, none⟩, "", none⟩, 0, 0, 0#32, 0⟩

def EventNode.name {α : Type*} (n : EventNode α) : String := n.event.eventName

/-- The addresses of `EventList` nodes: the two headers, and what `PAL_MALLOC` gives out. -/
inductive EventPtr where
  | timingList | timeoutList
  | node (address : Nat)
  deriving DecidableEq, Repr

/-- A call of an event function by the event thread: the event it is made for, the function and its argument. -/
structure Dispatch (α : Type*) where
  id : Nat
  eventFunc : Option Handler
  arg : Option α

/-- What happened so far; the code keeps none of it. -/
structure EventLog (α : Type*) where
  /-- The ticks of the timer thread, the current one included. -/
  ticks : Nat
  /-- The type and the argument each `add_event` call gave, by its number. -/
  given : List (EventType × Option α)
  /-- The events that were replaced or deleted. -/
  cancelled : List Nat
  /-- The events that were moved to the timeout list, each with the tick that moved it. -/
  moved : List (Nat × Nat)
  /-- The events the event thread took from the timeout list. -/
  taken : List Nat
  /-- The calls the event thread made. -/
  dispatched : List (Dispatch α)

/-- Before anything happened. -/
def EventLog.init {α : Type*} : EventLog α := ⟨0, [], [], [], [], []⟩

/-- The node `add_event` writes. -/
def EventLog.newEvent {α : Type*} (log : EventLog α) (time : BitVec 32) (type : EventType) (name : String) (arg : Option α) :
    EventNode α :=
  { time := time
    event := ⟨⟨some type, eventFuncOf type⟩, name, arg⟩
    id := log.given.length
    armedAt := log.ticks
    delay := time
    movedAt := 0 }

/-- The node as `set_event` leaves it: another time. -/
def EventNode.rearm {α : Type*} (n : EventNode α) (log : EventLog α) (time : BitVec 32) : EventNode α :=
  { n with time := time, armedAt := log.ticks, delay := time }

/-- The node after `time--`. -/
def EventNode.countDown {α : Type*} (n : EventNode α) : EventNode α := { n with time := n.time - 1 }

/-- The state of the event module. -/
structure EventState (α : Type*) where
  links : Links EventPtr
  node : EventPtr → EventNode α
  /-- The nodes that are allocated. -/
  allocated : List EventPtr
  /-- The timer thread: asleep, or in its loop over the timing list with `timing` at hand. -/
  timer : Option (Option EventPtr)
  /-- The event thread's `timeout`, while it holds an event. -/
  timeout : Option EventPtr
  log : EventLog α

variable {α : Type*}

/-- After `init_event`: both lists are empty. -/
def EventState.init : EventState α :=
  ⟨⟨fun _ => none, fun _ => none⟩, fun _ => .zero, [], none, none, .init⟩

/-- `get_event_from_timing_list`: the last node of the timing list (its header included) of the given name, if any, and the last
one with less time left than `time`. There is no result if the loop does not end. -/
def getEventFromTimingList (s : EventState α) (eventName : String) (time : BitVec 32) :
    Option (Option EventPtr × EventPtr) :=
  s.links.walk
    (fun (found : Option EventPtr × EventPtr) list =>
      (if (s.node list).name = eventName then some list else found.1,
        if (s.node list).time < time then list else found.2))
    (s.allocated.length + 1) (some .timingList) (none, .timingList)

/-- Overwrite a node. -/
def EventState.setNode (s : EventState α) (p : EventPtr) (n : EventNode α) : EventState α :=
  { s with node := Function.update s.node p n }

/-- `delete_list` on the heap of the state. -/
def EventState.deleteList (s : EventState α) (p : EventPtr) : Option (EventState α) :=
  (s.links.deleteList p).map fun links => { s with links := links }

/-- `add_list` on the heap of the state. -/
def EventState.addList (s : EventState α) (before p : EventPtr) : EventState α :=
  { s with links := s.links.addList before p }

/-- `PAL_FREE`. -/
def EventState.free (s : EventState α) (p : EventPtr) : EventState α := { s with allocated := s.allocated.erase p }

/-- `prev`, after `if ( prev == existEvent ) prev = existEvent->prev;`. -/
def stepBack (s : EventState α) (existEvent prev : EventPtr) : Option EventPtr :=
  if prev = existEvent then s.links.prev existEvent else some prev

/-- Write the event into its node and link it behind `prev`: the end of `add_event`, for a name that fits its buffer. -/
def armEvent (s : EventState α) (prev p : EventPtr) (time : BitVec 32) (type : EventType) (name : String) (arg : Option α) :
    EventState α :=
  { (s.setNode p (s.log.newEvent time type name arg)).addList prev p with
    log := { s.log with given := s.log.given ++ [(type, arg)] } }

/-- The ghost note that the event of a node is replaced or deleted. -/
def EventState.cancel (s : EventState α) (p : EventPtr) : EventState α :=
  { s with log := { s.log with cancelled := s.log.cancelled ++ [(s.node p).id] } }

/-- `add_event`, with what `PAL_MALLOC` returns should it be called. There is no result where the C code has none: a name that
does not fit its buffer, a write through a null pointer; nor for a `PAL_MALLOC` that gives out a node twice. -/
def addEvent (s : EventState α) (malloc : Option Nat) (time : BitVec 32) (type : EventType) (eventName : Option String)
    (arg : Option α) : Option (Result × EventState α) :=
  if ¬IsValidEventType type then some (.eventTypeError, s)
  else
    match eventName with
    | none => some (.eventNameError, s)
    | some name =>
      if name = "" then some (.eventNameError, s)
      else
        (getEventFromTimingList s name time).bind fun found =>
          match found.1 with
          | some existEvent =>
            if maxEventNameLen ≤ name.length then none
            else
              (stepBack s existEvent found.2).bind fun prev =>
                ((s.cancel existEvent).deleteList existEvent).map fun s =>
                  (.tcmagentOk, armEvent s prev existEvent time type name arg)
          | none =>
            match malloc with
            | none => some (.mallocFailure, s)
            | some address =>
              if maxEventNameLen ≤ name.length ∨ .node address ∈ s.allocated then none
              else
                let s := { s with allocated := .node address :: s.allocated }
                some (.tcmagentOk, armEvent s found.2 (.node address) time type name arg)

def setEvent (s : EventState α) (time : BitVec 32) (eventName : Option String) : Option (Result × EventState α) :=
  match eventName with
  | none => some (.eventNameError, s)
  | some name =>
    if name = "" then some (.eventNameError, s)
    else
      (getEventFromTimingList s name time).bind fun found =>
        match found.1 with
        | some existEvent =>
          (stepBack s existEvent found.2).bind fun prev =>
            (s.deleteList existEvent).map fun s =>
              (.tcmagentOk, (s.setNode existEvent ((s.node existEvent).rearm s.log time)).addList prev existEvent)
        | none => some (.eventNotFound, s)

def deleteEvent (s : EventState α) (eventName : Option String) : Option (Result × EventState α) :=
  match eventName with
  | none => some (.eventNameError, s)
  | some name =>
    if name = "" then some (.eventNameError, s)
    else
      (getEventFromTimingList s name 0#32).bind fun found =>
        match found.1 with
        | some existEvent =>
          ((s.cancel existEvent).deleteList existEvent).map fun s => (.tcmagentOk, s.free existEvent)
        | none => some (.eventNotFound, s)

/-- One round of the timer thread's loop, at the node `timing`: one second less, and off to the front of the timeout list when
none is left. -/
def timerRound (s : EventState α) (timing : EventPtr) : Option (EventState α) :=
  let n := (s.node timing).countDown
  let timingNext := s.links.next timing
  let s := { s.setNode timing n with timer := some timingNext }
  if n.time = 0 then
    (s.deleteList timing).map fun s =>
      let s := s.setNode timing { n with movedAt := s.log.ticks }
      { s.addList .timeoutList timing with log := { s.log with moved := s.log.moved ++ [(n.id, s.log.ticks)] } }
  else some s

/-- What the threads can do. The first three are calls any thread can make; `tick`, `round` and `tickEnd` are the timer thread's
steps, from taking the lock of the timing list to releasing it; `take` and `run` are the event thread's. -/
inductive EventAct (α : Type*) where
  | addEvent (malloc : Option Nat) (time : BitVec 32) (type : EventType) (eventName : Option String) (arg : Option α)
  | setEvent (time : BitVec 32) (eventName : Option String)
  | deleteEvent (eventName : Option String)
  | tick
  | round
  | tickEnd
  | take
  | run

/-- One step of one thread. The calls and the start of a tick wait for the lock of the timing list. -/
def eventStep (s : EventState α) : EventAct α → Option (EventState α)
  | .addEvent malloc time type eventName arg =>
    if s.timer = none then (addEvent s malloc time type eventName arg).map Prod.snd else none
  | .setEvent time eventName => if s.timer = none then (setEvent s time eventName).map Prod.snd else none
  | .deleteEvent eventName => if s.timer = none then (deleteEvent s eventName).map Prod.snd else none
  | .tick =>
    if s.timer = none then
      some { s with timer := some (s.links.next .timingList), log := { s.log with ticks := s.log.ticks + 1 } }
    else none
  | .round =>
    match s.timer with
    | some (some timing) => timerRound s timing
    | _ => none
  | .tickEnd => if s.timer = some none then some { s with timer := none } else none
  | .take =>
    match s.timeout, s.links.next .timeoutList with
    | none, some timeout =>
      (s.deleteList timeout).map fun s =>
        { s with timeout := some timeout, log := { s.log with taken := s.log.taken ++ [(s.node timeout).id] } }
    | _, _ => none
  | .run =>
    match s.timeout with
    | some timeout =>
      let n := s.node timeout
      some
        { s.free timeout with
          timeout := none
          log := { s.log with dispatched := s.log.dispatched ++ [⟨n.id, n.event.func.eventFunc, n.event.arg⟩] } }
    | none => none

end CodeFactory.Core
