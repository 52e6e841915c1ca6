import CodeFactory.Lib.SList
import CodeFactory.Oal.Timer
import CodeFactory.Sched.Dls

/-!
# Delayed messages

`timer.c` of the scheduler: a list of entries in memory, one for every delayed message, searched by the id of the event and by its
context, the record of an application. An entry is linked by its address, and the timer event of an entry has this address for its
context. Memory that is free has no entry, and following a pointer there is undefined.
-/

namespace CodeFactory.Sched

open Oal Msg

def tcmMsgDelayedMsg : BitVec 32 := 0x10000003

/-- The number of the handler `timer_timerHandlerFunc`. -/
def timerTimerHandlerFunc : Nat := 0

structure TimerEvtInfo where
  prev : Option Nat
  next : Option Nat
  id : BitVec 32
  ctx : Nat
  deriving DecidableEq, Repr

/-- What an entry is looked up by: the id of the event and the context. -/
abbrev TimerKey := BitVec 32 × Nat

/-- The key of an entry. -/
def TimerEvtInfo.key (tmrInfo : TimerEvtInfo) : TimerKey := (tmrInfo.id, tmrInfo.ctx)

/-- The message that the handler makes for a record. -/
def delayedMsg (dInfo : DlsInfo) (id : BitVec 32) : TcmMsg :=
  { emptyMsgHeader with type := tcmMsgDelayedMsg, src := idSched, dst := dInfo.eid, event := true, wordData := id }

/-- The list of the entries in memory, the timer handle, and the messages that the handler has passed on, with their records. -/
structure DelayedMsgs where
  timerInfoList : Option Nat
  heap : Nat → Option TimerEvtInfo
  tmrHandle : TcmTimerHandle
  passedOn : List (Nat × TcmMsg)
  /-- The model's own: what was set, and neither cancelled nor expired. -/
  outstanding : List TimerKey

/-- A request, or a round of `tcmTmr_executeExpiredEvents`. A request to set comes with the address that `tcmMem_alloc` gives, the
time on the clock, and whether there is memory for a timer event. -/
inductive DelayAct where
  | set (id : BitVec 32) (ctx : Nat) (ms : BitVec 32) (alloc : Option Nat) (nowTms : TcmTimestamp) (memory : Bool)
  | cancel (id : BitVec 32) (ctx : Nat)
  | execute (nowTms : TcmTimestamp)

namespace DelayedMsgs

/-- After `timer_init`. -/
def init : DelayedMsgs := ⟨none, fun _ => none, ⟨[], 0⟩, [], []⟩

/-- Write an entry. -/
def store (s : DelayedMsgs) (p : Nat) (e : Option TimerEvtInfo) : DelayedMsgs := { s with heap := Function.update s.heap p e }

/-- `p->prev = q`, if `p` is not null. -/
def setPrev (s : DelayedMsgs) (p q : Option Nat) : Outcome DelayedMsgs :=
  match p with
  | none => .done s
  | some p => (follow (s.heap p)).map fun e => s.store p (some { e with prev := q })

/-- The loop of `getTmrInfo`, which looks at the same entry in every round. -/
def lookAt (s : DelayedMsgs) (id : BitVec 32) (ctx : Nat) (tmrInfo : Option Nat) : Nat → Outcome (Option Nat)
  | 0 => .outOfFuel
  | fuel + 1 =>
    match tmrInfo with
    | none => .done none
    | some p => (follow (s.heap p)).bind fun e => if e.key = (id, ctx) then .done (some p) else s.lookAt id ctx (some p) fuel

def getTmrInfo (s : DelayedMsgs) (id : BitVec 32) (ctx : Nat) (fuel : Nat) : Outcome (Option Nat) :=
  s.lookAt id ctx s.timerInfoList fuel

/-- `createTmrInfo`, with the address that it gets. -/
def createTmrInfo (s : DelayedMsgs) (id : BitVec 32) (ctx p : Nat) : Outcome DelayedMsgs :=
  ((s.store p (some ⟨none, s.timerInfoList, id, ctx⟩)).setPrev s.timerInfoList (some p)).map fun t =>
    { t with timerInfoList := some p }

/-- The links that `deleteTimerInfo` changes, for the entry `e` of `p`. -/
def unlinkTimerInfo (s : DelayedMsgs) (p : Nat) (e : TimerEvtInfo) : Outcome DelayedMsgs :=
  if s.timerInfoList = some p then { s with timerInfoList := e.next }.setPrev e.next none
  else
    (follow e.prev).bind fun q => (follow (s.heap q)).bind fun f =>
      (s.store q (some { f with next := e.next })).setPrev e.next e.prev

def deleteTimerInfo (s : DelayedMsgs) (p : Nat) : Outcome DelayedMsgs :=
  (follow (s.heap p)).bind fun e => (s.unlinkTimerInfo p e).map fun t => t.store p none

/-- `timer_set`: the entry is linked before the timer event is set, and stays when that fails. -/
def timerSet (s : DelayedMsgs) (id : BitVec 32) (ctx : Nat) (ms : BitVec 32) (alloc : Option Nat) (nowTms : TcmTimestamp)
    (memory : Bool) : Outcome (TcmRet × DelayedMsgs) :=
  match alloc with
  | none => .done (.resourceExceeded, s)
  | some p => (s.createTmrInfo id ctx p).bind fun t =>
    let (ret, handle) := tcmTmrSet t.tmrHandle timerTimerHandlerFunc p ms (some "delayed_msg".toList) nowTms memory 0
    handle.map fun handle => (ret, { t with tmrHandle := handle })

def timerCancel (s : DelayedMsgs) (id : BitVec 32) (ctx : Nat) (fuel : Nat) : Outcome (TcmRet × DelayedMsgs) :=
  (s.getTmrInfo id ctx fuel).bind fun
    | none => .done (.invalidArguments, s)
    | some p =>
      ({ s with tmrHandle := (tcmTmrCancel s.tmrHandle timerTimerHandlerFunc p).2 }.deleteTimerInfo p).map fun t => (.success, t)

/-- `timer_timerHandlerFunc`: the key of the entry, and the message that is passed on. The records are given. -/
def timerHandler (infos : Nat → DlsInfo) (s : DelayedMsgs) (p : Nat) : Outcome (TimerKey × DelayedMsgs) :=
  (follow (s.heap p)).map fun e =>
    (e.key, { s with passedOn := s.passedOn ++ [(e.ctx, delayedMsg (infos e.ctx) e.id)] })

/-- What was set is noted. -/
def noteSet (key : TimerKey) (r : TcmRet × DelayedMsgs) : DelayedMsgs :=
  if r.1 = .success then { r.2 with outstanding := key :: r.2.outstanding } else r.2

/-- What was cancelled or has expired is noted. -/
def noteEnded (key : TimerKey) (s : DelayedMsgs) : DelayedMsgs := { s with outstanding := s.outstanding.filter (· ≠ key) }

/-- A call, with a bound on the rounds of its loops. -/
def call (infos : Nat → DlsInfo) (s : DelayedMsgs) (fuel : Nat) : DelayAct → Outcome DelayedMsgs
  | .set id ctx ms alloc nowTms memory => (s.timerSet id ctx ms alloc nowTms memory).map (noteSet (id, ctx))
  | .cancel id ctx => (s.timerCancel id ctx fuel).map fun (_, t) => noteEnded (id, ctx) t
  | .execute nowTms =>
    match takeExpired s.tmrHandle nowTms with
    | none => .done s
    | some (event, handle) => ({ s with tmrHandle := handle }.timerHandler infos event.ctxData).map fun (key, t) => noteEnded key t

/-- The allocation gives an address that is free. -/
def Possible (s : DelayedMsgs) : DelayAct → Prop
  | .set _ _ _ (some p) _ _ => s.heap p = none
  | _ => True

/-- A call is made, and this is what it comes to: it may go on for ever. -/
def step (infos : Nat → DlsInfo) : Step (Outcome DelayedMsgs) DelayAct := fun s a t =>
  ∃ s', s = .done s' ∧ s'.Possible a ∧ match t with
    | .outOfFuel => ∀ fuel, s'.call infos fuel a = .outOfFuel
    | t => ∃ fuel, s'.call infos fuel a = t

/-- The `next` pointers. -/
def next (s : DelayedMsgs) (p : Nat) : Option Nat := (s.heap p).bind TimerEvtInfo.next

/-- The entries of the list are at these addresses and have these keys. -/
def Entries (s : DelayedMsgs) (xs : List (Nat × TimerKey)) : Prop :=
  ChainFrom s.next s.timerInfoList (xs.map Prod.fst) ∧ ∀ x ∈ xs, (s.heap x.1).map TimerEvtInfo.key = some x.2

/-- The list holds what is outstanding, and no key twice. -/
def Holds (s : DelayedMsgs) (xs : List (Nat × TimerKey)) : Prop :=
  s.Entries xs ∧ (xs.map Prod.snd).Nodup ∧ (xs.map Prod.snd).Perm s.outstanding

/-- **What a step has to do**: end, with a list that holds what is outstanding. A cancel leaves the other entries where they are. -/
def Exact (s : Outcome DelayedMsgs) (a : DelayAct) (t : Outcome DelayedMsgs) : Prop :=
  ∃ s' t', s = .done s' ∧ t = .done t' ∧ (∃ ys, t'.Holds ys) ∧
    ∀ id ctx, a = .cancel id ctx → ∀ xs, s'.Entries xs → t'.Entries (xs.filter fun x => x.2 ≠ (id, ctx))

/-- A message is set that is not outstanding, with memory for both the entry and the timer event or without any for the entry; a
cancel is for the first entry of the list, or there is none; no timer event has expired. -/
def Fits (s : Outcome DelayedMsgs) (a : DelayAct) : Prop :=
  ∃ s', s = .done s' ∧ match a with
    | .set id ctx _ alloc _ memory => alloc = none ∨ memory = true ∧ (id, ctx) ∉ s'.outstanding
    | .cancel id ctx => ∀ p ∈ s'.timerInfoList, ∀ e ∈ s'.heap p, e.key = (id, ctx)
    | .execute nowTms => takeExpired s'.tmrHandle nowTms = none

variable {s t : DelayedMsgs} {xs : List (Nat × TimerKey)} {p q : Nat}

/-! ## The list in memory -/

/-- What the list depends on at an address. -/
def view (s : DelayedMsgs) (p : Nat) : Option (Option Nat × TimerKey) := (s.heap p).map fun e => (e.next, e.key)

theorem next_eq_view (s : DelayedMsgs) (p : Nat) : s.next p = (s.view p).bind Prod.fst := by
  rw [next, view, Option.bind_map]
  rfl

theorem key_eq_view (s : DelayedMsgs) (p : Nat) : (s.heap p).map TimerEvtInfo.key = (s.view p).map Prod.snd := by
  rw [view, Option.map_map]
  rfl

/-- A list stays when its head stays and nothing changes at its addresses. -/
theorem Entries.congr (h : s.Entries xs) (hlist : t.timerInfoList = s.timerInfoList)
    (hview : ∀ x ∈ xs, t.view x.1 = s.view x.1) : t.Entries xs := by
  refine ⟨?_, fun x hx => ?_⟩
  · rw [hlist]
    refine h.1.congr fun y hy => ?_
    obtain ⟨x, hx, rfl⟩ := List.mem_map.1 hy
    rw [next_eq_view, next_eq_view, hview x hx]
  · rw [key_eq_view, hview x hx, ← key_eq_view]
    exact h.2 x hx

theorem Entries.ne_of_free (h : s.Entries xs) (hp : s.heap p = none) : p ∉ xs.map Prod.fst := by
  intro hmem
  obtain ⟨x, hx, rfl⟩ := List.mem_map.1 hmem
  have hkey := h.2 x hx
  rw [hp] at hkey
  cases hkey

theorem view_store (s : DelayedMsgs) (p : Nat) (e : Option TimerEvtInfo) (q : Nat) :
    (s.store p e).view q = if q = p then e.map fun e => (e.next, e.key) else s.view q := by
  rw [view, store]
  simp only [Function.update_apply]
  split
  · rfl
  · rfl

/-- Writing a `prev` pointer of an entry that is there changes nothing that the list depends on. -/
theorem setPrev_of_isSome {o r : Option Nat} (h : ∀ q ∈ o, (s.heap q).isSome) :
    ∃ t, s.setPrev o r = .done t ∧ t.view = s.view ∧ t.timerInfoList = s.timerInfoList ∧ t.tmrHandle = s.tmrHandle ∧
      t.outstanding = s.outstanding := by
  cases o with
  | none => exact ⟨s, rfl, rfl, rfl, rfl, rfl⟩
  | some q =>
    obtain ⟨e, he⟩ := Option.isSome_iff_exists.1 (h q rfl)
    refine ⟨s.store q (some { e with prev := r }), by rw [setPrev, he]; rfl, ?_, rfl, rfl, rfl⟩
    funext a
    rw [view_store]
    split
    · rename_i haq
      rw [haq, view, he]
      rfl
    · rfl

theorem Entries.isSome_head (h : s.Entries xs) : ∀ q ∈ s.timerInfoList, (s.heap q).isSome := by
  intro q hq
  obtain ⟨x, hx, rfl⟩ := List.mem_map.1 (h.1.mem_of_some hq)
  have hkey := h.2 x hx
  cases he : s.heap x.1 with
  | none => rw [he] at hkey; cases hkey
  | some e => rfl

/-- `createTmrInfo` puts the new entry before the others. -/
theorem createTmrInfo_eq (h : s.Entries xs) (hp : s.heap p = none) (id : BitVec 32) (ctx : Nat) :
    ∃ t, s.createTmrInfo id ctx p = .done t ∧ t.Entries ((p, (id, ctx)) :: xs) ∧ t.tmrHandle = s.tmrHandle ∧
      t.outstanding = s.outstanding := by
  have hne := h.ne_of_free hp
  have hhead : ∀ q ∈ s.timerInfoList, ((s.store p (some ⟨none, s.timerInfoList, id, ctx⟩)).heap q).isSome := by
    intro q hq
    have hsome := h.isSome_head q hq
    rw [store]
    simp only [Function.update_apply]
    split
    · rfl
    · exact hsome
  obtain ⟨t, ht, hview, hlist, hhandle, hout⟩ := setPrev_of_isSome (r := some p) hhead
  refine ⟨{ t with timerInfoList := some p }, by rw [createTmrInfo, ht]; rfl, ?_, hhandle, hout⟩
  have hself : ∀ a, ({ t with timerInfoList := some p } : DelayedMsgs).view a =
      if a = p then some (s.timerInfoList, id, ctx) else s.view a := by
    intro a
    have heq : ({ t with timerInfoList := some p } : DelayedMsgs).view a = t.view a := rfl
    rw [heq, hview, view_store]
    rfl
  refine ⟨⟨rfl, ?_⟩, fun x hx => ?_⟩
  · rw [next_eq_view, hself p, if_pos rfl]
    refine h.1.congr fun y hy => ?_
    have hyp : y ≠ p := by
      rintro rfl
      exact hne hy
    rw [next_eq_view, hself y, if_neg hyp, ← next_eq_view]
  · rw [key_eq_view, hself x.1]
    rcases List.mem_cons.1 hx with rfl | hmem
    · rw [if_pos rfl]
      rfl
    · have hxp : x.1 ≠ p := by
        rintro rfl
        exact hne (List.mem_map_of_mem hmem)
      rw [if_neg hxp, ← key_eq_view]
      exact h.2 x hmem

/-- `deleteTimerInfo` of the first entry leaves the others. -/
theorem deleteTimerInfo_eq {k : TimerKey} (h : s.Entries ((p, k) :: xs)) (hn : (p :: xs.map Prod.fst).Nodup) :
    ∃ t, s.deleteTimerInfo p = .done t ∧ t.Entries xs ∧ t.tmrHandle = s.tmrHandle ∧ t.outstanding = s.outstanding := by
  obtain ⟨⟨hhead, hchain⟩, hkeys⟩ := h
  have hkey := hkeys _ List.mem_cons_self
  obtain ⟨e, he, -⟩ := Option.map_eq_some_iff.1 hkey
  have hnext : s.next p = e.next := by rw [next, he]; rfl
  have hrest : ({ s with timerInfoList := e.next } : DelayedMsgs).Entries xs := by
    refine ⟨?_, fun x hx => hkeys x (List.mem_cons_of_mem _ hx)⟩
    rw [hnext] at hchain
    exact hchain
  obtain ⟨t, ht, hview, hlist, hhandle, hout⟩ := setPrev_of_isSome (r := none) hrest.isSome_head
  refine ⟨t.store p none, ?_, ?_, hhandle, hout⟩
  · have ht' : ({ s with timerInfoList := e.next } : DelayedMsgs).setPrev e.next none = .done t := ht
    simp only [deleteTimerInfo, he, follow, Outcome.bind_done, unlinkTimerInfo]
    rw [if_pos hhead, ht']
    rfl
  · refine hrest.congr hlist fun x hx => ?_
    rw [view_store, if_neg, hview]
    rintro rfl
    exact (List.nodup_cons.1 hn).1 (List.mem_map_of_mem hx)

/-- The search ends at once when the list is empty or its first entry is the one that is looked for. -/
theorem getTmrInfo_eq {key : TimerKey} (h : s.Entries xs) (hhead : ∀ x ∈ xs.head?, x.2 = key) (fuel : Nat) :
    s.getTmrInfo key.1 key.2 (fuel + 1) = .done s.timerInfoList := by
  rw [getTmrInfo]
  cases hlist : s.timerInfoList with
  | none => rfl
  | some p =>
    cases xs with
    | nil => exact absurd (hlist.symm.trans h.1) nofun
    | cons x xs =>
      obtain rfl : x.1 = p := Option.some.inj (h.1.1.symm.trans hlist)
      obtain ⟨e, he, hek⟩ := Option.map_eq_some_iff.1 (h.2 x List.mem_cons_self)
      have hmatch : e.key = (key.1, key.2) := hek.trans (hhead x rfl)
      simp only [lookAt, he, follow, Outcome.bind_done]
      rw [if_pos hmatch]

/-- The search for another entry than the first one never ends. -/
theorem lookAt_eq_outOfFuel {id : BitVec 32} {ctx : Nat} {e : TimerEvtInfo} (he : s.heap p = some e) (hne : e.key ≠ (id, ctx))
    (fuel : Nat) : s.lookAt id ctx (some p) fuel = .outOfFuel := by
  induction fuel with
  | zero => rfl
  | succ fuel ih =>
    simp only [lookAt, he, follow, Outcome.bind_done]
    rw [if_neg hne]
    exact ih

/-- There is one list at most. -/
theorem Entries.unique {ys : List (Nat × TimerKey)} (h : s.Entries xs) (h' : s.Entries ys) : xs = ys := by
  have hread : ∀ {zs : List (Nat × TimerKey)}, s.Entries zs →
      zs.map (fun x => (x.1, some x.2)) = (zs.map Prod.fst).map fun p => (p, (s.heap p).map TimerEvtInfo.key) := by
    intro zs hzs
    rw [List.map_map]
    exact List.map_congr_left fun x hx => Prod.ext rfl (hzs.2 x hx).symm
  have hinj : Function.Injective fun x : Nat × TimerKey => (x.1, some x.2) := by
    intro x y hxy
    obtain ⟨hfst, hsnd⟩ := Prod.mk.inj hxy
    exact Prod.ext hfst (Option.some.inj hsnd)
  refine List.map_injective_iff.2 hinj ?_
  rw [hread h, hread h', h.1.unique h'.1]

/-! ## The timer events -/

/-- The list holds what is outstanding, and every timer event belongs to an entry of its own. -/
structure Inv (s : DelayedMsgs) (xs : List (Nat × TimerKey)) : Prop where
  holds : s.Holds xs
  addresses : (xs.map Prod.fst).Nodup
  numEvents : s.tmrHandle.numEvents = BitVec.ofNat 32 s.tmrHandle.events.length
  events : ∀ e ∈ s.tmrHandle.events, e.func = timerTimerHandlerFunc ∧ e.ctxData ∈ xs.map Prod.fst
  distinct : (s.tmrHandle.events.map TcmTimerEvent.ctxData).Nodup

/-- A timer event that is put into a handle whose count is right; the count starts from zero again after 2^32 of them, and those are
lost. -/
theorem enqueue_done {handle : TcmTimerHandle} (h : handle.numEvents = BitVec.ofNat 32 handle.events.length) (e : TcmTimerEvent) :
    ∃ handle', enqueue handle e = .done handle' ∧ handle'.numEvents = BitVec.ofNat 32 handle'.events.length ∧
      (handle'.events.Perm (e :: handle.events) ∨ handle'.events = [e]) := by
  rw [enqueue]
  by_cases h0 : handle.numEvents = 0
  · rw [if_pos h0]
    exact ⟨_, rfl, by rw [h0]; rfl, .inr rfl⟩
  · rw [if_neg h0]
    cases hev : handle.events with
    | nil =>
      rw [hev] at h
      exact absurd h h0
    | cons e' es =>
      refine ⟨_, rfl, ?_, .inl (List.perm_orderedInsert _ _ _)⟩
      simp only
      rw [(List.perm_orderedInsert TcmTimerEvent.Earlier e (e' :: es)).length_eq, h, hev]
      simp [BitVec.ofNat_add]

/-- The timer event of a new entry is set, if there is memory for it. -/
theorem tcmTmrSet_eq {handle : TcmTimerHandle} (hp : ∀ e ∈ handle.events, e.ctxData ≠ p) (ms : BitVec 32)
    (nowTms : TcmTimestamp) (memory : Bool) :
    tcmTmrSet handle timerTimerHandlerFunc p ms (some "delayed_msg".toList) nowTms memory 0 =
      if memory = true then
        (.success, enqueue handle (newTimerEvent timerTimerHandlerFunc p ms (some "delayed_msg".toList) nowTms 0))
      else (.resourceExceeded, .done handle) := by
  have habsent : tcmTmrIsEventPresent handle timerTimerHandlerFunc p = false := by
    rw [tcmTmrIsEventPresent, List.any_eq_false]
    intro e he heq
    have hkey : e.key = (timerTimerHandlerFunc, p) := by simpa using heq
    exact hp e he (Prod.mk.inj hkey).2
  have hname : nameTooLong (some "delayed_msg".toList) = false := by decide
  rw [tcmTmrSet, habsent, hname]
  cases memory <;> rfl

/-- `timer_set` of a new entry: the entry is in the list, and the timer event is set if there is memory for it. -/
theorem timerSet_eq (h : s.Inv xs) (hp : s.heap p = none) (id : BitVec 32) (ctx : Nat) (ms : BitVec 32) (nowTms : TcmTimestamp)
    (memory : Bool) :
    ∃ t, s.timerSet id ctx ms (some p) nowTms memory = .done (if memory = true then .success else .resourceExceeded, t) ∧
      t.Entries ((p, (id, ctx)) :: xs) ∧ t.outstanding = s.outstanding ∧
      t.tmrHandle.numEvents = BitVec.ofNat 32 t.tmrHandle.events.length ∧
      (∀ e ∈ t.tmrHandle.events, e.func = timerTimerHandlerFunc ∧ e.ctxData ∈ p :: xs.map Prod.fst) ∧
      (t.tmrHandle.events.map TcmTimerEvent.ctxData).Nodup := by
  obtain ⟨t, ht, hent, hhandle, hout⟩ := createTmrInfo_eq h.holds.1 hp id ctx
  have hne := h.holds.1.ne_of_free hp
  have hctx : ∀ e ∈ t.tmrHandle.events, e.ctxData ≠ p := by
    intro e he
    rw [hhandle] at he
    rintro rfl
    exact hne (h.events e he).2
  have hset := tcmTmrSet_eq hctx ms nowTms memory
  have hold : ∀ e ∈ s.tmrHandle.events, e.func = timerTimerHandlerFunc ∧ e.ctxData ∈ p :: xs.map Prod.fst :=
    fun e he => ⟨(h.events e he).1, List.mem_cons_of_mem _ (h.events e he).2⟩
  cases memory with
  | false =>
    refine ⟨t, ?_, hent, hout, ?_, ?_, ?_⟩
    · rw [timerSet, ht, Outcome.bind_done, hset]
      rfl
    · rw [hhandle]
      exact h.numEvents
    · rw [hhandle]
      exact hold
    · rw [hhandle]
      exact h.distinct
  | true =>
    have hnum : t.tmrHandle.numEvents = BitVec.ofNat 32 t.tmrHandle.events.length := by
      rw [hhandle]
      exact h.numEvents
    obtain ⟨handle, henq, hcount, hev⟩ :=
      enqueue_done hnum (newTimerEvent timerTimerHandlerFunc p ms (some "delayed_msg".toList) nowTms 0)
    refine ⟨{ t with tmrHandle := handle }, ?_, hent, hout, hcount, ?_, ?_⟩
    · rw [timerSet, ht, Outcome.bind_done, hset]
      simp only [if_true, henq]
      rfl
    · intro e he
      have hcases : e ∈ newTimerEvent timerTimerHandlerFunc p ms (some "delayed_msg".toList) nowTms 0 :: t.tmrHandle.events := by
        rcases hev with hev | hev
        · exact hev.mem_iff.1 he
        · rw [hev] at he
          exact List.mem_cons.2 (.inl (List.mem_singleton.1 he))
      rcases List.mem_cons.1 hcases with rfl | he
      · exact ⟨rfl, List.mem_cons_self⟩
      · rw [hhandle] at he
        exact hold e he
    · rcases hev with hev | hev
      · refine (hev.map _).nodup_iff.2 ?_
        rw [List.map_cons, List.nodup_cons, hhandle]
        refine ⟨fun hmem => ?_, h.distinct⟩
        obtain ⟨e, he, hep⟩ := List.mem_map.1 hmem
        exact hctx e (by rw [hhandle]; exact he) hep
      · rw [hev]
        exact List.nodup_singleton _

/-- The timer event of an entry is cancelled: none is left for it. -/
theorem tcmTmrCancel_events {handle : TcmTimerHandle} (hfunc : ∀ e ∈ handle.events, e.func = timerTimerHandlerFunc)
    (hdist : (handle.events.map TcmTimerEvent.ctxData).Nodup) (hnum : handle.numEvents = BitVec.ofNat 32 handle.events.length)
    (p : Nat) :
    (tcmTmrCancel handle timerTimerHandlerFunc p).2.numEvents =
        BitVec.ofNat 32 (tcmTmrCancel handle timerTimerHandlerFunc p).2.events.length ∧
      (∀ e ∈ (tcmTmrCancel handle timerTimerHandlerFunc p).2.events, e ∈ handle.events ∧ e.ctxData ≠ p) ∧
      ((tcmTmrCancel handle timerTimerHandlerFunc p).2.events.map TcmTimerEvent.ctxData).Nodup := by
  have hkey : ∀ e ∈ handle.events, (e.key == (timerTimerHandlerFunc, p)) = decide (e.ctxData = p) := by
    intro e he
    rw [Bool.eq_iff_iff]
    simp [TcmTimerEvent.key, hfunc e he]
  rw [tcmTmrCancel]
  split
  · rename_i hnone
    refine ⟨hnum, fun e he => ⟨he, fun hep => ?_⟩, hdist⟩
    have hne := List.find?_eq_none.1 hnone e he
    rw [hkey e he] at hne
    exact hne (by simpa using hep)
  · rename_i e₀ hsome
    have hmem := List.mem_of_find?_eq_some hsome
    have hpos : 0 < handle.events.length := List.length_pos_of_mem hmem
    have hsub : (handle.events.eraseP fun e => e.key == (timerTimerHandlerFunc, p)).Sublist handle.events := List.eraseP_sublist
    refine ⟨?_, fun e he => ⟨hsub.subset he, fun hep => ?_⟩, hdist.sublist (hsub.map _)⟩
    · simp only
      rw [List.length_eraseP_of_mem hmem (List.find?_some hsome), hnum]
      obtain ⟨n, hn⟩ : ∃ n, handle.events.length = n + 1 := ⟨_, (Nat.succ_pred_eq_of_pos hpos).symm⟩
      rw [hn, Nat.add_sub_cancel, BitVec.ofNat_add]
      simp
    · obtain ⟨e₁, l₁, l₂, -, he₁, hl, her⟩ := List.exists_of_eraseP hmem (List.find?_some hsome)
      rw [hkey e₁ (by rw [hl]; simp)] at he₁
      have hp₁ : e₁.ctxData = p := by simpa using he₁
      have hnd : ((l₁ ++ l₂).map TcmTimerEvent.ctxData).Nodup ∧ p ∉ (l₁ ++ l₂).map TcmTimerEvent.ctxData := by
        rw [hl, List.map_append, List.map_cons, List.nodup_middle, List.nodup_cons, hp₁] at hdist
        rw [List.map_append]
        exact hdist.symm
      rw [her] at he
      exact hnd.2 (hep ▸ List.mem_map_of_mem he)

/-! ## The steps -/

variable {infos : Nat → DlsInfo} {a : DelayAct} {o : Outcome DelayedMsgs}

/-- A call that gives a result whenever it gets far enough comes to this result. -/
theorem eq_of_step (h : step infos (.done s) a o) (hcall : ∀ fuel, s.call infos (fuel + 1) a = .done t)
    (hzero : s.call infos 0 a = .done t ∨ s.call infos 0 a = .outOfFuel) : o = .done t := by
  obtain ⟨s', hs', -, h⟩ := h
  obtain rfl := Outcome.done.inj hs'
  have hall : ∀ fuel, s.call infos fuel a = .done t ∨ s.call infos fuel a = .outOfFuel := by
    intro fuel
    cases fuel with
    | zero => exact hzero
    | succ fuel => exact .inl (hcall fuel)
  cases o with
  | outOfFuel => exact absurd ((h 1).symm.trans (hcall 0)) nofun
  | done t' =>
    obtain ⟨fuel, hfuel⟩ := h
    rcases hall fuel with heq | heq
    · exact hfuel.symm.trans heq
    · exact absurd (hfuel.symm.trans heq) nofun
  | undefined =>
    obtain ⟨fuel, hfuel⟩ := h
    rcases hall fuel with heq | heq
    · exact absurd (hfuel.symm.trans heq) nofun
    · exact absurd (hfuel.symm.trans heq) nofun

theorem not_done_of_step (h : step infos (.done s) a o) (hcall : ∀ fuel, s.call infos fuel a = .outOfFuel) :
    ∀ t, o ≠ .done t := by
  rintro t rfl
  obtain ⟨s', hs', -, fuel, hfuel⟩ := h
  obtain rfl := Outcome.done.inj hs'
  exact absurd ((hcall fuel).symm.trans hfuel) nofun

/-- What a step that sets a message comes to, with the address that it gets. -/
theorem step_set (h : s.Inv xs) {id : BitVec 32} {ctx : Nat} {ms : BitVec 32} {nowTms : TcmTimestamp} {memory : Bool}
    (hs : step infos (.done s) (.set id ctx ms (some p) nowTms memory) o) :
    ∃ t, o = .done t ∧ t.Entries ((p, (id, ctx)) :: xs) ∧ p ∉ xs.map Prod.fst ∧
      t.outstanding = (if memory = true then (id, ctx) :: s.outstanding else s.outstanding) ∧
      t.tmrHandle.numEvents = BitVec.ofNat 32 t.tmrHandle.events.length ∧
      (∀ e ∈ t.tmrHandle.events, e.func = timerTimerHandlerFunc ∧ e.ctxData ∈ p :: xs.map Prod.fst) ∧
      (t.tmrHandle.events.map TcmTimerEvent.ctxData).Nodup := by
  have hp : s.heap p = none := by
    obtain ⟨s', hs', hp, -⟩ := hs
    obtain rfl := Outcome.done.inj hs'
    exact hp
  obtain ⟨t, ht, hent, hout, hnum, hev, hdist⟩ := timerSet_eq h hp id ctx ms nowTms memory
  have hcall : ∀ fuel, s.call infos fuel (.set id ctx ms (some p) nowTms memory) =
      .done (noteSet (id, ctx) (if memory = true then .success else .resourceExceeded, t)) := by
    intro fuel
    rw [call, ht]
    rfl
  refine ⟨_, eq_of_step hs (fun fuel => hcall _) (.inl (hcall 0)), ?_⟩
  cases memory with
  | false => exact ⟨hent, h.holds.1.ne_of_free hp, hout, hnum, hev, hdist⟩
  | true =>
    refine ⟨hent, h.holds.1.ne_of_free hp, ?_, hnum, hev, hdist⟩
    rw [if_pos rfl, ← hout]
    rfl

/-- A cancel for the first entry of the list, or for none when there is none. -/
theorem step_cancel (h : s.Inv xs) {id : BitVec 32} {ctx : Nat} (hhead : ∀ x ∈ xs.head?, x.2 = (id, ctx))
    (hs : step infos (.done s) (.cancel id ctx) o) :
    ∃ t, o = .done t ∧ t.Inv xs.tail ∧ xs.filter (fun x => x.2 ≠ (id, ctx)) = xs.tail := by
  have hget : ∀ fuel, s.getTmrInfo id ctx (fuel + 1) = .done s.timerInfoList :=
    fun fuel => getTmrInfo_eq h.holds.1 hhead fuel
  have hzero : ∀ t, s.call infos 0 (.cancel id ctx) = .done t ∨ s.call infos 0 (.cancel id ctx) = .outOfFuel :=
    fun t => .inr rfl
  cases xs with
  | nil =>
    have hlist : s.timerInfoList = none := h.holds.1.1
    have hout : s.outstanding = [] := List.perm_nil.1 h.holds.2.2.symm
    have hcall : ∀ fuel, s.call infos (fuel + 1) (.cancel id ctx) = .done (noteEnded (id, ctx) s) := by
      intro fuel
      rw [call, timerCancel, hget, hlist]
      rfl
    refine ⟨_, eq_of_step hs hcall (hzero _), ⟨⟨h.holds.1, h.holds.2.1, ?_⟩, h.addresses, h.numEvents, h.events, h.distinct⟩, rfl⟩
    rw [noteEnded, hout]
    exact List.Perm.nil
  | cons x xs =>
    obtain ⟨p, k⟩ := x
    obtain rfl : k = (id, ctx) := hhead _ rfl
    have hlist : s.timerInfoList = some p := h.holds.1.1.1
    obtain ⟨hnum, hev, hdist⟩ := tcmTmrCancel_events (fun e he => (h.events e he).1) h.distinct h.numEvents p
    have hent : ({ s with tmrHandle := (tcmTmrCancel s.tmrHandle timerTimerHandlerFunc p).2 } : DelayedMsgs).Entries
        ((p, (id, ctx)) :: xs) := h.holds.1
    obtain ⟨t, ht, htent, hhandle, hout⟩ := deleteTimerInfo_eq hent h.addresses
    have hcall : ∀ fuel, s.call infos (fuel + 1) (.cancel id ctx) = .done (noteEnded (id, ctx) t) := by
      intro fuel
      have hfound : s.getTmrInfo id ctx (fuel + 1) = .done (some p) := by rw [hget, hlist]
      rw [call, timerCancel, hfound, Outcome.bind_done]
      simp only [ht]
      rfl
    obtain ⟨hk, hnd⟩ := List.nodup_cons.1 h.holds.2.1
    have hrest : ∀ y ∈ xs, y.2 ≠ (id, ctx) := fun y hy heq => hk (List.mem_map.2 ⟨y, hy, heq⟩)
    refine ⟨_, eq_of_step hs hcall (hzero _), ⟨⟨htent, hnd, ?_⟩, (List.nodup_cons.1 h.addresses).2, ?_, ?_, ?_⟩, ?_⟩
    · have hperm := h.holds.2.2.filter fun key => key ≠ (id, ctx)
      rw [noteEnded, hout]
      refine List.Perm.trans (List.Perm.of_eq ?_) hperm
      rw [List.map_cons, List.filter_cons_of_neg (by simp), List.filter_eq_self.2]
      · rfl
      · intro key hkey
        obtain ⟨y, hy, rfl⟩ := List.mem_map.1 hkey
        simpa using hrest y hy
    · show t.tmrHandle.numEvents = BitVec.ofNat 32 t.tmrHandle.events.length
      rw [hhandle]
      exact hnum
    · intro e he
      have he' : e ∈ t.tmrHandle.events := he
      rw [hhandle] at he'
      obtain ⟨hold, hne⟩ := hev e he'
      obtain ⟨hfunc, hmem⟩ := h.events e hold
      exact ⟨hfunc, (List.mem_cons.1 hmem).resolve_left hne⟩
    · show (t.tmrHandle.events.map _).Nodup
      rw [hhandle]
      exact hdist
    · rw [List.filter_cons_of_neg (by simp), List.filter_eq_self.2]
      · rfl
      · intro y hy
        simpa using hrest y hy

/-- The handler is run for a timer event that has expired: the list stays as it is. -/
theorem step_execute (h : s.Inv xs) {nowTms : TcmTimestamp} {event : TcmTimerEvent} {handle : TcmTimerHandle}
    (hexp : takeExpired s.tmrHandle nowTms = some (event, handle)) (hs : step infos (.done s) (.execute nowTms) o) :
    ∃ t key, o = .done t ∧ t.Entries xs ∧ key ∈ xs.map Prod.snd ∧ t.outstanding = s.outstanding.filter (· ≠ key) := by
  have hmem : event ∈ s.tmrHandle.events := by
    rw [takeExpired] at hexp
    split at hexp
    · cases hexp
    · rename_i e rest heq
      split at hexp
      · cases hexp
        rw [heq]
        exact List.mem_cons_self
      · cases hexp
  obtain ⟨x, hx, hxp⟩ := List.mem_map.1 (h.events event hmem).2
  obtain ⟨e, he, hek⟩ := Option.map_eq_some_iff.1 (h.holds.1.2 x hx)
  rw [hxp] at he
  have hcall : ∀ fuel, s.call infos fuel (.execute nowTms) = .done (noteEnded e.key
      { s with tmrHandle := handle, passedOn := s.passedOn ++ [(e.ctx, delayedMsg (infos e.ctx) e.id)] }) := by
    intro fuel
    simp only [call, hexp, timerHandler, he]
    rfl
  exact ⟨_, e.key, eq_of_step hs (fun fuel => hcall _) (.inl (hcall 0)), h.holds.1, hek ▸ List.mem_map_of_mem hx, rfl⟩

theorem inv_init : init.Inv [] := ⟨⟨⟨rfl, by simp⟩, List.nodup_nil, List.Perm.nil⟩, List.nodup_nil, rfl, by simp [init], by simp [init]⟩

/-- A step that fits is exact. -/
theorem exact_of_fits (h : s.Inv xs) (hfits : Fits (.done s) a) (hs : step infos (.done s) a o) :
    (∃ t ys, o = .done t ∧ t.Inv ys) ∧ Exact (.done s) a o := by
  obtain ⟨s', hs', hfits⟩ := hfits
  obtain rfl := Outcome.done.inj hs'
  cases a with
  | set id ctx ms alloc nowTms memory =>
    cases alloc with
    | none =>
      have hcall : ∀ fuel, s.call infos fuel (.set id ctx ms none nowTms memory) = .done s := fun _ => rfl
      obtain rfl := eq_of_step hs (fun fuel => hcall _) (.inl (hcall 0))
      exact ⟨⟨s, xs, rfl, h⟩, s, s, rfl, rfl, ⟨xs, h.holds⟩, fun _ _ hc => by cases hc⟩
    | some p =>
      obtain ⟨rfl, hnew⟩ := hfits.resolve_left nofun
      obtain ⟨t, rfl, hent, hp, hout, hnum, hev, hdist⟩ := step_set h hs
      rw [if_pos rfl] at hout
      have hholds : t.Holds ((p, (id, ctx)) :: xs) := by
        refine ⟨hent, List.nodup_cons.2 ⟨fun hmem => hnew (h.holds.2.2.mem_iff.1 hmem), h.holds.2.1⟩, ?_⟩
        rw [hout]
        exact h.holds.2.2.cons _
      exact ⟨⟨t, _, rfl, hholds, List.nodup_cons.2 ⟨hp, h.addresses⟩, hnum, hev, hdist⟩, s, t, rfl, rfl, ⟨_, hholds⟩,
        fun _ _ hc => by cases hc⟩
  | cancel id ctx =>
    have hhead : ∀ x ∈ xs.head?, x.2 = (id, ctx) := by
      cases xs with
      | nil => nofun
      | cons x xs =>
        intro y hy
        obtain rfl := Option.some.inj hy
        obtain ⟨e, he, hek⟩ := Option.map_eq_some_iff.1 (h.holds.1.2 _ List.mem_cons_self)
        rw [← hek]
        exact hfits x.1 h.holds.1.1.1 e he
    obtain ⟨t, rfl, ht, hfilter⟩ := step_cancel h hhead hs
    refine ⟨⟨t, _, rfl, ht⟩, s, t, rfl, rfl, ⟨_, ht.holds⟩, fun id' ctx' hc zs hzs => ?_⟩
    cases hc
    rw [← h.holds.1.unique hzs, hfilter]
    exact ht.holds.1
  | execute nowTms =>
    have hcall : ∀ fuel, s.call infos fuel (.execute nowTms) = .done s := by
      intro fuel
      rw [call, hfits]
    obtain rfl := eq_of_step hs (fun fuel => hcall _) (.inl (hcall 0))
    exact ⟨⟨s, xs, rfl, h⟩, s, s, rfl, rfl, ⟨xs, h.holds⟩, fun _ _ hc => by cases hc⟩

/-- A step that does not fit is not exact. -/
theorem not_exact_of_not_fits (h : s.Inv xs) (hfits : ¬Fits (.done s) a) (hs : step infos (.done s) a o) :
    ¬Exact (.done s) a o := by
  rintro ⟨s', t', hs', rfl, ⟨ys, hys⟩, -⟩
  obtain rfl := Outcome.done.inj hs'
  cases a with
  | set id ctx ms alloc nowTms memory =>
    cases alloc with
    | none => exact hfits ⟨s, rfl, .inl rfl⟩
    | some p =>
      obtain ⟨t, ht, hent, -, hout, -⟩ := step_set h hs
      obtain rfl := Outcome.done.inj ht
      obtain rfl := hys.1.unique hent
      cases memory with
      | false =>
        -- the entry has been linked, but was not set
        have hlen := hys.2.2.length_eq
        have hlen' := h.holds.2.2.length_eq
        rw [hout] at hlen
        simp at hlen hlen'
        omega
      | true =>
        have hmem : (id, ctx) ∈ s.outstanding := by
          by_contra hnew
          exact hfits ⟨s, rfl, .inr ⟨rfl, hnew⟩⟩
        exact (List.nodup_cons.1 hys.2.1).1 (h.holds.2.2.mem_iff.2 hmem)
  | cancel id ctx =>
    -- the first entry is another one, and the search looks at it for ever
    refine hfits ⟨s, rfl, fun p hp e he => ?_⟩
    by_contra hne
    refine not_done_of_step hs (fun fuel => ?_) _ rfl
    have hp : s.timerInfoList = some p := hp
    rw [call, timerCancel, getTmrInfo, hp, lookAt_eq_outOfFuel he hne]
    rfl
  | execute nowTms =>
    cases hexp : takeExpired s.tmrHandle nowTms with
    | none => exact hfits ⟨s, rfl, hexp⟩
    | some r =>
      obtain ⟨event, handle⟩ := r
      obtain ⟨t, key, ht, hent, hkey, hout⟩ := step_execute h hexp hs
      obtain rfl := Outcome.done.inj ht
      obtain rfl := hys.1.unique hent
      have hmem := hys.2.2.mem_iff.1 hkey
      rw [hout] at hmem
      simpa using (List.mem_filter.1 hmem).2

/-- **The list of the delayed messages is exact as long as the steps fit**, and no longer: in every sequence of requests and of
expiries every step does what it has to do if and only if every step fits. -/
theorem exact_iff {tr : List (Transition (Outcome DelayedMsgs) DelayAct)} (hr : Run (step infos) (.done init) tr o) :
    Always Exact tr ↔ Meets Fits tr := by
  refine hr.all_iff (I := fun o => ∃ s xs, o = .done s ∧ s.Inv xs) ⟨init, [], rfl, inv_init⟩ ?_ ?_
  · rintro _ a o ⟨s, xs, rfl, h⟩ hfits hs
    obtain ⟨⟨t, ys, rfl, ht⟩, hexact⟩ := exact_of_fits h hfits hs
    exact ⟨⟨t, ys, rfl, ht⟩, hexact⟩
  · rintro _ a o ⟨s, xs, rfl, h⟩ hfits hs
    exact not_exact_of_not_fits h hfits hs

/-! ## Runs -/

/-- A record that delayed messages are for. -/
def waitingApp (_ : Nat) : DlsInfo := newDlsInfo ⟨1, [], 0, true⟩ 1

/-- A message for the record at address 9, set at the start of the clock for a second later, with the address of its entry. -/
def setAt (id : BitVec 32) (p : Nat) : DelayAct := .set id 9 1000 (some p) ⟨0, 0⟩ true

/-- The state after a call that ends. -/
def after (s : DelayedMsgs) (a : DelayAct) : DelayedMsgs :=
  match s.call waitingApp 1 a with
  | .done t => t
  | _ => s

/-- One message has been set. -/
def afterOne : DelayedMsgs := init.after (setAt 1 100)

theorem step_afterOne : step waitingApp (.done init) (setAt 1 100) (.done afterOne) := ⟨init, rfl, rfl, 1, rfl⟩

/-- A message is set and cancelled. -/
theorem exact_iff_cancelled :
    Always Exact [(.done init, setAt 1 100, .done afterOne), (.done afterOne, .cancel 1 9, .done (afterOne.after (.cancel 1 9)))] ↔
      Meets Fits [(.done init, setAt 1 100, .done afterOne),
        (.done afterOne, .cancel 1 9, .done (afterOne.after (.cancel 1 9)))] :=
  exact_iff (Run.snoc (Run.snoc Run.nil step_afterOne) ⟨afterOne, rfl, trivial, 1, rfl⟩)

/-- Two messages have been set. -/
def afterTwo : DelayedMsgs := afterOne.after (setAt 2 101)

theorem step_afterTwo : step waitingApp (.done afterOne) (setAt 2 101) (.done afterTwo) := ⟨afterOne, rfl, rfl, 1, rfl⟩

theorem step_cancelFirst : step waitingApp (.done afterTwo) (.cancel 1 9) .outOfFuel := by
  refine ⟨afterTwo, rfl, trivial, fun fuel => ?_⟩
  have hlist : afterTwo.timerInfoList = some 101 := rfl
  have he : afterTwo.heap 101 = some ⟨none, some 100, 2, 9⟩ := rfl
  rw [call, timerCancel, getTmrInfo, hlist, lookAt_eq_outOfFuel he (by decide)]
  rfl

theorem not_exact_of_entries {a : DelayAct} {t : DelayedMsgs} {xs : List (Nat × TimerKey)} (hent : t.Entries xs)
    (hbad : ¬((xs.map Prod.snd).Nodup ∧ (xs.map Prod.snd).length = t.outstanding.length)) :
    ¬Exact (.done s) a (.done t) := by
  rintro ⟨-, t', -, ht, ⟨ys, hys⟩, -⟩
  obtain rfl := Outcome.done.inj ht
  rw [hys.1.unique hent] at hys
  exact hbad ⟨hys.2.1, hys.2.2.length_eq⟩

/-- Two messages are set, and the first one is cancelled: the call does not end. A message is set again: the list holds it twice. A
message expires: its entry stays. -/
theorem not_exact_second :
    (∃ tr, Run (step waitingApp) (.done init) tr .outOfFuel ∧ ¬Always Exact tr) ∧
    (∃ tr t, Run (step waitingApp) (.done init) tr (.done t) ∧ ¬Always Exact tr) ∧
    ∃ tr t, Run (step waitingApp) (.done init) tr (.done t) ∧ ¬Always Exact tr := by
  refine ⟨⟨[(.done init, setAt 1 100, .done afterOne), (.done afterOne, setAt 2 101, .done afterTwo),
      (.done afterTwo, .cancel 1 9, .outOfFuel)], ?_, ?_⟩,
    ⟨[(.done init, setAt 1 100, .done afterOne), (.done afterOne, setAt 1 101, .done (afterOne.after (setAt 1 101)))],
      afterOne.after (setAt 1 101), ?_, ?_⟩,
    ⟨[(.done init, setAt 1 100, .done afterOne),
      (.done afterOne, .execute ⟨5, 0⟩, .done (afterOne.after (.execute ⟨5, 0⟩)))],
      afterOne.after (.execute ⟨5, 0⟩), ?_, ?_⟩⟩
  · exact Run.cons step_afterOne (Run.cons step_afterTwo (Run.single step_cancelFirst))
  · intro h
    obtain ⟨-, t, -, ht, -⟩ := h (.done afterTwo, .cancel 1 9, .outOfFuel) (by simp)
    cases ht
  · exact Run.cons step_afterOne (Run.single ⟨afterOne, rfl, rfl, 1, rfl⟩)
  · have hent : (afterOne.after (setAt 1 101)).Entries [(101, (1, 9)), (100, (1, 9))] := by
      refine ⟨⟨rfl, rfl, rfl⟩, fun x hx => ?_⟩
      rcases List.mem_pair.1 hx with rfl | rfl <;> rfl
    exact fun h => not_exact_of_entries hent (by decide)
      (h (.done afterOne, setAt 1 101, .done (afterOne.after (setAt 1 101))) (by simp))
  · exact Run.cons step_afterOne (Run.single ⟨afterOne, rfl, trivial, 1, rfl⟩)
  · have hent : (afterOne.after (.execute ⟨5, 0⟩)).Entries [(100, (1, 9))] := by
      refine ⟨⟨rfl, rfl⟩, fun x hx => ?_⟩
      obtain rfl := List.mem_singleton.1 hx
      rfl
    exact fun h => not_exact_of_entries hent (by decide)
      (h (.done afterOne, .execute ⟨5, 0⟩, .done (afterOne.after (.execute ⟨5, 0⟩))) (by simp))

end DelayedMsgs

end CodeFactory.Sched
