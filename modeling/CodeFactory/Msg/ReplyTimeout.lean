import CodeFactory.Msg.TcmMsg
import Mathlib.Algebra.Order.Group.Nat

/-!
# The timeout of a reply

`sendAndGetReply` with a clock: when each part of a message can be read is given, in microseconds since the call, and so is how long the
application takes to read a message and to put it back. The rounds of the loop are the ones of `Process.step`; here is what each
`oalMsg_receive` comes upon, and when.
-/

namespace CodeFactory.Msg

open Oal

/-- A part of the data of a message, that one `read` takes. -/
structure Piece where
  time : Nat
  length : Nat
  deriving DecidableEq, Repr

/-- What can be read next: the header of a message at some time, or nothing of any use, and the data behind it in pieces. -/
structure Coming where
  time : Nat
  msg : Option TcmMsg
  pieces : List Piece
  /-- From the end of the read to the next call of `oalMsg_receive`. -/
  spent : Nat
  deriving DecidableEq, Repr

/-- `waitForDataAvailable` finds data that comes at `time`; the timeout is in milliseconds. -/
def available (timeout now time : Nat) : Bool := time ≤ now + 1000 * timeout

/-- What the loop over the data of a message comes upon, and when it is over. -/
def seenData (timeout : Nat) : (remaining now : Nat) → List Piece → List BodyRead × Nat
  | 0, now, _ => ([], now)
  | _ + 1, now, [] => ([.notAvailable], now + 1000 * timeout)
  | n + 1, now, p :: ps =>
    if available timeout now p.time then
      if p.length = 0 then ([.failed], max now p.time)
      else
        let seen := seenData timeout (n + 1 - p.length) (max now p.time) ps
        (.bytes p.length :: seen.1, seen.2)
    else ([.notAvailable], now + 1000 * timeout)

/-- What a call of `oalMsg_receive` comes upon, and when it is over. There is memory for the message. -/
def Coming.seen (timeout now : Nat) (c : Coming) : Receive × Nat :=
  if available timeout now c.time then
    match c.msg with
    | none => (.failed, max now c.time)
    | some msg =>
      let seen := seenData timeout msg.data.length (max now c.time) c.pieces
      (.header msg true seen.1, seen.2)
  else (.notAvailable, now + 1000 * timeout)

/-- A call of `oalMsg_receive`: the timeout it is given, when it begins and is over, and the message that it gives. -/
structure Received where
  timeout : Nat
  start : Nat
  finish : Nat
  msg : Option TcmMsg
  deriving DecidableEq, Repr

/-- The timeout of a call that waits for its reply. -/
def Process.waits (s : Process) : Option (BitVec 32) :=
  if s.failed then none else s.call.bind fun c => if c.ended = none then c.timeout else none

/-- The calls of `oalMsg_receive` from a time on. -/
def receives : Process → (now : Nat) → List Coming → List Received
  | s, now, [] => s.waits.toList.map fun timeout => ⟨timeout.toNat, now, now + 1000 * timeout.toNat, none⟩
  | s, now, c :: cs =>
    match s.waits with
    | none => []
    | some timeout =>
      let (r, finish) := c.seen timeout.toNat now
      ⟨timeout.toNat, now, finish, (oalMsgReceive (some timeout) r).bind Prod.snd⟩ ::
        match s.step (.receive r) with
        | some t => receives t (finish + c.spent) cs
        | none => []

/-- The calls wait no longer than for what is left of the timeout, and give no message behind it. -/
def BoundsWait (timeout : Nat) (calls : List Received) : Prop :=
  (∀ r ∈ calls.tail, r.start + 1000 * r.timeout ≤ 1000 * timeout) ∧ ∀ r ∈ calls, r.msg.isSome → r.finish ≤ 1000 * timeout

/-! ## When messages come -/

/-- When the data has been read of which so much remains. -/
def readData : (remaining now : Nat) → List Piece → Nat
  | 0, now, _ => now
  | _ + 1, now, [] => now
  | n + 1, now, p :: ps => readData (n + 1 - p.length) (max now p.time) ps

/-- Every piece of the data that remains comes in a timeout of its own. -/
def DataComes (timeout : Nat) : (remaining now : Nat) → List Piece → Prop
  | 0, _, _ => True
  | _ + 1, _, [] => False
  | n + 1, now, p :: ps =>
    p.time ≤ now + 1000 * timeout ∧ p.length ≠ 0 ∧ DataComes timeout (n + 1 - p.length) (max now p.time) ps

/-- A message comes, whose header and every piece of its data can be read in a timeout of its own. -/
def Coming.Comes (timeout now : Nat) (c : Coming) : Prop :=
  c.time ≤ now + 1000 * timeout ∧ ∃ msg ∈ c.msg, DataComes timeout msg.data.length (max now c.time) c.pieces

/-- When a message has been read, for which `oalMsg_receive` is called at `now`. -/
def Coming.readAt (now : Nat) (c : Coming) : Nat := readData (c.msg.elim 0 fun msg => msg.data.length) (max now c.time) c.pieces

/-- The message has another type than the request. -/
def Coming.Other (type : BitVec 32) (c : Coming) : Prop := ∀ msg ∈ c.msg, msg.type ≠ type

/-- When the first `k` messages have been read and put back. -/
def putBackAt : (now : Nat) → List Coming → (k : Nat) → Nat
  | now, _, 0 => now
  | now, [], _ + 1 => now
  | now, c :: cs, k + 1 => putBackAt (c.readAt now + c.spent) cs k

/-- When the last part of a message can be read. -/
def Coming.arrival (c : Coming) : Nat := readData (c.msg.elim 0 fun msg => msg.data.length) c.time c.pieces

/-- What is spent on these messages. -/
def spentOn : List Coming → Nat
  | [] => 0
  | c :: cs => c.spent + spentOn cs

/-- The latest of what these messages need: each one its arrival, and what is spent on it and on those behind it. -/
def busyUntil : List Coming → Nat
  | [] => 0
  | c :: cs => max (c.arrival + spentOn (c :: cs)) (busyUntil cs)

/-- The first `k` messages are of other types, and none is a third of the timeout, a ninth, and so on, behind the ones before it. -/
def FollowClosely (type : BitVec 32) (timeout : Nat) (cs : List Coming) (k : Nat) : Prop :=
  ∀ j < k, ∃ c, cs[j]? = some c ∧ c.Other type ∧ c.Comes (timeout / 3 ^ j) (busyUntil (cs.take j))

/-- When `k` messages of other types follow closely, each arrives so early that the `3 ^ k`th part of the timeout is left behind all that
is spent from it on; and the reply that follows closely arrives within the timeout. -/
def InTime (type : BitVec 32) (timeout : Nat) (cs : List Coming) : Prop :=
  ∀ k, FollowClosely type timeout cs k →
    (∀ i c, (cs.take k)[i]? = some c → c.arrival + spentOn ((cs.take k).drop i) ≤ 1000 * (timeout - timeout / 3 ^ k)) ∧
      ∀ c, cs[k]? = some c → ¬c.Other type → c.Comes (timeout / 3 ^ k) (busyUntil (cs.take k)) → c.arrival ≤ 1000 * timeout

variable {timeout now i : Nat} {type : BitVec 32} {c : Coming} {cs : List Coming}

theorem busyUntil_le_iff {b : Nat} : busyUntil cs ≤ b ↔ ∀ i c, cs[i]? = some c → c.arrival + spentOn (cs.drop i) ≤ b := by
  induction cs with
  | nil => simp [busyUntil]
  | cons c cs ih =>
    rw [busyUntil, Nat.max_le, ih]
    constructor
    · rintro ⟨hc, hcs⟩ i c' hi
      cases i with
      | zero =>
        obtain rfl := Option.some.inj hi
        exact hc
      | succ i => exact hcs i c' hi
    · intro h
      exact ⟨h 0 c rfl, fun i c' hi => h (i + 1) c' hi⟩

/-- Nothing is read before it arrives, nor before the call. -/
theorem readData_max (n t : Nat) (ps : List Piece) : readData n (max now t) ps = max now (readData n t ps) := by
  induction ps generalizing n t with
  | nil => cases n <;> rfl
  | cons p ps ih =>
    cases n with
    | zero => rfl
    | succ n => rw [readData, readData, Nat.max_assoc, ih]

theorem Coming.readAt_eq (now : Nat) (c : Coming) : c.readAt now = max now c.arrival := readData_max _ _ _

theorem putBackAt_eq (now : Nat) (cs : List Coming) (k : Nat) :
    putBackAt now cs k = max (now + spentOn (cs.take k)) (busyUntil (cs.take k)) := by
  induction cs generalizing now k with
  | nil => cases k <;> simp [putBackAt, busyUntil, spentOn]
  | cons c cs ih =>
    cases k with
    | zero => simp [putBackAt, busyUntil, spentOn]
    | succ k =>
      have hspent : spentOn (c :: cs.take k) = c.spent + spentOn (cs.take k) := by simp [spentOn]
      rw [putBackAt, ih, c.readAt_eq, List.take_succ_cons, busyUntil, hspent]
      omega

theorem putBackAt_start (cs : List Coming) (k : Nat) : putBackAt 0 cs k = busyUntil (cs.take k) := by
  rw [putBackAt_eq, Nat.zero_add, Nat.max_eq_right]
  cases cs.take k with
  | nil => exact Nat.zero_le _
  | cons c cs => exact (Nat.le_add_left _ _).trans (Nat.le_max_left _ _)

/-- The calls that come in time, from a later round on. -/
def InTimeFrom (type : BitVec 32) (timeout i now : Nat) (cs : List Coming) : Prop :=
  ∀ k, (∀ j < k, ∃ c, cs[j]? = some c ∧ c.Other type ∧ c.Comes (timeout / 3 ^ (i + j)) (putBackAt now cs j)) →
    (0 < i + k → putBackAt now cs k + 1000 * (timeout / 3 ^ (i + k)) ≤ 1000 * timeout) ∧
      ∀ c, cs[k]? = some c → c.Comes (timeout / 3 ^ (i + k)) (putBackAt now cs k) → c.readAt (putBackAt now cs k) ≤ 1000 * timeout

theorem inTimeFrom_zero : InTimeFrom type timeout 0 0 cs ↔ InTime type timeout cs := by
  have hthird : ∀ k, timeout / 3 ^ k ≤ timeout := fun k => Nat.div_le_self _ _
  have hleft : ∀ k, busyUntil (cs.take k) + 1000 * (timeout / 3 ^ k) ≤ 1000 * timeout ↔
      busyUntil (cs.take k) ≤ 1000 * (timeout - timeout / 3 ^ k) := fun k => by have := hthird k; omega
  simp only [InTimeFrom, InTime, FollowClosely, Nat.zero_add, putBackAt_start, Coming.readAt_eq, hleft]
  constructor
  · intro h k hk
    obtain ⟨hstart, hread⟩ := h k hk
    refine ⟨?_, fun c hc _ hcomes => (Nat.le_max_right _ _).trans (hread c hc hcomes)⟩
    cases k with
    | zero => simp
    | succ k => exact busyUntil_le_iff.1 (hstart (Nat.succ_pos k))
  · intro h k hk
    obtain ⟨hstart, hreply⟩ := h k hk
    have hstart := busyUntil_le_iff.2 hstart
    have hwithin : ∀ k, 1000 * (timeout - timeout / 3 ^ k) ≤ 1000 * timeout := fun k => Nat.mul_le_mul_left _ (Nat.sub_le _ _)
    refine ⟨fun _ => hstart, fun c hc hcomes => Nat.max_le.2 ⟨hstart.trans (hwithin k), ?_⟩⟩
    by_cases hother : c.Other type
    · -- one that is put back counts for the next round
      have hnext := (h (k + 1) fun j hj => by
        rcases Nat.lt_succ_iff_lt_or_eq.1 hj with hj | rfl
        · exact hk j hj
        · exact ⟨c, hc, hother, hcomes⟩).1 k c ?_
      · exact (Nat.le_add_right _ _).trans (hnext.trans (hwithin (k + 1)))
      · rwa [List.getElem?_take_of_lt (Nat.lt_succ_self k)]
    · exact hreply c hc hother hcomes

theorem inTimeFrom_nil : InTimeFrom type timeout i now [] ↔ (0 < i → now + 1000 * (timeout / 3 ^ i) ≤ 1000 * timeout) := by
  constructor
  · intro h
    exact (h 0 fun j hj => absurd hj (Nat.not_lt_zero j)).1
  · intro h k hk
    cases k with
    | zero => exact ⟨h, fun c hc => by cases hc⟩
    | succ k =>
      obtain ⟨c, hc, -⟩ := hk 0 (Nat.succ_pos k)
      cases hc

/-- One message after the other. -/
theorem inTimeFrom_cons : InTimeFrom type timeout i now (c :: cs) ↔
    (0 < i → now + 1000 * (timeout / 3 ^ i) ≤ 1000 * timeout) ∧
      (c.Comes (timeout / 3 ^ i) now → c.readAt now ≤ 1000 * timeout ∧
        (c.Other type → InTimeFrom type timeout (i + 1) (c.readAt now + c.spent) cs)) := by
  have hround : ∀ k, i + (k + 1) = i + 1 + k := fun k => by omega
  constructor
  · intro h
    obtain ⟨hstart, hread⟩ := h 0 fun j hj => absurd hj (Nat.not_lt_zero j)
    refine ⟨hstart, fun hcomes => ⟨hread c rfl hcomes, fun hother k hk => ?_⟩⟩
    have hnext := h (k + 1) fun j hj => by
      cases j with
      | zero => exact ⟨c, rfl, hother, hcomes⟩
      | succ j =>
        rw [hround]
        exact hk j (Nat.lt_of_succ_lt_succ hj)
    rw [hround] at hnext
    exact hnext
  · rintro ⟨hstart, h⟩ k hk
    cases k with
    | zero => exact ⟨hstart, fun c' hc hcomes => by cases hc; exact (h hcomes).1⟩
    | succ k =>
      obtain ⟨c', hc, hother, hcomes⟩ := hk 0 (Nat.succ_pos k)
      cases hc
      have hnext := (h hcomes).2 hother k fun j hj => by
        rw [← hround]
        exact hk (j + 1) (Nat.succ_lt_succ hj)
      rw [← hround] at hnext
      exact hnext

/-! ## A call of `oalMsg_receive` -/

variable {n : Nat} {ps : List Piece}

theorem available_iff {time : Nat} : available timeout now time = true ↔ time ≤ now + 1000 * timeout := decide_eq_true_iff

/-- Data that comes is read. -/
theorem seenData_of_comes (h : DataComes timeout n now ps) :
    receiveData true n (seenData timeout n now ps).1 = some .success ∧ (seenData timeout n now ps).2 = readData n now ps := by
  induction ps generalizing n now with
  | nil =>
    cases n with
    | zero => exact ⟨rfl, rfl⟩
    | succ n => exact h.elim
  | cons p ps ih =>
    cases n with
    | zero => exact ⟨rfl, rfl⟩
    | succ n =>
      obtain ⟨htime, hlength, hrest⟩ := h
      obtain ⟨hread, hover⟩ := ih hrest
      rw [seenData, if_pos (available_iff.2 htime), if_neg hlength, readData]
      dsimp only
      rw [receiveData, if_neg hlength]
      exact ⟨hread, hover⟩

/-- Data that does not come in time is not read. -/
theorem seenData_of_not_comes (h : ¬DataComes timeout n now ps) :
    ∃ ret, ret ≠ .success ∧ receiveData true n (seenData timeout n now ps).1 = some ret := by
  induction ps generalizing n now with
  | nil =>
    cases n with
    | zero => exact absurd trivial h
    | succ n => exact ⟨.timedOut, nofun, rfl⟩
  | cons p ps ih =>
    cases n with
    | zero => exact absurd trivial h
    | succ n =>
      rw [seenData]
      by_cases htime : p.time ≤ now + 1000 * timeout
      · rw [if_pos (available_iff.2 htime)]
        by_cases hlength : p.length = 0
        · rw [if_pos hlength]
          exact ⟨.internalError, nofun, rfl⟩
        · obtain ⟨ret, hret, hread⟩ := ih fun hrest => h ⟨htime, hlength, hrest⟩
          rw [if_neg hlength]
          dsimp only
          rw [receiveData, if_neg hlength]
          exact ⟨ret, hret, hread⟩
      · rw [if_neg (mt available_iff.1 htime)]
        exact ⟨.timedOut, nofun, rfl⟩

/-- A message that comes is received when it has been read. -/
theorem seen_of_comes {τ : BitVec 32} (h : c.Comes timeout now) :
    ∃ msg, c.msg = some msg ∧ oalMsgReceive (some τ) (c.seen timeout now).1 = some (.success, some msg) ∧
      (c.seen timeout now).2 = c.readAt now := by
  obtain ⟨htime, msg, hmsg, hdata⟩ := h
  have hmsg : c.msg = some msg := hmsg
  obtain ⟨hread, hover⟩ := seenData_of_comes hdata
  refine ⟨msg, hmsg, ?_⟩
  rw [Coming.seen, if_pos (available_iff.2 htime), Coming.readAt, hmsg]
  dsimp only
  refine ⟨?_, hover⟩
  rw [oalMsgReceive]
  by_cases hempty : msg.data = []
  · rw [if_pos hempty]
  · rw [if_neg hempty, if_pos rfl, Option.isSome_some, hread]

/-- One that does not come in time is not received. -/
theorem seen_of_not_comes {τ : BitVec 32} (h : ¬c.Comes timeout now) :
    ∃ ret, oalMsgReceive (some τ) (c.seen timeout now).1 = some (ret, none) := by
  unfold Coming.seen
  by_cases htime : c.time ≤ now + 1000 * timeout
  · rw [if_pos (available_iff.2 htime)]
    cases hmsg : c.msg with
    | none => exact ⟨_, rfl⟩
    | some msg =>
      have hdata : ¬DataComes timeout msg.data.length (max now c.time) c.pieces := fun hdata => h ⟨htime, msg, hmsg, hdata⟩
      obtain ⟨ret, hret, hread⟩ := seenData_of_not_comes hdata
      have hempty : msg.data ≠ [] := by
        intro hempty
        rw [hempty, List.length_nil, DataComes] at hdata
        exact hdata trivial
      refine ⟨ret, ?_⟩
      dsimp only
      rw [oalMsgReceive, if_neg hempty, if_pos rfl, Option.isSome_some, hread]
      cases ret <;> first | rfl | exact absurd rfl hret
  · rw [if_neg (mt available_iff.1 htime)]
    exact ⟨_, rfl⟩

/-! ## The loop -/

variable {s s' : Process} {τ : BitVec 32} {r : Receive} {msg : TcmMsg}

/-- `sendAndGetReply` waits for a reply of this type. -/
def Waiting (s : Process) (type τ : BitVec 32) : Prop :=
  s.failed = false ∧ ∃ number, s.call = some ⟨number, type, some τ, none, none⟩

theorem Waiting.waits (h : Waiting s type τ) : s.waits = some τ := by
  obtain ⟨hfailed, number, hcall⟩ := h
  rw [Process.waits, hfailed, hcall]
  rfl

theorem Waiting.step {result : TcmRet × Option TcmMsg} (h : Waiting s type τ) (hr : oalMsgReceive (some τ) r = some result) :
    ∃ number, s.step (.receive r) = some ((s.note ⟨number, type, some τ, none, none⟩ r.arrived).afterReceive
      ⟨number, type, some τ, none, none⟩ result) := by
  obtain ⟨hfailed, number, hcall⟩ := h
  refine ⟨number, ?_⟩
  simp only [Process.step, hcall, hfailed, hr]

/-- A message of another type is put back, and a third of the timeout is left. -/
theorem step_of_other (h : Waiting s type τ) (hr : oalMsgReceive (some τ) r = some (.success, some msg)) (hmsg : msg.type ≠ type) :
    ∃ s', s.step (.receive r) = some s' ∧ Waiting s' type (τ / 3) := by
  obtain ⟨number, hstep⟩ := h.step hr
  refine ⟨_, hstep, ?_⟩
  rw [Process.afterReceive, if_neg hmsg]
  exact ⟨h.1, number, rfl⟩

theorem step_of_reply (h : Waiting s type τ) (hr : oalMsgReceive (some τ) r = some (.success, some msg)) (hmsg : msg.type = type) :
    ∃ s', s.step (.receive r) = some s' ∧ s'.waits = none := by
  obtain ⟨number, hstep⟩ := h.step hr
  refine ⟨_, hstep, ?_⟩
  rw [Process.afterReceive, if_pos hmsg]
  simp [Process.takeReply, Process.waits]

theorem step_of_error {ret : TcmRet} (h : Waiting s type τ) (hr : oalMsgReceive (some τ) r = some (ret, none)) :
    ∃ s', s.step (.receive r) = some s' ∧ s'.waits = none := by
  obtain ⟨number, hstep⟩ := h.step hr
  refine ⟨_, hstep, ?_⟩
  cases ret <;> simp [Process.afterReceive, Process.waits]

theorem receives_of_ended (h : s.waits = none) (now : Nat) (cs : List Coming) : receives s now cs = [] := by
  cases cs with
  | nil => rw [receives, h]; rfl
  | cons c cs => rw [receives, h]

/-- What every call keeps to. -/
def Within (timeout : Nat) (calls : List Received) : Prop :=
  ∀ r ∈ calls, r.start + 1000 * r.timeout ≤ 1000 * timeout ∧ (r.msg.isSome → r.finish ≤ 1000 * timeout)

theorem boundsWait_cons {r : Received} {calls : List Received} :
    BoundsWait timeout (r :: calls) ↔ (r.msg.isSome → r.finish ≤ 1000 * timeout) ∧ Within timeout calls := by
  rw [BoundsWait, List.tail_cons, List.forall_mem_cons, Within]
  constructor
  · rintro ⟨hstart, hover, htaken⟩
    exact ⟨hover, fun r hr => ⟨hstart r hr, htaken r hr⟩⟩
  · rintro ⟨hover, h⟩
    exact ⟨fun r hr => (h r hr).1, hover, fun r hr => (h r hr).2⟩

/-- A round of the loop: a message of another type comes in time and the loop goes on, or the reply comes, or nothing in time. -/
theorem receives_cons (h : Waiting s type τ) :
    (c.Comes τ.toNat now ∧ c.Other type ∧ ∃ msg s', Waiting s' type (τ / 3) ∧
        receives s now (c :: cs) = ⟨τ.toNat, now, c.readAt now, some msg⟩ :: receives s' (c.readAt now + c.spent) cs) ∨
      (c.Comes τ.toNat now ∧ ¬c.Other type ∧ ∃ msg, receives s now (c :: cs) = [⟨τ.toNat, now, c.readAt now, some msg⟩]) ∨
      (¬c.Comes τ.toNat now ∧ ∃ finish, receives s now (c :: cs) = [⟨τ.toNat, now, finish, none⟩]) := by
  rw [receives, h.waits]
  dsimp only
  by_cases hcomes : c.Comes τ.toNat now
  · obtain ⟨msg, hmsg, hr, hover⟩ := @seen_of_comes _ _ _ τ hcomes
    rw [hr, hover, Option.bind_some]
    by_cases htype : msg.type = type
    · obtain ⟨s', hstep, hended⟩ := step_of_reply h hr htype
      refine .inr (.inl ⟨hcomes, fun hother => hother msg hmsg htype, msg, ?_⟩)
      rw [hstep]
      dsimp only
      rw [receives_of_ended hended]
    · obtain ⟨s', hstep, hwaiting⟩ := step_of_other h hr htype
      refine .inl ⟨hcomes, ?_, msg, s', hwaiting, ?_⟩
      · intro msg' hmsg'
        obtain rfl := Option.some.inj (hmsg.symm.trans hmsg')
        exact htype
      · rw [hstep]
  · obtain ⟨ret, hr⟩ := @seen_of_not_comes _ _ _ τ hcomes
    obtain ⟨s', hstep, hended⟩ := step_of_error h hr
    refine .inr (.inr ⟨hcomes, (c.seen τ.toNat now).2, ?_⟩)
    rw [hr, hstep, Option.bind_some]
    dsimp only
    rw [receives_of_ended hended]

/-- From the second round on. -/
theorem within_receives_iff (h : Waiting s type τ) (hi : 0 < i) (hτ : τ.toNat = timeout / 3 ^ i) :
    Within timeout (receives s now cs) ↔ InTimeFrom type timeout i now cs := by
  induction cs generalizing s now i τ with
  | nil =>
    rw [inTimeFrom_nil, receives, h.waits]
    simp [Within, hi, hτ]
  | cons c cs ih =>
    rw [inTimeFrom_cons, ← hτ]
    rcases @receives_cons now type c cs s τ h with ⟨hcomes, hother, msg, s', hs', hrun⟩ | ⟨hcomes, hother, msg, hrun⟩ | ⟨hcomes, finish, hrun⟩
    · have hthird : (τ / 3).toNat = timeout / 3 ^ (i + 1) := by
        rw [BitVec.toNat_udiv, hτ, Nat.pow_succ, ← Nat.div_div_eq_div_mul]
        rfl
      have hrest := @ih (c.readAt now + c.spent) (i + 1) s' (τ / 3) hs' (Nat.succ_pos i) hthird
      rw [hrun, ← hrest]
      simp only [Within, List.forall_mem_cons, hi, hcomes, hother, true_implies, Option.isSome_some, and_assoc]
    · rw [hrun]
      simp [Within, hi, hcomes, hother]
    · rw [hrun]
      simp [Within, hi, hcomes]

theorem waiting_of_sent {t : Process} (h : s.step (.sendAndGetReply type (some τ) none .full) = some t) : Waiting t type τ := by
  simp only [Process.step] at h
  split at h
  next hcall hfailed =>
    have hsent : oalMsgSend .full = .success := rfl
    rw [if_pos hsent] at h
    cases h
    exact ⟨hfailed, s.numCalls, rfl⟩
  next => cases h

/-- **The timeout bounds the waiting** for a reply if and only if the messages of other types that follow closely arrive early enough. -/
theorem boundsWait_iff {t : Process} (h : s.step (.sendAndGetReply type (some τ) none .full) = some t) (cs : List Coming) :
    BoundsWait τ.toNat (receives t 0 cs) ↔ InTime type τ.toNat cs := by
  have hwaiting := waiting_of_sent h
  rw [← inTimeFrom_zero]
  cases cs with
  | nil =>
    rw [inTimeFrom_nil, receives, hwaiting.waits]
    simp [BoundsWait]
  | cons c cs =>
    rw [inTimeFrom_cons, Nat.pow_zero, Nat.div_one]
    rcases @receives_cons 0 type c cs t τ hwaiting with ⟨hcomes, hother, msg, s', hs', hrun⟩ | ⟨hcomes, hother, msg, hrun⟩ | ⟨hcomes, finish, hrun⟩
    · have hthird : (τ / 3).toNat = τ.toNat / 3 ^ 1 := BitVec.toNat_udiv
      rw [hrun, boundsWait_cons, within_receives_iff hs' Nat.one_pos hthird]
      simp [hcomes, hother]
    · rw [hrun, boundsWait_cons]
      simp [Within, hcomes, hother]
    · rw [hrun, boundsWait_cons]
      simp [Within, hcomes]

/-- A message of the type 2, without data, that can be read at some time. -/
def event (time spent : Nat) : Coming := ⟨time, some { emptyMsgHeader with type := 2 }, [], spent⟩

/-- A request of the type 1 with nine milliseconds: an event after two, and one after seven. -/
theorem boundsWait_iff_event :
    ∃ t, Process.init.step (.sendAndGetReply 1 (some 9) none .full) = some t ∧
      (BoundsWait (9 : BitVec 32).toNat (receives t 0 [event 2000 500, event 7000 0]) ↔
        InTime 1 (9 : BitVec 32).toNat [event 2000 500, event 7000 0]) ∧
      BoundsWait (9 : BitVec 32).toNat (receives t 0 [event 2000 500, event 7000 0]) :=
  ⟨_, rfl, boundsWait_iff (s := Process.init) rfl _, by unfold BoundsWait; decide⟩

/-- An event at the end of the three milliseconds, and one that is taken behind it. -/
theorem not_boundsWait : ¬∀ (s t : Process) (type τ : BitVec 32) (cs : List Coming),
    s.step (.sendAndGetReply type (some τ) none .full) = some t → BoundsWait τ.toNat (receives t 0 cs) := by
  intro h
  have hbounds := (h Process.init _ 1 3 [event 3000 0, event 4000 0] rfl).1 ⟨1, 3000, 4000, some { emptyMsgHeader with type := 2 }⟩ (by decide)
  revert hbounds
  decide

end CodeFactory.Msg
