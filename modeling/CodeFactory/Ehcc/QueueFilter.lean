import CodeFactory.Lib.Outcome
import CodeFactory.Lib.SList

/-!
# Deleting messages of a queue

`deleteEhMsgFromQueueByType`, `deleteEhMsgFromQueueByFd` and `deleteEhTransMsgByFd`, on queues of entries in memory. The logs are those
the programs are built with: the counting in their arguments is done.
-/

namespace CodeFactory.Ehcc

open Outcome

universe u v

/-- `homeMsgCtrlBlock`, as far as it is looked at. -/
structure MsgEntry where
  eventType : UInt16
  connfd : Int
  deriving DecidableEq, Repr

/-- `EhTransMsgMap`, as far as it is looked at. -/
structure TransMsgEntry where
  connfd : Int
  deriving DecidableEq, Repr

/-- The entries in memory: what they hold, what they point to, and which have not been freed. -/
structure EntryMemory (π : Type u) (ε : Type v) where
  entry : π → ε
  next : π → Option π
  live : π → Bool

namespace EntryMemory

variable {π : Type u} {ε : Type v} [DecidableEq π]

def read (m : EntryMemory π ε) (p : π) : Outcome ε := if m.live p then done (m.entry p) else undefined

/-- Follow the pointer of an entry. -/
def readNext (m : EntryMemory π ε) (p : π) : Outcome (Option π) := if m.live p then done (m.next p) else undefined

/-- Write the pointer of an entry. -/
def writeNext (m : EntryMemory π ε) (p : π) (q : Option π) : Outcome (EntryMemory π ε) :=
  if m.live p then done { m with next := Function.update m.next p q } else undefined

def freeDevice (m : EntryMemory π ε) (p : π) : Outcome (EntryMemory π ε) :=
  if m.live p then done { m with live := Function.update m.live p false } else undefined

/-- The loop over the entries at the front: `matched` is what is looked for, and `again` what is counted besides the log. -/
def deleteFront (matched : ε → Bool) (again : Option π → Int) :
    (fuel : Nat) → EntryMemory π ε → (msgQueueQ : Option π) → (sum : Int) → Outcome (EntryMemory π ε × Option π × Int)
  | 0, _, _, _ => outOfFuel
  | _ + 1, m, none, sum => done (m, none, sum)
  | fuel + 1, m, some q, sum =>
    (m.read q).bind fun e =>
      if matched e then
        (m.readNext q).bind fun msgQueue => (m.freeDevice q).bind fun m =>
          deleteFront matched again fuel m msgQueue (sum + 1 + again msgQueue)
      else done (m, some q, sum)

/-- The loop over the entries behind. The entry that was looked at becomes `msgQueueP`, also when it has been freed. -/
def deleteBehind (matched : ε → Bool) :
    (fuel : Nat) → EntryMemory π ε → (msgQueueP msgQueueQ : Option π) → (sum : Int) → Outcome (EntryMemory π ε × Int)
  | 0, _, _, _, _ => outOfFuel
  | _ + 1, m, _, none, sum => done (m, sum)
  | fuel + 1, m, p, some q, sum =>
    (m.read q).bind fun e =>
      if matched e then
        (m.readNext q).bind fun next => (follow p).bind fun p => (m.writeNext p next).bind fun m => (m.freeDevice q).bind fun m =>
          (m.readNext q).bind fun next => deleteBehind matched fuel m (some q) next (sum + 1)
      else (m.readNext q).bind fun next => deleteBehind matched fuel m (some q) next sum

/-- Both loops: the memory, the queue and the number that is returned. -/
def deleteMatching (matched : ε → Bool) (again : Option π → Int) (fuel : Nat) (m : EntryMemory π ε) (msgQueue : Option π) :
    Outcome (EntryMemory π ε × Option π × Int) :=
  (m.deleteFront matched again fuel msgQueue 0).bind fun (m, msgQueue, sum) =>
    (m.deleteBehind matched fuel msgQueue msgQueue sum).map fun (m, sum) => (m, msgQueue, sum)

end EntryMemory

section Functions

variable {π : Type u} [DecidableEq π]

/-- `deleteEhMsgFromQueueByType`. `checkHomeMsgType` accepts every type. -/
def deleteEhMsgFromQueueByType (fuel : Nat) (m : EntryMemory π MsgEntry) (msgQueue : Option π) (msgType : UInt16) :
    Outcome (EntryMemory π MsgEntry × Option π × Int) :=
  m.deleteMatching (fun e => e.eventType = msgType) (fun next => if next.isNone then 0 else 1) fuel msgQueue

def deleteEhMsgFromQueueByFd (fuel : Nat) (m : EntryMemory π MsgEntry) (msgQueue : Option π) (fd : Int) :
    Outcome (EntryMemory π MsgEntry × Option π × Int) :=
  if fd ≤ 0 then done (m, msgQueue, -1) else m.deleteMatching (fun e => e.connfd = fd) (fun _ => 1) fuel msgQueue

def deleteEhTransMsgByFd (fuel : Nat) (m : EntryMemory π TransMsgEntry) (msgQueue : Option π) (fd : Int) :
    Outcome (EntryMemory π TransMsgEntry × Option π × Int) :=
  if fd ≤ 0 then done (m, msgQueue, -1) else m.deleteMatching (fun e => e.connfd = fd) (fun _ => 1) fuel msgQueue

end Functions

variable {π : Type u} {ε : Type v} {m : EntryMemory π ε} {p q : Option π} {x : π} {xs ms rest : List π}

namespace EntryMemory

/-- The entries of a queue, in their order; none of them has been freed. -/
structure HasQueue (m : EntryMemory π ε) (msgQueue : Option π) (xs : List π) : Prop where
  chain : ChainFrom m.next msgQueue xs
  nodup : xs.Nodup
  live : ∀ x ∈ xs, m.live x = true

end EntryMemory

/-- A call that ends leaves just the entries that do not match, as they were and in their order, and returns how many have gone. -/
def Filters (matched : ε → Bool) (m : EntryMemory π ε) (xs : List π)
    (call : (fuel : Nat) → Outcome (EntryMemory π ε × Option π × Int)) : Prop :=
  ∃ (fuel : Nat) (left : EntryMemory π ε) (msgQueue : Option π) (sum : Nat), call fuel = done (left, msgQueue, (sum : Int)) ∧
    sum = xs.countP (fun x => matched (m.entry x)) ∧
    left.HasQueue msgQueue (xs.filter fun x => !matched (m.entry x)) ∧ left.entry = m.entry

namespace EntryMemory

theorem HasQueue.head (h : m.HasQueue p xs) : p = xs.head? := by
  cases xs with
  | nil => exact h.chain
  | cons x xs => exact h.chain.1

theorem HasQueue.next (h : m.HasQueue p (x :: xs)) : m.next x = xs.head? := by
  cases xs with
  | nil => exact h.chain.2
  | cons y xs => exact h.chain.2.1

variable [DecidableEq π] {matched : ε → Bool} {again : Option π → Int} {sum : Int}

/-- The others stay when the first entry is freed. -/
theorem HasQueue.tail (h : m.HasQueue p (x :: xs)) :
    ({ m with live := Function.update m.live x false } : EntryMemory π ε).HasQueue xs.head? xs where
  chain := by
    have hnext := h.next
    have hrest := h.chain.2
    rwa [hnext] at hrest
  nodup := (List.nodup_cons.1 h.nodup).2
  live y hy := by
    have hne : y ≠ x := by
      rintro rfl
      exact (List.nodup_cons.1 h.nodup).1 hy
    change Function.update m.live x false y = true
    rw [Function.update_of_ne hne]
    exact h.live y (List.mem_cons_of_mem _ hy)

/-! ## The entries at the front -/

/-- Free entries. -/
def freeAll (m : EntryMemory π ε) (ms : List π) : EntryMemory π ε := { m with live := fun p => m.live p && !decide (p ∈ ms) }

@[simp] theorem freeAll_nil (m : EntryMemory π ε) : m.freeAll [] = m := by
  simp [freeAll]

theorem freeAll_cons (m : EntryMemory π ε) (x : π) (ms : List π) :
    ({ m with live := Function.update m.live x false } : EntryMemory π ε).freeAll ms = m.freeAll (x :: ms) := by
  have hlive : (fun p => Function.update m.live x false p && !decide (p ∈ ms)) = fun p => m.live p && !decide (p ∈ x :: ms) := by
    funext p
    by_cases hp : p = x
    · subst hp
      simp
    · simp [hp]
  exact congrArg (fun live => ({ m with live := live } : EntryMemory π ε)) hlive

/-- What is counted for entries at the front: two for each, but for the last of the queue. -/
def frontSum (again : Option π → Int) (ms rest : List π) : Int :=
  if ms ≠ [] ∧ rest = [] then 2 * ms.length - 1 + again none else 2 * ms.length

omit [DecidableEq π] in
theorem frontSum_cons (hagain : ∀ y, again (some y) = 1) (x : π) (ms rest : List π) :
    frontSum again (x :: ms) rest = 1 + again (ms ++ rest).head? + frontSum again ms rest := by
  cases ms with
  | nil =>
    cases rest with
    | nil => simp [frontSum]
    | cons y rest => simp [frontSum, hagain]
  | cons y ms =>
    cases rest with
    | nil =>
      simp [frontSum, hagain]
      omega
    | cons z rest =>
      simp [frontSum, hagain]
      omega

/-- The entries at the front that match are freed. -/
theorem deleteFront_eq (hagain : ∀ y, again (some y) = 1) (hq : m.HasQueue p (ms ++ rest)) (hms : ∀ x ∈ ms, matched (m.entry x) = true)
    (hrest : ∀ x, rest.head? = some x → matched (m.entry x) = false) (fuel : Nat) :
    m.deleteFront matched again fuel p sum =
      if ms.length < fuel then done (m.freeAll ms, rest.head?, sum + frontSum again ms rest) else outOfFuel := by
  induction ms generalizing m p sum fuel with
  | nil =>
    cases fuel with
    | zero => rfl
    | succ fuel =>
      rw [if_pos (by simp), hq.head, List.nil_append, freeAll_nil]
      have hsum : sum + frontSum again [] rest = sum := by simp [frontSum]
      rw [hsum]
      cases rest with
      | nil => rfl
      | cons y rest =>
        rw [List.head?_cons, deleteFront, read, if_pos (hq.live y List.mem_cons_self), bind_done, hrest y rfl, if_neg Bool.false_ne_true]
  | cons x ms ih =>
    cases fuel with
    | zero => rfl
    | succ fuel =>
      have hlive : m.live x = true := hq.live x List.mem_cons_self
      obtain ⟨hx, hms⟩ := List.forall_mem_cons.1 hms
      rw [hq.head, List.cons_append, List.head?_cons, deleteFront, read, if_pos hlive, bind_done, if_pos hx, readNext, if_pos hlive, bind_done,
        freeDevice, if_pos hlive, bind_done, hq.next, ih hq.tail hms hrest, freeAll_cons, frontSum_cons hagain]
      simp only [List.length_cons, Nat.add_lt_add_iff_right, List.append_eq, Int.add_assoc]

/-! ## The entries behind -/

/-- Nothing happens to entries that do not match. -/
theorem deleteBehind_of_not_matched (hq : m.HasQueue p xs) (hxs : ∀ x ∈ xs, matched (m.entry x) = false) (msgQueueP : Option π) (fuel : Nat) :
    m.deleteBehind matched fuel msgQueueP p sum = if xs.length < fuel then done (m, sum) else outOfFuel := by
  induction xs generalizing p msgQueueP fuel with
  | nil =>
    cases fuel with
    | zero => rfl
    | succ fuel =>
      rw [hq.head, if_pos (by simp)]
      rfl
  | cons x xs ih =>
    cases fuel with
    | zero => rfl
    | succ fuel =>
      have hlive : m.live x = true := hq.live x List.mem_cons_self
      obtain ⟨hx, hxs⟩ := List.forall_mem_cons.1 hxs
      have hrest : m.HasQueue (m.next x) xs :=
        ⟨hq.chain.2, (List.nodup_cons.1 hq.nodup).2, fun y hy => hq.live y (List.mem_cons_of_mem _ hy)⟩
      rw [hq.head, List.head?_cons, deleteBehind, read, if_pos hlive, bind_done, hx, if_neg Bool.false_ne_true, readNext, if_pos hlive, bind_done,
        ih hrest hxs]
      simp only [List.length_cons, Nat.add_lt_add_iff_right]

/-- Behind an entry that matches, the pointer of the freed entry is followed. -/
theorem deleteBehind_of_matched (hq : m.HasQueue p xs) (hmatched : ∃ x ∈ xs, matched (m.entry x) = true) {y : π} (hy : m.live y = true)
    (fuel : Nat) (a : EntryMemory π ε × Int) : m.deleteBehind matched fuel (some y) p sum ≠ done a := by
  induction xs generalizing p y fuel with
  | nil =>
    obtain ⟨x, hx, -⟩ := hmatched
    cases hx
  | cons x xs ih =>
    cases fuel with
    | zero =>
      intro h
      cases h
    | succ fuel =>
      have hlive : m.live x = true := hq.live x List.mem_cons_self
      rw [hq.head, List.head?_cons, deleteBehind, read, if_pos hlive, bind_done]
      split
      · rw [readNext, if_pos hlive, bind_done, follow, bind_done, writeNext, if_pos hy, bind_done, freeDevice, if_pos hlive, bind_done,
          readNext, if_neg (by simp), bind_undefined]
        intro h
        cases h
      · rename_i hx
        have hrest : m.HasQueue (m.next x) xs :=
          ⟨hq.chain.2, (List.nodup_cons.1 hq.nodup).2, fun y hy => hq.live y (List.mem_cons_of_mem _ hy)⟩
        obtain ⟨z, hz, hzmatched⟩ := hmatched
        rw [readNext, if_pos hlive, bind_done]
        rcases List.mem_cons.1 hz with rfl | hz
        · exact absurd hzmatched hx
        · exact ih hrest ⟨z, hz, hzmatched⟩ hlive fuel

/-! ## Both loops -/

theorem HasQueue.behind (h : m.HasQueue p (ms ++ rest)) : (m.freeAll ms).HasQueue rest.head? rest := by
  induction ms generalizing m p with
  | nil =>
    rw [freeAll_nil]
    have hhead : p = rest.head? := h.head
    rwa [hhead] at h
  | cons x ms ih =>
    have htail := ih h.tail
    rwa [freeAll_cons] at htail

/-- Both loops, when no entry behind the front matches. -/
theorem deleteMatching_eq (hagain : ∀ y, again (some y) = 1) (hq : m.HasQueue p (ms ++ rest)) (hms : ∀ x ∈ ms, matched (m.entry x) = true)
    (hrest : ∀ x ∈ rest, matched (m.entry x) = false) (fuel : Nat) :
    m.deleteMatching matched again fuel p =
      if ms.length < fuel ∧ rest.length < fuel then done (m.freeAll ms, rest.head?, frontSum again ms rest) else outOfFuel := by
  have hhead : ∀ x, rest.head? = some x → matched (m.entry x) = false := fun x hx => hrest x (List.mem_of_head? hx)
  rw [deleteMatching, deleteFront_eq hagain hq hms hhead]
  by_cases hfront : ms.length < fuel
  · rw [if_pos hfront, bind_done]
    dsimp only
    rw [deleteBehind_of_not_matched hq.behind hrest, Int.zero_add]
    by_cases hbehind : rest.length < fuel
    · rw [if_pos hbehind, if_pos ⟨hfront, hbehind⟩]
      rfl
    · rw [if_neg hbehind, if_neg fun h => hbehind h.2]
      rfl
  · rw [if_neg hfront, if_neg fun h => hfront h.1]
    rfl

/-- Both loops filter a queue if and only if no entry matches, or the only one does and is counted once. -/
theorem filters_deleteMatching_iff (hagain : ∀ y, again (some y) = 1) (hnone : 0 ≤ again none) (hq : m.HasQueue p xs) :
    Filters matched m xs (fun fuel => m.deleteMatching matched again fuel p) ↔
      (∀ x ∈ xs, matched (m.entry x) = false) ∨ again none = 0 ∧ ∃ x, xs = [x] ∧ matched (m.entry x) = true := by
  constructor
  · rintro ⟨fuel, left, msgQueue, sum, hcall, hsum, -, -⟩
    dsimp only at hcall
    obtain ⟨ms, rest, hxs, hms, hhead⟩ : ∃ ms rest, xs = ms ++ rest ∧ (∀ x ∈ ms, matched (m.entry x) = true) ∧
        ∀ x, rest.head? = some x → matched (m.entry x) = false := by
      refine ⟨xs.takeWhile fun x => matched (m.entry x), xs.dropWhile fun x => matched (m.entry x), List.takeWhile_append_dropWhile.symm,
        fun x hx => ?_, fun x hx => ?_⟩
      · have hall := List.all_takeWhile (l := xs) (p := fun x => matched (m.entry x))
        exact List.all_eq_true.1 hall x hx
      · have hhead := List.head?_dropWhile_not (fun x => matched (m.entry x)) xs
        rw [hx] at hhead
        simpa using hhead
    subst hxs
    by_cases hrest : ∀ x ∈ rest, matched (m.entry x) = false
    · rw [deleteMatching_eq hagain hq hms hrest] at hcall
      split at hcall
      · obtain ⟨-, -, hfront⟩ : m.freeAll ms = left ∧ rest.head? = msgQueue ∧ frontSum again ms rest = sum := by simpa using hcall
        have hcount : (ms ++ rest).countP (fun x => matched (m.entry x)) = ms.length := by
          rw [List.countP_append, List.countP_eq_length.2 hms, List.countP_eq_zero.2 fun x hx => by simp [hrest x hx], Nat.add_zero]
        rw [hcount] at hsum
        rw [hsum, frontSum] at hfront
        cases ms with
        | nil => exact .inl hrest
        | cons x ms =>
          rw [List.length_cons] at hfront
          split at hfront
          · rename_i hlast
            obtain rfl : ms = [] := List.length_eq_zero_iff.1 (by omega)
            refine .inr ⟨?_, x, ?_, hms x List.mem_cons_self⟩
            · simp only [List.length_nil] at hfront
              omega
            · rw [hlast.2, List.append_nil]
          · omega
      · cases hcall
    · have hmatched : ∃ x ∈ rest, matched (m.entry x) = true := by
        by_contra hnot
        exact hrest fun x hx => Bool.eq_false_iff.2 fun htrue => hnot ⟨x, hx, htrue⟩
      rw [deleteMatching, deleteFront_eq hagain hq hms hhead] at hcall
      split at hcall
      · rw [bind_done] at hcall
        obtain ⟨a, ha, -⟩ := map_eq_done.1 hcall
        cases rest with
        | nil =>
          obtain ⟨x, hx, -⟩ := hmatched
          cases hx
        | cons y rest => exact absurd ha (deleteBehind_of_matched hq.behind hmatched (hq.behind.live y List.mem_cons_self) fuel a)
      · cases hcall
  · rintro (hxs | ⟨hzero, x, rfl, hx⟩)
    · have hrun : m.deleteMatching matched again (xs.length + 1) p = done (m, xs.head?, 0) := by
        have hq' : m.HasQueue p ([] ++ xs) := hq
        rw [deleteMatching_eq hagain hq' (fun _ hx => absurd hx List.not_mem_nil) hxs, if_pos (by simp), freeAll_nil]
        simp [frontSum]
      refine ⟨xs.length + 1, m, xs.head?, 0, hrun, ?_, ?_, rfl⟩
      · rw [List.countP_eq_zero.2 fun x hx => by simp [hxs x hx]]
      · rw [List.filter_eq_self.2 fun x hx => by simp [hxs x hx]]
        have hhead := hq.head
        rwa [hhead] at hq
    · have hrun : m.deleteMatching matched again 2 p = done (m.freeAll [x], none, 1) := by
        have hq' : m.HasQueue p ([x] ++ []) := hq
        rw [deleteMatching_eq hagain hq' (List.forall_mem_singleton.2 hx) (fun _ hx => absurd hx List.not_mem_nil), if_pos (by simp)]
        simp [frontSum, hzero]
      refine ⟨2, m.freeAll [x], none, 1, hrun, ?_, ?_, rfl⟩
      · simp [hx]
      · rw [List.filter_cons_of_neg (by simp [hx])]
        exact ⟨rfl, List.nodup_nil, fun _ hx => absurd hx List.not_mem_nil⟩

end EntryMemory

/-! ## The three functions -/

variable [DecidableEq π]

/-- A function that looks for a descriptor counts each entry at the front twice. -/
theorem filters_byFd_iff (connfd : ε → Int) (hq : m.HasQueue p xs) (fd : Int) :
    Filters (fun e => decide (connfd e = fd)) m xs
        (fun fuel => if fd ≤ 0 then done (m, p, -1) else m.deleteMatching (fun e => decide (connfd e = fd)) (fun _ => 1) fuel p) ↔
      0 < fd ∧ ∀ x ∈ xs, connfd (m.entry x) ≠ fd := by
  by_cases hfd : fd ≤ 0
  · simp only [if_pos hfd]
    refine iff_of_false ?_ fun h => Int.not_lt.2 hfd h.1
    rintro ⟨fuel, left, msgQueue, sum, hcall, -⟩
    injection hcall with hcall
    injection hcall with _ hcall
    injection hcall with _ hsum
    omega
  · simp only [if_neg hfd]
    rw [EntryMemory.filters_deleteMatching_iff (fun _ => rfl) (by decide) hq]
    simp only [decide_eq_false_iff_not, ne_eq, Int.reduceEq, false_and, or_false]
    exact (and_iff_right (Int.not_le.1 hfd)).symm

/-- **Queues are filtered** by type if and only if no entry matches, or the only entry of the queue; and by descriptor if and only if it is
positive and no entry matches. -/
theorem filters_iff (m : EntryMemory π MsgEntry) (msgQueue : Option π) (xs : List π) (hq : m.HasQueue msgQueue xs)
    (t : EntryMemory π TransMsgEntry) (transQueue : Option π) (ys : List π) (ht : t.HasQueue transQueue ys) (msgType : UInt16) (fd : Int) :
    (Filters (fun e => e.eventType = msgType) m xs (fun fuel => deleteEhMsgFromQueueByType fuel m msgQueue msgType) ↔
      (∀ x ∈ xs, (m.entry x).eventType ≠ msgType) ∨ ∃ x, xs = [x] ∧ (m.entry x).eventType = msgType) ∧
    (Filters (fun e => e.connfd = fd) m xs (fun fuel => deleteEhMsgFromQueueByFd fuel m msgQueue fd) ↔
      0 < fd ∧ ∀ x ∈ xs, (m.entry x).connfd ≠ fd) ∧
    (Filters (fun e => e.connfd = fd) t ys (fun fuel => deleteEhTransMsgByFd fuel t transQueue fd) ↔
      0 < fd ∧ ∀ y ∈ ys, (t.entry y).connfd ≠ fd) := by
  refine ⟨?_, filters_byFd_iff MsgEntry.connfd hq fd, filters_byFd_iff TransMsgEntry.connfd ht fd⟩
  have htype := @EntryMemory.filters_deleteMatching_iff _ _ m msgQueue xs _ (fun e : MsgEntry => decide (e.eventType = msgType))
    (fun next => if next.isNone then 0 else 1) (fun _ => rfl) (Int.le_refl 0) hq
  simp only [decide_eq_false_iff_not, decide_eq_true_eq, Option.isNone_none, if_true, true_and] at htype
  exact htype

/-- A queue of one message. -/
def oneMsg : EntryMemory Unit MsgEntry := ⟨fun _ => ⟨7, 3⟩, fun _ => none, fun _ => true⟩

/-- A queue of two entries, the one at `true` in front. -/
def twoEntries {ε : Type} (front behind : ε) : EntryMemory Bool ε :=
  ⟨fun x => if x then front else behind, fun x => if x then some false else none, fun _ => true⟩

theorem hasQueue_oneMsg : oneMsg.HasQueue (some ()) [()] := ⟨⟨rfl, rfl⟩, by decide, fun _ _ => rfl⟩

theorem hasQueue_back {ε : Type} (front behind : ε) : (twoEntries front behind).HasQueue (some false) [false] :=
  ⟨⟨rfl, rfl⟩, by decide, fun _ _ => rfl⟩

theorem hasQueue_twoEntries {ε : Type} (front behind : ε) : (twoEntries front behind).HasQueue (some true) [true, false] :=
  ⟨⟨rfl, rfl, rfl⟩, by decide, fun _ _ => rfl⟩

/-- The type of the only message; and a descriptor of none of two messages, and of none of two that are passed on. -/
theorem filters_one : Filters (fun e => e.eventType = 7) (twoEntries ⟨8, 5⟩ ⟨7, 3⟩) [false]
      (fun fuel => deleteEhMsgFromQueueByType fuel (twoEntries ⟨8, 5⟩ ⟨7, 3⟩) (some false) 7) ∧
    Filters (fun e => e.connfd = 4) (twoEntries ⟨7, 3⟩ ⟨8, 5⟩) [true, false]
      (fun fuel => deleteEhMsgFromQueueByFd fuel (twoEntries ⟨7, 3⟩ ⟨8, 5⟩) (some true) 4) ∧
    Filters (fun e => e.connfd = 4) (twoEntries ⟨3⟩ ⟨5⟩) [true, false]
      (fun fuel => deleteEhTransMsgByFd fuel (twoEntries ⟨3⟩ ⟨5⟩) (some true) 4) := by
  have htrans := hasQueue_twoEntries (ε := TransMsgEntry) ⟨3⟩ ⟨5⟩
  obtain ⟨htype, -, -⟩ := filters_iff _ _ _ (hasQueue_back (ε := MsgEntry) ⟨8, 5⟩ ⟨7, 3⟩) _ _ _ htrans 7 4
  obtain ⟨-, hfd, hfd'⟩ := filters_iff _ _ _ (hasQueue_twoEntries (ε := MsgEntry) ⟨7, 3⟩ ⟨8, 5⟩) _ _ _ htrans 7 4
  exact ⟨htype.2 (.inr ⟨false, rfl, rfl⟩), hfd.2 ⟨by decide, by decide⟩, hfd'.2 ⟨by decide, by decide⟩⟩

/-- The descriptor of the only message: it is counted twice. -/
theorem not_filters_one : oneMsg.HasQueue (some ()) [()] ∧
    ¬Filters (fun e => e.connfd = 3) oneMsg [()] (fun fuel => deleteEhMsgFromQueueByFd fuel oneMsg (some ()) 3) := by
  refine ⟨hasQueue_oneMsg, fun h => ?_⟩
  exact ((filters_byFd_iff MsgEntry.connfd hasQueue_oneMsg 3).1 h).2 () List.mem_cons_self rfl

end CodeFactory.Ehcc
