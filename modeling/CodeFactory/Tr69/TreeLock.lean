import Mathlib.Logic.Function.Basic
import CodeFactory.Lib.Run

/-!
# The tree mutex and the re-entrance flag

`tr69_tree.h` guards the parameter tree with one mutex and lets a public operation call another one inside its own critical
section by a global flag: `tr069_tree_lock` and `tr069_tree_unlock` do nothing while `mutexReEnter` is set, and
`add_tr069_object` and `delete_tr069_object` set it around their nested `set_tr069_value`. The flag has no owner. A thread is
modelled by the steps it has still to make on the mutex and the flag; reading the flag and taking the mutex are two steps, so
that other threads run in between.
-/

namespace CodeFactory.Tr69

/-- The steps a public tree operation makes on `tr069TreeMutex` and `mutexReEnter`. `lock` and `unlock` are the macros
`tr069_tree_lock` and `tr069_tree_unlock` (the test of the flag); `acquire` and `release` are the calls of `pal_mutex_lock` and
`pal_mutex_unlock` the macros make when they find the flag clear; `work` is any step on the tree itself. -/
inductive LockStep where
  | lock | acquire | work | setReEnter | clearReEnter | unlock | release
  deriving DecidableEq, Repr

open LockStep

/-- The public tree operations, by the steps they make on the lock. `plain` is every operation without a nested call, and
`add_tr069_object` and `delete_tr069_object` when they leave through an error; `object` is these two when they reach their end,
`needAddNumber` telling whether the object has a count leaf to set. -/
inductive TreeOp where
  | plain
  | object (needAddNumber : Bool)
  deriving DecidableEq, Repr

/-- The steps of a public operation that touches the tree between lock and unlock (`set_tr069_value`, `get_tr069_name` and so
on). -/
def plainSteps : List LockStep := [lock, work, unlock]

/-- The steps of a public operation. The last `work` of `object` is `write_instance_attributes`. -/
def TreeOp.steps : TreeOp → List LockStep
  | .plain => plainSteps
  | .object needAddNumber =>
    [lock, work, setReEnter] ++ (if needAddNumber then plainSteps else []) ++ [clearReEnter, work, unlock]

variable {ι : Type*} [DecidableEq ι]

/-- The state of the lock: what every thread has still to do in the operation it is running (nothing when it is between
operations), the thread that holds `tr069TreeMutex`, and `mutexReEnter`. -/
structure LockState (ι : Type*) where
  todo : ι → List LockStep
  owner : Option ι
  mutexReEnter : Bool

/-- Before any operation: `init_tr069_tree` has initialised the mutex, and the flag is statically zero. -/
def LockState.init : LockState ι := ⟨fun _ => [], none, false⟩

/-- Thread `i` goes on to the steps `c`. -/
def LockState.goto (s : LockState ι) (i : ι) (c : List LockStep) : LockState ι :=
  { s with todo := Function.update s.todo i c }

@[simp] theorem LockState.goto_owner (s : LockState ι) (i : ι) (c : List LockStep) : (s.goto i c).owner = s.owner := rfl

@[simp] theorem LockState.goto_mutexReEnter (s : LockState ι) (i : ι) (c : List LockStep) :
    (s.goto i c).mutexReEnter = s.mutexReEnter := rfl

@[simp] theorem LockState.goto_todo_self (s : LockState ι) (i : ι) (c : List LockStep) : (s.goto i c).todo i = c := by
  simp [LockState.goto]

theorem LockState.goto_todo_other (s : LockState ι) {i j : ι} (c : List LockStep) (h : j ≠ i) :
    (s.goto i c).todo j = s.todo j := by
  simp [LockState.goto, h]

/-- What a thread does next: enter a public operation, or make its next step. -/
inductive LockAct (ι : Type*) where
  | call (i : ι) (op : TreeOp)
  | exec (i : ι)

/-- One step of one thread. `acquire` waits for the mutex (no step while another thread, or the thread itself, holds it);
`release` frees it whoever holds it, as the default mutex of `pal_mutex_unlock` does. -/
def lockStep (s : LockState ι) : LockAct ι → Option (LockState ι)
  | .call i op => if s.todo i = [] then some (s.goto i op.steps) else none
  | .exec i =>
    match s.todo i with
    | [] => none
    | lock :: c => if s.mutexReEnter then some (s.goto i c) else some (s.goto i (acquire :: c))
    | acquire :: c => if s.owner = none then some { s.goto i c with owner := some i } else none
    | work :: c => some (s.goto i c)
    | setReEnter :: c => some { s.goto i c with mutexReEnter := true }
    | clearReEnter :: c => some { s.goto i c with mutexReEnter := false }
    | unlock :: c => if s.mutexReEnter then some (s.goto i c) else some (s.goto i (release :: c))
    | release :: c => some { s.goto i c with owner := none }

/-! ## What the lock is for -/

/-- The entries into a critical section still ahead of a thread. -/
def pendingLocks (c : List LockStep) : Nat := c.count lock + c.count acquire

/-- The exits from a critical section still ahead of a thread. -/
def pendingUnlocks (c : List LockStep) : Nat := c.count unlock + c.count release

/-- A thread is inside a tree critical section when it has more exits than entries ahead: it has passed `tr069_tree_lock` and
not yet `tr069_tree_unlock`. -/
def InCritical (c : List LockStep) : Prop := pendingLocks c < pendingUnlocks c

instance (c : List LockStep) : Decidable (InCritical c) := inferInstanceAs (Decidable (_ < _))

/-- At most one thread is inside a tree critical section. -/
def MutualExclusion (s : LockState ι) : Prop := ∀ i j, InCritical (s.todo i) → InCritical (s.todo j) → i = j

/-- The step is a release of the mutex by a thread that does not hold it. -/
def ReleasesForeign (s : LockState ι) : LockAct ι → Prop
  | .call _ _ => False
  | .exec i => (s.todo i).head? = some release ∧ s.owner ≠ some i

/-- A step of the run is right: it leaves at most one thread inside, and it releases no mutex but the calling thread's. -/
def LockSafe (s : LockState ι) (a : LockAct ι) (t : LockState ι) : Prop := MutualExclusion t ∧ ¬ReleasesForeign s a

/-- The step is not the test of the flag in `tr069_tree_lock`, made while `mutexReEnter` is set, by a thread that is outside:
the flag a thread finds set there is one it has set itself. -/
def FlagIsOwn (s : LockState ι) : LockAct ι → Prop
  | .call _ _ => True
  | .exec i => (s.todo i).head? = some lock → s.mutexReEnter = true → InCritical (s.todo i)

instance (s : LockState ι) : (a : LockAct ι) → Decidable (FlagIsOwn s a)
  | .call _ _ => .isTrue trivial
  | .exec i =>
    inferInstanceAs (Decidable ((s.todo i).head? = some lock → s.mutexReEnter = true → InCritical (s.todo i)))

/-! ## The shape of what a thread has left to do -/

mutual

/-- Inside, with the flag clear: the thread leaves by one unlock, or sets the flag first. -/
inductive Holding : List LockStep → Prop where
  | work {c : List LockStep} : Holding c → Holding (work :: c)
  | unlock : Holding [unlock]
  | release : Holding [release]
  | setReEnter {c : List LockStep} : Nested 0 c → Holding (setReEnter :: c)

/-- Inside, with the flag set, `d` nested operations deep. -/
inductive Nested : Nat → List LockStep → Prop where
  | work {d : Nat} {c : List LockStep} : Nested d c → Nested d (work :: c)
  | lock {d : Nat} {c : List LockStep} : Nested (d + 1) c → Nested d (lock :: c)
  | unlock {d : Nat} {c : List LockStep} : Nested d c → Nested (d + 1) (unlock :: c)
  | clearReEnter {c : List LockStep} : Holding c → Nested 0 (clearReEnter :: c)

end

/-- Outside: between operations, or before the mutex is taken. -/
inductive Outside : List LockStep → Prop where
  | idle : Outside []
  | lock {c : List LockStep} : Holding c → Outside (lock :: c)
  | acquire {c : List LockStep} : Holding c → Outside (acquire :: c)

/-- Every public operation starts outside. -/
theorem outside_steps (op : TreeOp) : Outside op.steps := by
  cases op with
  | plain => exact .lock (.work .unlock)
  | object needAddNumber =>
    refine .lock (.work (.setReEnter ?_))
    cases needAddNumber
    · exact .clearReEnter (.work .unlock)
    · exact .lock (.work (.unlock (.clearReEnter (.work .unlock))))

mutual

/-- A thread that holds the mutex has one more exit than entries ahead. -/
theorem Holding.pending {c : List LockStep} (h : Holding c) : pendingUnlocks c = pendingLocks c + 1 := by
  cases h with
  | work h =>
    have := h.pending
    simp_all [pendingUnlocks, pendingLocks]
  | unlock => decide
  | release => decide
  | setReEnter h =>
    have := h.pending
    simp_all [pendingUnlocks, pendingLocks]

/-- A thread `d` nested operations deep has `d + 1` more exits than entries ahead. -/
theorem Nested.pending {d : Nat} {c : List LockStep} (h : Nested d c) : pendingUnlocks c = pendingLocks c + d + 1 := by
  cases h with
  | work h =>
    have := h.pending
    simp_all [pendingUnlocks, pendingLocks]
  | lock h =>
    have := h.pending
    simp_all [pendingUnlocks, pendingLocks]
    omega
  | unlock h =>
    have := h.pending
    simp_all [pendingUnlocks, pendingLocks]
    omega
  | clearReEnter h =>
    have := h.pending
    simp_all [pendingUnlocks, pendingLocks]

end

theorem Holding.inCritical {c : List LockStep} (h : Holding c) : InCritical c := by
  have := h.pending
  unfold InCritical
  omega

theorem Nested.inCritical {d : Nat} {c : List LockStep} (h : Nested d c) : InCritical c := by
  have := h.pending
  unfold InCritical
  omega

theorem Outside.not_inCritical {c : List LockStep} (h : Outside c) : ¬InCritical c := by
  cases h with
  | idle => simp [InCritical, pendingLocks, pendingUnlocks]
  | lock h | acquire h =>
    have hpending := h.pending
    unfold pendingUnlocks pendingLocks at hpending
    simp only [InCritical, pendingUnlocks, pendingLocks, List.count_cons_self, List.count_cons_of_ne, ne_eq, reduceCtorEq,
      not_false_eq_true]
    omega

/-- What holds of the lock while every flag found set is the finder's own: the mutex is free, everybody is outside and the flag
is clear; or one thread holds it, everybody else is outside, and the flag is set exactly while that thread is between setting and
clearing it. -/
inductive LockInv (s : LockState ι) : Prop where
  | free (owner : s.owner = none) (out : ∀ i, Outside (s.todo i)) (flag : s.mutexReEnter = false)
  | held (i : ι) (owner : s.owner = some i) (out : ∀ j, j ≠ i → Outside (s.todo j)) (flag : s.mutexReEnter = false)
      (inside : Holding (s.todo i))
  | nested (i : ι) (d : Nat) (owner : s.owner = some i) (out : ∀ j, j ≠ i → Outside (s.todo j))
      (flag : s.mutexReEnter = true) (inside : Nested d (s.todo i))

namespace LockInv

variable {s t : LockState ι}

omit [DecidableEq ι] in
theorem init : LockInv (LockState.init : LockState ι) := .free rfl (fun _ => .idle) rfl

/-- A thread that is inside is the one that holds the mutex. -/
theorem owner_of_inCritical (h : LockInv s) {i : ι} (hi : InCritical (s.todo i)) : s.owner = some i := by
  cases h with
  | free _ out _ => exact absurd hi (out i).not_inCritical
  | held k owner out _ _ | nested k _ owner out _ _ =>
    by_cases hik : i = k
    · rw [owner, hik]
    · exact absurd hi (out i hik).not_inCritical

theorem mutualExclusion (h : LockInv s) : MutualExclusion s := by
  intro i j hi hj
  have := h.owner_of_inCritical hi
  rw [h.owner_of_inCritical hj] at this
  exact (Option.some.inj this).symm

/-- A thread about to release the mutex is inside, so it holds it. -/
theorem not_releasesForeign (h : LockInv s) (a : LockAct ι) : ¬ReleasesForeign s a := by
  cases a with
  | call i op => exact id
  | exec i =>
  rintro ⟨hhead, hne⟩
  refine hne (h.owner_of_inCritical ?_)
  have hr : ∀ {c : List LockStep}, Outside c → c.head? ≠ some release := by
    rintro c (_ | _ | _) <;> simp
  cases h with
  | free _ out _ => exact absurd hhead (hr (out i))
  | held k _ out _ inside =>
    by_cases hik : i = k
    · exact hik ▸ inside.inCritical
    · exact absurd hhead (hr (out i hik))
  | nested k _ _ out _ inside =>
    by_cases hik : i = k
    · exact hik ▸ inside.inCritical
    · exact absurd hhead (hr (out i hik))

/-- What is known of the other threads stays when one thread goes on. -/
theorem out_goto {i k : ι} {c : List LockStep} (out : ∀ j, j ≠ k → Outside (s.todo j)) (hc : i ≠ k → Outside c) :
    ∀ j, j ≠ k → Outside ((s.goto i c).todo j) := by
  intro j hjk
  by_cases hji : j = i
  · subst hji
    rw [LockState.goto_todo_self]
    exact hc hjk
  · rw [LockState.goto_todo_other _ _ hji]
    exact out j hjk

/-- A thread that is outside stays outside when it goes on to a sequence that is outside: the lock does not change hands. -/
theorem goto_outside (h : LockInv s) {i : ι} {c : List LockStep} (hi : Outside (s.todo i)) (hc : Outside c) :
    LockInv (s.goto i c) := by
  cases h with
  | free owner out flag =>
    refine .free owner (fun j => ?_) flag
    by_cases hji : j = i
    · subst hji; simpa using hc
    · rw [LockState.goto_todo_other _ _ hji]; exact out j
  | held k owner out flag inside =>
    have hki : k ≠ i := fun e => (e ▸ hi).not_inCritical inside.inCritical
    exact .held k owner (out_goto out fun _ => hc) flag (by rwa [LockState.goto_todo_other _ _ hki])
  | nested k d owner out flag inside =>
    have hki : k ≠ i := fun e => (e ▸ hi).not_inCritical inside.inCritical
    exact .nested k d owner (out_goto out fun _ => hc) flag (by rwa [LockState.goto_todo_other _ _ hki])

/-- The step of a thread that is outside: it finds the flag clear (found set, it would be its own, and it would be inside), or
takes the mutex when it is free. -/
theorem exec_outside (h : LockInv s) {i : ι} (hi : Outside (s.todo i)) (hg : FlagIsOwn s (.exec i))
    (hs : lockStep s (.exec i) = some t) : LockInv t := by
  generalize hc : s.todo i = c at hi
  cases hi with
  | idle => simp [lockStep, hc] at hs
  | @lock c hhold =>
    have hflag : s.mutexReEnter = false := by
      by_contra hf
      have := hg (by simp [hc]) (by simpa using hf)
      rw [hc] at this
      exact (Outside.lock hhold).not_inCritical this
    simp only [lockStep, hc, hflag, Bool.false_eq_true, if_false, Option.some.injEq] at hs
    subst hs
    exact h.goto_outside (hc ▸ .lock hhold) (.acquire hhold)
  | @acquire c hhold =>
    simp only [lockStep, hc, Option.ite_none_right_eq_some, Option.some.injEq] at hs
    obtain ⟨hfree, rfl⟩ := hs
    cases h with
    | free owner out flag =>
      exact .held i rfl (out_goto (fun j _ => out j) (fun e => absurd rfl e)) flag (by simpa using hhold)
    | held k owner _ _ _ | nested k _ owner _ _ _ => rw [owner] at hfree; cases hfree

/-- The step of the thread that holds the mutex with the flag clear. -/
theorem exec_held {i : ι} (owner : s.owner = some i) (out : ∀ j, j ≠ i → Outside (s.todo j))
    (flag : s.mutexReEnter = false) (inside : Holding (s.todo i)) (hs : lockStep s (.exec i) = some t) : LockInv t := by
  have hout : ∀ c, ∀ j, j ≠ i → Outside ((s.goto i c).todo j) := fun c => out_goto out (fun e => absurd rfl e)
  generalize hc : s.todo i = c at inside
  cases inside with
  | work hhold =>
    simp only [lockStep, hc, Option.some.injEq] at hs
    subst hs
    exact .held i owner (hout _) flag (by simpa using hhold)
  | unlock =>
    simp only [lockStep, hc, flag, Bool.false_eq_true, if_false, Option.some.injEq] at hs
    subst hs
    exact .held i owner (hout _) flag (by simpa using Holding.release)
  | release =>
    simp only [lockStep, hc, Option.some.injEq] at hs
    subst hs
    refine .free rfl (fun j => ?_) flag
    by_cases hji : j = i
    · subst hji; simpa using Outside.idle
    · exact hout _ j hji
  | setReEnter hnest =>
    simp only [lockStep, hc, Option.some.injEq] at hs
    subst hs
    exact .nested i 0 owner (hout _) rfl (by simpa using hnest)

/-- The step of the thread that holds the mutex and has set the flag: its own nested lock and unlock do nothing. -/
theorem exec_nested {i : ι} {d : Nat} (owner : s.owner = some i) (out : ∀ j, j ≠ i → Outside (s.todo j))
    (flag : s.mutexReEnter = true) (inside : Nested d (s.todo i)) (hs : lockStep s (.exec i) = some t) : LockInv t := by
  have hout : ∀ c, ∀ j, j ≠ i → Outside ((s.goto i c).todo j) := fun c => out_goto out (fun e => absurd rfl e)
  generalize hc : s.todo i = c at inside
  cases inside with
  | work hnest =>
    simp only [lockStep, hc, Option.some.injEq] at hs
    subst hs
    exact .nested i _ owner (hout _) flag (by simpa using hnest)
  | lock hnest | unlock hnest =>
    simp only [lockStep, hc, flag, if_true, Option.some.injEq] at hs
    subst hs
    exact .nested i _ owner (hout _) flag (by simpa using hnest)
  | clearReEnter hhold =>
    simp only [lockStep, hc, Option.some.injEq] at hs
    subst hs
    exact .held i owner (hout _) rfl (by simpa using hhold)

/-- Every step that finds no foreign flag keeps the invariant. -/
theorem step (h : LockInv s) {a : LockAct ι} (hg : FlagIsOwn s a) (hs : lockStep s a = some t) : LockInv t := by
  cases a with
  | call i op =>
    simp only [lockStep, Option.ite_none_right_eq_some, Option.some.injEq] at hs
    obtain ⟨hidle, rfl⟩ := hs
    exact h.goto_outside (hidle ▸ .idle) (outside_steps op)
  | exec i =>
    cases h with
    | free owner out flag => exact exec_outside (.free owner out flag) (out i) hg hs
    | held k owner out flag inside =>
      by_cases hik : i = k
      · subst hik; exact exec_held owner out flag inside hs
      · exact exec_outside (.held k owner out flag inside) (out i hik) hg hs
    | nested k d owner out flag inside =>
      by_cases hik : i = k
      · subst hik; exact exec_nested owner out flag inside hs
      · exact exec_outside (.nested k d owner out flag inside) (out i hik) hg hs

/-- A step that finds a foreign flag lets its thread in beside the one that set it. -/
theorem step_foreign (h : LockInv s) {a : LockAct ι} (hg : ¬FlagIsOwn s a) (hs : lockStep s a = some t) :
    ¬MutualExclusion t := by
  cases a with
  | call i op => exact absurd trivial hg
  | exec i =>
  simp only [FlagIsOwn, not_forall] at hg
  obtain ⟨hhead, hflag, hnot⟩ := hg
  cases h with
  | free _ _ flag | held _ _ _ flag _ => rw [flag] at hflag; cases hflag
  | nested k d owner out flag inside =>
    have hik : i ≠ k := fun e => hnot (e ▸ inside.inCritical)
    obtain ⟨c, hc⟩ : ∃ c, s.todo i = lock :: c := by
      cases hl : s.todo i with
      | nil => simp [hl] at hhead
      | cons x c => exact ⟨c, by simp_all⟩
    have hhold : Holding c := by
      have := out i hik
      rw [hc] at this
      cases this with
      | lock hhold => exact hhold
    simp only [lockStep, hc, flag, if_true, Option.some.injEq] at hs
    subst hs
    intro hmutex
    refine hik (hmutex i k ?_ ?_)
    · simpa using hhold.inCritical
    · rw [LockState.goto_todo_other _ _ hik.symm]
      exact inside.inCritical

end LockInv

/-- The tree lock, for any number of threads and any interleaving of their steps: a run keeps at most one thread inside a tree
critical section, and every release of the mutex in it is made by the thread that holds it, if and only if no thread in it tests
the flag in `tr069_tree_lock` while another thread has `mutexReEnter` set. -/
theorem tree_lock_exclusive_iff {tr : List (Transition (LockState ι) (LockAct ι))} {s : LockState ι}
    (hr : Run (Step.ofOption lockStep) LockState.init tr s) : Always LockSafe tr ↔ Meets FlagIsOwn tr := by
  refine Run.all_iff (I := LockInv) LockInv.init (fun s a t hi hg hs => ?_) (fun s a t hi hg hs => ?_) hr
  · have ht := hi.step hg hs
    exact ⟨ht, ht.mutualExclusion, hi.not_releasesForeign a⟩
  · exact fun hsafe => hi.step_foreign hg hs hsafe.1

/-- Two threads, one after the other: one adds an object that has a count leaf, the other sets a value. -/
def inTurn : List (LockAct (Fin 2)) :=
  .call 0 (.object true) :: List.replicate 11 (.exec 0) ++ .call 1 .plain :: List.replicate 5 (.exec 1)

theorem tree_lock_exclusive_inTurn : Always LockSafe (play lockStep LockState.init inTurn).1 :=
  (tree_lock_exclusive_iff (Run.ofPlay lockStep LockState.init inTurn)).2 (by decide)

/-- Two threads: the first adds an object and is at its nested `set_tr069_value`, with the flag set, when the second enters a
plain operation. -/
def foreignFlag : List (LockAct (Fin 2)) :=
  [.call 0 (.object true), .exec 0, .exec 0, .exec 0, .exec 0, .call 1 .plain, .exec 1]

/-- The lock does not give mutual exclusion: the second thread finds the flag of the first and walks in. -/
theorem tree_lock_not_exclusive :
    ¬∀ (tr : List (Transition (LockState (Fin 2)) (LockAct (Fin 2)))) (s : LockState (Fin 2)),
      Run (Step.ofOption lockStep) LockState.init tr s → MutualExclusion s := by
  intro h
  have := h _ _ (Run.ofPlay lockStep LockState.init foreignFlag) 0 1 (by decide) (by decide)
  exact absurd this (by decide)

end CodeFactory.Tr69
