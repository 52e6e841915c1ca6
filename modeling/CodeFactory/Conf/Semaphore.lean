import CodeFactory.Conf.Shared

/-!
# The semaphore

In every run, whatever the processes remove and create, the semaphore that exists is held by one process at most, and a process
waits for it only while another one holds it.
-/

namespace CodeFactory.Conf

/-- The semaphore that the process has taken, or has created and not yet set. -/
def LibPc.holding : LibPc → Option Nat
  | .setLock sem => some sem
  | .checkCache sem => some sem
  | .loadCache sem _ => some sem
  | .fillCache sem _ _ _ => some sem
  | .leave sem _ _ => some sem
  | .writeVal _ sem => some sem
  | .writeUnlock sem _ => some sem
  | _ => none

variable {ι : Type*} [DecidableEq ι]

/-- What a step of a process does to the semaphore, and to what the process holds. -/
inductive SemEffect (w w' : World ι) (p : ι) : Prop where
  | nothing (hsem : w'.sem = w.sem) (hnext : w'.semNext = w.semNext) (hpc : (w'.pc p).holding = (w.pc p).holding)
  | created (hsem : w'.sem = some ⟨w.semNext, 0⟩) (hnext : w'.semNext = w.semNext + 1)
      (hpc : (w'.pc p).holding = some w.semNext)
  | taken (s : Sem) (hold : w.sem = some s) (hval : s.val ≠ 0) (hsem : w'.sem = some ⟨s.semId, s.val - 1⟩)
      (hnext : w'.semNext = w.semNext) (hpc : (w'.pc p).holding = some s.semId)
  | released (sem : Nat) (hold : (w.pc p).holding = some sem) (hpc : (w'.pc p).holding = none)
      (hnext : w'.semNext = w.semNext)
      (hsem : ∀ s' ∈ w'.sem, (∃ s ∈ w.sem, s.semId = sem ∧ s'.semId = sem ∧ (s.val = 0 → s'.val = 1)) ∨
        (s' ∈ w.sem ∧ s'.semId ≠ sem))
  | removed (hsem : ∀ s ∈ w'.sem, s ∈ w.sem) (hnext : w'.semNext = w.semNext)
      (hpc : (w'.pc p).holding = (w.pc p).holding)

section

variable {T : EntityTable} {file : Option (List Char)} {w w' : World ι} {p : ι}

omit [DecidableEq ι] in
/-- The semaphore behind a `semop` with `1`. -/
theorem World.mem_sem_unlock {sem : Nat} {s' : Sem} (h : s' ∈ (w.unlock sem).sem) :
    (∃ s ∈ w.sem, s.semId = sem ∧ s'.semId = sem ∧ (s.val = 0 → s'.val = 1)) ∨ (s' ∈ w.sem ∧ s'.semId ≠ sem) := by
  unfold unlock at h
  obtain ⟨s, hs, rfl⟩ := Option.map_eq_some_iff.1 h
  split
  · next hid => exact Or.inl ⟨s, hs, hid, hid, fun hzero => by rw [hzero]⟩
  · next hid => exact Or.inr ⟨hs, hid⟩

omit [DecidableEq ι] in
/-- The semaphore is there, and not taken. -/
theorem World.exists_of_wait {sem : Nat} (h : w.wait sem = .taken) : ∃ s, w.sem = some s ∧ s.semId = sem ∧ s.val ≠ 0 := by
  unfold wait at h
  split at h
  · cases h
  · next s hs =>
    split at h
    · next hid =>
      split at h
      · cases h
      · next hval => exact ⟨s, hs, hid, hval⟩
    · cases h

theorem SemEffect.of_wait {sem : Nat} (h : w.wait sem = .taken) {pc : LibPc} (hpc : pc.holding = some sem) :
    SemEffect w (w.lock.goto p pc) p := by
  obtain ⟨s, hs, rfl, hval⟩ := World.exists_of_wait h
  refine .taken s hs hval ?_ rfl ?_
  · rw [World.goto_sem, World.lock, hs]
    rfl
  · rw [World.goto_pc_self, hpc]

/-- What a step does to the semaphore. -/
theorem execStep_sem (h : execStep T file w p = some w') : SemEffect w w' p ∧ ∀ q, q ≠ p → w'.pc q = w.pc q := by
  have hnothing : ∀ pc : LibPc, pc.holding = (w.pc p).holding → SemEffect w (w.goto p pc) p :=
    fun pc hpc => .nothing rfl rfl (by rw [World.goto_pc_self, hpc])
  cases hpc : w.pc p <;> simp only [execStep, hpc, initLibrary, fillMemory, readMemory, writeMemory] at h
  case createLock =>
    split at h
    · cases h
      exact ⟨.created rfl rfl (by rw [World.goto_pc_self]; rfl), fun q hq => World.goto_pc_of_ne _ hq _⟩
    · cases h
      exact ⟨hnothing _ (by rw [hpc]; rfl), fun q hq => World.goto_pc_of_ne _ hq _⟩
  case setLock sem =>
    split at h
    · next hs =>
      cases h
      obtain ⟨s, hs, hid⟩ := hs
      refine ⟨.released sem (by rw [hpc]; rfl) (by rw [World.goto_pc_self]; rfl) rfl ?_, fun q hq => World.goto_pc_of_ne _ hq _⟩
      intro s' hs'
      obtain rfl := Option.some.inj hs'
      exact Or.inl ⟨s, hs, hid, rfl, fun _ => rfl⟩
    · next hs =>
      cases h
      refine ⟨.released sem (by rw [hpc]; rfl) (by rw [World.goto_pc_self]; rfl) rfl ?_, fun q hq => World.goto_pc_of_ne _ hq _⟩
      exact fun s' hs' => Or.inr ⟨hs', fun hid => hs ⟨s', hs', hid⟩⟩
  case lockCache sem =>
    split at h
    · next hwait =>
      cases h
      exact ⟨.of_wait hwait rfl, fun q hq => World.goto_pc_of_ne _ hq _⟩
    · cases h
    · cases h
      exact ⟨hnothing _ (by rw [hpc]; rfl), fun q hq => World.goto_pc_of_ne _ hq _⟩
  case writeLock k sem =>
    split at h
    · next hwait =>
      cases h
      exact ⟨.of_wait hwait rfl, fun q hq => World.goto_pc_of_ne _ hq _⟩
    · cases h
    · cases h
      exact ⟨hnothing _ (by rw [hpc]; rfl), fun q hq => World.goto_pc_of_ne _ hq _⟩
  case leave sem ret remove =>
    cases h
    refine ⟨.released sem (by rw [hpc]; rfl) ?_ rfl fun s' hs' => World.mem_sem_unlock hs', fun q hq => World.goto_pc_of_ne _ hq _⟩
    rw [World.goto_pc_self]
    split <;> rfl
  case writeUnlock sem ret =>
    cases h
    exact ⟨.released sem (by rw [hpc]; rfl) (by rw [World.goto_pc_self]; rfl) rfl fun s' hs' => World.mem_sem_unlock hs',
      fun q hq => World.goto_pc_of_ne _ hq _⟩
  case removeLock sem ret =>
    cases h
    refine ⟨.removed (fun s hs => ?_) rfl (by rw [World.goto_pc_self, hpc]; rfl), fun q hq => World.goto_pc_of_ne _ hq _⟩
    rw [World.goto_sem, World.remove] at hs
    exact (Option.mem_filter_iff.1 hs).1
  all_goals
    repeat' split at h
    all_goals cases h
    all_goals refine ⟨.nothing rfl rfl ?_, fun q hq => World.goto_pc_of_ne _ hq _⟩
    all_goals
      rw [World.goto_pc_self, hpc]
      rfl

/-! ## Who holds the semaphore -/

/-- The invariant of the semaphore: its value is one and no process holds it, or the value is zero and one process does. A
semaphore that is created later has an identifier that no process holds. -/
structure SemSound (w : World ι) : Prop where
  fresh : ∀ s ∈ w.sem, s.semId < w.semNext
  old : ∀ q, ∀ sem ∈ (w.pc q).holding, sem < w.semNext
  once : ∀ s ∈ w.sem, (s.val = 1 ∧ ∀ q, (w.pc q).holding ≠ some s.semId) ∨
    (s.val = 0 ∧ ∃ q, ∀ q', (w.pc q').holding = some s.semId ↔ q' = q)

omit [DecidableEq ι] in
theorem SemSound.start : SemSound (World.start : World ι) :=
  ⟨fun _ h => (by cases h), fun _ _ h => (by cases h), fun _ h => (by cases h)⟩

omit [DecidableEq ι] in
theorem holding_of_ne (hother : ∀ q, q ≠ p → w'.pc q = w.pc q) {q : ι} (hq : q ≠ p) : (w'.pc q).holding = (w.pc q).holding :=
  congrArg LibPc.holding (hother q hq)

omit [DecidableEq ι] in
/-- A semaphore that cannot be taken is held by exactly one process. -/
theorem SemSound.waiting (hi : SemSound w) {sem : Nat} (h : w.wait sem = .waiting) :
    ∃ q, ∀ q', (w.pc q').holding = some sem ↔ q' = q := by
  unfold World.wait at h
  split at h
  · cases h
  · next s hs =>
    split at h
    · next hid =>
      split at h
      · next hzero =>
        rcases hi.once s hs with ⟨hone, -⟩ | ⟨-, hheld⟩
        · rw [hzero] at hone
          cases hone
        · rwa [hid] at hheld
      · cases h
    · cases h

/-- Every step keeps the invariant. -/
theorem SemSound.exec (hi : SemSound w) (h : execStep T file w p = some w') : SemSound w' := by
  obtain ⟨heffect, hother⟩ := execStep_sem h
  have hold : ∀ {q}, q ≠ p → (w'.pc q).holding = (w.pc q).holding := fun hq => holding_of_ne hother hq
  cases heffect with
  | nothing hsem hnext hpc =>
    have hall : ∀ q, (w'.pc q).holding = (w.pc q).holding := by
      intro q
      by_cases hq : q = p
      · rw [hq, hpc]
      · exact hold hq
    refine ⟨?_, ?_, ?_⟩
    · rw [hsem, hnext]
      exact hi.fresh
    · intro q
      rw [hall, hnext]
      exact hi.old q
    · rw [hsem]
      simp only [hall]
      exact hi.once
  | created hsem hnext hpc =>
    have hnew : ∀ q, q ≠ p → (w'.pc q).holding ≠ some w.semNext := by
      intro q hq hheld
      rw [hold hq] at hheld
      exact Nat.lt_irrefl _ (hi.old q _ hheld)
    refine ⟨?_, ?_, ?_⟩
    · intro s hs
      rw [hsem] at hs
      obtain rfl := Option.some.inj hs
      rw [hnext]
      exact Nat.lt_succ_self _
    · intro q sem hheld
      rw [hnext]
      by_cases hq : q = p
      · subst hq
        rw [hpc] at hheld
        obtain rfl := Option.some.inj hheld
        exact Nat.lt_succ_self _
      · rw [hold hq] at hheld
        exact Nat.lt_succ_of_lt (hi.old q sem hheld)
    · intro s hs
      rw [hsem] at hs
      obtain rfl := Option.some.inj hs
      refine Or.inr ⟨rfl, p, fun q => ⟨fun hheld => ?_, fun hq => hq ▸ hpc⟩⟩
      by_contra hq
      exact hnew q hq hheld
  | taken s hcur hval hsem hnext hpc =>
    rcases hi.once s hcur with ⟨hone, hnone⟩ | ⟨hzero, -⟩
    · refine ⟨?_, ?_, ?_⟩
      · intro s' hs'
        rw [hsem] at hs'
        obtain rfl := Option.some.inj hs'
        rw [hnext]
        exact hi.fresh s hcur
      · intro q sem hheld
        rw [hnext]
        by_cases hq : q = p
        · subst hq
          rw [hpc] at hheld
          obtain rfl := Option.some.inj hheld
          exact hi.fresh s hcur
        · rw [hold hq] at hheld
          exact hi.old q sem hheld
      · intro s' hs'
        rw [hsem] at hs'
        obtain rfl := Option.some.inj hs'
        refine Or.inr ⟨by rw [hone], p, fun q => ⟨fun hheld => ?_, fun hq => hq ▸ hpc⟩⟩
        by_contra hq
        rw [hold hq] at hheld
        exact hnone q hheld
    · exact absurd hzero hval
  | released sem hheld hpc hnext hsem =>
    refine ⟨?_, ?_, ?_⟩
    · intro s' hs'
      rw [hnext]
      rcases hsem s' hs' with ⟨s, hs, hid, hid', -⟩ | ⟨hs, -⟩
      · rw [hid', ← hid]
        exact hi.fresh s hs
      · exact hi.fresh s' hs
    · intro q id hq
      rw [hnext]
      by_cases hqp : q = p
      · subst hqp
        rw [hpc] at hq
        cases hq
      · rw [hold hqp] at hq
        exact hi.old q id hq
    · intro s' hs'
      rcases hsem s' hs' with ⟨s, hs, hid, hid', hval⟩ | ⟨hs, hid⟩
      · rcases hi.once s hs with ⟨-, hnone⟩ | ⟨hzero, q, hq⟩
        · rw [hid] at hnone
          exact absurd hheld (hnone p)
        · -- the process that gives it back is the one that held it
          rw [hid] at hq
          have hqp : p = q := (hq p).1 hheld
          refine Or.inl ⟨hval hzero, fun q' hq' => ?_⟩
          rw [hid'] at hq'
          by_cases hqp' : q' = p
          · subst hqp'
            rw [hpc] at hq'
            cases hq'
          · rw [hold hqp'] at hq'
            exact hqp' (((hq q').1 hq').trans hqp.symm)
      · have hsame : ∀ q, (w'.pc q).holding = some s'.semId ↔ (w.pc q).holding = some s'.semId := by
          intro q
          by_cases hqp : q = p
          · subst hqp
            rw [hpc, hheld]
            exact iff_of_false (fun heq => (by cases heq)) fun heq => hid (Option.some.inj heq).symm
          · rw [hold hqp]
        simp only [ne_eq, hsame]
        exact hi.once s' hs
  | removed hsem hnext hpc =>
    have hall : ∀ q, (w'.pc q).holding = (w.pc q).holding := by
      intro q
      by_cases hq : q = p
      · rw [hq, hpc]
      · exact hold hq
    refine ⟨?_, ?_, ?_⟩
    · intro s hs
      rw [hnext]
      exact hi.fresh s (hsem s hs)
    · intro q
      rw [hall, hnext]
      exact hi.old q
    · intro s hs
      simp only [hall]
      exact hi.once s (hsem s hs)

/-- A process that enters a call holds what it held before. -/
theorem SemSound.call (hi : SemSound w) {c : LibCall} (h : libStep T file w (.call p c) = some w') : SemSound w' := by
  simp only [libStep] at h
  split at h
  · next hpc =>
    cases h
    have hall : ∀ q, ((w.goto p c.start).pc q).holding = (w.pc q).holding := by
      intro q
      by_cases hq : q = p
      · subst hq
        rw [World.goto_pc_self, hpc]
        cases c <;> rfl
      · rw [World.goto_pc_of_ne w hq]
    refine ⟨hi.fresh, fun q => ?_, ?_⟩
    · rw [hall]
      exact hi.old q
    · simp only [hall]
      exact hi.once
  · cases h

/-- **The semaphore in every run**: it is free and no process holds it, or exactly one process does. So a process that waits for
it waits for another one. -/
theorem semaphore_sound {tr : List (Transition (World ι) (LibAct ι))} (hr : Run (Step.ofOption (libStep T file)) World.start tr w) :
    SemSound w := by
  have hall : Meets (fun _ _ => True) tr := fun _ _ => trivial
  refine Run.invariant (I := SemSound) .start (fun w a w' hi _ hstep => ?_) hr hall
  cases a with
  | call p c => exact hi.call hstep
  | exec p => exact hi.exec hstep

end

end CodeFactory.Conf
