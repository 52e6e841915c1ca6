import CodeFactory.Conf.Representation
import CodeFactory.Conf.Semaphore

/-!
# What survives other processes

Reads and writes of a process that has called `config_api_init_library` succeed, and the other calls leave what it may count on, in the
runs in which every write finds the semaphore, a table is loaded in place of one with the same values only, and no process reads,
writes or loads while another one fills the memory.
-/

namespace CodeFactory.Conf

open Cache

/-! ## Reading what was written -/

/-- Two memories of which every read gives the same. -/
def SameReads (T : EntityTable) (c c' : Cache) : Prop := ∀ k : ReadCall, k.run T c' = k.run T c

/-- The parameter is there. -/
def WriteCall.Finds (T : EntityTable) (c : Cache) (k : WriteCall) : Prop := ∃ c', k.run T c = .done (0, c')

namespace Cache

variable (c : Cache) (p : Nat) (val : List Char)

theorem writeVal_paraId (q : Nat) : ((c.writeVal p val).para q).paraId = (c.para q).paraId := by
  unfold writeVal setPara
  simp only
  by_cases hq : q = p
  · rw [hq, Function.update_self]
  · rw [Function.update_of_ne hq]

theorem writeVal_next (q : Nat) : ((c.writeVal p val).para q).next = (c.para q).next := by
  unfold writeVal setPara
  simp only
  by_cases hq : q = p
  · rw [hq, Function.update_self]
  · rw [Function.update_of_ne hq]

theorem findPara_writeVal (T : EntityTable) (head : Option Nat) (paraId : Int) :
    (c.writeVal p val).findPara T head paraId = c.findPara T head paraId := by
  have hnext : (c.writeVal p val).paraNext = c.paraNext := funext (c.writeVal_next p val)
  have hid : ∀ q, ((c.writeVal p val).para q).paraId = (c.para q).paraId := c.writeVal_paraId p val
  unfold findPara
  rw [hnext]
  simp only [hid]

theorem writeVal_paraVal : ((c.writeVal p val).para p).paraVal = val.take (maxValueLen - 1) := by
  unfold writeVal setPara
  simp only
  rw [Function.update_self]

end Cache

/-- **What was written is read.** -/
theorem WriteCall.read_back {T : EntityTable} {c c' : Cache} {k : WriteCall} (h : k.run T c = .done (0, c')) :
    k.target.run T c' = .done (some (k.val.take (maxValueLen - 1))) := by
  obtain ⟨target, val⟩ := k
  cases target with
  | parameter appIndex paraIndex =>
    simp only [run, configApiWriteParameter] at h
    split at h
    · next hvalid =>
      obtain ⟨app, happ, h⟩ := Outcome.bind_eq_done.1 h
      cases app with
      | none => cases h
      | some a =>
        obtain ⟨para, hpara, h⟩ := Outcome.bind_eq_done.1 h
        cases para with
        | none => cases h
        | some p =>
          cases h
          have hfind : (c.writeVal p val).findApp T appIndex = .done (some a) := happ
          simp only [ReadCall.run, configApiReadParameter]
          rw [if_pos hvalid, hfind, Outcome.bind_done]
          simp only
          rw [findPara_writeVal]
          show Outcome.map _ (c.findPara T (c.app a).para (getParaId appIndex 0 paraIndex)) = _
          rw [hpara]
          exact congrArg (fun v => Outcome.done (some v)) (c.writeVal_paraVal p val)
    · cases h
  | tableParameter appIndex rowIndex paraIndex =>
    simp only [run, configApiWriteTableParameter] at h
    split at h
    · next hvalid =>
      obtain ⟨app, happ, h⟩ := Outcome.bind_eq_done.1 h
      cases app with
      | none => cases h
      | some a =>
        obtain ⟨row, hrow, h⟩ := Outcome.bind_eq_done.1 h
        cases row with
        | none => cases h
        | some r =>
          obtain ⟨para, hpara, h⟩ := Outcome.bind_eq_done.1 h
          cases para with
          | none => cases h
          | some p =>
            cases h
            have hfind : (c.writeVal p val).findApp T appIndex = .done (some a) := happ
            have hfindRow : (c.writeVal p val).findRow T a (getRowId appIndex rowIndex) = .done (some r) := hrow
            simp only [ReadCall.run, configApiReadTableParameter]
            rw [if_pos hvalid, hfind, Outcome.bind_done]
            simp only
            rw [hfindRow, Outcome.bind_done]
            simp only
            rw [findPara_writeVal]
            show Outcome.map _ (c.findPara T (c.row r).para (getParaId appIndex rowIndex paraIndex)) = _
            rw [hpara]
            exact congrArg (fun v => Outcome.done (some v)) (c.writeVal_paraVal p val)
    · cases h

/-- A parameter that is there is one of a valid application. -/
theorem WriteCall.Finds.valid {T : EntityTable} {c : Cache} {k : WriteCall} (h : k.Finds T c) : T.ValidApp k.target.appIndex := by
  obtain ⟨c', h⟩ := h
  obtain ⟨target, val⟩ := k
  cases target with
  | parameter appIndex paraIndex =>
    simp only [run, configApiWriteParameter] at h
    split at h
    · assumption
    · cases h
  | tableParameter appIndex rowIndex paraIndex =>
    simp only [run, configApiWriteTableParameter] at h
    split at h
    · assumption
    · cases h

/-! ## What is promised, and when it is kept -/

namespace LibPc

/-- The write that a process has begun and not yet done. -/
def writing : LibPc → Option WriteCall
  | .writeGet k => some k
  | .writeLock k _ => some k
  | .writeVal k _ => some k
  | _ => none

/-- The read that a process has begun and not yet done. -/
def readsNow : LibPc → Option ReadCall
  | .read k => some k
  | .reading k => some k
  | _ => none

/-- What the call of the process returns, once that is decided. -/
def outcome : LibPc → Option Int
  | .idle ret _ => some ret
  | .writeUnlock _ ret => some ret
  | _ => none

/-- What the last call of a process read. -/
def result : LibPc → Option (List Char)
  | .idle _ result => some result
  | _ => none

/-- The process fills the memory. -/
def filling : LibPc → Bool
  | .fillCache _ _ _ _ => true
  | _ => false

/-- The process goes through the memory, to read or to write. -/
def inside : LibPc → Bool
  | .reading _ => true
  | .writeVal _ _ => true
  | _ => false

end LibPc

variable {ι : Type*} [DecidableEq ι]

/-- What is promised of a step of a process. -/
structure Survives (T : EntityTable) (w : World ι) (p : ι) (w' : World ι) : Prop where
  /-- A read of a parameter that is there succeeds, if the process is initialised, and gives the value that it may count on. -/
  read : ∀ k d val, (w.pc p).readsNow = some k → w.cacheAddr p = true → w.memory.promised = some d → k.run T d = .done (some val) →
    w'.pc p = .reading k ∨ w'.pc p = .idle 0 val
  /-- A write of a parameter that is there does not fail, if the process is initialised. -/
  write : ∀ k d, (w.pc p).writing = some k → w.cacheAddr p = true → w.memory.promised = some d → k.Finds T d →
    ∀ ret ∈ (w'.pc p).outcome, ret = 0
  /-- What was written may be counted on. -/
  stored : ∀ k sem d, w.pc p = .writeVal k sem → w.memory.promised = some d → k.Finds T d →
    ∃ d', w'.memory.promised = some d' ∧ k.target.run T d' = .done (some (k.val.take (maxValueLen - 1)))
  /-- A step that writes no value leaves all values that may be counted on. -/
  kept : ∀ d, (∀ k sem, w.pc p ≠ .writeVal k sem) → w.memory.promised = some d →
    ∃ d', w'.memory.promised = some d' ∧ SameReads T d d'

/-- A write of a parameter that is there finds the semaphore; a load that begins finds the values of the file in the memory, and no
process in the middle of a load, a read or a write; and none begins to read or write while another one fills the memory. -/
def Undisturbed (T : EntityTable) (file : Option (List Char)) (w : World ι) (p : ι) : Prop :=
  match w.pc p with
  | .writeGet k => w.cacheAddr p = true → ∀ d, w.memory.promised = some d → k.Finds T d → w.sem ≠ none
  | .writeLock k sem =>
    (w.cacheAddr p = true → ∀ d, w.memory.promised = some d → k.Finds T d → w.wait sem ≠ .failed) ∧
      (w.wait sem = .taken → ∀ q, (w.pc q).filling = false)
  | .loadCache _ _ =>
    (∀ q, (w.pc q).filling = false ∧ (w.pc q).inside = false) ∧
      ∀ d, w.memory.promised = some d → ∀ f ∈ file, ∀ c, buildParaTable T f = .done (some c) → SameReads T d c
  | .read _ => w.cacheAddr p = true → ∀ q, (w.pc q).filling = false
  | _ => True

/-- The promise of a step of any kind: a call that is entered is promised nothing yet. -/
def SurvivesAct (T : EntityTable) (w : World ι) (a : LibAct ι) (w' : World ι) : Prop := ∀ p, a = .exec p → Survives T w p w'

/-- The condition on a step of any kind. -/
def UndisturbedAct (T : EntityTable) (file : Option (List Char)) (w : World ι) (a : LibAct ι) : Prop :=
  ∀ p, a = .exec p → Undisturbed T file w p

/-! ## What a step does to the memory -/

section

variable {T : EntityTable} {file : Option (List Char)} {w w' : World ι} {p : ι}

/-- What a step of a process does to the memory, and to the processes that fill it or go through it. -/
inductive MemEffect (T : EntityTable) (file : Option (List Char)) (w w' : World ι) (p : ι) : Prop where
  | nothing (hpc : (w.pc p).filling = false) (hload : ∀ k sem, w.pc p ≠ .writeVal k sem) (hmem : w'.memory = w.memory)
      (hcache : ∀ q, w'.cacheAddr q = true → w.cacheAddr q = true) (hfilling : (w'.pc p).filling = false)
      (hinside : (w'.pc p).inside = true → (∃ k, w.pc p = .read k ∧ w.cacheAddr p = true) ∨
        ∃ k sem, w.pc p = .writeLock k sem ∧ w.wait sem = .taken)
  | begun {sem : Nat} {first : Bool} {f : List Char} (hpc : w.pc p = .loadCache sem first) (hf : f ∈ file)
      (hw : w' = { w with memory := .mapped w.memory.promised (initNode T) }.goto p (.fillCache sem first (.start T) (confLines f)))
  | filled {sem : Nat} {first : Bool} {s s' : LoadState} {line : ConfLine} {lines : List ConfLine} {promised : Option Cache}
      {c : Cache} (hpc : w.pc p = .fillCache sem first s (line :: lines)) (hmem : w.memory = .mapped promised c)
      (hline : ({ s with cache := c } : LoadState).loadLine T line = .done (some s'))
      (hw : w' = { w with memory := .mapped promised s'.cache }.goto p (.fillCache sem first s' lines))
  | refused {sem : Nat} {first : Bool} {s : LoadState} {line : ConfLine} {lines : List ConfLine} {promised : Option Cache}
      {c : Cache} (hpc : w.pc p = .fillCache sem first s (line :: lines)) (hmem : w.memory = .mapped promised c)
      (hline : ({ s with cache := c } : LoadState).loadLine T line = .done none) (hw : w' = w.goto p (.leave sem (-1) true))
  | loaded {sem : Nat} {first : Bool} {s : LoadState} {promised : Option Cache} {c : Cache} (hpc : w.pc p = .fillCache sem first s [])
      (hmem : w.memory = .mapped promised c)
      (hw : w' = { w with memory := .mapped (some c) c, cacheAddr := Function.update w.cacheAddr p true }.goto p (.leave sem 0 first))
  | written {k : WriteCall} {sem : Nat} {promised : Option Cache} {c c' : Cache} {ret : Int} (hpc : w.pc p = .writeVal k sem)
      (hmem : w.memory = .mapped promised c) (hrun : k.run T c = .done (ret, c'))
      (hw : w' = { w with memory := .mapped (promised.map (k.onPromised T)) c' }.goto p (.writeUnlock sem ret))

theorem execStep_memory (h : execStep T file w p = some w') : MemEffect T file w w' p := by
  have hquiet : ∀ {pc : LibPc}, w.pc p = pc → pc.filling = false → (∀ k sem, pc ≠ .writeVal k sem) → ∀ (v : World ι) (pc' : LibPc),
      v.memory = w.memory → (∀ q, v.cacheAddr q = true → w.cacheAddr q = true) → pc'.filling = false →
        (pc'.inside = true → (∃ k, w.pc p = .read k ∧ w.cacheAddr p = true) ∨ ∃ k sem, w.pc p = .writeLock k sem ∧ w.wait sem = .taken) →
          MemEffect T file w (v.goto p pc') p := by
    intro pc hpc hf hv v pc' hmem hcache hf' hin
    exact .nothing (hpc ▸ hf) (fun k sem heq => hv k sem (hpc.symm.trans heq)) hmem hcache (by rw [World.goto_pc_self, hf'])
      (by rw [World.goto_pc_self]; exact hin)
  have hsame : ∀ q, w.cacheAddr q = true → w.cacheAddr q = true := fun _ hq => hq
  cases hpc : w.pc p <;> simp only [execStep, hpc, initLibrary, fillMemory, readMemory, writeMemory] at h
  case loadCache sem first =>
    split at h
    · cases h
      exact hquiet hpc rfl (fun _ _ => LibPc.noConfusion) w _ rfl hsame rfl (fun hin => by cases hin)
    · next f =>
      cases h
      exact .begun hpc rfl rfl
  case fillCache sem first s lines =>
    split at h
    · cases h
    · next hmem =>
      cases h
      exact .loaded hpc hmem rfl
    · next hmem =>
      split at h
      · next hline =>
        cases h
        exact .filled hpc hmem hline rfl
      · next hline =>
        cases h
        exact .refused hpc hmem hline rfl
      · cases h
  case writeVal k sem =>
    split at h
    · next hmem =>
      split at h
      · next hrun =>
        cases h
        exact .written hpc hmem hrun rfl
      · cases h
    · cases h
  case read k =>
    cases h
    refine hquiet hpc rfl (fun _ _ => LibPc.noConfusion) w _ rfl hsame ?_ fun hin => Or.inl ⟨k, hpc, ?_⟩
    · split <;> rfl
    · split at hin
      · assumption
      · cases hin
  case writeLock k sem =>
    split at h
    · next hwait =>
      cases h
      exact hquiet hpc rfl (fun _ _ => LibPc.noConfusion) w.lock _ rfl hsame rfl fun _ => Or.inr ⟨k, sem, hpc, hwait⟩
    · cases h
    · cases h
      exact hquiet hpc rfl (fun _ _ => LibPc.noConfusion) w _ rfl hsame rfl (fun hin => by cases hin)
  case detach =>
    cases h
    refine hquiet hpc rfl (fun _ _ => LibPc.noConfusion) _ _ rfl (fun q hq => ?_) rfl (fun hin => by cases hin)
    by_cases hqp : q = p
    · subst hqp
      simp at hq
    · simpa [hqp] using hq
  all_goals
    repeat' split at h
    all_goals cases h
    all_goals
      refine hquiet hpc rfl (fun _ _ => LibPc.noConfusion) _ _ rfl hsame ?_ (fun hin => ?_)
      all_goals first | rfl | cases hin

/-! ## What holds all the time -/

/-- An initialised process has a table that it may count on. -/
def Attached (w : World ι) : Prop := ∀ q, w.cacheAddr q = true → ∃ d, w.memory.promised = some d

/-- Every step of a process keeps it. -/
theorem Attached.exec (hi : Attached w) (h : execStep T file w p = some w') : Attached w' := by
  cases execStep_memory h with
  | nothing _ _ hmem hcache _ _ =>
    intro q hq
    rw [hmem]
    exact hi q (hcache q hq)
  | begun _ _ hw =>
    subst hw
    exact hi
  | filled _ hmem _ hw =>
    subst hw
    intro q hq
    obtain ⟨d, hd⟩ := hi q hq
    rw [hmem] at hd
    exact ⟨d, hd⟩
  | refused _ _ _ hw =>
    subst hw
    exact hi
  | loaded _ _ hw =>
    subst hw
    exact fun _ _ => ⟨_, rfl⟩
  | written _ hmem _ hw =>
    subst hw
    intro q hq
    obtain ⟨d, hd⟩ := hi q hq
    rw [hmem] at hd
    obtain rfl : _ = some d := hd
    exact ⟨_, rfl⟩

/-- What holds in a run of undisturbed steps: one process at most fills the memory, and none goes through it meanwhile; the nodes that
it has filled are those of a file with the values that may be counted on; and while no process fills it, the memory is what may be
counted on. -/
structure Orderly (T : EntityTable) (file : Option (List Char)) (w : World ι) : Prop where
  apart : ∀ q, (w.pc q).filling = true → ∀ q', (w.pc q').inside = false ∧ ((w.pc q').filling = true → q' = q)
  steady : (∀ q, (w.pc q).filling = false) → ∀ d, w.memory.promised = some d → w.memory = .mapped (some d) d
  built : ∀ d, w.memory.promised = some d → ∃ f ∈ file, ∃ c, buildParaTable T f = .done (some c)
  underWay : ∀ q sem first s lines, w.pc q = .fillCache sem first s lines → ∃ f ∈ file, ∃ promised,
    w.memory = .mapped promised s.cache ∧ (s.loadLines T lines).map (Option.map LoadState.cache) = buildParaTable T f ∧
      ∀ d, promised = some d → ∀ c, buildParaTable T f = .done (some c) → SameReads T d c

omit [DecidableEq ι] in
theorem Orderly.start : Orderly T file (World.start : World ι) where
  apart _ h := by cases h
  steady _ _ h := by cases h
  built _ h := by cases h
  underWay _ _ _ _ _ h := by cases h

omit [DecidableEq ι] in
/-- Nobody fills the memory while a process goes through it. -/
theorem Orderly.not_filling (hi : Orderly T file w) (h : (w.pc p).inside = true) (q : ι) : (w.pc q).filling = false := by
  by_contra hq
  rw [(hi.apart q (by simpa using hq) p).1] at h
  cases h

theorem Orderly.none_filling (hi : Orderly T file w) (hp : (w.pc p).filling = true) (hpc : (w'.pc p).filling = false)
    (hother : ∀ q, q ≠ p → w'.pc q = w.pc q) (q : ι) : (w'.pc q).filling = false := by
  by_cases hq : q = p
  · exact hq ▸ hpc
  · rw [hother q hq]
    by_contra hfill
    exact hq ((hi.apart p hp q).2 (by simpa using hfill))

omit [DecidableEq ι] in
/-- A state in which nobody fills the memory. -/
theorem Orderly.of_none (hnone : ∀ q, (w.pc q).filling = false)
    (hsteady : ∀ d, w.memory.promised = some d → w.memory = .mapped (some d) d)
    (hbuilt : ∀ d, w.memory.promised = some d → ∃ f ∈ file, ∃ c, buildParaTable T f = .done (some c)) : Orderly T file w where
  apart q hq := by
    rw [hnone q] at hq
    cases hq
  steady _ := hsteady
  built := hbuilt
  underWay q sem first s lines hq := by
    have := hnone q
    rw [hq] at this
    cases this

/-- A state in which one process fills the memory. -/
theorem Orderly.of_one {sem : Nat} {first : Bool} {s : LoadState} {lines : List ConfLine} {f : List Char}
    (hp : w.pc p = .fillCache sem first s lines) (hother : ∀ q, q ≠ p → (w.pc q).filling = false ∧ (w.pc q).inside = false)
    (hf : f ∈ file) (hmem : w.memory = .mapped w.memory.promised s.cache)
    (hload : (s.loadLines T lines).map (Option.map LoadState.cache) = buildParaTable T f)
    (hsame : ∀ d, w.memory.promised = some d → ∀ c, buildParaTable T f = .done (some c) → SameReads T d c)
    (hbuilt : ∀ d, w.memory.promised = some d → ∃ f ∈ file, ∃ c, buildParaTable T f = .done (some c)) : Orderly T file w := by
  have hfilling : ∀ q, (w.pc q).filling = true → q = p := by
    intro q hq
    by_contra hne
    rw [(hother q hne).1] at hq
    cases hq
  refine ⟨fun q hq q' => ?_, fun hnone => ?_, hbuilt, fun q sem' first' s' lines' hq => ?_⟩
  · obtain rfl := hfilling q hq
    refine ⟨?_, hfilling q'⟩
    by_cases hq' : q' = q
    · rw [hq', hp]
      rfl
    · exact (hother q' hq').2
  · have := hnone p
    rw [hp] at this
    cases this
  · obtain rfl := hfilling q (by rw [hq]; rfl)
    rw [hp] at hq
    cases hq
    exact ⟨f, hf, _, hmem, hload, hsame⟩

/-- A step that leaves the memory as it is keeps the order. -/
theorem Orderly.nothing (hi : Orderly T file w) (hg : Undisturbed T file w p) (hother : ∀ q, q ≠ p → w'.pc q = w.pc q)
    (hpc : (w.pc p).filling = false) (hmem : w'.memory = w.memory) (hfilling : (w'.pc p).filling = false)
    (hinside : (w'.pc p).inside = true → (∃ k, w.pc p = .read k ∧ w.cacheAddr p = true) ∨
      ∃ k sem, w.pc p = .writeLock k sem ∧ w.wait sem = .taken) : Orderly T file w' := by
  have hfill : ∀ q, (w'.pc q).filling = (w.pc q).filling := by
    intro q
    by_cases hq : q = p
    · rw [hq, hfilling, hpc]
    · rw [hother q hq]
  refine ⟨fun q hq q' => ⟨?_, ?_⟩, ?_, ?_, fun q sem first s lines hq => ?_⟩
  · rw [hfill] at hq
    by_cases hq' : q' = p
    · -- a process that begins to go through the memory finds that nobody fills it
      subst hq'
      by_contra hin
      refine Bool.false_ne_true (Eq.trans ?_ hq)
      unfold Undisturbed at hg
      rcases hinside (by simpa using hin) with ⟨k, hk, hinit⟩ | ⟨k, sem, hk, hwait⟩
      · rw [hk] at hg
        exact (hg hinit q).symm
      · rw [hk] at hg
        exact (hg.2 hwait q).symm
    · rw [hother q' hq']
      exact (hi.apart q hq q').1
  · rw [hfill] at hq ⊢
    exact (hi.apart q hq q').2
  · rw [hmem]
    exact fun hnone => hi.steady fun q => (hfill q).symm.trans (hnone q)
  · rw [hmem]
    exact hi.built
  · rw [hmem]
    refine hi.underWay q sem first s lines ?_
    rwa [← hother q]
    rintro rfl
    rw [hq] at hfilling
    cases hfilling

/-- A write keeps the order. -/
theorem Orderly.written (hi : Orderly T file w) (hother : ∀ q, q ≠ p → w'.pc q = w.pc q) {k : WriteCall} {sem : Nat}
    {promised : Option Cache} {c c' : Cache} {ret : Int} (hpc : w.pc p = .writeVal k sem) (hmem : w.memory = .mapped promised c)
    (hrun : k.run T c = .done (ret, c'))
    (hw : w' = { w with memory := .mapped (promised.map (k.onPromised T)) c' }.goto p (.writeUnlock sem ret)) : Orderly T file w' := by
  have hnone := hi.not_filling (p := p) (by rw [hpc]; rfl)
  have hsteady := hi.steady hnone
  have hbuilt := hi.built
  rw [hmem] at hsteady hbuilt
  have hpc' : ∀ q, (w'.pc q).filling = false := by
    intro q
    by_cases hq : q = p
    · rw [hq, hw, World.goto_pc_self]
      rfl
    · rw [hother q hq]
      exact hnone q
  subst hw
  refine .of_none hpc' (fun d hd => ?_) fun d hd => ?_
  · obtain ⟨d₀, hd₀, rfl⟩ := Option.map_eq_some_iff.1 hd
    obtain ⟨rfl, rfl⟩ := Segment.mapped.inj (hsteady d₀ hd₀)
    have hpromised : k.onPromised T c = c' := by
      unfold WriteCall.onPromised
      rw [hrun]
    simp [hpromised]
  · obtain ⟨d₀, hd₀, -⟩ := Option.map_eq_some_iff.1 hd
    exact hbuilt d₀ hd₀

/-- **An undisturbed step** keeps the order. -/
theorem Orderly.exec (hi : Orderly T file w) (hg : Undisturbed T file w p) (h : execStep T file w p = some w') : Orderly T file w' := by
  have hother := (execStep_sem h).2
  cases execStep_memory h with
  | nothing hpc _ hmem _ hfilling hinside => exact hi.nothing hg hother hpc hmem hfilling hinside
  | begun hpc hf hw =>
    unfold Undisturbed at hg
    rw [hpc] at hg
    subst hw
    refine .of_one (World.goto_pc_self _ _ _) (fun q hq => ?_) hf rfl rfl (fun d hd c hc => hg.2 d hd _ hf c hc) hi.built
    rw [hother q hq]
    exact hg.1 q
  | @filled sem first s s' line lines promised c hpc hmem hline hw =>
    obtain ⟨f, hf, promised', hmem', hload, hsame⟩ := hi.underWay p _ _ _ _ hpc
    obtain ⟨rfl, rfl⟩ := Segment.mapped.inj (hmem.symm.trans hmem')
    have hapart := hi.apart p (by rw [hpc]; rfl)
    have hline : s.loadLine T line = .done (some s') := hline
    rw [LoadState.loadLines, hline, Outcome.bind_done] at hload
    have hbuilt := hi.built
    rw [hmem] at hbuilt
    subst hw
    refine .of_one (World.goto_pc_self _ _ _) (fun q hq => ?_) hf rfl hload hsame hbuilt
    rw [hother q hq]
    refine ⟨?_, (hapart q).1⟩
    by_contra hfill
    exact hq ((hapart q).2 (by simpa using hfill))
  | @refused sem first s line lines promised c hpc hmem hline hw =>
    obtain ⟨f, hf, promised', hmem', hload, hsame⟩ := hi.underWay p _ _ _ _ hpc
    obtain ⟨rfl, rfl⟩ := Segment.mapped.inj (hmem.symm.trans hmem')
    have hline : s.loadLine T line = .done none := hline
    rw [LoadState.loadLines, hline, Outcome.bind_done] at hload
    -- the file was loaded before, when there is a table to count on
    have hnone : ∀ d, w'.memory.promised ≠ some d := by
      intro d hd
      subst hw
      obtain ⟨f', hf', c', hc'⟩ := hi.built d hd
      obtain rfl := Option.mem_unique hf hf'
      rw [← hload] at hc'
      cases hc'
    have hpc' : (w'.pc p).filling = false := by
      rw [hw, World.goto_pc_self]
      rfl
    exact .of_none (hi.none_filling (by rw [hpc]; rfl) hpc' hother) (fun d hd => absurd hd (hnone d)) fun d hd => absurd hd (hnone d)
  | @loaded sem first s promised c hpc hmem hw =>
    obtain ⟨f, hf, promised', hmem', hload, -⟩ := hi.underWay p _ _ _ _ hpc
    have hpc' : (w'.pc p).filling = false := by
      rw [hw, World.goto_pc_self]
      rfl
    have hnone := hi.none_filling (by rw [hpc]; rfl) hpc' hother
    subst hw
    refine .of_none hnone (fun d hd => ?_) fun d hd => ⟨f, hf, s.cache, hload.symm⟩
    obtain rfl := Option.some.inj hd
    rfl
  | written hpc hmem hrun hw => exact hi.written hother hpc hmem hrun hw

/-- A process that enters a call. -/
theorem libStep_call {c : LibCall} (h : libStep T file w (.call p c) = some w') :
    (∃ ret result, w.pc p = .idle ret result) ∧ w' = w.goto p c.start := by
  simp only [libStep] at h
  split at h
  · next hpc => exact ⟨⟨_, _, hpc⟩, (Option.some.inj h).symm⟩
  · cases h

/-- It changes nothing yet. -/
theorem Orderly.call (hi : Orderly T file w) {ret : Int} {result : List Char} (hpc : w.pc p = .idle ret result) (c : LibCall) :
    Orderly T file (w.goto p c.start) := by
  have hsame : ∀ q, ((w.goto p c.start).pc q).filling = (w.pc q).filling ∧ ((w.goto p c.start).pc q).inside = (w.pc q).inside := by
    intro q
    by_cases hq : q = p
    · subst hq
      rw [World.goto_pc_self, hpc]
      cases c <;> exact ⟨rfl, rfl⟩
    · rw [World.goto_pc_of_ne w hq]
      exact ⟨rfl, rfl⟩
  refine ⟨fun q hq q' => ?_, fun hnone => hi.steady fun q => (hsame q).1.symm.trans (hnone q), hi.built, fun q sem first s lines hq => ?_⟩
  · rw [(hsame q).1] at hq
    rw [(hsame q').1, (hsame q').2]
    exact hi.apart q hq q'
  · by_cases hqp : q = p
    · subst hqp
      rw [World.goto_pc_self] at hq
      cases c <;> cases hq
    · rw [World.goto_pc_of_ne w hqp] at hq
      exact hi.underWay q sem first s lines hq

/-! ## What a step does for its process -/

/-- A write that begins goes on when it finds the semaphore, and fails when it does not. -/
theorem execStep_writeGet (h : execStep T file w p = some w') {k : WriteCall} (hpc : w.pc p = .writeGet k)
    (hinit : w.cacheAddr p = true) (hvalid : T.ValidApp k.target.appIndex) :
    (w'.pc p).outcome = if w.sem = none then some (-1) else none := by
  unfold execStep at h
  rw [hpc] at h
  simp only [hinit, hvalid, and_self, if_true] at h
  split at h
  · next s hsem =>
    obtain rfl := Option.some.inj h
    rw [hsem, World.goto_pc_self]
    rfl
  · next hsem =>
    obtain rfl := Option.some.inj h
    rw [hsem, World.goto_pc_self]
    rfl

/-- A write goes on with the semaphore, and fails when the semaphore was removed. -/
theorem execStep_writeLock (h : execStep T file w p = some w') {k : WriteCall} {sem : Nat} (hpc : w.pc p = .writeLock k sem) :
    (w'.pc p).outcome = if w.wait sem = .failed then some (-1) else none := by
  unfold execStep at h
  rw [hpc] at h
  simp only at h
  split at h
  · next hwait =>
    obtain rfl := Option.some.inj h
    rw [hwait, World.goto_pc_self]
    rfl
  · cases h
  · next hwait =>
    obtain rfl := Option.some.inj h
    rw [hwait, World.goto_pc_self]
    rfl

omit [DecidableEq ι] in
theorem Orderly.memory_eq (hi : Orderly T file w) (hin : (w.pc p).inside = true) {d : Cache} (hd : w.memory.promised = some d) :
    w.memory = .mapped (some d) d := hi.steady (hi.not_filling hin) d hd

/-- A write puts the value into the memory, and into what may be counted on. -/
theorem Orderly.writeVal (hi : Orderly T file w) (h : execStep T file w p = some w') {k : WriteCall} {sem : Nat}
    (hpc : w.pc p = .writeVal k sem) {d d' : Cache} (hd : w.memory.promised = some d) (hrun : k.run T d = .done (0, d')) :
    w'.memory.promised = some d' ∧ w'.pc p = .writeUnlock sem 0 := by
  have hmem := hi.memory_eq (p := p) (by rw [hpc]; rfl) hd
  unfold execStep at h
  rw [hpc] at h
  simp only [writeMemory, hmem, hrun, Option.map_some, WriteCall.onPromised] at h
  obtain rfl := Option.some.inj h
  exact ⟨rfl, World.goto_pc_self _ _ _⟩

/-- **An undisturbed step** does what is promised. -/
theorem Orderly.survives (hi : Orderly T file w) (hg : Undisturbed T file w p) (h : execStep T file w p = some w') :
    Survives T w p w' := by
  refine ⟨fun k d val hk hinit hd hrun => ?_, fun k d hk hinit hd hfinds ret hret => ?_, fun k sem d hpc hd ⟨d', hrun⟩ => ?_,
    fun d hwrite hd => ?_⟩
  · cases hpc : w.pc p <;> rw [hpc] at hk <;> simp only [LibPc.readsNow, Option.some.injEq, reduceCtorEq] at hk
    case read =>
      subst hk
      simp only [execStep, hpc, hinit, if_true] at h
      obtain rfl := Option.some.inj h
      exact Or.inl (World.goto_pc_self _ _ _)
    case reading =>
      subst hk
      have hmem := hi.memory_eq (p := p) (by rw [hpc]; rfl) hd
      simp only [execStep, hpc, readMemory, hmem, hrun] at h
      obtain rfl := Option.some.inj h
      exact Or.inr (World.goto_pc_self _ _ _)
  · unfold Undisturbed at hg
    cases hpc : w.pc p <;> rw [hpc] at hk <;> simp only [LibPc.writing, Option.some.injEq, reduceCtorEq] at hk
    case writeGet =>
      subst hk
      rw [hpc] at hg
      rw [execStep_writeGet h hpc hinit hfinds.valid, if_neg (hg hinit d hd hfinds)] at hret
      cases hret
    case writeLock =>
      subst hk
      rw [hpc] at hg
      rw [execStep_writeLock h hpc, if_neg (hg.1 hinit d hd hfinds)] at hret
      cases hret
    case writeVal =>
      subst hk
      obtain ⟨d', hrun⟩ := hfinds
      rw [(hi.writeVal h hpc hd hrun).2] at hret
      exact (Option.some.inj hret).symm
  · exact ⟨d', (hi.writeVal h hpc hd hrun).1, WriteCall.read_back hrun⟩
  · cases execStep_memory h with
    | nothing _ _ hmem _ _ _ => exact ⟨d, hmem ▸ hd, fun _ => rfl⟩
    | begun _ _ hw => exact ⟨d, hw ▸ hd, fun _ => rfl⟩
    | filled _ hmem _ hw =>
      rw [hmem] at hd
      exact ⟨d, hw ▸ hd, fun _ => rfl⟩
    | refused _ _ _ hw => exact ⟨d, hw ▸ hd, fun _ => rfl⟩
    | @loaded sem first s promised c hpc hmem hw =>
      obtain ⟨f, -, promised', hmem', hload, hsame⟩ := hi.underWay p _ _ _ _ hpc
      obtain ⟨rfl, rfl⟩ := Segment.mapped.inj (hmem.symm.trans hmem')
      rw [hmem] at hd
      exact ⟨s.cache, hw ▸ rfl, hsame d hd _ hload.symm⟩
    | written hpc _ _ _ => exact absurd hpc (hwrite _ _)

end

/-- A file with one parameter. -/
def lanFile : List Char := "[lan]\nlan_ip=1\n".toList

/-- Another value for the parameter. -/
def writeLan : WriteCall := ⟨.parameter 1 1, "2".toList⟩

/-- The steps of two processes, with this table and file. -/
def lanStep (w : World (Fin 3)) (a : LibAct (Fin 3)) : Option (World (Fin 3)) := libStep entityInfoArray (some lanFile) w a

/-- A process enters a call and makes so many steps. -/
def callSteps (p : Fin 3) (c : LibCall) (steps : Nat) : List (LibAct (Fin 3)) := .call p c :: List.replicate steps (.exec p)

/-- One process starts, and a second one up to its load. -/
def twoStarts : List (LibAct (Fin 3)) := callSteps 0 .initLibrary 12 ++ callSteps 1 .initLibrary 5

/-- The second one goes on, and leaves the semaphore; the first one writes, and the second one reads. -/
def writeAndRead : List (LibAct (Fin 3)) :=
  List.replicate 4 (.exec 1) ++ callSteps 0 (.write writeLan) 4 ++ callSteps 1 (.read (.parameter 1 1)) 2

/-- A check for a step to be undisturbed, when no table is there yet. -/
def calm (w : World (Fin 3)) : LibAct (Fin 3) → Bool
  | .call _ _ => true
  | .exec p =>
    match w.pc p with
    | .writeGet _ => w.sem.isSome
    | .writeLock _ sem => w.wait sem = .taken ∧ ∀ q, (w.pc q).filling = false
    | .loadCache _ _ => (∀ q, (w.pc q).filling = false ∧ (w.pc q).inside = false) ∧ w.memory.promised.isNone
    | .read _ => ∀ q, (w.pc q).filling = false
    | _ => true

theorem undisturbed_of_calm {T : EntityTable} {file : Option (List Char)} {w : World (Fin 3)} {a : LibAct (Fin 3)} (h : calm w a = true) :
    UndisturbedAct T file w a := by
  rintro p rfl
  unfold calm at h
  unfold Undisturbed
  dsimp only at h
  split at h
  · intro _ _ _ _ hnone
    simp [hnone] at h
  all_goals simp_all

theorem meets_of_calm {acts : List (LibAct (Fin 3))} {w : World (Fin 3)} (h : ∀ x ∈ (play lanStep w acts).1, calm x.1 x.2.1 = true) :
    Meets (UndisturbedAct entityInfoArray (some lanFile)) (play lanStep w acts).1 :=
  fun x hx => undisturbed_of_calm (h x hx)

/-- The second process finds the values of the file in the memory. -/
theorem loaded_twoStarts : ∃ c, buildParaTable entityInfoArray lanFile = .done (some c) ∧
    (play lanStep World.start twoStarts).2.memory.promised = some c := ⟨_, rfl, rfl⟩

/-- Its load is undisturbed. -/
theorem undisturbed_second : UndisturbedAct entityInfoArray (some lanFile) (play lanStep World.start twoStarts).2 (.exec 1) := by
  intro p hp
  obtain rfl := LibAct.exec.inj hp
  have hpc : (play lanStep World.start twoStarts).2.pc 1 = .loadCache 1 false := rfl
  have hnone : ∀ q, ((play lanStep World.start twoStarts).2.pc q).filling = false ∧
      ((play lanStep World.start twoStarts).2.pc q).inside = false := by decide +kernel
  unfold Undisturbed
  rw [hpc]
  refine ⟨hnone, fun d hd f hf c hc => ?_⟩
  obtain ⟨c₀, hload, hmem⟩ := loaded_twoStarts
  obtain rfl := Option.some.inj (hmem.symm.trans hd)
  obtain rfl := Option.some.inj hf
  obtain rfl := Option.some.inj (Outcome.done.inj (hload.symm.trans hc))
  exact fun _ => rfl

theorem survives_around {acts : List (LibAct (Fin 3))} (acts' : List (LibAct (Fin 3))) {a : LibAct (Fin 3)} {w : World (Fin 3)}
    (hstep : lanStep (play lanStep World.start acts).2 a = some w)
    (hmid : UndisturbedAct entityInfoArray (some lanFile) (play lanStep World.start acts).2 a)
    (hbefore : ∀ x ∈ (play lanStep World.start acts).1, calm x.1 x.2.1 = true)
    (hafter : ∀ x ∈ (play lanStep w acts').1, calm x.1 x.2.1 = true) :
    ∃ tr, Run (Step.ofOption lanStep) World.start tr (play lanStep w acts').2 ∧ Meets (UndisturbedAct entityInfoArray (some lanFile)) tr :=
  ⟨_, ((Run.ofPlay lanStep World.start acts).snoc hstep).append (Run.ofPlay lanStep w acts'),
    List.forall_mem_append.2 ⟨meets_snoc.2 ⟨meets_of_calm hbefore, hmid⟩, meets_of_calm hafter⟩⟩

/-- A process starts and writes. -/
def oneStart : List (LibAct (Fin 3)) := callSteps 0 .initLibrary 12 ++ callSteps 0 (.write writeLan) 1

/-- A third process starts behind a write. -/
def thirdStart (steps : Nat) : List (LibAct (Fin 3)) := twoStarts ++ [.exec 1] ++ writeAndRead ++ callSteps 2 .initLibrary steps

/-- The second one reads while it fills the memory. -/
def readWithin : List (LibAct (Fin 3)) := thirdStart 6 ++ callSteps 1 (.read (.parameter 1 1)) 2

/-- The run of these steps breaks what is promised. -/
def Fails (acts : List (LibAct (Fin 3))) : Prop :=
  Run (Step.ofOption lanStep) World.start (play lanStep World.start acts).1 (play lanStep World.start acts).2 ∧
    ¬Always (SurvivesAct entityInfoArray) (play lanStep World.start acts).1

end CodeFactory.Conf
