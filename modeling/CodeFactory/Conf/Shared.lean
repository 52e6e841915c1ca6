import CodeFactory.Conf.LoadSafety

/-!
# Processes that share the configuration

`config_api_init_library`, `config_api_uninit_library` and the calls that read and write a parameter, of any number of processes
with one semaphore and one shared memory. A step is one call of the kernel, or what a process does to the memory: a load clears it and
then fills it line by line, a read begins and ends, a value is written. The calls of the processes interleave at these steps, and a
read takes no lock.
-/

namespace CodeFactory.Conf

open Cache

/-! ## What the processes share -/

/-- A semaphore of the kernel: the identifier that `semget` gives, and the value. -/
structure Sem where
  semId : Nat
  val : Nat
  deriving DecidableEq, Repr

/-- The shared memory: not created yet, or its nodes. Beside them is kept, and read by no step, the table that an initialised process
may count on: the one that the last load left, with what was written since. -/
inductive Segment where
  | absent
  | mapped (promised : Option Cache) (c : Cache)

/-- Whether `shmget` does not find the memory. -/
def Segment.isAbsent : Segment → Bool
  | .absent => true
  | _ => false

/-- The table that an initialised process may count on. -/
def Segment.promised : Segment → Option Cache
  | .absent => none
  | .mapped promised _ => promised

/-- A call that reads a parameter. -/
inductive ReadCall where
  | parameter (appIndex paraIndex : Int)
  | tableParameter (appIndex rowIndex paraIndex : Int)

/-- A call that writes a parameter: which one, and the value. -/
structure WriteCall where
  target : ReadCall
  val : List Char

/-- `config_api_read_table_parameter`: the value that is copied to the result, if it succeeds. -/
def Cache.configApiReadTableParameter (T : EntityTable) (c : Cache) (appIndex rowIndex paraIndex : Int) :
    Outcome (Option (List Char)) :=
  if T.ValidApp appIndex then
    (c.findApp T appIndex).bind fun
    | none => .done none
    | some a =>
      (c.findRow T a (getRowId appIndex rowIndex)).bind fun
      | none => .done none
      | some r =>
        (c.findPara T (c.row r).para (getParaId appIndex rowIndex paraIndex)).map fun p => p.map fun p => (c.para p).paraVal
  else .done none

/-- What a read of the memory gives. -/
def ReadCall.run (T : EntityTable) (c : Cache) : ReadCall → Outcome (Option (List Char))
  | .parameter appIndex paraIndex => c.configApiReadParameter T appIndex paraIndex
  | .tableParameter appIndex rowIndex paraIndex => c.configApiReadTableParameter T appIndex rowIndex paraIndex

/-- What a write returns, and the memory behind it. -/
def WriteCall.run (T : EntityTable) (c : Cache) (k : WriteCall) : Outcome (Int × Cache) :=
  match k.target with
  | .parameter appIndex paraIndex => c.configApiWriteParameter T appIndex paraIndex k.val
  | .tableParameter appIndex rowIndex paraIndex => c.configApiWriteTableParameter T appIndex rowIndex paraIndex k.val

/-- The application that a call names. -/
def ReadCall.appIndex : ReadCall → Int
  | .parameter appIndex _ => appIndex
  | .tableParameter appIndex _ _ => appIndex

/-! ## Where a process is -/

/-- A call of the library. -/
inductive LibCall where
  | initLibrary
  | uninitLibrary
  | read (k : ReadCall)
  | write (k : WriteCall)

/-- The next step of a process. The steps of `config_api_init_library` come first, then those of `uninit_cache_lock`, of
`config_api_uninit_library`, and of the reads and writes. A process that is in no call has what the last one returned. -/
inductive LibPc where
  | idle (ret : Int) (result : List Char)
  | createLock
  | existsLock
  | setLock (sem : Nat)
  | getLock
  | lockCache (sem : Nat)
  | checkCache (sem : Nat)
  | loadCache (sem : Nat) (first : Bool)
  | fillCache (sem : Nat) (first : Bool) (s : LoadState) (lines : List ConfLine)
  | leave (sem : Nat) (ret : Int) (remove : Bool)
  | getRemoved (ret : Int)
  | removeLock (sem : Nat) (ret : Int)
  | detach
  | read (k : ReadCall)
  | reading (k : ReadCall)
  | writeGet (k : WriteCall)
  | writeLock (k : WriteCall) (sem : Nat)
  | writeVal (k : WriteCall) (sem : Nat)
  | writeUnlock (sem : Nat) (ret : Int)

/-- The first step of a call. -/
def LibCall.start : LibCall → LibPc
  | .initLibrary => .createLock
  | .uninitLibrary => .detach
  | .read k => .read k
  | .write k => .writeGet k

/-- The kernel and the processes. -/
structure World (ι : Type*) where
  sem : Option Sem
  semNext : Nat
  memory : Segment
  cacheAddr : ι → Bool
  pc : ι → LibPc

/-- How `semop` with `-1` ends, or that it waits. -/
inductive SemWait where
  | taken
  | waiting
  | failed
  deriving DecidableEq

namespace World

variable {ι : Type*}

/-- No process has called the library. -/
def start : World ι := ⟨none, 0, .absent, fun _ => false, fun _ => .idle 0 []⟩

variable [DecidableEq ι] (w : World ι)

/-- A process goes on. -/
def goto (p : ι) (pc : LibPc) : World ι := { w with pc := Function.update w.pc p pc }

/-- `semop` with `-1`: it fails when the semaphore was removed. -/
def wait (sem : Nat) : SemWait :=
  match w.sem with
  | none => .failed
  | some s => if s.semId = sem then if s.val = 0 then .waiting else .taken else .failed

/-- The semaphore is taken. -/
def lock : World ι := { w with sem := w.sem.map fun s => ⟨s.semId, s.val - 1⟩ }

/-- `semop` with `1`; what it returns is not looked at. -/
def unlock (sem : Nat) : World ι := { w with sem := w.sem.map fun s => if s.semId = sem then ⟨s.semId, s.val + 1⟩ else s }

/-- `semctl` with `IPC_RMID`. -/
def remove (sem : Nat) : World ι := { w with sem := w.sem.filter fun s => s.semId != sem }

@[simp] theorem goto_memory (p : ι) (pc : LibPc) : (w.goto p pc).memory = w.memory := rfl

@[simp] theorem goto_cacheAddr (p : ι) (pc : LibPc) : (w.goto p pc).cacheAddr = w.cacheAddr := rfl

@[simp] theorem goto_sem (p : ι) (pc : LibPc) : (w.goto p pc).sem = w.sem := rfl

@[simp] theorem goto_semNext (p : ι) (pc : LibPc) : (w.goto p pc).semNext = w.semNext := rfl

@[simp] theorem goto_pc_self (p : ι) (pc : LibPc) : (w.goto p pc).pc p = pc := by
  simp [goto]

theorem goto_pc_of_ne {p q : ι} (h : q ≠ p) (pc : LibPc) : (w.goto p pc).pc q = w.pc q := by
  simp [goto, h]

end World

/-! ## The steps -/

/-- A process that is in no call enters one, or a process makes its next step. -/
inductive LibAct (ι : Type*) where
  | call (p : ι) (c : LibCall)
  | exec (p : ι)

section

variable {ι : Type*} [DecidableEq ι] (T : EntityTable) (file : Option (List Char))

/-- The beginning of `init_library`, with the file that `open_para_file` finds: the memory is cleared and formatted. -/
def initLibrary (w : World ι) (p : ι) (sem : Nat) (first : Bool) : World ι :=
  match file with
  | none => w.goto p (.leave sem (-1) true)
  | some file =>
    { w with memory := .mapped w.memory.promised (initNode T) }.goto p (.fillCache sem first (.start T) (confLines file))

/-- A round of the loop of `build_para_table`, on the nodes as they are now; behind the last line the process has the memory. -/
def fillMemory (w : World ι) (p : ι) (sem : Nat) (first : Bool) (s : LoadState) (lines : List ConfLine) : Option (World ι) :=
  match w.memory, lines with
  | .absent, _ => none
  | .mapped _ c, [] =>
    some ({ w with memory := .mapped (some c) c, cacheAddr := Function.update w.cacheAddr p true }.goto p (.leave sem 0 first))
  | .mapped promised c, line :: lines =>
    match ({ s with cache := c } : LoadState).loadLine T line with
    | .done (some s) => some ({ w with memory := .mapped promised s.cache }.goto p (.fillCache sem first s lines))
    | .done none => some (w.goto p (.leave sem (-1) true))
    | _ => none

/-- The read of a process that has the memory. -/
def readMemory (w : World ι) (p : ι) (k : ReadCall) : Option (World ι) :=
  match w.memory with
  | .mapped _ c =>
    match k.run T c with
    | .done (some val) => some (w.goto p (.idle 0 val))
    | .done none => some (w.goto p (.idle (-1) []))
    | _ => none
  | .absent => none

/-- What may be counted on behind a write. -/
def WriteCall.onPromised (k : WriteCall) (d : Cache) : Cache :=
  match k.run T d with
  | .done (_, d') => d'
  | _ => d

/-- The write of a process that has the semaphore. -/
def writeMemory (w : World ι) (p : ι) (k : WriteCall) (sem : Nat) : Option (World ι) :=
  match w.memory with
  | .mapped promised c =>
    match k.run T c with
    | .done (ret, c') => some ({ w with memory := .mapped (promised.map (k.onPromised T)) c' }.goto p (.writeUnlock sem ret))
    | _ => none
  | .absent => none

/-- The next step of a process. There is none while it waits for the semaphore. -/
def execStep (w : World ι) (p : ι) : Option (World ι) :=
  match w.pc p with
  | .idle _ _ => none
  | .createLock =>
    match w.sem with
    | none => some ({ w with sem := some ⟨w.semNext, 0⟩, semNext := w.semNext + 1 }.goto p (.setLock w.semNext))
    | some _ => some (w.goto p .existsLock)
  | .existsLock => some (w.goto p (if w.sem.isSome then .getLock else .idle (-1) []))
  | .setLock sem =>
    if ∃ s ∈ w.sem, s.semId = sem then some ({ w with sem := some ⟨sem, 1⟩ }.goto p .getLock)
    else some (w.goto p (.idle (-1) []))
  | .getLock =>
    match w.sem with
    | some s => some (w.goto p (.lockCache s.semId))
    | none => some (w.goto p (.idle (-1) []))
  | .lockCache sem =>
    match w.wait sem with
    | .taken => some (w.lock.goto p (.checkCache sem))
    | .waiting => none
    | .failed => some (w.goto p (.getRemoved (-1)))
  | .checkCache sem => some (w.goto p (if w.cacheAddr p then .leave sem 0 true else .loadCache sem w.memory.isAbsent))
  | .loadCache sem first => some (initLibrary T file w p sem first)
  | .fillCache sem first s lines => fillMemory T w p sem first s lines
  | .leave sem ret remove => some ((w.unlock sem).goto p (if remove then .getRemoved ret else .idle ret []))
  | .getRemoved ret =>
    match w.sem with
    | some s => some (w.goto p (.removeLock s.semId ret))
    | none => some (w.goto p (.idle ret []))
  | .removeLock sem ret => some ((w.remove sem).goto p (.idle ret []))
  | .detach => some ({ w with cacheAddr := Function.update w.cacheAddr p false }.goto p (.getRemoved 0))
  | .read k => some (w.goto p (if w.cacheAddr p then .reading k else .idle (-1) []))
  | .reading k => readMemory T w p k
  | .writeGet k =>
    if w.cacheAddr p ∧ T.ValidApp k.target.appIndex then
      match w.sem with
      | some s => some (w.goto p (.writeLock k s.semId))
      | none => some (w.goto p (.idle (-1) []))
    else some (w.goto p (.idle (-1) []))
  | .writeLock k sem =>
    match w.wait sem with
    | .taken => some (w.lock.goto p (.writeVal k sem))
    | .waiting => none
    | .failed => some (w.goto p (.idle (-1) []))
  | .writeVal k sem => writeMemory T w p k sem
  | .writeUnlock sem ret => some ((w.unlock sem).goto p (.idle ret []))

/-- One step of one process. -/
def libStep (w : World ι) : LibAct ι → Option (World ι)
  | .call p c =>
    match w.pc p with
    | .idle _ _ => some (w.goto p c.start)
    | _ => none
  | .exec p => execStep T file w p

end

end CodeFactory.Conf
