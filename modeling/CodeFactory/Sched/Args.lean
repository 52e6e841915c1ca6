import CodeFactory.Lib.Machine
import CodeFactory.Lib.Words
import CodeFactory.Oal.TcmRet
import Mathlib.Algebra.Ring.Nat
import Mathlib.Data.List.ReduceOption

/-!
# The arguments of a process

`parseArgs` of `prctl.c`. A string is its characters, without the null behind them; a buffer is its bytes, and the vector its entries,
null pointers or buffers. A write behind the end of a buffer or of the vector is undefined, and so is a read behind the end of the
vector.
-/

namespace CodeFactory.Sched

open Oal
open Words (words IsWord Ends)

/-- A buffer for a string. -/
structure Buffer where
  block : Nat
  bytes : List Char
  deriving DecidableEq, Repr

/-- The vector of the arguments. -/
structure ArgVector where
  block : Nat
  entries : List (Option Buffer)
  deriving DecidableEq, Repr

/-- `tcmMem_alloc` with `ALLOC_ZEROIZE`, for a buffer. The size has 32 bits. -/
def tcmMemAlloc (malloc : Nat → Bool) (size : Nat) (heap : Heap) : Option Buffer × Heap :=
  let (block, heap) := heap.alloc malloc
  (block.map fun b => ⟨b, List.replicate (size % 2 ^ 32) '\x00'⟩, heap)

/-- `tcmMem_alloc` with `ALLOC_ZEROIZE`, for a vector of `numArgs` pointers. -/
def allocVector (m : DataModel) (malloc : Nat → Bool) (numArgs : Nat) (heap : Heap) : Option ArgVector × Heap :=
  let (block, heap) := heap.alloc malloc
  (block.map fun b => ⟨b, List.replicate (numArgs * m.sizeofPointer % 2 ^ 32 / m.sizeofPointer) none⟩, heap)

/-- `strcpy` and `memcpy` to the start of a buffer. -/
def Buffer.copy (buf : Buffer) (s : List Char) : Outcome Buffer :=
  if s.length ≤ buf.bytes.length then .done { buf with bytes := s ++ buf.bytes.drop s.length } else .undefined

/-- `argv[i] = p`. -/
def ArgVector.put (v : ArgVector) (i : Nat) (p : Option Buffer) : Outcome ArgVector :=
  if i < v.entries.length then .done { v with entries := v.entries.set i p } else .undefined

/-- The loop of `freeArgs`. -/
def freeEntries : List (Option Buffer) → Heap → Outcome Heap
  | [], _ => .undefined
  | none :: _, heap => .done heap
  | some buf :: entries, heap => (heap.free buf.block).bind (freeEntries entries)

def freeArgs (v : ArgVector) (heap : Heap) : Outcome Heap := (freeEntries v.entries heap).bind fun heap => heap.free v.block

/-- The loop that checks what was done. -/
def checkEntries : List (Option Buffer) → Outcome Unit
  | [] => .undefined
  | none :: _ => .done ()
  | some _ :: entries => checkEntries entries

/-- The loop that counts the arguments. -/
def countArgs : List Char → (numArgs : Nat) → (inSpace : Bool) → Nat
  | [], numArgs, _ => numArgs
  | c :: s, numArgs, inSpace => if c = ' ' ∧ !inSpace then countArgs s (numArgs + 1) true else countArgs s numArgs false

/-- The vector so far, and where the next argument goes. -/
structure ArgState where
  array : ArgVector
  argIndex : Nat
  heap : Heap

/-- Allocate a buffer of `size` bytes for the next argument and write `s` to it, or free everything. -/
def addArg (malloc : Nat → Bool) (size : Nat) (s : List Char) (st : ArgState) : Outcome (Except Heap ArgState) :=
  let (buf, heap) := tcmMemAlloc malloc size st.heap
  (st.array.put st.argIndex buf).bind fun array =>
    match buf with
    | none => (freeArgs array heap).map .error
    | some buf =>
      (buf.copy s).bind fun buf => (array.put st.argIndex (some buf)).map fun array => .ok ⟨array, st.argIndex + 1, heap⟩

/-- The loop that cuts the arguments out. (The count of the arguments goes on in it, and nothing reads that.) -/
def cutArgs (malloc : Nat → Bool) : List Char → (inSpace : Bool) → ArgState → Outcome (Except Heap ArgState)
  | [], _, st => .done (.ok st)
  | c :: s, inSpace, st =>
    if c = ' ' ∧ !inSpace then cutArgs malloc s true st
    else if c ≠ ' ' ∧ inSpace then
      let arg := (c :: s).takeWhile (· ≠ ' ')
      (addArg malloc (arg.length + 1) arg st).andThen (cutArgs malloc s false)
    else cutArgs malloc s inSpace st

def strrchr (c : Char) : List Char → Option (List Char)
  | [] => none
  | d :: s => (strrchr c s).or (if d = c then some (d :: s) else none)

/-- The command name, the last part of the path. -/
def cmdStr (cmd : List Char) : List Char :=
  match strrchr '/' cmd with
  | none => cmd
  | some p => p.tail

/-- The characters that the loops look at: the length has 32 bits. -/
def scanned (args : Option (List Char)) : List Char :=
  match args with
  | none => []
  | some s => s.take (s.length % 2 ^ 32)

/-- `parseArgs`, with the vector that it gives. -/
def parseArgs (m : DataModel) (malloc : Nat → Bool) (cmd : List Char) (args : Option (List Char)) (heap : Heap) :
    Outcome (TcmRet × Option ArgVector × Heap) :=
  match allocVector m malloc (countArgs (scanned args) 3 true) heap with
  | (none, heap) => .done (.resourceExceeded, none, heap)
  | (some array, heap) =>
    ((addArg malloc ((cmdStr cmd).length + 1) (cmdStr cmd ++ ['\x00']) ⟨array, 0, heap⟩).andThen (cutArgs malloc (scanned args) true)).bind
      fun
      | .error heap => .done (.resourceExceeded, none, heap)
      | .ok st => (checkEntries st.array.entries).map fun _ => (.success, some st.array, st.heap)

/-! ## The loops -/

/-- What stands between arguments. -/
def isSpace (c : Char) : Bool := c = ' '

variable {malloc : Nat → Bool} {s w : List Char} {st : ArgState}

theorem isSpace_iff {c : Char} : isSpace c = true ↔ c = ' ' := by
  simp [isSpace]

theorem isSpace_eq_false_iff {c : Char} : isSpace c = false ↔ c ≠ ' ' := by
  simp [isSpace]

/-- Cutting out goes over the rest of a word that has been cut out. -/
theorem cutArgs_append (hw : ∀ c ∈ w, isSpace c = false) (s : List Char) (st : ArgState) :
    cutArgs malloc (w ++ s) false st = cutArgs malloc s false st := by
  induction w with
  | nil => rfl
  | cons c w ih =>
    rw [List.forall_mem_cons] at hw
    rw [List.cons_append, cutArgs, if_neg fun h => isSpace_eq_false_iff.1 hw.1 h.1, if_neg (by simp), ih hw.2]

/-- Counting goes over a word. -/
theorem countArgs_append (hw : IsWord isSpace w) (numArgs : Nat) (inSpace : Bool) :
    countArgs (w ++ s) numArgs inSpace = countArgs s numArgs false := by
  obtain ⟨hne, hw⟩ := hw
  induction w generalizing inSpace with
  | nil => exact absurd rfl hne
  | cons c w ih =>
    rw [List.forall_mem_cons] at hw
    rw [List.cons_append, countArgs, if_neg fun h => isSpace_eq_false_iff.1 hw.1 h.1]
    cases w with
    | nil => rfl
    | cons d w => exact ih false (List.cons_ne_nil d w) hw.2

theorem cutArgs_of_ends (hs : Ends isSpace s) (st : ArgState) : cutArgs malloc s false st = cutArgs malloc s true st := by
  cases s with
  | nil => rfl
  | cons c s =>
    have hc := isSpace_iff.1 (hs c rfl)
    rw [cutArgs, cutArgs, if_pos ⟨hc, rfl⟩, if_neg (by simp), if_neg fun h => h.1 hc]

theorem takeWhile_append (hw : ∀ c ∈ w, isSpace c = false) (hs : Ends isSpace s) : (w ++ s).takeWhile (· ≠ ' ') = w := by
  rw [List.takeWhile_append_of_pos fun c hc => by simpa using isSpace_eq_false_iff.1 (hw c hc)]
  cases s with
  | nil => simp
  | cons c s => simp [isSpace_iff.1 (hs c rfl)]

/-- **Cutting out goes over the words.** -/
theorem cutArgs_eq (s : List Char) (st : ArgState) :
    cutArgs malloc s true st = Outcome.forEach (fun w => addArg malloc (w.length + 1) w) (words isSpace s) st := by
  induction s using Words.scan isSpace generalizing st with
  | nil => rfl
  | separator c s hc ih =>
    have hspace := isSpace_iff.1 hc
    rw [Words.words_cons_sep hc, cutArgs, if_neg (by simp), if_neg fun h => h.1 hspace, ih]
  | word w s hw hs ih =>
    have htake := takeWhile_append hw.2 hs
    obtain ⟨c, w, rfl⟩ := List.exists_cons_of_ne_nil hw.1
    have hc := isSpace_eq_false_iff.1 (hw.2 c List.mem_cons_self)
    have hrest : ∀ st, cutArgs malloc (w ++ s) false st = cutArgs malloc s true st := fun st => by
      rw [cutArgs_append (fun d hd => hw.2 d (List.mem_cons_of_mem _ hd)), cutArgs_of_ends hs]
    rw [Words.words_append hw hs, Outcome.forEach, List.cons_append, cutArgs, if_neg fun h => hc h.1, if_pos ⟨hc, rfl⟩]
    simp only [List.cons_append] at htake
    simp only [htake]
    exact congrArg _ (funext fun st => (hrest st).trans (ih st))

/-! ## The vector -/

/-- The base name of a path: what is behind the last slash, or all where there is none. -/
def IsBaseName (cmd name : List Char) : Prop := '/' ∉ name ∧ (name = cmd ∨ ∃ dir, cmd = dir ++ '/' :: name)

/-- The entries are strings, each with its null, and null pointers behind them. -/
def ArgVector.Holds (v : ArgVector) (texts : List (List Char)) : Prop :=
  ∃ n, v.entries.map (Option.map Buffer.bytes) = texts.map (fun t => some (t ++ ['\x00'])) ++ List.replicate (n + 1) none

/-- The blocks of the vector and of its buffers. -/
def ArgVector.blocks (v : ArgVector) : Multiset Nat := ↑(v.entries.reduceOption.map Buffer.block) + {v.block}

/-- Where the allocations succeed, the vector is the base name of the command, the words of the string and a null pointer; where one
fails, nothing is allocated that was not before. Nothing is written outside. -/
def Exact (m : DataModel) (cmd : List Char) (args : Option (List Char)) : Prop :=
  ∃ name, IsBaseName cmd name ∧ ∀ (malloc : Nat → Bool) (heap : Heap),
    (∃ v heap', parseArgs m malloc cmd args heap = .done (.success, some v, heap') ∧
      v.Holds (name :: words isSpace (args.getD [])) ∧ heap'.live = v.blocks + heap.live) ∨
    ∃ heap', parseArgs m malloc cmd args heap = .done (.resourceExceeded, none, heap') ∧ Heap.FailedBetween malloc heap heap' ∧
      heap'.live = heap.live

/-- The number of entries that are allocated. -/
def room (m : DataModel) (args : Option (List Char)) : Nat :=
  countArgs (scanned args) 3 true * m.sizeofPointer % 2 ^ 32 / m.sizeofPointer

/-- The vector so far: buffers with the arguments so far, and null pointers behind them. -/
structure Filled (L : Multiset Nat) (texts : List (List Char)) (bufs : List Buffer) (n : Nat) (st : ArgState) : Prop where
  entries : st.array.entries = bufs.map some ++ List.replicate n none
  argIndex : st.argIndex = bufs.length
  bytes : bufs.map Buffer.bytes = texts.map (· ++ ['\x00'])
  live : st.heap.live = ↑(bufs.map Buffer.block) + (st.array.block ::ₘ L)

variable {L : Multiset Nat} {texts ws : List (List Char)} {bufs : List Buffer} {n : Nat} {t : List Char}

theorem freeEntries_eq (bufs : List Buffer) (entries : List (Option Buffer)) {heap : Heap}
    (hlive : heap.live = ↑(bufs.map Buffer.block) + L) :
    freeEntries (bufs.map some ++ none :: entries) heap = .done ⟨heap.calls, L⟩ := by
  induction bufs generalizing heap with
  | nil =>
    rw [List.map_nil, Multiset.coe_nil, zero_add] at hlive
    subst hlive
    rfl
  | cons buf bufs ih =>
    rw [List.map_cons, ← Multiset.cons_coe, Multiset.cons_add] at hlive
    rw [List.map_cons, List.cons_append, freeEntries, Heap.free_of_live hlive, Outcome.bind_done, ih rfl]

theorem checkEntries_eq (bufs : List Buffer) (n : Nat) :
    checkEntries (bufs.map some ++ List.replicate n none) = if n = 0 then .undefined else .done () := by
  induction bufs with
  | nil => cases n <;> rfl
  | cons buf bufs ih => exact ih

theorem ArgVector.put_of_entries {v : ArgVector} (hv : v.entries = bufs.map some ++ List.replicate n none) (p : Option Buffer) :
    v.put bufs.length p =
      if n = 0 then .undefined else .done { v with entries := bufs.map some ++ p :: List.replicate (n - 1) none } := by
  rw [ArgVector.put, hv, List.length_append, List.length_map, List.length_replicate]
  cases n with
  | zero => rw [if_neg (by omega), if_pos rfl]
  | succ n =>
    rw [if_pos (by omega), if_neg (by omega), List.replicate_succ]
    simp

/-- A string, or one with its null, in a buffer that is one byte longer than the string. -/
theorem copy_eq {written : List Char} (hwritten : written = t ∨ written = t ++ ['\x00']) (b : Nat) :
    Buffer.copy ⟨b, List.replicate ((t.length + 1) % 2 ^ 32) '\x00'⟩ written =
      if t.length + 1 < 2 ^ 32 then .done ⟨b, t ++ ['\x00']⟩ else .undefined := by
  have hle : t.length ≤ written.length := by
    obtain rfl | rfl := hwritten
    · exact le_rfl
    · simp
  by_cases hlt : t.length + 1 < 2 ^ 32
  · rw [if_pos hlt, Nat.mod_eq_of_lt hlt, Buffer.copy]
    obtain rfl | rfl := hwritten
    · simp
    · simp
  · have hmod : (t.length + 1) % 2 ^ 32 < 2 ^ 32 := Nat.mod_lt _ (by decide)
    rw [if_neg hlt, Buffer.copy, List.length_replicate, if_neg]
    -- the size has wrapped around: it is not the length by one more, and smaller than it
    have hdiv := Nat.div_add_mod (t.length + 1) (2 ^ 32)
    omega

/-- Adding an argument where the allocation fails: all is freed. -/
theorem addArg_of_false (hst : Filled L texts bufs n st) (hm : malloc st.heap.calls = false) (size : Nat) (written : List Char) :
    addArg malloc size written st = if n = 0 then .undefined else .done (.error ⟨st.heap.calls + 1, L⟩) := by
  rw [addArg, tcmMemAlloc, Heap.alloc_of_false hm]
  dsimp only [Option.map_none]
  rw [hst.argIndex, ArgVector.put_of_entries hst.entries]
  by_cases hn : n = 0
  · rw [if_pos hn, if_pos hn]
    rfl
  · rw [if_neg hn, if_neg hn, Outcome.bind_done, freeArgs]
    dsimp only
    have hfree : freeEntries (bufs.map some ++ none :: List.replicate (n - 1) none) ⟨st.heap.calls + 1, st.heap.live⟩ =
        .done ⟨st.heap.calls + 1, st.array.block ::ₘ L⟩ := freeEntries_eq bufs _ hst.live
    rw [hfree, Outcome.bind_done, Heap.free_of_live rfl]
    rfl

/-- The state with one more argument. -/
def ArgState.push (st : ArgState) (bufs : List Buffer) (n : Nat) (t : List Char) : ArgState where
  array := ⟨st.array.block, (bufs ++ [Buffer.mk st.heap.calls (t ++ ['\x00'])]).map some ++ List.replicate (n - 1) none⟩
  argIndex := st.argIndex + 1
  heap := ⟨st.heap.calls + 1, st.heap.calls ::ₘ st.heap.live⟩

/-- Adding an argument where the allocation succeeds. -/
theorem addArg_of_true (hst : Filled L texts bufs n st) (hm : malloc st.heap.calls = true) {written : List Char}
    (hwritten : written = t ∨ written = t ++ ['\x00']) :
    addArg malloc (t.length + 1) written st =
      if n = 0 then .undefined else if t.length + 1 < 2 ^ 32 then .done (.ok (st.push bufs n t)) else .undefined := by
  rw [addArg, tcmMemAlloc, Heap.alloc_of_true hm]
  dsimp only [Option.map_some]
  rw [hst.argIndex, ArgVector.put_of_entries hst.entries]
  by_cases hn : n = 0
  · rw [if_pos hn, if_pos hn]
    rfl
  · rw [if_neg hn, if_neg hn, Outcome.bind_done, copy_eq hwritten]
    by_cases hlt : t.length + 1 < 2 ^ 32
    · rw [if_pos hlt, if_pos hlt, Outcome.bind_done, ArgVector.put, if_pos (by simp)]
      simp [Outcome.map, ArgState.push, hst.argIndex]
    · rw [if_neg hlt, if_neg hlt]
      rfl

theorem Filled.push (hst : Filled L texts bufs n st) (t : List Char) :
    Filled L (texts ++ [t]) (bufs ++ [⟨st.heap.calls, t ++ ['\x00']⟩]) (n - 1) (st.push bufs n t) where
  entries := rfl
  argIndex := by simp [ArgState.push, hst.argIndex]
  bytes := by simp [hst.bytes]
  live := by
    have hnew : (↑(bufs.map Buffer.block ++ [st.heap.calls]) : Multiset Nat) = st.heap.calls ::ₘ ↑(bufs.map Buffer.block) := by
      rw [Multiset.cons_coe, Multiset.coe_eq_coe]
      exact List.perm_append_singleton ..
    simp only [ArgState.push, List.map_append, List.map_cons, List.map_nil]
    rw [hnew, hst.live, Multiset.cons_add]

/-- The arguments that are added one after the other. -/
theorem addArgs_eq (hst : Filled L texts bufs n st) (ws : List (List Char)) (hroom : ws.length < n)
    (hlt : ∀ w ∈ ws, w.length + 1 < 2 ^ 32) :
    (∃ st' bufs', Outcome.forEach (fun w => addArg malloc (w.length + 1) w) ws st = .done (.ok st') ∧
      Filled L (texts ++ ws) bufs' (n - ws.length) st' ∧ st'.array.block = st.array.block ∧ st.heap.calls ≤ st'.heap.calls) ∨
    ∃ heap', Outcome.forEach (fun w => addArg malloc (w.length + 1) w) ws st = .done (.error heap') ∧
      Heap.FailedBetween malloc st.heap heap' ∧ heap'.live = L := by
  induction ws generalizing st texts bufs n with
  | nil =>
    refine .inl ⟨st, bufs, rfl, ?_, rfl, le_rfl⟩
    rwa [List.append_nil]
  | cons w ws ih =>
    rw [List.forall_mem_cons] at hlt
    rw [List.length_cons] at hroom ⊢
    rw [Outcome.forEach]
    cases hm : malloc st.heap.calls with
    | false =>
      rw [addArg_of_false hst hm, if_neg (by omega)]
      exact .inr ⟨_, rfl, ⟨_, le_rfl, Nat.lt_succ_self _, hm⟩, rfl⟩
    | true =>
      rw [addArg_of_true hst hm (.inl rfl), if_neg (by omega), if_pos hlt.1, Outcome.andThen_ok]
      obtain ⟨st', bufs', hrun, hst', hblock, hcalls⟩ | ⟨heap', hrun, hfailed, hlive⟩ := ih (hst.push w) (by omega) hlt.2
      · refine .inl ⟨st', bufs', hrun, ?_, hblock, (Nat.le_succ _).trans hcalls⟩
        rwa [List.append_assoc, List.singleton_append, Nat.sub_sub, Nat.add_comm 1] at hst'
      · exact .inr ⟨heap', hrun, hfailed.mono (Nat.le_succ _), hlive⟩

/-! ## The result -/

variable {m : DataModel} {cmd : List Char} {args : Option (List Char)} {heap : Heap}

theorem strrchr_eq_none_iff {c : Char} : strrchr c s = none ↔ c ∉ s := by
  induction s with
  | nil => simp [strrchr]
  | cons d s ih =>
    rw [strrchr, Option.or_eq_none_iff, ih]
    by_cases hd : d = c
    · simp [hd]
    · simp [hd, Ne.symm hd]

theorem eq_append_of_strrchr {c : Char} {p : List Char} (h : strrchr c s = some p) : ∃ dir q, s = dir ++ c :: q ∧ p = c :: q ∧ c ∉ q := by
  induction s with
  | nil => cases h
  | cons d s ih =>
    rw [strrchr, Option.or_eq_some_iff, strrchr_eq_none_iff] at h
    obtain h | ⟨hmem, h⟩ := h
    · obtain ⟨dir, q, rfl, hp, hq⟩ := ih h
      exact ⟨d :: dir, q, rfl, hp, hq⟩
    · by_cases hd : d = c
      · rw [if_pos hd] at h
        subst hd
        exact ⟨[], s, rfl, (Option.some.inj h).symm, hmem⟩
      · rw [if_neg hd] at h
        cases h

theorem isBaseName_cmdStr (cmd : List Char) : IsBaseName cmd (cmdStr cmd) := by
  rw [cmdStr]
  cases h : strrchr '/' cmd with
  | none => exact ⟨strrchr_eq_none_iff.1 h, .inl rfl⟩
  | some p =>
    obtain ⟨dir, q, hcmd, rfl, hq⟩ := eq_append_of_strrchr h
    exact ⟨hq, .inr ⟨dir, hcmd⟩⟩

theorem reduceOption_entries {α : Type} (xs : List α) (n : Nat) : (xs.map some ++ List.replicate n none).reduceOption = xs := by
  rw [List.reduceOption_append, List.reduceOption_replicate_none, List.append_nil]
  induction xs with
  | nil => rfl
  | cons x xs ih => rw [List.map_cons, List.reduceOption_cons_of_some, ih]

theorem Filled.holds (hst : Filled L texts bufs (n + 1) st) : st.array.Holds texts := by
  have hbytes := congrArg (List.map some) hst.bytes
  refine ⟨n, ?_⟩
  simp only [List.map_map] at hbytes
  simp only [hst.entries, List.map_append, List.map_map, List.map_replicate, Option.map_none]
  exact congrArg (· ++ _) hbytes

theorem Filled.live_eq (hst : Filled L texts bufs n st) : st.heap.live = st.array.blocks + L := by
  rw [hst.live, ArgVector.blocks, hst.entries, reduceOption_entries, Multiset.add_assoc, Multiset.singleton_add]

/-- The vector as it is allocated. -/
theorem filled_init (b n : Nat) (heap : Heap) :
    Filled heap.live [] [] n ⟨⟨b, List.replicate n none⟩, 0, ⟨heap.calls + 1, b ::ₘ heap.live⟩⟩ where
  entries := rfl
  argIndex := rfl
  bytes := rfl
  live := by simp

/-- `parseArgs` as a run over the words. -/
theorem parseArgs_eq (heap : Heap) (hm : malloc heap.calls = true) :
    parseArgs m malloc cmd args heap =
      ((addArg malloc ((cmdStr cmd).length + 1) (cmdStr cmd ++ ['\x00'])
          ⟨⟨heap.calls, List.replicate (room m args) none⟩, 0, ⟨heap.calls + 1, heap.calls ::ₘ heap.live⟩⟩).andThen
        (Outcome.forEach (fun w => addArg malloc (w.length + 1) w) (words isSpace (scanned args)))).bind fun
      | .error heap => .done (.resourceExceeded, none, heap)
      | .ok st => (checkEntries st.array.entries).map fun _ => (.success, some st.array, st.heap) := by
  rw [parseArgs, allocVector, Heap.alloc_of_true hm]
  simp only [Option.map_some]
  have hcut : cutArgs malloc (scanned args) true =
      Outcome.forEach (fun w => addArg malloc (w.length + 1) w) (words isSpace (scanned args)) := funext (cutArgs_eq _)
  rw [hcut]
  rfl

/-- The counting loop gives two more than there are words at least. -/
theorem length_words_le (s : List Char) :
    (∀ numArgs inSpace, (words isSpace s).length + numArgs ≤ countArgs s numArgs inSpace + 1) ∧
      (Ends isSpace s → ∀ numArgs, (words isSpace s).length + numArgs ≤ countArgs s numArgs false) := by
  induction s using Words.scan isSpace with
  | nil => exact ⟨fun _ _ => by simp [countArgs], fun _ _ => by simp [countArgs]⟩
  | separator c s hc ih =>
    have hspace := isSpace_iff.1 hc
    rw [Words.words_cons_sep hc]
    refine ⟨fun numArgs inSpace => ?_, fun _ numArgs => ?_⟩
    · cases inSpace with
      | true =>
        rw [countArgs, if_neg (by simp)]
        exact ih.1 numArgs false
      | false =>
        rw [countArgs, if_pos ⟨hspace, rfl⟩]
        have hrest := ih.1 (numArgs + 1) true
        omega
    · rw [countArgs, if_pos ⟨hspace, rfl⟩]
      have hrest := ih.1 (numArgs + 1) true
      omega
  | word w s hw hs ih =>
    have hskip : ∀ numArgs inSpace, countArgs (w ++ s) numArgs inSpace = countArgs s numArgs false := countArgs_append hw
    rw [Words.words_append hw hs, List.length_cons]
    refine ⟨fun numArgs inSpace => ?_, fun hends numArgs => ?_⟩
    · have hrest := ih.2 hs numArgs
      rw [hskip]
      omega
    · obtain ⟨c, w, rfl⟩ := List.exists_cons_of_ne_nil hw.1
      have hspace := hends c rfl
      rw [hw.2 c List.mem_cons_self] at hspace
      cases hspace

theorem countArgs_le (s : List Char) (numArgs : Nat) (inSpace : Bool) : countArgs s numArgs inSpace ≤ numArgs + s.length := by
  induction s generalizing numArgs inSpace with
  | nil => rfl
  | cons c s ih =>
    rw [countArgs, List.length_cons]
    split
    · have hrest := ih (numArgs + 1) true
      omega
    · have hrest := ih numArgs false
      omega

/-- The sizes of all that is allocated have 32 bits; the string has at most as many arguments as characters. -/
def Fits (m : DataModel) (cmd : List Char) (args : Option (List Char)) : Prop :=
  cmd.length + 1 < 2 ^ 32 ∧ ((args.getD []).length + 3) * m.sizeofPointer < 2 ^ 32

instance (m : DataModel) (cmd : List Char) (args : Option (List Char)) : Decidable (Fits m cmd args) :=
  inferInstanceAs (Decidable (_ ∧ _))

theorem length_cmdStr_le (cmd : List Char) : (cmdStr cmd).length ≤ cmd.length := by
  obtain ⟨-, hname | ⟨dir, hdir⟩⟩ := isBaseName_cmdStr cmd
  · rw [hname]
  · have hlength := congrArg List.length hdir
    rw [List.length_append, List.length_cons] at hlength
    omega

theorem one_le_sizeofPointer (m : DataModel) : 1 ≤ m.sizeofPointer := by cases m <;> decide

theorem Fits.length_lt (h : Fits m cmd args) : (args.getD []).length + 1 < 2 ^ 32 := by
  have hlength := (Nat.le_mul_of_pos_right ((args.getD []).length + 3) (one_le_sizeofPointer m)).trans_lt h.2
  omega

/-- **The vector has room for the words and two more**: the counting and the cutting agree. -/
theorem Fits.room (h : Fits m cmd args) :
    scanned args = args.getD [] ∧ (words isSpace (args.getD [])).length + 2 ≤ room m args := by
  have hpointer := one_le_sizeofPointer m
  have hlength := h.length_lt
  have hscanned : scanned args = args.getD [] := by
    cases args with
    | none => rfl
    | some s =>
      rw [Option.getD_some] at hlength
      rw [scanned, Nat.mod_eq_of_lt (by omega), List.take_length, Option.getD_some]
  have hcount := countArgs_le (args.getD []) 3 true
  have hsize : countArgs (args.getD []) 3 true * m.sizeofPointer < 2 ^ 32 :=
    (Nat.mul_le_mul_right _ (by omega)).trans_lt h.2
  refine ⟨hscanned, ?_⟩
  rw [Sched.room, hscanned, Nat.mod_eq_of_lt hsize, Nat.mul_div_cancel _ hpointer]
  have hwords := (length_words_le (args.getD [])).1 3 true
  omega

theorem length_le_of_mem_words {w : List Char} (h : w ∈ words isSpace s) : w.length ≤ s.length := by
  have hsub := List.sublist_flatten_of_mem h
  rw [Words.flatten_words] at hsub
  exact (hsub.trans List.filter_sublist).length_le

/-- What `parseArgs` gives where all fits. -/
theorem parseArgs_of_fits (h : Fits m cmd args) (malloc : Nat → Bool) (heap : Heap) :
    (∃ v heap', parseArgs m malloc cmd args heap = .done (.success, some v, heap') ∧
      v.Holds (cmdStr cmd :: words isSpace (args.getD [])) ∧ heap'.live = v.blocks + heap.live) ∨
    ∃ heap', parseArgs m malloc cmd args heap = .done (.resourceExceeded, none, heap') ∧ Heap.FailedBetween malloc heap heap' ∧
      heap'.live = heap.live := by
  obtain ⟨hscanned, hroom⟩ := h.room
  have hname : (cmdStr cmd).length + 1 < 2 ^ 32 := (Nat.succ_le_succ (length_cmdStr_le cmd)).trans_lt h.1
  have hlength := h.length_lt
  have hwords : ∀ w ∈ words isSpace (args.getD []), w.length + 1 < 2 ^ 32 :=
    fun w hw => (Nat.succ_le_succ (length_le_of_mem_words hw)).trans_lt hlength
  cases hm : malloc heap.calls with
  | false =>
    right
    rw [parseArgs, allocVector, Heap.alloc_of_false hm]
    exact ⟨_, rfl, ⟨_, le_rfl, Nat.lt_succ_self _, hm⟩, rfl⟩
  | true =>
    have hinit := filled_init heap.calls (room m args) heap
    rw [parseArgs_eq heap hm, hscanned]
    cases hm' : malloc (heap.calls + 1) with
    | false =>
      right
      rw [addArg_of_false hinit hm', if_neg (by omega)]
      exact ⟨_, rfl, ⟨_, Nat.le_succ _, Nat.lt_succ_self _, hm'⟩, rfl⟩
    | true =>
      rw [addArg_of_true hinit hm' (.inr rfl), if_neg (by omega), if_pos hname, Outcome.andThen_ok]
      obtain ⟨st, bufs, hrun, hst, -, -⟩ | ⟨heap', hrun, hfailed, hlive⟩ := addArgs_eq (hinit.push _) _ (by omega) hwords
      · left
        rw [List.nil_append, List.singleton_append] at hst
        obtain ⟨n, hn⟩ : ∃ n, room m args - 1 - (words isSpace (args.getD [])).length = n + 1 := ⟨_, (Nat.sub_add_cancel (by omega)).symm⟩
        rw [hn] at hst
        refine ⟨st.array, st.heap, ?_, hst.holds, hst.live_eq⟩
        rw [hrun, Outcome.bind_done]
        dsimp only
        rw [hst.entries, checkEntries_eq, if_neg (Nat.succ_ne_zero n)]
        rfl
      · right
        rw [hrun]
        exact ⟨heap', rfl, hfailed.mono (by simp [ArgState.push]; omega), hlive⟩

/-- **The vector is exact**, whatever is allocated and whichever allocations fail. (Both strings come from arrays of 1024 bytes.) -/
theorem argv_exact (h : Fits m cmd args) : Exact m cmd args :=
  ⟨cmdStr cmd, isBaseName_cmdStr cmd, parseArgs_of_fits h⟩

/-- A command and two arguments, with spaces in front of them and between. -/
theorem argv_exact_example : Exact .lp64 "/bin/tcmd".toList (some " -m  x ".toList) := argv_exact (by decide)

end CodeFactory.Sched
