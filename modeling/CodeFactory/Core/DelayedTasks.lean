import CodeFactory.Lib.Run
import CodeFactory.Tr69.Text

/-!
# Delayed tasks

Each delayed Download, Upload and ScheduleInform has a file in `PAL_TMP_TASK_DIR`, with an index in its name. While the agent runs an
index is handed out by counting on; when it is started, `init_delay_events` rebuilds the tasks and the counters from the files.
Files are written and deleted without an error, and `malloc` succeeds.
-/

namespace CodeFactory.Core

open Tr69 (Text decimal stringToNum notMem_decimal_of decimal_injective)

/-- The three kinds of delayed tasks, of which each has an index of its own. -/
inductive TaskKind where
  | download | upload | schedule
  deriving DecidableEq, Repr

/-- `DOWNLOAD_EVENTCODE_FILE`, `UPLOAD_EVENTCODE_FILE` and `SCHEDULE_EVENTCODE_FILE`. -/
def TaskKind.eventcodeFile : TaskKind → Text
  | .download => "down_eventcode.".toList
  | .upload => "upload_eventcode.".toList
  | .schedule => "schedule_eventcode.".toList

/-- `MAX_INDEX`. The index arrays have one entry more. -/
def maxIndex : Nat := 65535

/-- What `%ld` makes of an unsigned number, where a `long` has 32 bits. -/
def signed32 (n : Nat) : Int := if n < 2147483648 then n else n - 4294967296

def taskFileName (kind : TaskKind) (index : Nat) : Text := kind.eventcodeFile ++ decimal (signed32 index)

/-- `strstr`: the text from the first place on where the word stands. -/
def strstr (text word : Text) : Option Text :=
  if word.isPrefixOf text then some text
  else
    match text with
    | [] => none
    | _ :: rest => strstr rest word

/-- What `init_delay_events` reads from the name of a file: the index array it writes to, and where. -/
def scanTaskFile (fileName : Text) : Option (TaskKind × Int) :=
  let read (kind : TaskKind) (tmp : Text) : Option (TaskKind × Int) :=
    (stringToNum (tmp.drop kind.eventcodeFile.length)).map fun index => (kind, index)
  match strstr fileName TaskKind.download.eventcodeFile with
  | some tmp => read .download tmp
  | none =>
    match strstr fileName TaskKind.upload.eventcodeFile with
    | some tmp => read .upload tmp
    | none =>
      match strstr fileName TaskKind.schedule.eventcodeFile with
      | some tmp => read .schedule tmp
      | none => none

/-- For one kind, in the loop of `init_delay_events`: the counter, `validDownIndex` or the like, and the tasks that were added. -/
structure InitLoop where
  freeIndex : Nat
  validIndex : Nat
  added : List Nat

/-- A round of the loop, for one kind: `set` is what the index array holds. -/
def initRound (kind : TaskKind) (files : List Text) (set : Nat → Prop) [DecidablePred set] (r : InitLoop) (i : Nat) : InitLoop :=
  if set i then
    { r with
      freeIndex :=
        if r.freeIndex ≤ i then
          if i = maxIndex then if r.validIndex ≠ 0 then r.validIndex else r.freeIndex
          else i + 1
        else r.freeIndex
      added := if kind.eventcodeFile ++ decimal i ∈ files then r.added ++ [i] else r.added }
  else { r with validIndex := if r.validIndex = 0 then i else r.validIndex }

/-- The loop, for one kind; the other kinds have other variables. `host_handler_thread` has set the counter to 1. -/
def initLoop (kind : TaskKind) (files : List Text) (writes : List (TaskKind × Int)) : InitLoop :=
  (List.range' 1 maxIndex).foldl (initRound kind files fun i => (kind, (i : Int)) ∈ writes) ⟨1, 0, []⟩

/-- The agent: the files of tasks, which outlast it, the counters (`gDownloadFreeIndex` and so on), the tasks in the event list, and
the entries of the index arrays that were written to if it was just started. Entries that the arrays do not have are kept as well. -/
structure TaskState where
  files : List Text
  freeIndex : TaskKind → Nat
  events : List (TaskKind × Nat)
  writes : List (TaskKind × Int)

/-- An agent that is started for the first time. -/
def TaskState.init : TaskState := ⟨[], fun _ => 1, [], []⟩

def initDelayEvents (files : List Text) : TaskState where
  files := files
  freeIndex := fun kind => (initLoop kind files (files.filterMap scanTaskFile)).freeIndex
  events := [TaskKind.download, .upload, .schedule].flatMap fun kind =>
    (initLoop kind files (files.filterMap scanTaskFile)).added.map fun index => (kind, index)
  writes := files.filterMap scanTaskFile

theorem files_initDelayEvents (files : List Text) : (initDelayEvents files).files = files := by
  rw [initDelayEvents]

theorem freeIndex_initDelayEvents (files : List Text) (kind : TaskKind) :
    (initDelayEvents files).freeIndex kind = (initLoop kind files (files.filterMap scanTaskFile)).freeIndex := by
  -- with the counters as a variable, so that the loop is not run
  have hmk : ∀ g events writes, (TaskState.mk files g events writes).freeIndex kind = g kind := fun _ _ _ => rfl
  exact hmk _ _ _

theorem mem_events_initDelayEvents {files : List Text} {kind : TaskKind} {index : Nat}
    (h : (kind, index) ∈ (initDelayEvents files).events) :
    index ∈ (initLoop kind files (files.filterMap scanTaskFile)).added := by
  simp only [initDelayEvents, List.mem_flatMap, List.mem_map] at h
  obtain ⟨kind', _, index', hindex, heq⟩ := h
  obtain ⟨rfl, rfl⟩ := Prod.mk.inj heq
  exact hindex

/-- What happens to delayed tasks. -/
inductive TaskAct where
  /-- A request that is put off: `convert_dowload_to_local` or the like, `add_event` and `store_download_event` or the like. -/
  | request (kind : TaskKind)
  /-- The event of the task is dispatched, and its file deleted, unless the transfer ends without a result. -/
  | complete (kind : TaskKind) (index : Nat) (deleted : Bool)
  /-- The agent is started anew. -/
  | restart
  deriving DecidableEq, Repr

/-- What becomes of the agent. A second event of one name replaces the first one, and so does a second file. -/
def taskStep (s : TaskState) : TaskAct → Option TaskState
  | .request kind =>
    let index := s.freeIndex kind
    some {
      files := s.files.filter (· ≠ taskFileName kind index) ++ [taskFileName kind index]
      freeIndex := Function.update s.freeIndex kind ((index + 1) % 4294967296)
      events := s.events.filter (· ≠ (kind, index)) ++ [(kind, index)]
      writes := [] }
  | .complete kind index deleted =>
    if (kind, index) ∈ s.events then
      some { s with
        files := if deleted then s.files.filter (· ≠ taskFileName kind index) else s.files
        events := s.events.filter (· ≠ (kind, index))
        writes := [] }
    else none
  | .restart => some (initDelayEvents s.files)

example : scanTaskFile (taskFileName .upload 12) = some (.upload, 12) := by decide +kernel

/-- The step does right by the indices: a new task gets one that no pending task of its kind has, and the index arrays are written
to at entries they have. -/
structure IndicesOk (s : TaskState) (a : TaskAct) (t : TaskState) : Prop where
  fresh : ∀ kind, a = .request kind → ∃ index, t.events = s.events ++ [(kind, index)] ∧
    t.files = s.files ++ [taskFileName kind index] ∧ (kind, index) ∉ s.events ∧ taskFileName kind index ∉ s.files
  bounds : ∀ write ∈ t.writes, 0 ≤ write.2 ∧ write.2 ≤ maxIndex

/-- The counter does not wrap around, and no agent is started with a task that has the last index or a higher one. -/
def BelowMaxIndex (s : TaskState) : TaskAct → Prop
  | .request kind => s.freeIndex kind + 1 < 4294967296
  | .complete .. => True
  | .restart => ∀ write ∈ s.files.filterMap scanTaskFile, 0 ≤ write.2 ∧ write.2 < maxIndex

instance (s : TaskState) : (a : TaskAct) → Decidable (BelowMaxIndex s a)
  | .request kind => inferInstanceAs (Decidable (s.freeIndex kind + 1 < 4294967296))
  | .complete .. => .isTrue trivial
  | .restart => inferInstanceAs (Decidable (∀ write ∈ s.files.filterMap scanTaskFile, 0 ≤ write.2 ∧ write.2 < maxIndex))

/-! ## Names of files -/

section Names

variable {text word rest : Text} {kind kind' : TaskKind} {index index' : Nat}

theorem strstr_append (word rest : Text) : strstr (word ++ rest) word = some (word ++ rest) := by
  have hprefix : word.isPrefixOf (word ++ rest) = true := by simp
  unfold strstr
  rw [if_pos hprefix]

/-- A word with a character that is not in the text is not found. -/
theorem strstr_eq_none {c : Char} (hword : c ∈ word) (htext : c ∉ text) : strstr text word = none := by
  induction text with
  | nil =>
    cases word with
    | nil => cases hword
    | cons d word => rfl
  | cons d text ih =>
    have hprefix : ¬word.isPrefixOf (d :: text) = true := by
      intro h
      exact htext ((List.isPrefixOf_iff_prefix.1 h).subset hword)
    unfold strstr
    rw [if_neg hprefix]
    exact ih (List.not_mem_of_not_mem_cons htext)

/-- The number in the name of a file is read for the kind of the file. -/
theorem scanTaskFile_append (kind : TaskKind) (i : Int) :
    scanTaskFile (kind.eventcodeFile ++ decimal i) = (stringToNum (decimal i)).map fun index => (kind, index) := by
  have hnot : ∀ c : Char, c ∉ kind.eventcodeFile → c.isDigit = false → c ≠ '-' → c ∉ kind.eventcodeFile ++ decimal i := by
    intro c hc hdigit hminus
    rw [List.mem_append, not_or]
    exact ⟨hc, notMem_decimal_of hdigit hminus i⟩
  unfold scanTaskFile
  cases kind with
  | download => simp only [strstr_append, List.drop_left]
  | upload =>
    -- there is a `w` in the word for downloads only
    have hdownload : strstr _ TaskKind.download.eventcodeFile = none :=
      strstr_eq_none (c := 'w') (by decide) (hnot 'w' (by decide) (by decide) (by decide))
    simp only [hdownload, strstr_append, List.drop_left]
  | schedule =>
    have hdownload : strstr _ TaskKind.download.eventcodeFile = none :=
      strstr_eq_none (c := 'w') (by decide) (hnot 'w' (by decide) (by decide) (by decide))
    have hupload : strstr _ TaskKind.upload.eventcodeFile = none :=
      strstr_eq_none (c := 'p') (by decide) (hnot 'p' (by decide) (by decide) (by decide))
    simp only [hdownload, hupload, strstr_append, List.drop_left]

/-- Two tasks with counters below 2^32 have files of different names. -/
theorem taskFileName_inj (hindex : index < 4294967296) (hindex' : index' < 4294967296)
    (h : taskFileName kind index = taskFileName kind' index') : kind = kind' ∧ index = index' := by
  have hkind : kind = kind' := by
    have hne : ∀ kind : TaskKind, kind.eventcodeFile ≠ [] := by
      intro kind
      cases kind <;> decide
    have hhead := congrArg List.head? h
    rw [taskFileName, taskFileName, List.head?_append_of_ne_nil _ (hne _), List.head?_append_of_ne_nil _ (hne _)] at hhead
    revert hhead
    cases kind <;> cases kind' <;> decide
  subst hkind
  have hsigned := decimal_injective (List.append_cancel_left h)
  unfold signed32 at hsigned
  refine ⟨rfl, ?_⟩
  split at hsigned <;> split at hsigned <;> omega

/-- A number with a minus is read as one. -/
theorem stringToNum_negSucc (n : Nat) : ∃ i, stringToNum (decimal (.negSucc n)) = some i ∧ i < 0 := by
  have hfold : (Nat.toDigits 10 (n + 1)).foldl (fun n c => 10 * n + (c.toNat - 48)) 0 = n + 1 :=
    Nat.ofDigitChars_eq_foldl.symm.trans Nat.ofDigitChars_ten_toDigits
  refine ⟨0 - Tr69.atoi (Nat.toDigits 10 (n + 1)), ?_, ?_⟩
  · unfold decimal stringToNum
    simp only
    rw [if_pos ⟨Nat.toDigits_ne_nil, Tr69.all_isDigit_toDigits (n + 1)⟩]
  · rw [Tr69.atoi, hfold, Tr69.intMax]
    omega

/-- The file of a task is read at its index, or below the index array. -/
theorem scanTaskFile_taskFileName (kind : TaskKind) (hindex : index < 4294967296) :
    ∃ i : Int, scanTaskFile (taskFileName kind index) = some (kind, i) ∧ (i = index ∨ i < 0) := by
  by_cases hsmall : index < 2147483648
  · have hread : stringToNum (decimal index) = some (index : Int) := by
      refine Tr69.stringToNum_decimal ?_ ?_
      · rw [Tr69.intMax]
        omega
      · rw [Tr69.intMax]
        omega
    refine ⟨index, ?_, Or.inl rfl⟩
    rw [taskFileName, scanTaskFile_append, signed32, if_pos hsmall, hread, Option.map_some]
  · -- with a counter as high as this, the number is written with a minus
    have hneg : signed32 index = .negSucc (4294967295 - index) := by
      rw [signed32, if_neg hsmall]
      omega
    obtain ⟨i, hi, hlt⟩ := stringToNum_negSucc (4294967295 - index)
    refine ⟨i, ?_, Or.inr hlt⟩
    rw [taskFileName, scanTaskFile_append, hneg, hi, Option.map_some]

end Names

/-! ## Starting the agent -/

section Loop

variable {set : Nat → Prop} [DecidablePred set]

/-- What a round does, when the last index is not set: the counter gets above an index that is set. -/
theorem initRound_spec (kind : TaskKind) (files : List Text) (r : InitLoop) {i : Nat} (hset : set i → i < maxIndex) :
    r.freeIndex ≤ (initRound kind files set r i).freeIndex ∧
      (initRound kind files set r i).freeIndex ≤ max r.freeIndex maxIndex ∧
      (set i → i < (initRound kind files set r i).freeIndex) ∧
      ∀ j ∈ (initRound kind files set r i).added, j ∈ r.added ∨ j = i ∧ set i := by
  unfold initRound
  by_cases hi : set i
  · have hlt := hset hi
    rw [if_pos hi]
    refine ⟨?_, ?_, ?_, ?_⟩
    · simp only [if_neg hlt.ne]
      split <;> omega
    · simp only [if_neg hlt.ne]
      split <;> omega
    · intro _
      simp only [if_neg hlt.ne]
      split <;> omega
    · intro j hj
      simp only at hj
      split at hj
      · rcases List.mem_append.1 hj with hj | hj
        · exact Or.inl hj
        · exact Or.inr ⟨List.mem_singleton.1 hj, hi⟩
      · exact Or.inl hj
  · rw [if_neg hi]
    refine ⟨le_rfl, le_max_left _ _, ?_, ?_⟩
    · intro hset'
      exact absurd hset' hi
    · intro j hj
      exact Or.inl hj

/-- What the rounds do. -/
theorem foldl_initRound (kind : TaskKind) (files : List Text) (l : List Nat) (r : InitLoop) (hset : ∀ i ∈ l, set i → i < maxIndex) :
    r.freeIndex ≤ (l.foldl (initRound kind files set) r).freeIndex ∧
      (l.foldl (initRound kind files set) r).freeIndex ≤ max r.freeIndex maxIndex ∧
      (∀ i ∈ l, set i → i < (l.foldl (initRound kind files set) r).freeIndex) ∧
      ∀ j ∈ (l.foldl (initRound kind files set) r).added, j ∈ r.added ∨ j ∈ l ∧ set j := by
  induction l generalizing r with
  | nil => exact ⟨le_rfl, le_max_left _ _, by simp, fun j hj => Or.inl hj⟩
  | cons i l ih =>
    obtain ⟨hle, hmax, habove, hadded⟩ := initRound_spec kind files r (hset i List.mem_cons_self)
    obtain ⟨hle', hmax', habove', hadded'⟩ := ih (initRound kind files set r i) fun j hj => hset j (List.mem_cons_of_mem _ hj)
    rw [List.foldl_cons]
    refine ⟨hle.trans hle', hmax'.trans (max_le hmax (le_max_right _ _)), ?_, ?_⟩
    · intro j hj hj'
      rcases List.mem_cons.1 hj with rfl | hj
      · exact (habove hj').trans_le hle'
      · exact habove' j hj hj'
    · intro j hj
      rcases hadded' j hj with hj | ⟨hj, hj'⟩
      · rcases hadded j hj with hj | ⟨rfl, hj⟩
        · exact Or.inl hj
        · exact Or.inr ⟨List.mem_cons_self, hj⟩
      · exact Or.inr ⟨List.mem_cons_of_mem _ hj, hj'⟩

end Loop

/-- What the loop does for one kind, when the last index is not set. -/
theorem initLoop_spec (kind : TaskKind) (files : List Text) {writes : List (TaskKind × Int)}
    (hwrites : ∀ write ∈ writes, write.2 < maxIndex) :
    1 ≤ (initLoop kind files writes).freeIndex ∧ (initLoop kind files writes).freeIndex ≤ maxIndex ∧
      (∀ i : Nat, 1 ≤ i → (kind, (i : Int)) ∈ writes → i < (initLoop kind files writes).freeIndex) ∧
      ∀ j ∈ (initLoop kind files writes).added, j < (initLoop kind files writes).freeIndex := by
  have hset : ∀ i ∈ List.range' 1 maxIndex, (kind, (i : Int)) ∈ writes → i < maxIndex := by
    intro i _ hi
    have hlt : (i : Int) < maxIndex := hwrites (kind, (i : Int)) hi
    omega
  obtain ⟨hle, hmax, habove, hadded⟩ := foldl_initRound kind files (List.range' 1 maxIndex) ⟨1, 0, []⟩ hset
  have hone : 1 ≤ maxIndex := by
    rw [maxIndex]
    omega
  rw [initLoop]
  refine ⟨hle, hmax.trans (max_le hone le_rfl), ?_, ?_⟩
  · intro i hone hi
    refine habove i ?_ hi
    have hlt : (i : Int) < maxIndex := hwrites (kind, (i : Int)) hi
    rw [List.mem_range'_1]
    omega
  · intro j hj
    rcases hadded j hj with hnil | ⟨hrange, hset⟩
    · cases hnil
    · exact habove j hrange hset

/-- The tasks that are pending have indices below the counter. -/
structure Numbered (s : TaskState) : Prop where
  counter : ∀ kind, 1 ≤ s.freeIndex kind ∧ s.freeIndex kind < 4294967296
  events : ∀ kind index, (kind, index) ∈ s.events → index < s.freeIndex kind
  files : ∀ file ∈ s.files, ∃ kind index, file = taskFileName kind index ∧ 1 ≤ index ∧ index < s.freeIndex kind

section Steps

variable {s t : TaskState} {a : TaskAct}

/-- The agent is started with counters above the indices of its tasks. -/
theorem Numbered.initDelayEvents (hs : Numbered s)
    (hg : ∀ write ∈ s.files.filterMap scanTaskFile, 0 ≤ write.2 ∧ write.2 < maxIndex) : Numbered (initDelayEvents s.files) := by
  have hwrites : ∀ write ∈ s.files.filterMap scanTaskFile, write.2 < maxIndex := by
    intro write hwrite
    exact (hg write hwrite).2
  refine ⟨?_, ?_, ?_⟩
  · intro kind
    obtain ⟨hone, hmax, _, _⟩ := initLoop_spec kind s.files hwrites
    have hlt : maxIndex < 4294967296 := by
      rw [maxIndex]
      omega
    rw [freeIndex_initDelayEvents]
    exact ⟨hone, hmax.trans_lt hlt⟩
  · intro kind index hmem
    rw [freeIndex_initDelayEvents]
    exact (initLoop_spec kind s.files hwrites).2.2.2 index (mem_events_initDelayEvents hmem)
  · intro file hfile
    rw [files_initDelayEvents] at hfile
    obtain ⟨kind, index, rfl, hone, hlt⟩ := hs.files file hfile
    obtain ⟨i, hscan, hread⟩ := scanTaskFile_taskFileName kind (hlt.trans (hs.counter kind).2)
    have hwrite : (kind, i) ∈ s.files.filterMap scanTaskFile := List.mem_filterMap.2 ⟨_, hfile, hscan⟩
    have hpos : 0 ≤ i := (hg (kind, i) hwrite).1
    obtain rfl : i = index := by omega
    refine ⟨kind, index, rfl, hone, ?_⟩
    rw [freeIndex_initDelayEvents]
    exact (initLoop_spec kind s.files hwrites).2.2.1 index hone hwrite

/-- **A step below the last index** gives an index that is new, and keeps the indices below the counters. -/
theorem Numbered.step (hs : Numbered s) (hg : BelowMaxIndex s a) (h : taskStep s a = some t) : Numbered t ∧ IndicesOk s a t := by
  cases a with
  | request kind =>
    have hnew : (kind, s.freeIndex kind) ∉ s.events := by
      intro hmem
      exact lt_irrefl _ (hs.events _ _ hmem)
    have hfile : taskFileName kind (s.freeIndex kind) ∉ s.files := by
      intro hmem
      obtain ⟨kind', index, heq, _, hlt⟩ := hs.files _ hmem
      obtain ⟨rfl, rfl⟩ := taskFileName_inj (hs.counter kind).2 (hlt.trans (hs.counter kind').2) heq
      exact lt_irrefl _ hlt
    have hevents : s.events.filter (· ≠ (kind, s.freeIndex kind)) = s.events := by
      refine List.filter_eq_self.2 ?_
      intro e he
      exact decide_eq_true fun heq => hnew (heq ▸ he)
    have hfiles : s.files.filter (· ≠ taskFileName kind (s.freeIndex kind)) = s.files := by
      refine List.filter_eq_self.2 ?_
      intro f hf
      exact decide_eq_true fun heq => hfile (heq ▸ hf)
    have hcounter : ∀ k, s.freeIndex k ≤ Function.update s.freeIndex kind ((s.freeIndex kind + 1) % 4294967296) k := by
      intro k
      by_cases hk : k = kind
      · subst hk
        rw [Function.update_self, Nat.mod_eq_of_lt hg]
        exact Nat.le_succ _
      · rw [Function.update_of_ne hk]
    have hnext : s.freeIndex kind < Function.update s.freeIndex kind ((s.freeIndex kind + 1) % 4294967296) kind := by
      rw [Function.update_self, Nat.mod_eq_of_lt hg]
      exact Nat.lt_succ_self _
    cases h
    rw [hevents, hfiles]
    refine ⟨⟨?_, ?_, ?_⟩, ?_, by simp⟩
    · intro k
      refine ⟨(hs.counter k).1.trans (hcounter k), ?_⟩
      by_cases hk : k = kind
      · subst hk
        simp only [Function.update_self]
        omega
      · simp only [Function.update_of_ne hk]
        exact (hs.counter k).2
    · intro k index hmem
      rcases List.mem_append.1 hmem with hmem | hmem
      · exact (hs.events k index hmem).trans_le (hcounter k)
      · obtain ⟨rfl, rfl⟩ := Prod.mk.inj (List.mem_singleton.1 hmem)
        exact hnext
    · intro file hmem
      rcases List.mem_append.1 hmem with hmem | hmem
      · obtain ⟨k, index, rfl, hone, hlt⟩ := hs.files file hmem
        exact ⟨k, index, rfl, hone, hlt.trans_le (hcounter k)⟩
      · exact ⟨kind, s.freeIndex kind, List.mem_singleton.1 hmem, (hs.counter kind).1, hnext⟩
    · rintro k hk
      obtain rfl := TaskAct.request.inj hk
      exact ⟨_, rfl, rfl, hnew, hfile⟩
  | complete kind index deleted =>
    simp only [taskStep] at h
    split at h
    · cases h
      refine ⟨⟨hs.counter, ?_, ?_⟩, nofun, by simp⟩
      · intro k i hmem
        exact hs.events k i (List.mem_filter.1 hmem).1
      · intro file hmem
        simp only at hmem
        split at hmem
        · exact hs.files file (List.mem_filter.1 hmem).1
        · exact hs.files file hmem
    · cases h
  | restart =>
    cases h
    refine ⟨hs.initDelayEvents hg, nofun, ?_⟩
    intro write hwrite
    obtain ⟨hpos, hlt⟩ := hg write hwrite
    exact ⟨hpos, Int.le_of_lt hlt⟩

end Steps

/-- **Indices of delayed tasks.** In every run in which no counter wraps around, and the agent is never started with a task that has
the last index or a higher one, every new task gets an index that no pending task of its kind has, and the index arrays are written
to at entries they have. -/
theorem delayed_task_indices_ok {tr : List (Transition TaskState TaskAct)} {s : TaskState}
    (hr : Run (Step.ofOption taskStep) TaskState.init tr s) (hg : Meets BelowMaxIndex tr) : Always IndicesOk tr := by
  have hstart : Numbered TaskState.init := by
    refine ⟨?_, nofun, nofun⟩
    intro kind
    exact ⟨le_rfl, by simp [TaskState.init]⟩
  refine Run.always (I := Numbered) hstart ?_ hr hg
  intro s a t hs hc h
  exact hs.step hc h

/-- A download and an upload that are put off, and an agent that is started anew before the upload. -/
theorem delayed_task_indices_ok_restart :
    Always IndicesOk (play taskStep .init [.request .download, .request .upload, .complete .download 1 true, .restart]).1 :=
  delayed_task_indices_ok (Run.ofPlay taskStep _ _) (by decide +kernel)

/-- A run of any number of requests, the last of which is pending at its end. -/
theorem exists_requests (n : Nat) (hn : n < 4294967295) : ∃ tr s, Run (Step.ofOption taskStep) TaskState.init tr s ∧
    s.freeIndex .schedule = n + 1 ∧ (0 < n → taskFileName .schedule n ∈ s.files) := by
  induction n with
  | zero => exact ⟨[], .init, .nil, rfl, nofun⟩
  | succ n ih =>
    obtain ⟨tr, s, hr, hfree, _⟩ := ih (by omega)
    obtain ⟨t, ht⟩ : ∃ t, taskStep s (.request .schedule) = some t := ⟨_, rfl⟩
    refine ⟨_, t, hr.snoc ht, ?_⟩
    cases ht
    refine ⟨?_, ?_⟩
    · simp only [Function.update_self, hfree]
      omega
    · intro _
      simp only [hfree, List.mem_append, List.mem_singleton]
      exact Or.inr trivial

/-- After 65536 requests the agent is started anew before the last task is done: the index array has no entry for it. -/
theorem delayed_task_index_out_of_bounds : ¬∀ (tr : List (Transition TaskState TaskAct)) (s : TaskState),
    Run (Step.ofOption taskStep) TaskState.init tr s → Always IndicesOk tr := by
  intro h
  obtain ⟨tr, s, hr, _, hfile⟩ := exists_requests 65536 (by decide)
  obtain ⟨t, ht⟩ : ∃ t, taskStep s .restart = some t := ⟨_, rfl⟩
  have hok := (always_snoc.1 (h _ _ (hr.snoc ht))).2
  cases ht
  have hindex : 65536 < 4294967296 := by decide
  obtain ⟨i, hscan, hread⟩ := scanTaskFile_taskFileName .schedule hindex
  have hbounds := hok.bounds (.schedule, i) (List.mem_filterMap.2 ⟨_, hfile (by decide), hscan⟩)
  simp only [maxIndex] at hbounds
  omega

end CodeFactory.Core
