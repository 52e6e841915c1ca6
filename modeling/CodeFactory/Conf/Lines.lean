import CodeFactory.Conf.Regular
import Mathlib.Data.List.TakeWhile

/-!
# The lines of a file

What `fgets`, `strchr` and `atoi` make of text that was written line by line, and what a line of any file can hold.
-/

namespace CodeFactory.Conf

/-! ## Reading line by line -/

theorem fgets_cons (n : Nat) (ch : Char) (file : List Char) : fgets (n + 1) (ch :: file) =
    if ch = '\n' then ([ch], file) else (ch :: (fgets n file).1, (fgets n file).2) := rfl

/-- A line that fits the buffer is read with its newline. -/
theorem fgets_line {l : List Char} (hl : '\n' ∉ l) {n : Nat} (hn : l.length < n) (rest : List Char) :
    fgets n (l ++ '\n' :: rest) = (l ++ ['\n'], rest) := by
  induction l generalizing n with
  | nil =>
    obtain ⟨n, rfl⟩ : ∃ k, n = k + 1 := ⟨n - 1, by rw [List.length_nil] at hn; omega⟩
    rw [List.nil_append, fgets_cons, if_pos rfl]
    rfl
  | cons ch l ih =>
    obtain ⟨n, rfl⟩ : ∃ k, n = k + 1 := ⟨n - 1, by rw [List.length_cons] at hn; omega⟩
    obtain ⟨hch, hl⟩ := List.ne_and_not_mem_of_not_mem_cons hl
    rw [List.length_cons] at hn
    rw [List.cons_append, fgets_cons, if_neg (Ne.symm hch), ih hl (by omega)]
    rfl

/-- Of a line that does not fit as much is read as fits. -/
theorem fgets_full {l : List Char} (hl : '\n' ∉ l) (rest : List Char) : fgets l.length (l ++ rest) = (l, rest) := by
  induction l with
  | nil => rfl
  | cons ch l ih =>
    obtain ⟨hch, hl⟩ := List.ne_and_not_mem_of_not_mem_cons hl
    rw [List.length_cons, List.cons_append, fgets_cons, if_neg (Ne.symm hch), ih hl]

/-- What is read and what is left make up the file. -/
theorem fgets_append (n : Nat) (file : List Char) : (fgets n file).1 ++ (fgets n file).2 = file := by
  induction n generalizing file with
  | zero => rfl
  | succ n ih =>
    cases file with
    | nil => rfl
    | cons ch file =>
      rw [fgets_cons]
      split
      · rfl
      · rw [List.cons_append, ih]

theorem fgets_length (n : Nat) (ch : Char) (file : List Char) : (fgets (n + 1) (ch :: file)).2.length ≤ file.length := by
  rw [fgets_cons]
  split
  · exact Nat.le_refl _
  · have := congrArg List.length (fgets_append n file)
    rw [List.length_append] at this
    simp only
    omega

theorem restOfFile_length (ch : Char) (file : List Char) :
    (fgets (maxConfLine - 1) (ch :: file)).2.length ≤ file.length := fgets_length (maxConfLine - 2) ch file

theorem linesFrom_eq (fuel : Nat) (file : List Char) (h : file.length ≤ fuel) : linesFrom fuel file = linesFrom file.length file := by
  have hall : ∀ n fuel file, List.length file ≤ n → n ≤ fuel → linesFrom fuel file = linesFrom n file := by
    intro n
    induction n with
    | zero =>
      intro fuel file hfile _
      obtain rfl := List.length_eq_zero_iff.1 (Nat.le_zero.1 hfile)
      cases fuel <;> rfl
    | succ n ih =>
      intro fuel file hfile hfuel
      obtain ⟨fuel, rfl⟩ : ∃ k, fuel = k + 1 := ⟨fuel - 1, by omega⟩
      cases file with
      | nil => rfl
      | cons ch file =>
        have hleft := restOfFile_length ch file
        rw [List.length_cons] at hfile
        rw [linesFrom, linesFrom, ih fuel _ (Nat.le_trans hleft (by omega)) (by omega)]
  exact hall _ _ _ (Nat.le_refl _) h

theorem confLines_of_ne_nil {file : List Char} (h : file ≠ []) :
    confLines file = confLine (cString (fgets (maxConfLine - 1) file).1) :: confLines (fgets (maxConfLine - 1) file).2 := by
  obtain ⟨ch, file, rfl⟩ := List.exists_cons_of_ne_nil h
  have hleft := restOfFile_length ch file
  unfold confLines fileLines
  rw [List.length_cons, linesFrom, linesFrom_eq file.length _ hleft]
  rfl

theorem cString_of_notMem {l : List Char} (h : '\x00' ∉ l) : cString l = l := by
  refine List.takeWhile_eq_self_iff.2 fun ch hch => ?_
  rw [bne_iff_ne]
  rintro rfl
  exact h hch

theorem confLines_line {l : List Char} (hl : '\n' ∉ l) (hnull : '\x00' ∉ l) (hlen : l.length < maxConfLine - 1)
    (rest : List Char) : confLines (l ++ '\n' :: rest) = confLine (l ++ ['\n']) :: confLines rest := by
  have hcut : cString (l ++ ['\n']) = l ++ ['\n'] := cString_of_notMem (by simp [hnull])
  rw [confLines_of_ne_nil (by simp), fgets_line hl hlen, hcut]

theorem confLines_full {l : List Char} (hl : '\n' ∉ l) (hnull : '\x00' ∉ l) (hlen : l.length = maxConfLine - 1)
    (rest : List Char) : confLines (l ++ rest) = confLine l :: confLines rest := by
  have hne : l ≠ [] := by
    rintro rfl
    cases hlen
  rw [confLines_of_ne_nil (by simp [hne]), ← hlen, fgets_full hl, cString_of_notMem hnull]

/-! ## Searching in a line -/

theorem strchr_append {ch : Char} {before : List Char} (h : ch ∉ before) (behind : List Char) :
    strchr ch (before ++ ch :: behind) = some (before, behind) := by
  induction before with
  | nil => simp [strchr]
  | cons x before ih =>
    obtain ⟨hx, h⟩ := List.ne_and_not_mem_of_not_mem_cons h
    rw [List.cons_append, strchr, if_neg (Ne.symm hx), ih h]
    rfl

theorem strchr_of_notMem {ch : Char} {s : List Char} (h : ch ∉ s) : strchr ch s = none := by
  induction s with
  | nil => rfl
  | cons x s ih =>
    obtain ⟨hx, h⟩ := List.ne_and_not_mem_of_not_mem_cons h
    rw [strchr, if_neg (Ne.symm hx), ih h]
    rfl

theorem strchr_eq_some {ch : Char} {s before behind : List Char} (h : strchr ch s = some (before, behind)) :
    s = before ++ ch :: behind ∧ ch ∉ before := by
  induction s generalizing before with
  | nil => cases h
  | cons x s ih =>
    rw [strchr] at h
    split at h
    · next hx =>
      cases h
      subst hx
      exact ⟨rfl, List.not_mem_nil⟩
    · next hx =>
      obtain ⟨⟨b, a⟩, hs, heq⟩ := Option.map_eq_some_iff.1 h
      cases heq
      obtain ⟨rfl, hb⟩ := ih hs
      exact ⟨rfl, List.not_mem_cons_of_ne_of_not_mem (Ne.symm hx) hb⟩

theorem strchr_eq_some_iff {ch : Char} {s before behind : List Char} :
    strchr ch s = some (before, behind) ↔ s = before ++ ch :: behind ∧ ch ∉ before := by
  constructor
  · exact strchr_eq_some
  · rintro ⟨rfl, h⟩
    exact strchr_append h behind

theorem strchr_eq_none_iff {ch : Char} {s : List Char} : strchr ch s = none ↔ ch ∉ s := by
  refine ⟨fun h hmem => ?_, strchr_of_notMem⟩
  obtain ⟨before, behind, rfl, hbefore⟩ := List.eq_append_cons_of_mem hmem
  rw [strchr_append hbefore] at h
  cases h

/-- A string of digits is read to its end. -/
theorem atoi_of_digits {s : List Char} (hs : s ≠ []) (hdigit : ∀ ch ∈ s, ch.isDigit = true) :
    atoi s = (s.foldl (fun n c => 10 * n + (c.toNat - 48)) 0 : Nat) := by
  have hnum : digitsNum s = s.foldl (fun n c => 10 * n + (c.toNat - 48)) 0 := by
    unfold digitsNum
    rw [List.takeWhile_eq_self_iff.2 hdigit]
  obtain ⟨ch, digits, hcons⟩ := List.exists_cons_of_ne_nil hs
  have hch := hdigit ch (by rw [hcons]; exact List.mem_cons_self)
  have hspace : isspace ch = false := by
    by_contra hsp
    unfold isspace at hsp
    simp only [List.contains_eq_mem, Bool.not_eq_false, decide_eq_true_eq] at hsp
    simp only [List.mem_cons, List.not_mem_nil, or_false] at hsp
    rcases hsp with rfl | rfl | rfl | rfl | rfl | rfl
    all_goals exact absurd hch (by decide)
  have hdrop : s.dropWhile isspace = s := by
    rw [hcons, List.dropWhile_cons_of_neg (by simp [hspace])]
  unfold atoi
  rw [hdrop]
  split
  · exact absurd (hdigit '-' List.mem_cons_self) (by decide)
  · exact absurd (hdigit '+' List.mem_cons_self) (by decide)
  · rw [hnum]

theorem atoi_toDigits (n : Nat) : atoi (Nat.toDigits 10 n) = n := by
  rw [atoi_of_digits Nat.toDigits_ne_nil fun ch hch => Nat.isDigit_of_mem_toDigits (by decide) (by decide) hch]
  exact congrArg Nat.cast (Nat.ofDigitChars_eq_foldl.symm.trans Nat.ofDigitChars_ten_toDigits)

/-! ## What a line can hold -/

/-- A newline is the end of a line. -/
def OneLine (l : List Char) : Prop := '\n' ∉ l.dropLast

theorem fgets_oneLine (n : Nat) (file : List Char) : OneLine (fgets n file).1 := by
  unfold OneLine
  induction n generalizing file with
  | zero => exact List.not_mem_nil
  | succ n ih =>
    cases file with
    | nil => exact List.not_mem_nil
    | cons ch file =>
      rw [fgets_cons]
      split
      · exact List.not_mem_nil
      · next hch =>
        have hrest := ih file
        cases hread : (fgets n file).1 with
        | nil => exact List.not_mem_nil
        | cons x l =>
          rw [hread] at hrest
          exact List.not_mem_cons_of_ne_of_not_mem (Ne.symm hch) hrest

/-- A head of a line is one, too. -/
theorem OneLine.of_append {l l' : List Char} (h : OneLine (l ++ l')) : OneLine l := by
  unfold OneLine at *
  intro hmem
  cases l' with
  | nil =>
    rw [List.append_nil] at h
    exact h hmem
  | cons ch l' =>
    rw [List.dropLast_append_of_ne_nil (List.cons_ne_nil _ _)] at h
    exact h (List.mem_append_left _ (List.dropLast_subset _ hmem))

theorem OneLine.notMem_before {before behind : List Char} {ch : Char} (h : OneLine (before ++ ch :: behind)) : '\n' ∉ before := by
  unfold OneLine at h
  rw [List.dropLast_append_of_ne_nil (List.cons_ne_nil _ _)] at h
  exact fun hmem => h (List.mem_append_left _ hmem)

/-- What is behind a character of a line, without the newline. -/
theorem OneLine.notMem_cutNewline {before val : List Char} {ch : Char} (h : OneLine (before ++ ch :: val)) :
    '\n' ∉ cutNewline val := by
  unfold OneLine at h
  rcases List.eq_nil_or_concat val with rfl | ⟨l, x, rfl⟩
  · exact List.not_mem_nil
  · rw [List.concat_eq_append, ← List.cons_append, ← List.append_assoc, List.dropLast_concat] at h
    have hl : '\n' ∉ l := fun hmem => h (List.mem_append_right _ (List.mem_cons_of_mem _ hmem))
    rw [cutNewline, List.concat_eq_append, List.getLast?_concat]
    split
    · rw [List.dropLast_concat]
      exact hl
    · next hx =>
      rw [List.mem_append, List.mem_singleton]
      rintro (hmem | heq)
      · exact hl hmem
      · exact hx (congrArg some heq.symm)

theorem notMem_of_mem_cutNewline {val : List Char} {ch : Char} (h : ch ∉ val) : ch ∉ cutNewline val := by
  unfold cutNewline
  split
  · exact fun hmem => h (List.dropLast_subset _ hmem)
  · exact h

/-- What a line is taken for has none of the characters that end its parts. -/
theorem confLine_plain {line : List Char} (hone : OneLine line) (hnull : '\x00' ∉ line) : (confLine line).Plain := by
  unfold confLine
  split
  · split
    · next before behind hfind =>
      obtain ⟨rfl, hbracket⟩ := strchr_eq_some hfind
      refine ⟨fun h => hbracket (List.mem_of_mem_tail h), fun h => hone.notMem_before (List.mem_of_mem_tail h), ?_⟩
      exact fun h => hnull (List.mem_append_left _ (List.mem_of_mem_tail h))
    · trivial
  · split
    · split <;> trivial
    · next name val hfind =>
      obtain ⟨rfl, hsign⟩ := strchr_eq_some hfind
      refine ⟨hsign, fun h => hnull (List.mem_append_left _ h), hone.notMem_cutNewline, ?_⟩
      exact notMem_of_mem_cutNewline fun h => hnull (List.mem_append_right _ (List.mem_cons_of_mem _ h))
    · trivial

/-- The lines of any file are plain. -/
theorem confLines_plain (file : List Char) : ∀ line ∈ confLines file, line.Plain := by
  have hlines : ∀ fuel file, ∀ l ∈ linesFrom fuel file, OneLine l := by
    intro fuel
    induction fuel with
    | zero =>
      intro file l hl
      cases hl
    | succ fuel ih =>
      intro file l hl
      cases file with
      | nil => cases hl
      | cons ch file =>
        rcases List.mem_cons.1 hl with rfl | hl
        · exact fgets_oneLine _ _
        · exact ih _ l hl
  intro line hline
  unfold confLines fileLines at hline
  rw [List.map_map] at hline
  obtain ⟨l, hl, rfl⟩ := List.mem_map.1 hline
  refine confLine_plain ?_ ?_
  · have hone := hlines _ _ l hl
    rw [← List.takeWhile_append_dropWhile (p := (· != '\x00')) (l := l)] at hone
    exact hone.of_append
  · intro hmem
    simpa using List.mem_takeWhile_imp hmem

end CodeFactory.Conf
