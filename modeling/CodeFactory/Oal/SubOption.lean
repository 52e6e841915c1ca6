import CodeFactory.Lib.Outcome
import CodeFactory.Lib.Words
import Mathlib.Algebra.Ring.Nat
import Mathlib.Data.BitVec

/-!
# Sub-options

`tcmUtl_isSubOptionPresent` of `strconv.c`. A string is its characters; in memory a null stands behind them, and what is behind the null
cannot be read. A pointer is what can be read from it on. The count `len` has 32 bits, the result of `strlen` has as many as it needs.
-/

namespace CodeFactory.Oal

open Words (words IsWord Ends)

/-- The characters of a string with the null behind them. -/
def terminated (s : List Char) : List Char := s ++ ['\x00']

/-- What a pointer points to. -/
def charAt : List Char → Outcome Char
  | [] => .undefined
  | c :: _ => .done c

/-- `strncmp` gives `0`. -/
def strncmp : Nat → List Char → List Char → Outcome Bool
  | 0, _, _ => .done true
  | n + 1, a, b =>
    (charAt a).bind fun x => (charAt b).bind fun y =>
      if x ≠ y then .done false else if x = '\x00' then .done true else strncmp n a.tail b.tail

/-- The loop to the end of the current sub-option. -/
def subOptionEnd (len : BitVec 32) : List Char → Outcome (List Char × BitVec 32)
  | [] => .undefined
  | c :: s => if c ≠ ' ' ∧ c ≠ ',' ∧ c ≠ '\x00' then subOptionEnd (len + 1) s else .done (c :: s, len)

/-- The loop to the start of the next sub-option. -/
def nextSubOption : List Char → Outcome (List Char)
  | [] => .undefined
  | c :: s => if c = ' ' ∨ c = ',' then nextSubOption s else .done (c :: s)

/-- The loop of `tcmUtl_isSubOptionPresent`. -/
def subOptionLoop (subOption : List Char) : Nat → (found : Bool) → (startChar currChar : List Char) → (len : BitVec 32) → Outcome Bool
  | 0, _, _, _, _ => .outOfFuel
  | _ + 1, true, _, _, _ => .done true
  | fuel + 1, false, startChar, currChar, len =>
    (charAt currChar).bind fun c =>
      if c = '\x00' then .done false
      else
        (subOptionEnd len currChar).bind fun (currChar, len) =>
          (if len.toNat = subOption.length then strncmp len.toNat (terminated subOption) startChar else .done false).bind fun found =>
            (charAt currChar).bind fun c =>
              if c ≠ '\x00' then
                (nextSubOption currChar).bind fun currChar => subOptionLoop subOption fuel found currChar currChar 0
              else subOptionLoop subOption fuel found startChar currChar len

/-- `tcmUtl_isSubOptionPresent`, with a bound on the rounds of its loop. -/
def isSubOptionPresent (fuel : Nat) (fullOptionString subOption : Option (List Char)) : Outcome Bool :=
  match fullOptionString, subOption with
  | some fullOptionString, some subOption =>
    subOptionLoop subOption fuel false (terminated fullOptionString) (terminated fullOptionString) 0
  | _, _ => .done false

/-- What stands between sub-options. -/
def isSeparator (c : Char) : Bool := c = ' ' || c = ','

/-- A run of characters is taken for the sub-option: the count of its characters is the length of the name, and it begins with the
name. -/
def TakenFor (subOption w : List Char) : Prop := w.length % 2 ^ 32 = subOption.length ∧ subOption <+: w

instance (subOption w : List Char) : Decidable (TakenFor subOption w) := inferInstanceAs (Decidable (_ ∧ _))

/-! ## The loops -/

variable {full sub w s : List Char}

theorem isSeparator_iff {c : Char} : isSeparator c = true ↔ c = ' ' ∨ c = ',' := by
  simp [isSeparator]

theorem charAt_terminated (s : List Char) : charAt (terminated s) = .done (s.headD '\x00') := by
  cases s <;> rfl

theorem terminated_cons (c : Char) (s : List Char) : terminated (c :: s) = c :: terminated s := rfl

theorem terminated_append (w s : List Char) : terminated (w ++ s) = w ++ terminated s := List.append_assoc ..

/-- The loop to the end of a sub-option counts its characters. -/
theorem subOptionEnd_append (hw : ∀ c ∈ w, isSeparator c = false) (hwn : '\x00' ∉ w) (hs : Ends isSeparator s) (len : BitVec 32) :
    subOptionEnd len (w ++ terminated s) = .done (terminated s, len + BitVec.ofNat 32 w.length) := by
  induction w generalizing len with
  | nil =>
    cases s with
    | nil => simp [terminated, subOptionEnd]
    | cons c s =>
      have hc := isSeparator_iff.1 (hs c rfl)
      rw [List.nil_append, terminated_cons, subOptionEnd, if_neg fun h => hc.elim h.1 h.2.1]
      simp
  | cons c w ih =>
    rw [List.forall_mem_cons] at hw
    obtain ⟨hcn, hwn⟩ := List.ne_and_not_mem_of_not_mem_cons hwn
    have hc : c ≠ ' ' ∧ c ≠ ',' := by
      rw [← not_or, ← isSeparator_iff, hw.1]
      exact Bool.false_ne_true
    rw [List.cons_append, subOptionEnd, if_pos ⟨hc.1, hc.2, Ne.symm hcn⟩, ih hw.2 hwn, List.length_cons, BitVec.add_assoc]
    congr 3
    rw [Nat.add_comm, BitVec.ofNat_add]
    rfl

theorem nextSubOption_terminated (s : List Char) : nextSubOption (terminated s) = .done (terminated (s.dropWhile isSeparator)) := by
  induction s with
  | nil => rfl
  | cons c s ih =>
    rw [terminated_cons, nextSubOption]
    by_cases hc : c = ' ' ∨ c = ','
    · rw [if_pos hc, ih, List.dropWhile_cons_of_pos (isSeparator_iff.2 hc)]
    · rw [if_neg hc, List.dropWhile_cons_of_neg (by rwa [isSeparator_iff])]
      rfl

/-- As many characters as the name has are compared with it. -/
theorem strncmp_eq (hsub : '\x00' ∉ sub) (hlen : sub.length ≤ w.length) (x y : List Char) :
    strncmp sub.length (sub ++ x) (w ++ y) = .done (decide (sub <+: w)) := by
  induction sub generalizing w with
  | nil => simp [strncmp]
  | cons c sub ih =>
    obtain ⟨hc, hsub⟩ := List.ne_and_not_mem_of_not_mem_cons hsub
    cases w with
    | nil => simp at hlen
    | cons d w =>
      rw [List.length_cons, strncmp]
      simp only [List.cons_append, charAt, Outcome.bind_done, List.tail_cons]
      by_cases hd : c = d
      · subst hd
        rw [if_neg (not_not_intro rfl), if_neg (Ne.symm hc), ih hsub (Nat.le_of_succ_le_succ hlen)]
        simp
      · rw [if_pos hd]
        simp [hd]

/-- The comparison of the current sub-option with the name. -/
theorem compare_eq (hsub : '\x00' ∉ sub) (s : List Char) :
    (if (BitVec.ofNat 32 w.length).toNat = sub.length then
        strncmp (BitVec.ofNat 32 w.length).toNat (terminated sub) (w ++ terminated s)
      else .done false) = .done (decide (TakenFor sub w)) := by
  rw [BitVec.toNat_ofNat]
  by_cases hlen : w.length % 2 ^ 32 = sub.length
  · rw [if_pos hlen, hlen]
    have hle : sub.length ≤ w.length := hlen ▸ Nat.mod_le _ _
    have heq := strncmp_eq hsub hle ['\x00'] (terminated s)
    rw [terminated, heq]
    exact congrArg _ (decide_eq_decide.2 ⟨fun h => ⟨hlen, h⟩, And.right⟩)
  · rw [if_neg hlen, decide_eq_false fun h => hlen h.1]

/-- A round of the loop looks at the characters up to the next separator, of which there may be none, and goes on behind the separators
that follow them. -/
theorem subOptionLoop_round (hsub : '\x00' ∉ sub) (hw : ∀ c ∈ w, isSeparator c = false) (hwn : '\x00' ∉ w) (hs : Ends isSeparator s)
    (hne : w ++ s ≠ []) (fuel : Nat) :
    subOptionLoop sub (fuel + 2) false (terminated (w ++ s)) (terminated (w ++ s)) 0 =
      if TakenFor sub w then .done true
      else subOptionLoop sub (fuel + 1) false (terminated (s.dropWhile isSeparator)) (terminated (s.dropWhile isSeparator)) 0 := by
  have hzero : (0 : BitVec 32) + BitVec.ofNat 32 w.length = BitVec.ofNat 32 w.length := BitVec.zero_add _
  have hfirst : (w ++ s).headD '\x00' ≠ '\x00' := by
    cases w with
    | cons c w => exact fun h => hwn (h ▸ List.mem_cons_self)
    | nil =>
      cases s with
      | nil => exact absurd rfl hne
      | cons c s =>
        rintro rfl
        cases hs _ rfl
  rw [subOptionLoop, charAt_terminated, Outcome.bind_done, if_neg hfirst, terminated_append, subOptionEnd_append hw hwn hs,
    Outcome.bind_done]
  simp only [hzero]
  rw [compare_eq hsub, Outcome.bind_done, charAt_terminated, Outcome.bind_done]
  cases s with
  | nil =>
    rw [if_neg (by simp)]
    by_cases htaken : TakenFor sub w
    · rw [if_pos htaken, decide_eq_true htaken, subOptionLoop]
    · rw [if_neg htaken, decide_eq_false htaken]
      rfl
  | cons c s =>
    have hc : c ≠ '\x00' := by
      rintro rfl
      cases hs _ rfl
    rw [List.headD_cons, if_pos hc, nextSubOption_terminated, Outcome.bind_done]
    by_cases htaken : TakenFor sub w
    · rw [if_pos htaken, decide_eq_true htaken, subOptionLoop]
    · rw [if_neg htaken, decide_eq_false htaken]

/-- The loop finds the first run of characters that is taken for the name. -/
theorem subOptionLoop_eq (hsub : '\x00' ∉ sub) (hne : sub ≠ []) (hs : '\x00' ∉ s) {fuel : Nat} (hfuel : s.length < fuel) :
    subOptionLoop sub fuel false (terminated s) (terminated s) 0 =
      .done (decide (∃ w ∈ words isSeparator s, TakenFor sub w)) := by
  induction hn : s.length using Nat.strong_induction_on generalizing s fuel with
  | _ n ih =>
    subst hn
    by_cases hempty : s = []
    · subst hempty
      obtain ⟨fuel, rfl⟩ : ∃ k, fuel = k + 1 := ⟨fuel - 1, by omega⟩
      simp [subOptionLoop, charAt_terminated]
    · have hlength := List.length_pos_iff.2 hempty
      obtain ⟨fuel, rfl⟩ : ∃ k, fuel = k + 2 := ⟨fuel - 2, by omega⟩
      obtain ⟨w, rest, rfl, hw, hrest⟩ := Words.exists_append_ends isSeparator s
      rw [List.mem_append, not_or] at hs
      rw [subOptionLoop_round hsub hw hs.1 hrest hempty]
      have hnext := Words.length_dropWhile_lt hrest hempty
      have hnul : '\x00' ∉ rest.dropWhile isSeparator := fun hmem => hs.2 ((List.dropWhile_suffix _).subset hmem)
      rw [ih _ hnext hnul (by omega) rfl, Words.words_dropWhile]
      by_cases hword : w = []
      · have hnone : ¬TakenFor sub w := fun h => hne (List.prefix_nil.1 (hword ▸ h.2))
        rw [if_neg hnone, hword, List.nil_append]
      · rw [Words.words_append ⟨hword, hw⟩ hrest]
        by_cases htaken : TakenFor sub w
        · simp [htaken]
        · simp [htaken]

/-! ## The search -/

/-- The search ends, reads nothing behind the string, and gives whether the name is one of the maximal runs of characters other than
blank and comma. -/
def Finds (fullOptionString subOption : List Char) : Prop :=
  ∃ n, ∀ fuel ≥ n, isSubOptionPresent fuel (some fullOptionString) (some subOption) =
    .done (decide (∃ w ∈ words isSeparator fullOptionString, w = subOption))

/-- What the search gives. -/
theorem isSubOptionPresent_eq (hfull : '\x00' ∉ full) (hsub : '\x00' ∉ sub) (hne : sub ≠ []) {fuel : Nat} (hfuel : full.length < fuel) :
    isSubOptionPresent fuel (some full) (some sub) = .done (decide (∃ w ∈ words isSeparator full, TakenFor sub w)) :=
  subOptionLoop_eq hsub hne hfull hfuel

/-- A name is found right where it is taken for a sub-option if and only if it is one. -/
theorem finds_iff_takenFor (hfull : '\x00' ∉ full) (hsub : '\x00' ∉ sub) (hne : sub ≠ []) :
    Finds full sub ↔ ((∃ w ∈ words isSeparator full, TakenFor sub w) ↔ sub ∈ words isSeparator full) := by
  constructor
  · rintro ⟨n, hn⟩
    have h := hn (max n (full.length + 1)) (Nat.le_max_left ..)
    rw [isSubOptionPresent_eq hfull hsub hne (Nat.le_max_right ..)] at h
    simpa using decide_eq_decide.1 (Outcome.done.inj h)
  · intro h
    refine ⟨full.length + 1, fun fuel hfuel => ?_⟩
    rw [isSubOptionPresent_eq hfull hsub hne hfuel]
    exact congrArg _ (decide_eq_decide.2 (by simpa using h))

/-- **A name is found where it is one of the sub-options**, and only there, if and only if the count of no run wraps around so as to make
a difference. -/
theorem finds_iff (hfull : '\x00' ∉ full) (hsub : '\x00' ∉ sub) (hne : sub ≠ []) :
    Finds full sub ↔ (sub ∈ words isSeparator full → sub.length < 2 ^ 32) ∧
      ∀ w ∈ words isSeparator full, 2 ^ 32 ≤ w.length → TakenFor sub w → sub ∈ words isSeparator full := by
  rw [finds_iff_takenFor hfull hsub hne]
  constructor
  · intro h
    refine ⟨fun hmem => ?_, fun w hw _ htaken => h.1 ⟨w, hw, htaken⟩⟩
    obtain ⟨w, -, hlength, -⟩ := h.2 hmem
    rw [← hlength]
    exact Nat.mod_lt _ (by decide)
  · rintro ⟨hshort, hlong⟩
    constructor
    · rintro ⟨w, hw, htaken⟩
      by_cases hlength : 2 ^ 32 ≤ w.length
      · exact hlong w hw hlength htaken
      · have hsame : sub.length = w.length := by
          rw [← htaken.1, Nat.mod_eq_of_lt (by omega)]
        rwa [htaken.2.eq_of_length hsame]
    · intro hmem
      exact ⟨sub, hmem, Nat.mod_eq_of_lt (hshort hmem), List.prefix_rfl⟩

/-- The name `b` in `a, b`. -/
theorem finds_iff_second : Finds ['a', ',', ' ', 'b'] ['b'] ↔
    (['b'] ∈ words isSeparator ['a', ',', ' ', 'b'] → ['b'].length < 2 ^ 32) ∧
      ∀ w ∈ words isSeparator ['a', ',', ' ', 'b'], 2 ^ 32 ≤ w.length → TakenFor ['b'] w →
        ['b'] ∈ words isSeparator ['a', ',', ' ', 'b'] :=
  finds_iff (by decide) (by decide) (by decide)

/-- A string of so many `a` that their count is one again is taken for the name `a`. -/
theorem not_finds_replicate {n : Nat} (hn : 1 < n) (hcount : n % 2 ^ 32 = 1) : ¬Finds (List.replicate n 'a') ['a'] := by
  intro hfinds
  have hnul : '\x00' ∉ List.replicate n 'a' := fun hmem => absurd (List.eq_of_mem_replicate hmem) (by decide)
  have hword : IsWord isSeparator (List.replicate n 'a') := by
    refine ⟨by simp; omega, fun c hc => ?_⟩
    rw [List.eq_of_mem_replicate hc]
    rfl
  have hwords : words isSeparator (List.replicate n 'a') = [List.replicate n 'a'] := by
    have hone := Words.words_append hword Words.Ends.nil
    rwa [List.append_nil] at hone
  have htaken : TakenFor ['a'] (List.replicate n 'a') := by
    refine ⟨by rwa [List.length_replicate], ?_⟩
    obtain ⟨k, rfl⟩ : ∃ k, n = k + 1 := ⟨n - 1, by omega⟩
    exact ⟨List.replicate k 'a', rfl⟩
  have hmem := ((finds_iff_takenFor hnul (by decide) (by decide)).1 hfinds).1 ⟨_, by rw [hwords]; exact List.mem_singleton_self _, htaken⟩
  rw [hwords, List.mem_singleton] at hmem
  have hlength := congrArg List.length hmem
  rw [List.length_replicate, List.length_singleton] at hlength
  omega

/-- The name `a` is found in a string of `2 ^ 32 + 1` letters `a`. -/
theorem not_finds_wrapped : ¬∀ full sub : List Char, '\x00' ∉ full → '\x00' ∉ sub → sub ≠ [] → Finds full sub := by
  intro h
  refine not_finds_replicate (n := 2 ^ 32 + 1) (by omega) (by omega) (h _ _ ?_ (by decide) (by decide))
  exact fun hmem => absurd (List.eq_of_mem_replicate hmem) (by decide)

end CodeFactory.Oal
