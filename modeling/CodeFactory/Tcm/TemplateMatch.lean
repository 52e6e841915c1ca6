import CodeFactory.Tcm.Values

/-!
# Template names

How the agent tells whether a name is one for a row of a table, and which row that is, against the names that are made for rows.
-/

namespace CodeFactory.Tcm

open Tr69

def templateMatchCompare (templateStr name : Text) : Bool :=
  if name.length = templateStr.length + 1 ∨ name.length = templateStr.length then
    match strstrTemplate templateStr with
    | none => false
    | some (front, back) =>
      -- the character behind the front is skipped
      if name.take front.length = front then
        match Conf.strchr '.' (name.drop (front.length + 1)) with
        | none => false
        | some (_, behind) => back = behind
      else false
  else false

def getNoninstanceidMatchRowId (templateStr name : Text) : Int :=
  if templateMatchCompare templateStr name then
    match strstrTemplate templateStr with
    | none => -1
    | some (front, _) =>
      match Conf.strchr '.' (name.drop (front.length + 1)) with
      | none => -1
      | some (rowIDStr, _) => if rowIDStr.length = 2 ∨ rowIDStr.length = 1 then (stringToNum rowIDStr).getD (-1) else -1
  else -1

/-- A template: a prefix, `".0."` and a suffix. -/
def templateStr (p s : Text) : Text := p ++ ['.', '0', '.'] ++ s

/-- There is no other `".0."`. -/
def OneHole (p s : Text) : Prop := ∀ p' s', templateStr p s = templateStr p' s' → p = p'

/-- A decimal number of one or two digits. -/
def IsRow (k : Nat) (digits : Text) : Prop :=
  (digits.length = 1 ∨ digits.length = 2) ∧ digits.all Char.isDigit = true ∧ digits.foldl (fun n ch => 10 * n + (ch.toNat - 48)) 0 = k

/-- A name is taken for one of the row `k` exactly when it is the prefix, a dot, the number, a dot and the suffix; the row `-1` says
that it is taken for none. -/
def MatchedExactly (p s name : Text) : Prop :=
  ∀ k : Int, k ≠ -1 → ((templateMatchCompare (templateStr p s) name = true ∧ getNoninstanceidMatchRowId (templateStr p s) name = k) ↔
    ∃ (row : Nat) (digits : Text), IsRow row digits ∧ k = row ∧ name = p ++ '.' :: (digits ++ '.' :: s))

/-- The names that are made for the rows are the same, and are taken for these rows. -/
def BuiltMatched (p s : Text) : Prop :=
  ∀ k : Nat, 1 ≤ k → k ≤ 99 → ∃ name, getInstanceParName (templateStr p s) k = some name ∧ createParameterName (templateStr p s) k = some name ∧
    templateMatchCompare (templateStr p s) name = true ∧ getNoninstanceidMatchRowId (templateStr p s) name = k

/-- The text is a minus and one digit, but for `-1`. -/
def IsMinus (k : Int) (digits : Text) : Prop :=
  ∃ d : Char, d.isDigit = true ∧ d ≠ '1' ∧ digits = ['-', d] ∧ k = 0 - (d.toNat - 48 : Nat)

/-- The name has another character than a dot behind the prefix, and then a number of one or two digits, a dot and the suffix; or a minus
and a digit other than 1 stand in place of the number. -/
def Confusing (p s name : Text) : Prop :=
  ∃ ch digits, name = p ++ ch :: (digits ++ '.' :: s) ∧ ((ch ≠ '.' ∧ ∃ k, IsRow k digits) ∨ ∃ k, IsMinus k digits)

variable {p s name str front back behind mid : Text} {ch : Char} {k : Nat}

/-! ## The hole of a template -/

theorem eq_of_strstrTemplate (h : strstrTemplate name = some (front, back)) : name = templateStr front back := by
  induction name generalizing front with
  | nil => cases h
  | cons ch rest ih =>
    rw [strstrTemplate] at h
    split at h
    · rename_i hprefix
      obtain ⟨behind, hbehind⟩ := List.isPrefixOf_iff_prefix.1 hprefix
      cases h
      rw [List.cons_append, List.cons.injEq] at hbehind
      obtain ⟨rfl, rfl⟩ := hbehind
      rfl
    · obtain ⟨cut, hcut, heq⟩ := Option.map_eq_some_iff.1 h
      cases heq
      rw [ih hcut]
      rfl

theorem isSome_strstrTemplate (p s : Text) : (strstrTemplate (templateStr p s)).isSome = true := by
  induction p with
  | nil => rfl
  | cons ch p ih =>
    change (strstrTemplate (ch :: templateStr p s)).isSome = true
    rw [strstrTemplate]
    split
    · rfl
    · rwa [Option.isSome_map]

theorem OneHole.strstrTemplate_eq (h : OneHole p s) : strstrTemplate (templateStr p s) = some (p, s) := by
  obtain ⟨⟨front, back⟩, hcut⟩ := Option.isSome_iff_exists.1 (isSome_strstrTemplate p s)
  have heq := eq_of_strstrTemplate hcut
  obtain rfl := h front back heq
  rw [templateStr, templateStr, List.append_cancel_left_eq] at heq
  rw [hcut, heq]

/-! ## The names that match -/

/-- Behind the front, whatever character stands there, are one or two characters that are no dot. -/
theorem templateMatchCompare_iff_of_cut (h : strstrTemplate str = some (p, s)) : templateMatchCompare str name = true ↔
    ∃ ch mid, name = p ++ ch :: (mid ++ '.' :: s) ∧ '.' ∉ mid ∧ (mid.length = 1 ∨ mid.length = 2) := by
  rw [templateMatchCompare, h]
  have hlength : str.length = p.length + 3 + s.length := by
    rw [eq_of_strstrTemplate h]
    simp only [templateStr, List.length_append, List.length_cons, List.length_nil]
  constructor
  · intro hmatch
    split at hmatch
    · rename_i hlen
      dsimp only at hmatch
      split at hmatch
      · rename_i hfront
        cases hdot : Conf.strchr '.' (name.drop (p.length + 1)) with
        | none =>
          rw [hdot] at hmatch
          cases hmatch
        | some cut =>
          obtain ⟨mid, behind⟩ := cut
          rw [hdot] at hmatch
          obtain rfl : s = behind := of_decide_eq_true hmatch
          obtain ⟨hrest, hmid⟩ := Conf.strchr_eq_some_iff.1 hdot
          have hlt : p.length < name.length := by omega
          have hname : name = p ++ name[p.length] :: (mid ++ '.' :: s) := by
            rw [← hrest, ← List.drop_eq_getElem_cons hlt]
            conv => lhs; rw [← List.take_append_drop p.length name, hfront]
          have hall := congrArg List.length hname
          simp only [List.length_append, List.length_cons] at hall
          exact ⟨_, mid, hname, hmid, by omega⟩
      · cases hmatch
    · cases hmatch
  · rintro ⟨ch, mid, rfl, hmid, hlen⟩
    have hrest : (p ++ ch :: (mid ++ '.' :: s)).drop (p.length + 1) = mid ++ '.' :: s := by simp
    rw [if_pos]
    · dsimp only
      rw [if_pos List.take_left, hrest, Conf.strchr_eq_some_iff.2 ⟨rfl, hmid⟩]
      exact decide_eq_true rfl
    · simp only [List.length_append, List.length_cons]
      omega

theorem templateMatchCompare_iff (h : OneHole p s) : templateMatchCompare (templateStr p s) name = true ↔
    ∃ ch mid, name = p ++ ch :: (mid ++ '.' :: s) ∧ '.' ∉ mid ∧ (mid.length = 1 ∨ mid.length = 2) :=
  templateMatchCompare_iff_of_cut h.strstrTemplate_eq

theorem getNoninstanceidMatchRowId_eq (h : OneHole p s) (hmid : '.' ∉ mid) (hlen : mid.length = 1 ∨ mid.length = 2) :
    getNoninstanceidMatchRowId (templateStr p s) (p ++ ch :: (mid ++ '.' :: s)) = (stringToNum mid).getD (-1) := by
  have hrest : (p ++ ch :: (mid ++ '.' :: s)).drop (p.length + 1) = mid ++ '.' :: s := by simp
  rw [getNoninstanceidMatchRowId, if_pos ((templateMatchCompare_iff h).2 ⟨ch, mid, rfl, hmid, hlen⟩), h.strstrTemplate_eq]
  dsimp only
  rw [hrest, Conf.strchr_eq_some_iff.2 ⟨rfl, hmid⟩]
  exact if_pos hlen.symm

/-! ## The number of a row -/

theorem IsRow.not_mem_dot {digits : Text} (h : IsRow k digits) : '.' ∉ digits := by
  intro hmem
  have hdot := List.all_eq_true.1 h.2.1 '.' hmem
  exact absurd hdot (by decide)

theorem not_mem_dot_minus {d : Char} (hd : d.isDigit = true) : '.' ∉ ['-', d] := by
  intro hmem
  simp only [List.mem_cons, List.not_mem_nil, or_false] at hmem
  rcases hmem with hminus | rfl
  · exact absurd hminus (by decide)
  · exact absurd hd (by decide)

theorem IsMinus.ne {k : Int} {digits : Text} (h : IsMinus k digits) : k ≠ -1 := by
  obtain ⟨d, hd, hone, -, rfl⟩ := h
  have hbounds : 48 ≤ d.toNat ∧ d.toNat ≤ 57 := Char.isDigit_iff_toNat.1 hd
  have hnot : d.toNat ≠ 49 := fun heq => hone (Char.toNat_inj.1 heq)
  omega

theorem digits_lt {digits : Text} (hlen : digits.length = 1 ∨ digits.length = 2) (hall : digits.all Char.isDigit = true) :
    digits.foldl (fun n ch => 10 * n + (ch.toNat - 48)) 0 < 100 := by
  have hdigit : ∀ ch : Char, ch.isDigit = true → ch.toNat - 48 < 10 := by
    intro ch hch
    have hbounds : 48 ≤ ch.toNat ∧ ch.toNat ≤ 57 := Char.isDigit_iff_toNat.1 hch
    omega
  match digits, hlen with
  | [a], _ =>
    have ha := hdigit a (by simpa using hall)
    simp only [List.foldl_cons, List.foldl_nil]
    omega
  | [a, b], _ =>
    have hboth : a.isDigit = true ∧ b.isDigit = true := by simpa using hall
    have ha := hdigit a hboth.1
    have hb := hdigit b hboth.2
    simp only [List.foldl_cons, List.foldl_nil]
    omega

/-- The number of a row is read, and one with a minus. -/
theorem stringToNum_getD_iff {k : Int} (hk : k ≠ -1) (hlen : mid.length = 1 ∨ mid.length = 2) :
    (stringToNum mid).getD (-1) = k ↔ (∃ row : Nat, IsRow row mid ∧ k = row) ∨ IsMinus k mid := by
  have hne : mid ≠ [] := by
    rintro rfl
    simp at hlen
  rw [stringToNum, if_neg hne]
  unfold Tr69.stringToNum
  split
  · contradiction
  · rename_i rest
    have hrow : ¬∃ row : Nat, IsRow row ('-' :: rest) ∧ k = row := by
      rintro ⟨row, ⟨-, hall, -⟩, -⟩
      rw [List.all_cons, Bool.and_eq_true] at hall
      exact absurd hall.1 (by decide)
    split
    · rename_i hrest
      obtain ⟨d, rfl⟩ : ∃ d, rest = [d] := List.length_eq_one_iff.1 (by
        have hpos := List.length_pos_iff.2 hrest.1
        simp only [List.length_cons] at hlen
        omega)
      have hd : d.isDigit = true := by simpa using hrest.2
      have hbounds : 48 ≤ d.toNat ∧ d.toNat ≤ 57 := Char.isDigit_iff_toNat.1 hd
      have hatoi : atoi [d] = (d.toNat - 48 : Nat) := by
        rw [atoi, intMax]
        simp only [List.foldl_cons, List.foldl_nil]
        omega
      rw [Option.getD_some, hatoi]
      constructor
      · rintro rfl
        refine .inr ⟨d, hd, ?_, rfl, rfl⟩
        rintro rfl
        exact hk rfl
      · rintro (h | ⟨d', -, -, heq, rfl⟩)
        · exact absurd h hrow
        · cases heq
          rfl
    · rename_i hrest
      constructor
      · intro heq
        exact absurd heq.symm hk
      · rintro (h | ⟨d, hd, -, heq, -⟩)
        · exact absurd h hrow
        · cases heq
          exact absurd ⟨List.cons_ne_nil _ _, by simpa using hd⟩ hrest
  · rename_i _ hminus
    have hnot : ¬IsMinus k mid := by
      rintro ⟨d, -, -, heq, -⟩
      exact hminus _ heq
    split
    · rename_i hall
      have hlt := digits_lt hlen hall
      rw [Option.getD_some, atoi, intMax]
      constructor
      · intro heq
        exact .inl ⟨_, ⟨hlen, hall, rfl⟩, by omega⟩
      · rintro (⟨row, ⟨-, -, rfl⟩, rfl⟩ | h)
        · omega
        · exact absurd h hnot
    · rename_i hall
      constructor
      · intro heq
        exact absurd heq.symm hk
      · rintro (⟨row, h, -⟩ | h)
        · exact absurd h.2.1 hall
        · exact absurd h hnot

theorem length_toDigits_row (hpos : 1 ≤ k) (hle : k ≤ 99) :
    (Nat.toDigits 10 k).length = 1 ∨ (Nat.toDigits 10 k).length = 2 := by
  have hall : ∀ k < 100, (Nat.toDigits 10 k).length = 1 ∨ (Nat.toDigits 10 k).length = 2 := by decide
  exact hall k (by omega)

/-- The names that are made of a template are taken for their rows. -/
theorem builtMatched (h : OneHole p s) : BuiltMatched p s := by
  intro k hpos hle
  have hlen := length_toDigits_row hpos hle
  have hmid : '.' ∉ Nat.toDigits 10 k := by
    intro hmem
    have hdot := List.all_eq_true.1 (all_isDigit_toDigits k) '.' hmem
    exact absurd hdot (by decide)
  refine ⟨p ++ '.' :: (Nat.toDigits 10 k ++ '.' :: s), ?_, ?_, (templateMatchCompare_iff h).2 ⟨'.', _, rfl, hmid, hlen⟩, ?_⟩
  · rw [getInstanceParName, h.strstrTemplate_eq]
    rfl
  · have hdecimal : decimal (k : Int) = Nat.toDigits 10 k := rfl
    rw [createParameterName, if_neg (by omega), h.strstrTemplate_eq, hdecimal]
    simp
  · have hne : Nat.toDigits 10 k ≠ [] := Nat.toDigits_ne_nil
    rw [getNoninstanceidMatchRowId_eq h hmid hlen, stringToNum, if_neg hne, stringToNum_toDigits, Option.getD_some, intMax]
    omega

/-! ## When a name is matched exactly -/

/-- A template matches exactly but for two kinds of names. -/
theorem matchedExactly_iff (h : OneHole p s) (name : Text) : MatchedExactly p s name ∧ BuiltMatched p s ↔ ¬Confusing p s name := by
  constructor
  · rintro ⟨hexact, -⟩ ⟨ch, digits, rfl, hcase⟩
    have hshape : ∀ k : Int, k ≠ -1 → (∃ row : Nat, IsRow row digits ∧ k = row) ∨ IsMinus k digits → ch = '.' ∧ ∃ row, IsRow row digits := by
      intro k hne hk
      have hlen : digits.length = 1 ∨ digits.length = 2 := by
        rcases hk with ⟨row, hrow, -⟩ | ⟨d, -, -, rfl, -⟩
        · exact hrow.1
        · exact .inr rfl
      have hmid : '.' ∉ digits := by
        rcases hk with ⟨row, hrow, -⟩ | ⟨d, hd, -, rfl, -⟩
        · exact hrow.not_mem_dot
        · exact not_mem_dot_minus hd
      have hrow : getNoninstanceidMatchRowId (templateStr p s) (p ++ ch :: (digits ++ '.' :: s)) = k := by
        rw [getNoninstanceidMatchRowId_eq h hmid hlen]
        exact (stringToNum_getD_iff hne hlen).2 hk
      obtain ⟨row, digits', hdigits', -, heq⟩ := (hexact k hne).1 ⟨(templateMatchCompare_iff h).2 ⟨ch, digits, rfl, hmid, hlen⟩, hrow⟩
      rw [List.append_cancel_left_eq, List.cons.injEq, List.append_cancel_right_eq] at heq
      exact ⟨heq.1, row, heq.2 ▸ hdigits'⟩
    rcases hcase with ⟨hch, row, hrow⟩ | ⟨k, hminus⟩
    · exact hch (hshape row (by omega) (.inl ⟨row, hrow, rfl⟩)).1
    · obtain ⟨-, row, -, hall, -⟩ := hshape k hminus.ne (.inr hminus)
      obtain ⟨d, -, -, rfl, -⟩ := hminus
      rw [List.all_cons, Bool.and_eq_true] at hall
      exact absurd hall.1 (by decide)
  · intro hclear
    refine ⟨fun k hk => ⟨?_, ?_⟩, builtMatched h⟩
    · rintro ⟨hmatch, hrow⟩
      obtain ⟨ch, mid, rfl, hmid, hlen⟩ := (templateMatchCompare_iff h).1 hmatch
      rw [getNoninstanceidMatchRowId_eq h hmid hlen] at hrow
      rcases (stringToNum_getD_iff hk hlen).1 hrow with ⟨row, hdigits, heq⟩ | hminus
      · by_cases hch : ch = '.'
        · subst hch
          exact ⟨row, mid, hdigits, heq, rfl⟩
        · exact absurd ⟨ch, mid, rfl, .inl ⟨hch, row, hdigits⟩⟩ hclear
      · exact absurd ⟨ch, mid, rfl, .inr ⟨k, hminus⟩⟩ hclear
    · rintro ⟨row, digits, hdigits, rfl, rfl⟩
      refine ⟨(templateMatchCompare_iff h).2 ⟨'.', digits, rfl, hdigits.not_mem_dot, hdigits.1⟩, ?_⟩
      rw [getNoninstanceidMatchRowId_eq h hdigits.not_mem_dot hdigits.1]
      exact (stringToNum_getD_iff hk hdigits.1).2 (.inl ⟨row, hdigits, rfl⟩)

theorem oneHole_letters : OneHole ['a'] ['b'] := by
  intro p' s' heq
  match p', heq with
  | [], heq => exact absurd (List.cons.inj heq).1 (by decide)
  | [_], heq =>
    obtain rfl := (List.cons.inj heq).1
    rfl
  | [_, _], heq => exact absurd (List.cons.inj (List.cons.inj (List.cons.inj heq).2).2).1 (by decide)
  | _ :: _ :: _ :: rest, heq =>
    have hlen := congrArg List.length heq
    simp [templateStr] at hlen
    omega

theorem matchedExactly_letters : MatchedExactly ['a'] ['b'] "a.12.b".toList ∧ BuiltMatched ['a'] ['b'] := by
  refine (matchedExactly_iff oneHole_letters _).2 ?_
  rintro ⟨ch, digits, heq, hcase⟩
  have hrest : '.' :: (['1', '2'] ++ '.' :: ['b']) = ch :: (digits ++ '.' :: ['b']) := (List.cons.inj heq).2
  rw [List.cons.injEq, List.append_cancel_right_eq] at hrest
  obtain ⟨rfl, rfl⟩ := hrest
  rcases hcase with ⟨hch, -⟩ | ⟨k, d, -, -, hdigits, -⟩
  · exact hch rfl
  · exact absurd (List.cons.inj hdigits).1 (by decide)

/-- A letter in place of the dot is not noticed, and a minus is read. -/
theorem not_matchedExactly_letters :
    OneHole ['a'] ['b'] ∧ ¬(MatchedExactly ['a'] ['b'] "aX8.b".toList ∧ BuiltMatched ['a'] ['b']) ∧
      ¬(MatchedExactly ['a'] ['b'] "a.-5.b".toList ∧ BuiltMatched ['a'] ['b']) := by
  refine ⟨oneHole_letters, fun h => ?_, fun h => ?_⟩
  · obtain ⟨row, digits, -, -, heq⟩ := (h.1 8 (by decide)).1 ⟨by decide, by decide⟩
    exact absurd (List.cons.inj (List.cons.inj heq).2).1 (by decide)
  · obtain ⟨row, digits, -, heq, -⟩ := (h.1 (-5) (by decide)).1 ⟨by decide, by decide⟩
    omega

end CodeFactory.Tcm
