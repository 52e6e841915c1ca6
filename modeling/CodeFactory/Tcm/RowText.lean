import CodeFactory.Conf.Lines
import CodeFactory.Oal.TcmRet
import CodeFactory.Tr69.Text

/-!
# The text of a row

The values of a new row come as one text: `removeBlank` takes the blanks out, and `parseTables` cuts what is left at the commas.
-/

namespace CodeFactory.Tcm

open Tr69
open Oal (TcmRet)
open Conf (strchr strchr_eq_none_iff strchr_eq_some_iff)

/-- A round of `removeBlank`: the string, and the index `j`. -/
def removeBlankRound (s : Text × Nat) (i : Nat) : Text × Nat :=
  match s.1[i]? with
  | none => s
  | some ch => if ch = ' ' then s else (s.1.set s.2 ch, s.2 + 1)

/-- `removeBlank`, of a string in front of its null. What is moved is no null, and none is written. -/
def removeBlank (pfString : Text) : Text := ((List.range pfString.length).foldl removeBlankRound (pfString, 0)).1

/-- An array of `size` characters with a string in it. -/
structure RowField where
  size : Nat
  text : Text
  fits : text.length < size
  deriving DecidableEq

/-- `strcpy` to a field. -/
def RowField.store (f : RowField) (p : Text) : Outcome RowField := if h : p.length < f.size then .done ⟨f.size, p, h⟩ else .undefined

/-- The loop of `parseTables`, at `p`, with the fields from `pfvalue[i]` on. -/
def parseFields : List RowField → Text → Outcome (List RowField)
  | [], _ => .undefined
  | f :: fields, p =>
    match strchr ',' p with
    | none => (f.store p).map fun f => f :: fields
    | some (front, behind) => (f.store front).bind fun f => (parseFields fields behind).map fun fields => f :: fields

/-- `parseTables`: what is returned, and the fields. A pointer may be null. -/
def parseTables (pfString : Option Text) (pfvalue : Option (List RowField)) (_maxnum : Int) : Outcome (TcmRet × Option (List RowField)) :=
  match pfString, pfvalue with
  | some pfString, some fields => (parseFields fields (removeBlank pfString)).map fun fields => (.success, some fields)
  | _, _ => .done (.invalidArguments, pfvalue)

/-! ## What it is for -/

/-- The characters that are not blank. -/
def nonBlank (text : Text) : Text := text.filter (· ≠ ' ')

/-- The parts between the commas. -/
def rowParts (text : Text) : List Text := (nonBlank text).splitOn ','

/-- The text is split exactly: blanks go, the parts are in the fields, the others stay, and a text with more parts than fields is rejected. -/
structure SplitExactly (maxnum : Int) (fields : List RowField) (text : Text) : Prop where
  blanks : removeBlank text = nonBlank text
  stored : (rowParts text).length ≤ fields.length → ∃ out, parseTables (some text) (some fields) maxnum = .done (.success, some out) ∧
    out.map RowField.size = fields.map RowField.size ∧
    out.map RowField.text = rowParts text ++ (fields.drop (rowParts text).length).map RowField.text
  rejected : fields.length < (rowParts text).length → ∃ ret out, parseTables (some text) (some fields) maxnum = .done (ret, out) ∧ ret ≠ .success

/-- There is a field for each part, and it is long enough. -/
def Fit (ps : List Text) (fields : List RowField) : Prop := ps.length ≤ fields.length ∧ ∀ q ∈ ps.zip fields, q.1.length < q.2.size

variable {text p : Text} {ps : List Text} {f : RowField} {fields out : List RowField} {maxnum : Int}

/-! ## Blanks -/

/-- Behind what has been kept, the characters stay where they are. -/
theorem removeBlank_rounds {n : Nat} (hn : n ≤ text.length) : (List.range n).foldl removeBlankRound (text, 0) =
    (nonBlank (text.take n) ++ text.drop (nonBlank (text.take n)).length, (nonBlank (text.take n)).length) := by
  induction n with
  | zero => simp [nonBlank]
  | succ n ih =>
    have hlt : n < text.length := hn
    have hkept : (nonBlank (text.take n)).length ≤ n :=
      (List.length_filter_le _ _).trans (List.length_take_le _ _)
    have htake : text.take (n + 1) = text.take n ++ [text[n]] := (List.take_append_getElem hlt).symm
    have hget : (nonBlank (text.take n) ++ text.drop (nonBlank (text.take n)).length)[n]? = some text[n] := by
      rw [List.getElem?_append_right hkept, List.getElem?_drop, Nat.add_sub_cancel' hkept, List.getElem?_eq_getElem hlt]
    rw [List.range_succ, List.foldl_append, ih hlt.le, List.foldl_cons, List.foldl_nil, removeBlankRound]
    dsimp only
    rw [hget]
    dsimp only
    split
    · rename_i hblank
      have hsame : nonBlank (text.take (n + 1)) = nonBlank (text.take n) := by
        rw [htake, nonBlank, List.filter_append, hblank]
        simp [nonBlank]
      rw [hsame]
    · rename_i hchar
      have hmore : nonBlank (text.take (n + 1)) = nonBlank (text.take n) ++ [text[n]] := by
        rw [htake, nonBlank, List.filter_append]
        simp [nonBlank, hchar]
      have hdrop := List.drop_eq_getElem_cons (Nat.lt_of_le_of_lt hkept hlt)
      rw [hmore, List.set_append_right _ _ (le_refl _), Nat.sub_self, hdrop, List.set_cons_zero, List.length_append, List.append_assoc]
      rfl

theorem removeBlank_eq (text : Text) : removeBlank text = nonBlank text ++ text.drop (nonBlank text).length := by
  rw [removeBlank, removeBlank_rounds (le_refl _), List.take_length]

theorem nonBlank_eq_self (h : ' ' ∉ text) : nonBlank text = text := by
  refine List.filter_eq_self.2 fun ch hch => decide_eq_true ?_
  rintro rfl
  exact h hch

theorem removeBlank_iff : removeBlank text = nonBlank text ↔ ' ' ∉ text := by
  rw [removeBlank_eq]
  constructor
  · intro heq hblank
    have hrest : text.drop (nonBlank text).length = [] := List.append_right_eq_self.1 heq
    have hlen : text.length ≤ (nonBlank text).length := List.drop_eq_nil_iff.1 hrest
    have hall := List.length_filter_eq_length_iff.1 (le_antisymm (List.length_filter_le _ _) hlen) ' ' hblank
    exact absurd hall (by decide)
  · intro h
    rw [nonBlank_eq_self h, List.drop_length, List.append_nil]

/-! ## Fields -/

@[simp] theorem not_fit_nil : ¬Fit (p :: ps) [] := fun h => absurd h.1 (by simp)

@[simp] theorem fit_nil : Fit [] fields := ⟨Nat.zero_le _, fun _ hq => absurd hq List.not_mem_nil⟩

@[simp] theorem fit_cons : Fit (p :: ps) (f :: fields) ↔ p.length < f.size ∧ Fit ps fields := by
  simp only [Fit, List.length_cons, Nat.add_le_add_iff_right, List.zip_cons_cons, List.forall_mem_cons]
  constructor
  · rintro ⟨hlen, hp, hps⟩
    exact ⟨hp, hlen, hps⟩
  · rintro ⟨hp, hlen, hps⟩
    exact ⟨hlen, hp, hps⟩

theorem store_eq_done {g : RowField} : f.store p = .done g ↔ p.length < f.size ∧ g.size = f.size ∧ g.text = p := by
  rw [RowField.store]
  split
  · rename_i h
    rw [Outcome.done.injEq]
    constructor
    · rintro rfl
      exact ⟨h, rfl, rfl⟩
    · obtain ⟨size, text, hfits⟩ := g
      rintro ⟨-, rfl, rfl⟩
      rfl
  · rename_i h
    exact iff_of_false (fun heq => nomatch heq) fun hg => h hg.1

/-- Fields are told apart by their sizes and texts. -/
theorem eq_of_sizes_of_texts (hsize : out.map RowField.size = fields.map RowField.size) (htext : out.map RowField.text = fields.map RowField.text) :
    out = fields := by
  induction out generalizing fields with
  | nil =>
    cases fields with
    | nil => rfl
    | cons f fields => cases hsize
  | cons g out ih =>
    cases fields with
    | nil => cases hsize
    | cons f fields =>
      obtain ⟨hg, hsizes⟩ := List.cons.inj hsize
      obtain ⟨hp, htexts⟩ := List.cons.inj htext
      obtain ⟨size, text, hfits⟩ := f
      subst hg hp
      rw [ih hsizes htexts]

/-- Parts that fit can be stored. -/
theorem exists_stored (h : Fit ps fields) :
    ∃ out : List RowField, out.map RowField.size = fields.map RowField.size ∧
      out.map RowField.text = ps ++ (fields.drop ps.length).map RowField.text := by
  induction ps generalizing fields with
  | nil => exact ⟨fields, rfl, rfl⟩
  | cons p ps ih =>
    cases fields with
    | nil => exact absurd h not_fit_nil
    | cons f fields =>
      obtain ⟨hp, hps⟩ := fit_cons.1 h
      obtain ⟨out, hsizes, htexts⟩ := ih hps
      exact ⟨⟨f.size, p, hp⟩ :: out, congrArg (f.size :: ·) hsizes, congrArg (p :: ·) htexts⟩

/-- Each part is in its field. -/
theorem parseFields_eq_done : parseFields fields p = .done out ↔ Fit (p.splitOn ',') fields ∧
    out.map RowField.size = fields.map RowField.size ∧
    out.map RowField.text = p.splitOn ',' ++ (fields.drop (p.splitOn ',').length).map RowField.text := by
  induction fields generalizing p out with
  | nil =>
    obtain ⟨q, ps, hps⟩ := List.exists_cons_of_ne_nil (List.splitOn_ne_nil ',' p)
    rw [hps]
    exact iff_of_false (fun h => nomatch h) fun h => not_fit_nil h.1
  | cons f fields ih =>
    rw [parseFields]
    cases hcut : strchr ',' p with
    | none =>
      have hone : p.splitOn ',' = [p] := List.splitOn_eq_singleton (strchr_eq_none_iff.1 hcut)
      rw [hone]
      simp only [Outcome.map_eq_done, store_eq_done, fit_cons, fit_nil, and_true, List.length_singleton, List.drop_succ_cons, List.drop_zero]
      constructor
      · rintro ⟨g, ⟨hfits, hsize, rfl⟩, rfl⟩
        exact ⟨hfits, congrArg (· :: _) hsize, rfl⟩
      · rintro ⟨hfits, hsize, htext⟩
        cases out with
        | nil => cases hsize
        | cons g out =>
          obtain ⟨hg, hsizes⟩ := List.cons.inj hsize
          obtain ⟨htext, htexts⟩ := List.cons.inj htext
          exact ⟨g, ⟨hfits, hg, htext⟩, congrArg (g :: ·) (eq_of_sizes_of_texts hsizes htexts).symm⟩
    | some cut =>
      obtain ⟨front, behind⟩ := cut
      obtain ⟨rfl, hfront⟩ := strchr_eq_some_iff.1 hcut
      rw [List.splitOn_append_cons_self_of_not_mem hfront]
      simp only [Outcome.bind_eq_done, Outcome.map_eq_done, store_eq_done, fit_cons, ih, List.length_cons, List.drop_succ_cons]
      constructor
      · rintro ⟨g, ⟨hfits, hsize, rfl⟩, out, ⟨hrest, hsizes, htexts⟩, rfl⟩
        refine ⟨⟨hfits, hrest⟩, ?_, ?_⟩
        · rw [List.map_cons, List.map_cons, hsize, hsizes]
        · rw [List.map_cons, htexts, List.cons_append]
      · rintro ⟨⟨hfits, hrest⟩, hsize, htext⟩
        cases out with
        | nil => cases hsize
        | cons g out =>
          obtain ⟨hg, hsizes⟩ := List.cons.inj hsize
          obtain ⟨htext, htexts⟩ := List.cons.inj htext
          exact ⟨g, ⟨hfits, hg, htext⟩, out, ⟨hrest, hsizes, htexts⟩, rfl⟩

/-! ## When the text is split exactly -/

/-- A text is split exactly if and only if there is no blank in it, a field for each part, and room for the part in its field. -/
theorem splitExactly_iff (maxnum : Int) (fields : List RowField) (text : Text) :
    SplitExactly maxnum fields text ↔ ' ' ∉ text ∧ Fit (rowParts text) fields := by
  constructor
  · rintro ⟨hblanks, hstored, hrejected⟩
    refine ⟨removeBlank_iff.1 hblanks, ?_⟩
    rcases Nat.lt_or_ge fields.length (rowParts text).length with hmany | hfew
    · obtain ⟨ret, out, hdone, hret⟩ := hrejected hmany
      obtain ⟨out', -, heq⟩ := Outcome.map_eq_done.1 hdone
      exact absurd (Prod.mk.inj heq).1.symm hret
    · obtain ⟨out, hdone, -⟩ := hstored hfew
      obtain ⟨out', hparse, -⟩ := Outcome.map_eq_done.1 hdone
      rw [hblanks] at hparse
      exact (parseFields_eq_done.1 hparse).1
  · rintro ⟨hblank, hfit⟩
    have hblanks := removeBlank_iff.2 hblank
    refine ⟨hblanks, fun _ => ?_, fun hmany => absurd hfit.1 (Nat.not_le.2 hmany)⟩
    obtain ⟨out, hsizes, htexts⟩ := exists_stored hfit
    refine ⟨out, ?_, hsizes, htexts⟩
    rw [parseTables, hblanks, parseFields_eq_done.2 ⟨hfit, hsizes, htexts⟩]
    rfl

/-- Two parts for two fields. -/
example : parseTables (some "ab,c".toList) (some [⟨4, [], by decide⟩, ⟨4, [], by decide⟩]) 3 =
    .done (.success, some [⟨4, ['a', 'b'], by decide⟩, ⟨4, ['c'], by decide⟩]) := by decide

/-- A blank leaves a character behind at the end. -/
theorem not_splitExactly_blank : ¬SplitExactly 3 [⟨4, [], by decide⟩, ⟨4, [], by decide⟩] "a ,c".toList := fun h =>
  absurd h.blanks (by decide)

end CodeFactory.Tcm
