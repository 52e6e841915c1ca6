import CodeFactory.Lib.Infix
import Mathlib.Data.List.TakeWhile

/-!
# Fields of a line that are searched by name

A reader that knows nothing but a name looks for the first place where the name stands in a line, for the next equals sign behind
it, and for the next comma behind that. The line of a writer is a head and fields with commas between them. Here is what such a reader
finds, and when that is what the writer meant.
-/

namespace CodeFactory.Field

/-! ## Reading -/

/-- What is behind the first place of a name, of those places where `ok` holds of what is behind. -/
def Place (ok : List Char → Prop) (name line rest : List Char) : Prop :=
  ∃ before, line = before ++ (name ++ rest) ∧ ok rest ∧
    ∀ before' rest', line = before' ++ (name ++ rest') → ok rest' → before.length ≤ before'.length

/-- What is between the first equals sign and the next comma. -/
def Between (rest field : List Char) : Prop :=
  ∃ skipped behind, rest = skipped ++ '=' :: (field ++ behind) ∧ '=' ∉ skipped ∧ ',' ∉ field ∧
    (behind = [] ∨ ∃ more, behind = ',' :: more)

def FirstWord (field word : List Char) : Prop :=
  ∃ n behind, field = List.replicate n ' ' ++ (word ++ behind) ∧ ' ' ∉ word ∧ (word = [] → behind = []) ∧
    (behind = [] ∨ ∃ more, behind = ' ' :: more)

/-- What a word says. Quotes at both its ends say nothing. -/
def Unquoted (word value : List Char) : Prop :=
  word = '"' :: (value ++ ['"']) ∨ word = value ∧ ¬(word.head? = some '"' ∧ word.getLast? = some '"')

/-- The value that stands in a line for a name: it is read from a field of less than `room` characters. -/
def Stands (ok : List Char → Prop) (room : Nat) (name line value : List Char) : Prop :=
  ∃ rest field word, Place ok name line rest ∧ Between rest field ∧ field.length < room ∧ FirstWord field word ∧ Unquoted word value

/-- The head of a list up to an element is all of it, or the element comes next. -/
theorem takeWhile_ne_eq_iff {ch : Char} {s t : List Char} :
    s.takeWhile (· != ch) = t ↔ ∃ behind, s = t ++ behind ∧ ch ∉ t ∧ (behind = [] ∨ ∃ more, behind = ch :: more) := by
  constructor
  · rintro rfl
    refine ⟨s.dropWhile (· != ch), List.takeWhile_append_dropWhile.symm, fun hmem => ?_, ?_⟩
    · have hne := List.mem_takeWhile_imp hmem
      simp at hne
    · cases hdrop : s.dropWhile (· != ch) with
      | nil => exact .inl rfl
      | cons x more =>
        have hx := List.head?_dropWhile_not (· != ch) s
        rw [hdrop] at hx
        obtain rfl : x = ch := by simpa using hx
        exact .inr ⟨more, rfl⟩
  · rintro ⟨behind, rfl, ht, hbehind⟩
    rw [List.takeWhile_append_of_pos fun x hx => by
      rw [bne_iff_ne]
      rintro rfl
      exact ht hx]
    obtain rfl | ⟨more, rfl⟩ := hbehind
    · simp
    · simp

namespace Place

variable {ok : List Char → Prop} {name line rest rest' : List Char}

theorem unique (h : Place ok name line rest) (h' : Place ok name line rest') : rest = rest' := by
  obtain ⟨before, hline, hok, hfirst⟩ := h
  obtain ⟨before', hline', hok', hfirst'⟩ := h'
  have hlength := Nat.le_antisymm (hfirst _ _ hline' hok') (hfirst' _ _ hline hok)
  have hsame := List.append_inj (hline.symm.trans hline') hlength
  exact List.append_cancel_left hsame.2

/-- Where a name stands in a line, there is a first place, and what is behind the name is the end of what is behind that. -/
theorem exists_of_eq {before : List Char} (hline : line = before ++ (name ++ rest)) (hok : ok rest) :
    ∃ rest', Place ok name line rest' ∧ rest <:+ rest' := by
  induction hlength : before.length using Nat.strong_induction_on generalizing before rest with
  | _ n ih =>
    by_cases hearlier : ∃ before' rest', line = before' ++ (name ++ rest') ∧ ok rest' ∧ before'.length < before.length
    · obtain ⟨before', rest', hline', hok', hlt⟩ := hearlier
      obtain ⟨first, hfirst, hsuffix⟩ := ih _ (hlength ▸ hlt) hline' hok' rfl
      refine ⟨first, hfirst, List.IsSuffix.trans ?_ hsuffix⟩
      have hle : rest.length ≤ rest'.length := by
        have hsum := congrArg List.length (hline.symm.trans hline')
        simp only [List.length_append] at hsum
        omega
      have hsuf : rest <:+ line := ⟨before ++ name, by rw [hline, List.append_assoc]⟩
      have hsuf' : rest' <:+ line := ⟨before' ++ name, by rw [hline', List.append_assoc]⟩
      exact List.suffix_of_suffix_length_le hsuf hsuf' hle
    · refine ⟨rest, ⟨before, hline, hok, fun before' rest' hline' hok' => ?_⟩, List.suffix_rfl⟩
      exact Nat.not_lt.1 fun hlt => hearlier ⟨before', rest', hline', hok', hlt⟩

theorem iff_dropInfix? : Place (fun _ => True) name line rest ↔ ∃ before, line.dropInfix? name = some (before, rest) := by
  constructor
  · rintro ⟨before, hline, -, hfirst⟩
    refine ⟨before, dropInfix?_eq_some.2 ⟨by rw [hline, List.append_assoc], fun before' rest' hline' => ?_⟩⟩
    exact hfirst before' rest' (by rw [hline', List.append_assoc]) trivial
  · rintro ⟨before, hfind⟩
    obtain ⟨hline, hfirst⟩ := dropInfix?_eq_some.1 hfind
    refine ⟨before, by rw [hline, List.append_assoc], trivial, fun before' rest' hline' _ => ?_⟩
    exact hfirst before' rest' (by rw [hline', List.append_assoc])

theorem here (hline : line = name ++ rest) (hok : ok rest) : Place ok name line rest :=
  ⟨[], hline, hok, fun _ _ _ _ => Nat.zero_le _⟩

/-- A name that does not stand at the head is searched behind the first character. -/
theorem cons_iff {ch : Char} (h : ¬∃ rest', ch :: line = name ++ rest' ∧ ok rest') :
    Place ok name (ch :: line) rest ↔ Place ok name line rest := by
  constructor
  · rintro ⟨before, hline, hok, hfirst⟩
    cases before with
    | nil => exact absurd ⟨rest, hline, hok⟩ h
    | cons x before =>
      obtain ⟨rfl, htail⟩ := List.cons_eq_cons.1 hline
      refine ⟨before, htail, hok, fun before' rest' hline' hok' => ?_⟩
      exact Nat.le_of_succ_le_succ (hfirst (ch :: before') rest' (by rw [hline']; rfl) hok')
  · rintro ⟨before, hline, hok, hfirst⟩
    refine ⟨ch :: before, by rw [hline]; rfl, hok, fun before' rest' hline' hok' => ?_⟩
    cases before' with
    | nil => exact absurd ⟨rest', hline', hok'⟩ h
    | cons x before' => exact Nat.succ_le_succ (hfirst before' rest' (List.cons_eq_cons.1 hline').2 hok')

end Place

/-- The field ends where the next comma stands. -/
theorem between_iff {rest field : List Char} :
    Between rest field ↔ ∃ skipped value, rest = skipped ++ '=' :: value ∧ '=' ∉ skipped ∧ value.takeWhile (· != ',') = field := by
  constructor
  · rintro ⟨skipped, behind, hrest, hskipped, hfield, hbehind⟩
    exact ⟨skipped, field ++ behind, hrest, hskipped, takeWhile_ne_eq_iff.2 ⟨behind, rfl, hfield, hbehind⟩⟩
  · rintro ⟨skipped, value, hrest, hskipped, hfield⟩
    obtain ⟨behind, rfl, hcomma, hbehind⟩ := takeWhile_ne_eq_iff.1 hfield
    exact ⟨skipped, behind, hrest, hskipped, hcomma, hbehind⟩

/-- The first word is found by dropping blanks and reading up to the next one. -/
theorem firstWord_iff {field word : List Char} :
    FirstWord field word ↔ (field.dropWhile (· == ' ')).takeWhile (· != ' ') = word := by
  rw [takeWhile_ne_eq_iff]
  constructor
  · rintro ⟨n, behind, rfl, hword, hempty, hbehind⟩
    refine ⟨behind, ?_, hword, hbehind⟩
    rw [List.dropWhile_append_of_pos fun x hx => by simp [List.eq_of_mem_replicate hx]]
    cases word with
    | nil => rw [hempty rfl]; rfl
    | cons x word =>
      have hx : x ≠ ' ' := fun hx => hword (hx ▸ List.mem_cons_self)
      rw [List.cons_append, List.dropWhile_cons_of_neg (by simpa using hx)]
  · rintro ⟨behind, hdrop, hword, hbehind⟩
    refine ⟨(field.takeWhile (· == ' ')).length, behind, ?_, hword, ?_, hbehind⟩
    · rw [← hdrop]
      have hblanks : field.takeWhile (· == ' ') = List.replicate (field.takeWhile (· == ' ')).length ' ' :=
        List.eq_replicate_iff.2 ⟨rfl, fun x hx => by simpa using List.mem_takeWhile_imp hx⟩
      rw [← hblanks, List.takeWhile_append_dropWhile]
    · rintro rfl
      obtain rfl | ⟨more, rfl⟩ := hbehind
      · rfl
      · -- a blank would have been dropped
        have hhead := List.head?_dropWhile_not (· == ' ') field
        rw [hdrop] at hhead
        simp at hhead

/-! ## Writing -/

/-- A field as it is written: blanks, the name, an equals sign, and the value, bare or in quotes. -/
structure Written where
  lead : Nat
  name : List Char
  quoted : Bool
  value : List Char
  deriving DecidableEq, Repr

namespace Written

/-- What is behind the equals sign. -/
def field (w : Written) : List Char := if w.quoted then '"' :: (w.value ++ ['"']) else w.value

/-- The text of a field. -/
def text (w : Written) : List Char := List.replicate w.lead ' ' ++ (w.name ++ '=' :: w.field)

/-- A value without quotes and commas. -/
def Plain (w : Written) : Prop := '"' ∉ w.value ∧ ',' ∉ w.value

instance (w : Written) : Decidable w.Plain := inferInstanceAs (Decidable (_ ∧ _))

end Written

/-- Fields behind another. -/
def behind (ws : List Written) : List Char := ws.flatMap fun w => ',' :: w.text

/-- A line: a head, and fields with commas between them. -/
def line (head : List Char) : List Written → List Char
  | [] => head
  | w :: ws => head ++ (w.text ++ behind ws)

theorem line_append (head : List Char) (pre : List Written) (w : Written) (post : List Written) :
    ∃ before, line head (pre ++ w :: post) = before ++ (w.name ++ '=' :: (w.field ++ behind post)) := by
  cases pre with
  | nil =>
    refine ⟨head ++ List.replicate w.lead ' ', ?_⟩
    simp only [List.nil_append, line, Written.text, List.append_assoc, List.cons_append]
  | cons v pre =>
    refine ⟨head ++ (v.text ++ (behind pre ++ ',' :: List.replicate w.lead ' ')), ?_⟩
    simp only [line, behind, Written.text, List.flatMap_append, List.flatMap_cons, List.append_assoc, List.cons_append]

theorem behind_eq (ws : List Written) : behind ws = [] ∨ ∃ more, behind ws = ',' :: more := by
  cases ws with
  | nil => exact .inl rfl
  | cons w ws => exact .inr ⟨w.text ++ behind ws, rfl⟩

/-- A value without blanks is the word of its field, and no other is read as it was meant. -/
theorem Written.reads_iff {w : Written} (h : w.Plain) : (∃ word, FirstWord w.field word ∧ Unquoted word w.value) ↔ ' ' ∉ w.value := by
  obtain ⟨hquote, -⟩ := h
  constructor
  · rintro ⟨word, ⟨n, behind, hfield, hword, -, -⟩, hvalue⟩
    obtain rfl | ⟨rfl, -⟩ := hvalue
    · exact fun hblank => hword (List.mem_cons_of_mem _ (List.mem_append_left _ hblank))
    · exact hword
  · intro hblank
    refine ⟨w.field, ⟨0, [], (List.append_nil _).symm, ?_, fun _ => rfl, .inl rfl⟩, ?_⟩
    · rw [field]
      split
      · simpa using hblank
      · exact hblank
    · rw [field]
      split
      · exact .inl rfl
      · exact .inr ⟨rfl, fun hhead => hquote (List.mem_of_mem_head? hhead.1)⟩

/-- **When the first place of its name is that of its field, a value is read as it was meant** exactly when there are no blanks in it and
the field has room. -/
theorem Written.stands_iff {ok : List Char → Prop} {room : Nat} {w : Written} {line : List Char} {post : List Written} (h : w.Plain)
    (hplace : Place ok w.name line ('=' :: (w.field ++ behind post))) :
    Stands ok room w.name line w.value ↔ w.field.length < room ∧ ' ' ∉ w.value := by
  have hcomma : ',' ∉ w.field := by
    rw [field]
    split
    · simpa using h.2
    · exact h.2
  have hbetween : Between ('=' :: (w.field ++ behind post)) w.field :=
    ⟨[], behind post, rfl, List.not_mem_nil, hcomma, behind_eq post⟩
  rw [← reads_iff h]
  constructor
  · rintro ⟨rest, field, word, hrest, hfield, hroom, hword, hvalue⟩
    obtain rfl := hrest.unique hplace
    obtain ⟨skipped, value, hskip, hskipped, hfield⟩ := between_iff.1 hfield
    obtain ⟨skipped', value', hskip', hskipped', hfield'⟩ := between_iff.1 hbetween
    have hsame : field = w.field := by
      cases skipped with
      | nil =>
        cases skipped' with
        | nil =>
          obtain rfl : value = value' := List.cons_inj_right _ |>.1 (hskip.symm.trans hskip')
          exact hfield.symm.trans hfield'
        | cons x skipped' => exact absurd ((List.cons_eq_cons.1 hskip').1 ▸ List.mem_cons_self) hskipped'
      | cons x skipped => exact absurd ((List.cons_eq_cons.1 hskip).1 ▸ List.mem_cons_self) hskipped
    rw [← hsame]
    exact ⟨hroom, word, hword, hvalue⟩
  · rintro ⟨hroom, word, hword, hvalue⟩
    exact ⟨_, w.field, word, hplace, hbetween, hroom, hword, hvalue⟩

end CodeFactory.Field
