import CodeFactory.Lib.Infix

/-!
# XML documents

A reader of XML over rows of octets, a character being an octet here, and the trees it is compared with. The reader cuts a
document into markup, each with the text behind it: tags, comments, `CDATA` sections and processing instructions. There are no
document type declarations, and so no entities but the predefined ones. What text is read as itself is settled at the end.
-/

namespace CodeFactory.Xml

/-- A row of octets. -/
abbrev Octets := List Char

/-! ## Characters -/

/-- `Char` of the XML recommendation. -/
def isXmlChar (n : Nat) : Bool :=
  n == 9 || n == 10 || n == 13 || (0x20 ≤ n && n ≤ 0xD7FF) || (0xE000 ≤ n && n ≤ 0xFFFD) || (0x10000 ≤ n && n ≤ 0x10FFFF)

/-- Where the decoding of UTF-8 stands: the octets still owed, the range of the next one and the bits read so far. -/
structure Utf8 where
  owed : Nat
  low : Nat
  high : Nat
  code : Nat
  deriving DecidableEq, Repr

/-- Between two characters. -/
def Utf8.between : Utf8 := ⟨0, 0, 0, 0⟩

/-- The octet a character begins with. -/
def Utf8.first (b : Nat) : Option Utf8 :=
  if b ≤ 0x7F then if isXmlChar b then some between else none
  else if 0xC2 ≤ b ∧ b ≤ 0xDF then some ⟨1, 0x80, 0xBF, b - 0xC0⟩
  else if 0xE0 ≤ b ∧ b ≤ 0xEF then some ⟨2, if b = 0xE0 then 0xA0 else 0x80, if b = 0xED then 0x9F else 0xBF, b - 0xE0⟩
  else if 0xF0 ≤ b ∧ b ≤ 0xF4 then some ⟨3, if b = 0xF0 then 0x90 else 0x80, if b = 0xF4 then 0x8F else 0xBF, b - 0xF0⟩
  else none

/-- One octet. -/
def Utf8.step (q : Utf8) (b : Nat) : Option Utf8 :=
  if q.owed = 0 then first b
  else if q.low ≤ b ∧ b ≤ q.high then
    let code := q.code * 64 + (b - 0x80)
    if q.owed = 1 then if isXmlChar code then some between else none
    else some ⟨q.owed - 1, 0x80, 0xBF, code⟩
  else none

/-- The octets are the UTF-8 encoding of characters of XML. -/
def legalFrom : Utf8 → Octets → Bool
  | q, [] => q = Utf8.between
  | q, c :: s =>
    match q.step c.toNat with
    | some q => legalFrom q s
    | none => false

/-- The octets are the UTF-8 encoding of characters of XML. -/
def legal (s : Octets) : Bool := legalFrom Utf8.between s

/-- The UTF-8 encoding of a character. -/
def encode (n : Nat) : Octets :=
  if n ≤ 0x7F then [Char.ofNat n]
  else if n ≤ 0x7FF then [Char.ofNat (0xC0 + n / 64), Char.ofNat (0x80 + n % 64)]
  else if n ≤ 0xFFFF then [Char.ofNat (0xE0 + n / 4096), Char.ofNat (0x80 + n / 64 % 64), Char.ofNat (0x80 + n % 64)]
  else [Char.ofNat (0xF0 + n / 262144), Char.ofNat (0x80 + n / 4096 % 64), Char.ofNat (0x80 + n / 64 % 64),
    Char.ofNat (0x80 + n % 64)]

/-! ## Text -/

/-- The value of a digit. -/
def digit (c : Char) : Option Nat :=
  if 48 ≤ c.toNat ∧ c.toNat ≤ 57 then some (c.toNat - 48)
  else if 97 ≤ c.toNat ∧ c.toNat ≤ 102 then some (c.toNat - 87)
  else if 65 ≤ c.toNat ∧ c.toNat ≤ 70 then some (c.toNat - 55)
  else none

/-- A number of digits to a base, read on from `n`. -/
def number (base : Nat) : Nat → Octets → Option Nat
  | n, [] => some n
  | n, c :: s =>
    match digit c with
    | some d => if d < base then number base (n * base + d) s else none
    | none => none

/-- The character a number stands for. -/
def characterReference (base : Nat) (digits : Octets) : Option Octets :=
  if digits = [] then none
  else (number base 0 digits).bind fun n => if isXmlChar n then some (encode n) else none

/-- What stands between `&` and `;` refers to. -/
def reference (name : Octets) : Option Octets :=
  if name = "amp".toList then some ['&']
  else if name = "lt".toList then some ['<']
  else if name = "gt".toList then some ['>']
  else if name = "quot".toList then some [Char.ofNat 34]
  else if name = "apos".toList then some [Char.ofNat 39]
  else
    match name with
    | '#' :: 'x' :: digits => characterReference 16 digits
    | '#' :: digits => characterReference 10 digits
    | _ => none

/-- The ends of lines as the reader passes them on. -/
def lineEnds : Octets → Octets
  | [] => []
  | '\r' :: '\n' :: s => '\n' :: lineEnds s
  | '\r' :: s => '\n' :: lineEnds s
  | c :: s => c :: lineEnds s

/-- Replace the references; inside of one, what has been read of its name. -/
def expand : Option Octets → Octets → Option Octets
  | none, [] => some []
  | some _, [] => none
  | none, c :: s => if c = '&' then expand (some []) s else (expand none s).map (c :: ·)
  | some name, c :: s =>
    if c = ';' then (reference name).bind fun t => (expand none s).map (t ++ ·) else expand (some (name ++ [c])) s

/-- What must not stand in text. -/
def sectionEnd : Octets := "]]>".toList

/-- The text that characters between two pieces of markup stand for. -/
def readText (raw : Octets) : Option Octets :=
  if legal raw && (raw.dropInfix? sectionEnd).isNone then expand none (lineEnds raw) else none

/-- Text that stands for itself, wherever it is written. -/
def Plain (s : Octets) : Prop :=
  legal s = true ∧ '<' ∉ s ∧ '&' ∉ s ∧ '\r' ∉ s ∧ s.dropInfix? sectionEnd = none

instance (s : Octets) : Decidable (Plain s) := inferInstanceAs (Decidable (_ ∧ _))

/-! ## Markup -/

/-- A piece of markup. -/
inductive Markup where
  | start (name : Octets) (attributes : List (Octets × Octets))
  | empty (name : Octets) (attributes : List (Octets × Octets))
  | stop (name : Octets)
  | comment (text : Octets)
  | cdata (text : Octets)
  | instruction (text : Octets)
  deriving DecidableEq, Repr

/-- White space. -/
def blank (c : Char) : Bool := c = ' ' || c = '\t' || c = '\n' || c = '\r'

/-- An octet of a name. -/
def nameChar (c : Char) : Bool := c.isAlphanum || c = ':' || c = '_' || c = '-' || c = '.' || 0x80 ≤ c.toNat

/-- An octet a name begins with. -/
def nameStart (c : Char) : Bool := c.isAlpha || c = ':' || c = '_' || 0x80 ≤ c.toNat

def isName : Octets → Bool
  | [] => false
  | c :: s => nameStart c && (c :: s).all nameChar

/-- The name at the head, and what is behind it. -/
def readName (s : Octets) : Option (Octets × Octets) :=
  if isName (s.takeWhile nameChar) then some (s.takeWhile nameChar, s.dropWhile nameChar) else none

/-- The value of an attribute. -/
def readValue (raw : Octets) : Option Octets :=
  if legal raw && !raw.contains '<' then expand none ((lineEnds raw).map fun c => if blank c then ' ' else c) else none

/-- `"`. -/
def quote : Char := Char.ofNat 34

/-- The attribute at the head, and what is behind it. -/
def readAttribute (s : Octets) : Option ((Octets × Octets) × Octets) :=
  (readName s).bind fun n =>
    match n.2.dropWhile blank with
    | '=' :: r =>
      match r.dropWhile blank with
      | q :: r =>
        if q = quote ∨ q = Char.ofNat 39 then
          match r.dropWhile (· ≠ q) with
          | _ :: r' => (readValue (r.takeWhile (· ≠ q))).map fun v => ((n.1, v), r')
          | [] => none
        else none
      | [] => none
    | _ => none

/-- The attributes at the head, at most `n`, and what is behind them and behind the blanks after them. -/
def readAttributes : Nat → Octets → Option (List (Octets × Octets) × Octets)
  | 0, _ => none
  | n + 1, s =>
    match s.dropWhile blank with
    | '>' :: r => some ([], '>' :: r)
    | '/' :: r => some ([], '/' :: r)
    | r =>
      -- a blank stands before each attribute
      if r = s then none
      else (readAttribute r).bind fun a => (readAttributes n a.2).map fun as => (a.1 :: as.1, as.2)

/-- The tag an element begins with, its `<` read. -/
def readStart (s : Octets) : Option (Markup × Octets) :=
  (readName s).bind fun n =>
    (readAttributes (n.2.length + 1) n.2).bind fun as =>
      match as.2 with
      | '>' :: r => some (.start n.1 as.1, r)
      | '/' :: '>' :: r => some (.empty n.1 as.1, r)
      | _ => none

/-- The tag an element ends with, its `</` read. -/
def readStop (s : Octets) : Option (Markup × Octets) :=
  (readName s).bind fun n =>
    match n.2.dropWhile blank with
    | '>' :: r => some (.stop n.1, r)
    | _ => none

/-- Markup that goes up to a mark. -/
def readUpTo (mark : Octets) (make : Octets → Markup) (s : Octets) : Option (Markup × Octets) :=
  (s.dropInfix? mark).bind fun r => if legal r.1 then some (make r.1, r.2) else none

/-- The markup at the head, and what is behind it. -/
def readMarkup : Octets → Option (Markup × Octets)
  | '<' :: '/' :: s => readStop s
  | '<' :: '?' :: s => readUpTo "?>".toList .instruction s
  | '<' :: '!' :: '-' :: '-' :: s => readUpTo "--".toList .comment s |>.bind fun r =>
    match r.2 with
    | '>' :: r' => some (r.1, r')
    | _ => none
  | '<' :: '!' :: '[' :: 'C' :: 'D' :: 'A' :: 'T' :: 'A' :: '[' :: s => readUpTo sectionEnd .cdata s
  | '<' :: s => readStart s
  | _ => none

/-- A piece of markup and the text behind it. -/
structure Item where
  markup : Markup
  text : Octets
  deriving DecidableEq, Repr

/-- Cut a document into its items. -/
def readItems (s : Octets) : Option (List Item) :=
  if s = [] then some []
  else
    match readMarkup s with
    | none => none
    | some (m, r) =>
      if r.length < s.length then
        (readText (r.takeWhile (· ≠ '<'))).bind fun t => (readItems (r.dropWhile (· ≠ '<'))).map (⟨m, t⟩ :: ·)
      else none
termination_by s.length
decreasing_by
  have hle := (List.dropWhile_suffix (fun c : Char => decide (c ≠ '<')) (l := r)).length_le
  omega

/-! ## Trees -/

/-- An element, with text in it or with elements. -/
inductive Element where
  | leaf (name : Octets) (attributes : List (Octets × Octets)) (text : Octets)
  | node (name : Octets) (attributes : List (Octets × Octets)) (children : List Element)

mutual

def Element.items : Element → List Item
  | .leaf name attributes text => [⟨.start name attributes, text⟩, ⟨.stop name, []⟩]
  | .node name attributes children => ⟨.start name attributes, []⟩ :: (Element.itemsAll children ++ [⟨.stop name, []⟩])

/-- The items of elements one after the other. -/
def Element.itemsAll : List Element → List Item
  | [] => []
  | e :: es => e.items ++ Element.itemsAll es

end

mutual

/-- No element has two attributes of one name. -/
def Element.distinct : Element → Bool
  | .leaf _ attributes _ => decide (attributes.map Prod.fst).Nodup
  | .node _ attributes children => decide (attributes.map Prod.fst).Nodup && Element.distinctAll children

/-- None of the elements has two attributes of one name. -/
def Element.distinctAll : List Element → Bool
  | [] => true
  | e :: es => e.distinct && Element.distinctAll es

end

/-- The octets are a well-formed document: a declaration and then the one element. -/
def IsDocument (declaration : Octets) (e : Element) (s : Octets) : Prop :=
  readItems s = some (⟨.instruction declaration, []⟩ :: e.items) ∧ e.distinct = true

instance (declaration : Octets) (e : Element) (s : Octets) : Decidable (IsDocument declaration e s) :=
  inferInstanceAs (Decidable (_ ∧ _))

example : readItems "<a x=\"1\"><b>p &lt; q</b></a>".toList =
    some [⟨.start ['a'] [(['x'], ['1'])], []⟩, ⟨.start ['b'] [], "p < q".toList⟩, ⟨.stop ['b'], []⟩, ⟨.stop ['a'], []⟩] := by
  decide +kernel

/-! ## What is read of plain text -/

theorem number_singleton {base n : Nat} {c : Char} (h : number base 0 [c] = some n) (hb : base ≤ 16) : n < 16 := by
  simp only [number] at h
  split at h
  · rename_i d hd
    split at h
    · cases h
      omega
    · cases h
  · cases h

theorem encode_length_le (n : Nat) : (encode n).length ≤ 4 := by
  unfold encode
  split_ifs <;> simp only [List.length_cons, List.length_nil] <;> omega

/-- A reference to a character is longer than the character. -/
theorem characterReference_length {base : Nat} {digits t : Octets} (h : characterReference base digits = some t) (hb : base ≤ 16) :
    t.length ≤ digits.length + 2 := by
  unfold characterReference at h
  split at h
  · cases h
  rename_i hne
  obtain ⟨n, hn, ht⟩ := Option.bind_eq_some_iff.1 h
  split at ht
  · cases ht
    match digits, hne, hn with
    | [c], _, hn =>
      have hlt := number_singleton hn hb
      rw [encode, if_pos (by omega)]
      exact Nat.le_add_left 1 2
    | c :: d :: rest, _, _ =>
      have hle := encode_length_le n
      simp only [List.length_cons]
      omega
  · cases ht

/-- A reference is longer than what it refers to. -/
theorem reference_length {name t : Octets} (h : reference name = some t) : t.length ≤ name.length + 1 := by
  unfold reference at h
  split_ifs at h
  any_goals (cases h; exact Nat.le_add_left 1 _)
  split at h
  · have hle := characterReference_length h (Nat.le_refl 16)
    simp only [List.length_cons]
    omega
  · have hle := characterReference_length h (by omega)
    simp only [List.length_cons]
    omega
  · cases h

theorem expand_none_cons (c : Char) (s : Octets) :
    expand none (c :: s) = if c = '&' then expand (some []) s else (expand none s).map (c :: ·) := rfl

theorem expand_some_cons (name : Octets) (c : Char) (s : Octets) : expand (some name) (c :: s) =
    if c = ';' then (reference name).bind fun t => (expand none s).map (t ++ ·) else expand (some (name ++ [c])) s := rfl

/-- Text does not get longer when its references are replaced. -/
theorem expand_length {name : Option Octets} {s t : Octets} (h : expand name s = some t) :
    t.length ≤ (name.getD []).length + s.length := by
  induction s generalizing name t with
  | nil =>
    cases name with
    | none =>
      cases h
      exact Nat.le_refl 0
    | some name => cases h
  | cons c s ih =>
    cases name with
    | none =>
      rw [expand_none_cons] at h
      split at h
      · have hle := ih h
        simp only [Option.getD_some, Option.getD_none, List.length_nil, List.length_cons] at hle ⊢
        omega
      · obtain ⟨t', ht', rfl⟩ := Option.map_eq_some_iff.1 h
        have hle := ih ht'
        simp only [Option.getD_none, List.length_nil, List.length_cons] at hle ⊢
        omega
    | some name =>
      rw [expand_some_cons] at h
      split at h
      · obtain ⟨u, hu, h⟩ := Option.bind_eq_some_iff.1 h
        obtain ⟨t', ht', rfl⟩ := Option.map_eq_some_iff.1 h
        have hle := ih ht'
        have hu := reference_length hu
        simp only [Option.getD_some, Option.getD_none, List.length_nil, List.length_cons, List.length_append] at hle ⊢
        omega
      · have hle := ih h
        simp only [Option.getD_some, List.length_cons, List.length_append, List.length_nil] at hle ⊢
        omega

theorem expand_of_not_mem {s : Octets} (h : '&' ∉ s) : expand none s = some s := by
  induction s with
  | nil => rfl
  | cons c s ih =>
    rw [List.mem_cons, not_or] at h
    rw [expand_none_cons, if_neg (Ne.symm h.1), ih h.2]
    rfl

/-- Text that keeps its length has no `&`. -/
theorem not_mem_of_expand {s t : Octets} (h : expand none s = some t) (hl : t.length = s.length) : '&' ∉ s := by
  induction s generalizing t with
  | nil => exact List.not_mem_nil
  | cons c s ih =>
    rw [expand_none_cons] at h
    split at h
    · have hle := expand_length h
      simp only [Option.getD_some, List.length_nil, List.length_cons] at hle hl
      omega
    · rename_i hc
      obtain ⟨t', ht', rfl⟩ := Option.map_eq_some_iff.1 h
      rw [List.mem_cons, not_or]
      exact ⟨Ne.symm hc, ih ht' (Nat.succ_inj.1 hl)⟩

theorem lineEnds_length (s : Octets) : (lineEnds s).length ≤ s.length := by
  fun_induction lineEnds s <;> simp only [List.length_cons, List.length_nil] <;> omega

theorem return_not_mem_lineEnds (s : Octets) : '\r' ∉ lineEnds s := by
  fun_induction lineEnds s with
  | case1 => exact List.not_mem_nil
  | case2 s ih => exact List.not_mem_cons_of_ne_of_not_mem (by decide) ih
  | case3 s hs ih => exact List.not_mem_cons_of_ne_of_not_mem (by decide) ih
  | case4 c s hc hs ih => exact List.not_mem_cons_of_ne_of_not_mem (fun h => hs h.symm) ih

theorem lineEnds_of_not_mem {s : Octets} (h : '\r' ∉ s) : lineEnds s = s := by
  fun_induction lineEnds s with
  | case1 => rfl
  | case2 s ih => exact absurd List.mem_cons_self h
  | case3 s hs ih => exact absurd List.mem_cons_self h
  | case4 c s hc hs ih => rw [ih fun hm => h (List.mem_cons_of_mem c hm)]

theorem readText_length {s t : Octets} (h : readText s = some t) : t.length ≤ s.length := by
  unfold readText at h
  split at h
  · have hle := expand_length h
    have hends := lineEnds_length s
    simp only [Option.getD_none, List.length_nil] at hle
    omega
  · cases h

/-- Text without `<` is read as itself exactly if it is plain. -/
theorem readText_eq_self {s : Octets} (hlt : '<' ∉ s) : readText s = some s ↔ Plain s := by
  unfold readText
  constructor
  · intro h
    split at h
    · rename_i hs
      rw [Bool.and_eq_true, Option.isNone_iff_eq_none] at hs
      have hle := expand_length h
      have hends := lineEnds_length s
      simp only [Option.getD_none, List.length_nil] at hle
      have hamp := not_mem_of_expand h (by omega)
      rw [expand_of_not_mem hamp] at h
      have hsame : lineEnds s = s := Option.some.inj h
      exact ⟨hs.1, hlt, hsame ▸ hamp, hsame ▸ return_not_mem_lineEnds s, hs.2⟩
    · cases h
  · rintro ⟨hlegal, -, hamp, hret, hend⟩
    rw [hlegal, hend, lineEnds_of_not_mem hret, expand_of_not_mem hamp]
    rfl

end CodeFactory.Xml
