import CodeFactory.Lib.Xml
import Mathlib.Data.List.TakeWhile

/-!
# Writing XML documents

`Spells` relates a row of octets to what it is meant to be read as, and to the condition under which it is. It is put together
piece by piece, in the order a program writes a document in.
-/

namespace CodeFactory.Xml

/-! ## Markup that is read as it is meant -/

/-- The octets are read as the markup, whatever is behind them. -/
structure Lexes (raw : Octets) (m : Markup) : Prop where
  head : raw.head? = some '<'
  reads : ∀ r, readMarkup (raw ++ r) = some (m, r)

/-- The value of an attribute that may stand between `"`. -/
def Quotable (v : Octets) : Prop := readValue v = some v ∧ quote ∉ v

instance (v : Octets) : Decidable (Quotable v) := inferInstanceAs (Decidable (_ ∧ _))

theorem readName_append {name : Octets} {c : Char} (r : Octets) (hn : isName name = true) (hc : nameChar c = false) :
    readName (name ++ c :: r) = some (name, c :: r) := by
  have hall : ∀ x ∈ name, nameChar x = true := by
    cases name with
    | nil => exact fun _ h => absurd h List.not_mem_nil
    | cons a name => exact List.all_eq_true.1 (Bool.and_eq_true_iff.1 hn).2
  have hcf : ¬nameChar c = true := by rw [hc]; exact Bool.false_ne_true
  rw [readName, List.takeWhile_append_of_pos hall, List.dropWhile_append_of_pos hall, List.takeWhile_cons_of_neg hcf,
    List.dropWhile_cons_of_neg hcf, List.append_nil, if_pos hn]

/-- A name begins like neither an end tag nor a comment nor an instruction. -/
theorem readMarkup_name {name : Octets} (r : Octets) (hn : isName name = true) :
    readMarkup ('<' :: (name ++ r)) = readStart (name ++ r) := by
  cases name with
  | nil => cases hn
  | cons c name =>
    have hc := (Bool.and_eq_true_iff.1 hn).1
    unfold readMarkup
    split <;> rename_i heq
    all_goals first
      | (injection heq with hlt heq; injection heq with heq' heq; subst heq'; cases hc)
      | rfl
      | (injection heq with hlt heq; rw [← heq])
      | exact absurd rfl (heq _)

/-- An attribute, as it is written. -/
def attributeText (a : Octets × Octets) : Octets := ' ' :: (a.1 ++ '=' :: quote :: (a.2 ++ [quote]))

theorem readAttribute_append {a : Octets × Octets} (r : Octets) (hn : isName a.1 = true) (hv : Quotable a.2) :
    readAttribute (a.1 ++ '=' :: quote :: (a.2 ++ quote :: r)) = some (a, r) := by
  have hq : ∀ x ∈ a.2, decide (x ≠ quote) = true := fun x hx => decide_eq_true fun h => hv.2 (h ▸ hx)
  have htake : (quote :: r).takeWhile (fun x => decide (x ≠ quote)) = [] := List.takeWhile_cons_of_neg (by decide)
  have hdrop : (quote :: r).dropWhile (fun x => decide (x ≠ quote)) = quote :: r := List.dropWhile_cons_of_neg (by decide)
  rw [readAttribute, readName_append _ hn (by decide), Option.bind_some]
  simp only [List.dropWhile_cons_of_neg (show ¬blank '=' = true by decide),
    List.dropWhile_cons_of_neg (show ¬blank quote = true by decide), true_or, if_true]
  rw [List.takeWhile_append_of_pos hq, List.dropWhile_append_of_pos hq, htake, hdrop, List.append_nil, hv.1]
  rfl

/-- A name does not begin with a blank, nor with what ends a tag. -/
theorem head_of_isName {name : Octets} (hn : isName name = true) :
    ∃ c s, name = c :: s ∧ blank c = false ∧ c ≠ '>' ∧ c ≠ '/' := by
  cases name with
  | nil => cases hn
  | cons c s =>
    have hc := (Bool.and_eq_true_iff.1 hn).1
    refine ⟨c, s, rfl, ?_, fun h => ?_, fun h => ?_⟩
    · rw [Bool.eq_false_iff]
      intro hb
      simp only [blank, Bool.or_eq_true, decide_eq_true_eq] at hb
      rcases hb with ((rfl | rfl) | rfl) | rfl <;> exact absurd hc (by decide)
    · exact absurd (h ▸ hc) (by decide)
    · exact absurd (h ▸ hc) (by decide)

/-- Attributes are read back, with blanks more before the first than there need be. -/
theorem readAttributes_append {pad : Octets} (hpad : ∀ c ∈ pad, blank c = true) {as : List (Octets × Octets)}
    (has : ∀ a ∈ as, isName a.1 = true ∧ Quotable a.2) {n : Nat} (hn : as.length < n) (r : Octets) :
    readAttributes n (pad ++ (as.flatMap attributeText ++ '>' :: r)) = some (as, '>' :: r) := by
  induction as generalizing pad n with
  | nil =>
    obtain ⟨n, rfl⟩ := Nat.exists_eq_succ_of_ne_zero (Nat.ne_of_gt hn)
    rw [List.flatMap_nil, List.nil_append, readAttributes, List.dropWhile_append_of_pos hpad,
      List.dropWhile_cons_of_neg (by decide)]
    rfl
  | cons a as ih =>
    obtain ⟨n, rfl⟩ := Nat.exists_eq_succ_of_ne_zero (Nat.ne_of_gt (Nat.lt_of_le_of_lt (Nat.zero_le _) hn))
    obtain ⟨ha, has⟩ := List.forall_mem_cons.1 has
    obtain ⟨c, s, hname, hblank, hgt, hslash⟩ := head_of_isName ha.1
    have htail := ih (fun c hc => absurd hc List.not_mem_nil) has (Nat.succ_lt_succ_iff.1 hn)
    have htext : (a :: as).flatMap attributeText ++ '>' :: r =
        ' ' :: (a.1 ++ '=' :: quote :: (a.2 ++ quote :: (as.flatMap attributeText ++ '>' :: r))) := by
      simp only [List.flatMap_cons, attributeText, List.cons_append, List.append_assoc, List.nil_append]
    have hattr := readAttribute_append (as.flatMap attributeText ++ '>' :: r) ha.1 ha.2
    rw [htext, readAttributes, List.dropWhile_append_of_pos hpad, List.dropWhile_cons_of_pos (by decide)]
    rw [hname] at hattr ⊢
    rw [List.cons_append] at hattr ⊢
    rw [List.dropWhile_cons_of_neg (by rw [hblank]; exact Bool.false_ne_true)]
    split
    · rename_i heq
      exact absurd (List.cons_eq_cons.1 heq).1 hgt
    · rename_i heq
      exact absurd (List.cons_eq_cons.1 heq).1 hslash
    · rw [if_neg, hattr, Option.bind_some]
      · rw [List.nil_append] at htail
        rw [htail]
        rfl
      · intro h
        have hlen := congrArg List.length h
        simp only [List.length_append, List.length_cons] at hlen
        omega

theorem length_le_flatMap_attributeText (as : List (Octets × Octets)) : as.length ≤ (as.flatMap attributeText).length := by
  induction as with
  | nil => exact Nat.le_refl 0
  | cons a as ih =>
    rw [List.flatMap_cons, List.length_append, List.length_cons, attributeText, List.length_cons]
    omega

/-- A start tag, with blanks behind the name. -/
theorem lexes_start {name : Octets} (pad : Octets) {as : List (Octets × Octets)} (hn : isName name = true)
    (hpad : ∀ c ∈ pad, blank c = true) (has : ∀ a ∈ as, isName a.1 = true ∧ Quotable a.2) :
    Lexes ('<' :: (name ++ (pad ++ (as.flatMap attributeText ++ ['>'])))) (.start name as) := by
  refine ⟨rfl, fun r => ?_⟩
  have hrest : ∃ c s, pad ++ (as.flatMap attributeText ++ '>' :: r) = c :: s ∧ nameChar c = false := by
    cases pad with
    | nil =>
      cases as with
      | nil => exact ⟨'>', r, rfl, by decide⟩
      | cons a as => exact ⟨' ', _, rfl, by decide⟩
    | cons c pad =>
      refine ⟨c, _, rfl, ?_⟩
      have hc := hpad c List.mem_cons_self
      simp only [blank, Bool.or_eq_true, decide_eq_true_eq] at hc
      rcases hc with ((rfl | rfl) | rfl) | rfl <;> decide
  have htext : '<' :: (name ++ (pad ++ (as.flatMap attributeText ++ ['>']))) ++ r =
      '<' :: (name ++ (pad ++ (as.flatMap attributeText ++ '>' :: r))) := by
    simp only [List.cons_append, List.append_assoc, List.nil_append]
  have hcount : as.length < (pad ++ (as.flatMap attributeText ++ '>' :: r)).length + 1 := by
    have hle := length_le_flatMap_attributeText as
    simp only [List.length_append, List.length_cons]
    omega
  have hattrs := readAttributes_append hpad has hcount r
  rw [htext, readMarkup_name _ hn, readStart]
  obtain ⟨c, s, hcs, hc⟩ := hrest
  rw [hcs] at hattrs ⊢
  rw [readName_append s hn hc, Option.bind_some, hattrs]
  rfl

/-- An end tag, with blanks behind the name. -/
theorem lexes_stop {name : Octets} (pad : Octets) (hn : isName name = true) (hpad : ∀ c ∈ pad, blank c = true) :
    Lexes ('<' :: '/' :: (name ++ (pad ++ ['>']))) (.stop name) := by
  refine ⟨rfl, fun r => ?_⟩
  have htext : '<' :: '/' :: (name ++ (pad ++ ['>'])) ++ r = '<' :: '/' :: (name ++ (pad ++ '>' :: r)) := by
    simp only [List.cons_append, List.append_assoc, List.nil_append]
  have hrest : ∃ c s, pad ++ '>' :: r = c :: s ∧ nameChar c = false := by
    cases pad with
    | nil => exact ⟨'>', r, rfl, by decide⟩
    | cons c pad =>
      refine ⟨c, _, rfl, ?_⟩
      have hc := hpad c List.mem_cons_self
      simp only [blank, Bool.or_eq_true, decide_eq_true_eq] at hc
      rcases hc with ((rfl | rfl) | rfl) | rfl <;> decide
  have hdrop : (pad ++ '>' :: r).dropWhile blank = '>' :: r := by
    rw [List.dropWhile_append_of_pos hpad, List.dropWhile_cons_of_neg (by decide)]
  obtain ⟨c, s, hcs, hc⟩ := hrest
  rw [htext, readMarkup, readStop]
  rw [hcs] at hdrop ⊢
  rw [readName_append s hn hc, Option.bind_some, hdrop]
  rfl

/-! ## Documents, piece by piece -/

/-- Nothing, or markup. -/
def Starts (r : Octets) : Prop := r = [] ∨ r.head? = some '<'

theorem Starts.append {t r : Octets} (ht : Starts t) (hr : Starts r) : Starts (t ++ r) := by
  obtain rfl | ht := ht
  · exact hr
  · exact .inr (by rw [List.head?_append, ht]; rfl)

theorem text_of_starts {s r : Octets} (hs : '<' ∉ s) (hr : Starts r) :
    (s ++ r).takeWhile (· ≠ '<') = s ∧ (s ++ r).dropWhile (· ≠ '<') = r := by
  have hall : ∀ x ∈ s, decide (x ≠ '<') = true := fun x hx => decide_eq_true fun h => hs (h ▸ hx)
  rw [List.takeWhile_append_of_pos hall, List.dropWhile_append_of_pos hall]
  obtain rfl | hr := hr
  · exact ⟨List.append_nil s, rfl⟩
  · obtain ⟨r', rfl⟩ := List.head?_eq_some_iff.1 hr
    refine ⟨?_, List.dropWhile_cons_of_neg (by decide)⟩
    rw [List.takeWhile_cons_of_neg (by decide), List.append_nil]

theorem readItems_append {raw s : Octets} {m : Markup} (hm : Lexes raw m) :
    readItems (raw ++ s) = (readText (s.takeWhile (· ≠ '<'))).bind fun t =>
      (readItems (s.dropWhile (· ≠ '<'))).map (⟨m, t⟩ :: ·) := by
  obtain ⟨raw', rfl⟩ := List.head?_eq_some_iff.1 hm.head
  rw [readItems, if_neg (by exact List.cons_ne_nil _ _), hm.reads s]
  simp only [List.cons_append, List.length_cons, List.length_append]
  rw [if_pos (by omega)]

/-- One item. Text that is not plain is not read as itself, and whatever is read of it does not make up for that. -/
theorem readItems_eq_cons {raw s s' r : Octets} {m m' : Markup} {its : List Item} (hm : Lexes raw m) (hr : Starts r)
    (hs : s = s' ∨ Plain s) :
    readItems (raw ++ (s ++ r)) = some (⟨m', s'⟩ :: its) ↔ m = m' ∧ (s = s' ∧ Plain s) ∧ readItems r = some its := by
  rw [readItems_append hm]
  by_cases hlt : '<' ∈ s
  · -- the text is cut short at the `<`, and no reference makes it longer
    constructor
    · intro h
      obtain ⟨t, ht, h⟩ := Option.bind_eq_some_iff.1 h
      obtain ⟨its', -, heq⟩ := Option.map_eq_some_iff.1 h
      obtain ⟨hitem, -⟩ := List.cons_eq_cons.1 heq
      injection hitem with hm' hs'
      have hplain : ¬Plain s := fun hp => hp.2.1 hlt
      obtain rfl : s = t := (hs.resolve_right hplain).trans hs'.symm
      have hle := readText_length ht
      have hshort := congrArg List.length (List.takeWhile_append_dropWhile (p := fun c => decide (c ≠ '<')) (l := s))
      have hpos : 0 < (s.dropWhile fun c => decide (c ≠ '<')).length := by
        rw [List.length_pos_iff]
        intro hnil
        exact absurd hlt fun hmem => by simpa using List.dropWhile_eq_nil_iff.1 hnil _ hmem
      have htake : (s ++ r).takeWhile (fun c => decide (c ≠ '<')) = s.takeWhile fun c => decide (c ≠ '<') := by
        rw [List.takeWhile_append, if_neg]
        intro heq
        rw [List.length_append] at hshort
        omega
      rw [htake] at hle
      rw [List.length_append] at hshort
      omega
    · rintro ⟨-, ⟨-, hp⟩, -⟩
      exact absurd hlt hp.2.1
  · obtain ⟨htake, hdrop⟩ := text_of_starts hlt hr
    rw [htake, hdrop]
    constructor
    · intro h
      obtain ⟨t, ht, h⟩ := Option.bind_eq_some_iff.1 h
      obtain ⟨its', hits, heq⟩ := Option.map_eq_some_iff.1 h
      obtain ⟨hitem, rfl⟩ := List.cons_eq_cons.1 heq
      injection hitem with hm' hs'
      have hp : Plain s := hs.elim (fun h => (readText_eq_self hlt).1 (h.trans hs'.symm ▸ ht)) id
      have hself := (readText_eq_self hlt).2 hp
      rw [ht] at hself
      exact ⟨hm', ⟨(Option.some.inj hself).symm.trans hs', hp⟩, hits⟩
    · rintro ⟨rfl, ⟨rfl, hp⟩, hits⟩
      rw [(readText_eq_self hlt).2 hp, hits]
      rfl

/-- The octets are read as the items, whatever markup is behind them, exactly under the condition. -/
structure Spells (t : Octets) (items : List Item) (cond : Prop) : Prop where
  starts : Starts t
  reads : ∀ r its, Starts r → (readItems (t ++ r) = some (items ++ its) ↔ cond ∧ readItems r = some its)

namespace Spells

theorem nil : Spells [] [] True where
  starts := .inl rfl
  reads := fun _ _ _ => (and_iff_right trivial).symm

theorem append {t t' : Octets} {l l' : List Item} {c c' : Prop} (h : Spells t l c) (h' : Spells t' l' c') :
    Spells (t ++ t') (l ++ l') (c ∧ c') where
  starts := h.starts.append h'.starts
  reads := fun r its hr => by
    rw [List.append_assoc, List.append_assoc, h.reads _ _ (h'.starts.append hr), h'.reads r its hr, and_assoc]

theorem congr {t : Octets} {l : List Item} {c c' : Prop} (h : Spells t l c) (hc : c ↔ c') : Spells t l c' := propext hc ▸ h

theorem item {raw s s' : Octets} {m : Markup} (hm : Lexes raw m) (hs : s = s' ∨ Plain s) :
    Spells (raw ++ s) [⟨m, s'⟩] (s = s' ∧ Plain s) where
  starts := .inr (by rw [List.head?_append, hm.head]; rfl)
  reads := fun r its hr => by
    rw [List.append_assoc, List.singleton_append, readItems_eq_cons hm hr hs]
    exact and_iff_right rfl

/-- Other markup than is meant. -/
theorem other {raw t s : Octets} {m m' : Markup} (l : List Item) (hm : Lexes raw m) (hne : m ≠ m') :
    Spells (raw ++ t) (⟨m', s⟩ :: l) False where
  starts := .inr (by rw [List.head?_append, hm.head]; rfl)
  reads := fun r its _ => by
    rw [List.append_assoc, readItems_append hm]
    refine iff_of_false (fun h => ?_) fun h => h.1
    obtain ⟨t', -, h⟩ := Option.bind_eq_some_iff.1 h
    obtain ⟨its', -, heq⟩ := Option.map_eq_some_iff.1 h
    injection (List.cons_eq_cons.1 heq).1 with hm'
    exact hne hm'

theorem leaf {raw raw' name s s' : Octets} {as : List (Octets × Octets)} (hstart : Lexes raw (.start name as))
    (hstop : Lexes raw' (.stop name)) (hs : s = s' ∨ Plain s) :
    Spells (raw ++ (s ++ raw')) (Element.leaf name as s').items (s = s' ∧ Plain s) := by
  have hend := item hstop (.inl rfl : ([] : Octets) = [] ∨ Plain [])
  rw [List.append_nil] at hend
  have h := (item hstart hs).append hend
  rw [List.append_assoc] at h
  exact h.congr (and_iff_left ⟨rfl, by decide⟩)

theorem node {raw raw' name body : Octets} {as : List (Octets × Octets)} {es : List Element} {c : Prop}
    (hstart : Lexes raw (.start name as)) (hstop : Lexes raw' (.stop name)) (hbody : Spells body (Element.itemsAll es) c) :
    Spells (raw ++ (body ++ raw')) (Element.node name as es).items c := by
  have hbegin := item hstart (.inl rfl : ([] : Octets) = [] ∨ Plain [])
  have hend := item hstop (.inl rfl : ([] : Octets) = [] ∨ Plain [])
  rw [List.append_nil] at hbegin hend
  have h := hbegin.append (hbody.append hend)
  exact h.congr ⟨fun h => h.2.1, fun h => ⟨⟨rfl, by decide⟩, h, rfl, by decide⟩⟩

theorem flatMap {α : Type} {xs : List α} {f : α → Octets} {g : α → Element} {c : α → Prop}
    (h : ∀ x ∈ xs, Spells (f x) (g x).items (c x)) :
    Spells (xs.flatMap f) (Element.itemsAll (xs.map g)) (∀ x ∈ xs, c x) := by
  induction xs with
  | nil => exact nil.congr (iff_of_true trivial fun x hx => absurd hx List.not_mem_nil)
  | cons x xs ih =>
    obtain ⟨hx, hxs⟩ := List.forall_mem_cons.1 h
    exact (hx.append (ih hxs)).congr List.forall_mem_cons.symm

end Spells

theorem isDocument_iff {declaration s : Octets} {e : Element} {c : Prop}
    (h : Spells s (⟨.instruction declaration, []⟩ :: e.items) c) (he : e.distinct = true) : IsDocument declaration e s ↔ c := by
  have hread := h.reads [] [] (.inl rfl)
  rw [List.append_nil, List.append_nil] at hread
  rw [IsDocument, hread]
  exact ⟨fun h => h.1.1, fun h => ⟨⟨h, by rw [readItems]; rfl⟩, he⟩⟩

/-! ## Octets that stand for themselves -/

/-- An octet that means nothing to the reader, in text and in values. -/
def safe (c : Char) : Bool := 0x20 ≤ c.toNat && c.toNat ≤ 0x7E && c != '<' && c != '>' && c != '&' && c != quote

section

variable {s : Octets} (hs : ∀ c ∈ s, safe c = true)

include hs

theorem not_mem_of_safe {c : Char} (hc : safe c = false) : c ∉ s := fun hm => by
  rw [hs c hm] at hc
  cases hc

theorem legal_of_safe : legal s = true := by
  unfold legal
  induction s with
  | nil => rfl
  | cons c s ih =>
    obtain ⟨hc, hs⟩ := List.forall_mem_cons.1 hs
    simp only [safe, Bool.and_eq_true, decide_eq_true_eq] at hc
    have hstep : Utf8.step .between c.toNat = some .between := by
      have hxml : isXmlChar c.toNat = true := by
        have hlow : decide (0x20 ≤ c.toNat) = true := decide_eq_true (by omega)
        have hhigh : decide (c.toNat ≤ 0xD7FF) = true := decide_eq_true (by omega)
        rw [isXmlChar, hlow, hhigh]
        simp only [Bool.and_self, Bool.or_true, Bool.true_or]
      rw [Utf8.step, if_pos (show Utf8.between.owed = 0 from rfl), Utf8.first, if_pos (by omega), if_pos hxml]
    rw [legalFrom, hstep]
    exact ih hs

/-- Such octets are plain text. -/
theorem plain_of_safe : Plain s := by
  refine ⟨legal_of_safe hs, not_mem_of_safe hs (by decide), not_mem_of_safe hs (by decide), not_mem_of_safe hs (by decide), ?_⟩
  rw [Option.eq_none_iff_forall_not_mem]
  rintro ⟨p, t⟩ h
  obtain ⟨rfl, -⟩ := dropInfix?_eq_some.1 h
  refine not_mem_of_safe hs (c := '>') (by decide) ?_
  rw [List.mem_append, List.mem_append]
  exact .inl (.inr (by decide))

/-- Such octets may be the value of an attribute. -/
theorem quotable_of_safe : Quotable s := by
  refine ⟨?_, not_mem_of_safe hs (by decide)⟩
  have hlt : s.contains '<' = false := by
    rw [Bool.eq_false_iff]
    exact fun h => not_mem_of_safe hs (c := '<') (by decide) (List.contains_iff_mem.1 h)
  have hmap : s.map (fun c => if blank c = true then ' ' else c) = s := by
    refine (List.map_congr_left fun c hc => ?_).trans (List.map_id s)
    split
    · rename_i hb
      simp only [blank, Bool.or_eq_true, decide_eq_true_eq] at hb
      rcases hb with ((rfl | rfl) | rfl) | rfl
      · rfl
      all_goals exact absurd (hs _ hc) (by decide)
    · rfl
  rw [readValue, legal_of_safe hs, hlt, lineEnds_of_not_mem (not_mem_of_safe hs (by decide)), hmap,
    expand_of_not_mem (not_mem_of_safe hs (by decide))]
  rfl

end

end CodeFactory.Xml
