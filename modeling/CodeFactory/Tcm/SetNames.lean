import CodeFactory.Tcm.SetValue
import Mathlib.Data.List.Pairwise

/-!
# The entry that takes a name

`tcmCB_set_value` compares a name with the entries one after the other. The name of an entry for a row is passed over by all other
entries, but for the object of its table, which gives the row.
-/

namespace CodeFactory.Tcm

open Tr69

/-- `"InternetGatewayDevice."`, with which the names begin. -/
def deviceName : Text :=
  ['I', 'n', 't', 'e', 'r', 'n', 'e', 't', 'G', 'a', 't', 'e', 'w', 'a', 'y', 'D', 'e', 'v', 'i', 'c', 'e', '.']

/-- A text that does not mention the device. -/
def neverDevice (s : Text) : Bool := s.tails.all fun t => !deviceName.isPrefixOf t

/-- A text that does not mention the device but at its head. -/
def headDevice (s : Text) : Bool := s.tail.tails.all fun t => !deviceName.isPrefixOf t

/-- The names do not mention the device but at their head. -/
def headedTemplate : Template Char → Bool
  | .whole name => headDevice name
  | .hole front back => headDevice front && neverDevice back

/-- The names that a column takes: the character in front of the row may be any. -/
def looseTemplate (name : Text) : Template Char :=
  match strstrTemplate name with
  | some cut => .hole cut.1 ('.' :: cut.2)
  | none => .whole name

/-- The object of a table is the front of the names of its table, and of no other. -/
def ownFront (d e : MatchParameter) (name : Text) : Template Char → Bool
  | .whole other => !name.isPrefixOf other
  | .hole front _ => if d.conflibAppID = e.conflibAppID then front = name else Template.differ name front

/-- A column does not take the names of another entry. -/
def passesColumn (x y : MatchParameter × Text) : Prop :=
  x.1.IsColumn → (looseTemplate x.2).apart (templateOf y.1.conflibRowID y.1.conflibParID y.2) = true

instance (x y : MatchParameter × Text) : Decidable (passesColumn x y) := inferInstanceAs (Decidable (_ → _))

/-- Names that can be told apart. -/
structure Distinct (named : List (MatchParameter × Text)) : Prop where
  headed : ∀ x ∈ named, headedTemplate (templateOf x.1.conflibRowID x.1.conflibParID x.2) = true
  device : ∀ x ∈ named, x.1.IsInstance → deviceName.isPrefixOf x.2 = true
  own : ∀ x ∈ named, x.1.IsInstance → ∀ y ∈ named, ownFront x.1 y.1 x.2 (templateOf y.1.conflibRowID y.1.conflibParID y.2) = true
  columns : named.Pairwise fun x y => passesColumn x y ∧ passesColumn y x

instance (named : List (MatchParameter × Text)) : Decidable (Distinct named) :=
  decidable_of_iff (_ ∧ _ ∧ _ ∧ _)
    ⟨fun ⟨headed, device, own, columns⟩ => ⟨headed, device, own, columns⟩, fun h => ⟨h.headed, h.device, h.own, h.columns⟩⟩

variable {N : ParaNumbers} {w : Surroundings} {d e z : MatchParameter} {k : Nat} {value a c : Text}

/-! ## The table -/

theorem exists_distinct : ∃ names, CharsOf ((gMatchParameters.map MatchParameter.tr069Name).map String.toList) names ∧
    Distinct (gMatchParameters.zip names) := by
  apply Exists.intro
  apply And.intro
  · unfold gMatchParameters
    simp only [List.map_cons, List.map_nil]
    repeat apply CharsOf.cons
    apply CharsOf.nil
  · decide +kernel

theorem distinct_table : Distinct (gMatchParameters.map fun e => (e, e.name)) := by
  obtain ⟨names, hchars, hdistinct⟩ := exists_distinct
  have hnames : names = gMatchParameters.map MatchParameter.name := by
    rw [← hchars.eq, List.map_map]
    rfl
  rw [hnames, ← List.map_prod_left_eq_zip] at hdistinct
  exact hdistinct

/-- What the flags of the entries have to be like for a value that is set. -/
structure SetTable where
  entries : List MatchParameter
  /-- Columns have an object of their table. -/
  objects : ∀ e ∈ entries, e.IsColumn → ∃ d ∈ entries, d.IsInstance ∧ d.conflibAppID = e.conflibAppID
  /-- Rows have no status. -/
  rows : ∀ e ∈ entries, e.conflibRowID = .flagTemplateRow → ¬e.IsInstance → e.IsColumn

def setTable : SetTable where
  entries := gMatchParameters
  objects := by decide +kernel
  rows := by decide +kernel

theorem exists_object (he : e ∈ gMatchParameters) (h : e.IsColumn) : ∃ d ∈ gMatchParameters, d.IsInstance ∧ d.conflibAppID = e.conflibAppID :=
  setTable.objects e he h

theorem isColumn_of_row (he : e ∈ gMatchParameters) (hrow : e.conflibRowID = .flagTemplateRow) (h : ¬e.IsInstance) : e.IsColumn :=
  setTable.rows e he hrow h

/-! ## What a name mentions -/

/-- A pattern that has nothing in common with the middle of a text stands in front of it or behind it. -/
theorem split_of_middle {q f m b : Text} (hq : q ≠ []) (hm : m ≠ []) (hapart : ∀ ch ∈ m, ch ∉ q) (heq : a ++ (q ++ c) = f ++ (m ++ b)) :
    (∃ c', f = a ++ (q ++ c')) ∨ ∃ a', b = a' ++ (q ++ c) := by
  rcases List.append_eq_append_iff.1 heq with ⟨x, hf, hqc⟩ | ⟨x, ha, hmb⟩
  · rcases List.append_eq_append_iff.1 hqc with ⟨y, hx, -⟩ | ⟨y, hqx, hmb⟩
    · exact .inl ⟨y, by rw [hf, hx]⟩
    · cases y with
      | nil => exact .inl ⟨[], by rw [hf, hqx, List.append_nil, List.append_nil]⟩
      | cons ch y =>
        obtain ⟨m0, m', rfl⟩ := List.exists_cons_of_ne_nil hm
        obtain rfl := (List.cons.inj hmb).1
        exact absurd (hqx ▸ List.mem_append_right _ List.mem_cons_self) (hapart m0 List.mem_cons_self)
  · rcases List.append_eq_append_iff.1 hmb with ⟨y, hx, hb⟩ | ⟨y, hmx, hqc⟩
    · exact .inr ⟨y, hb⟩
    · cases y with
      | nil => exact .inr ⟨[], hqc.symm⟩
      | cons ch y =>
        obtain ⟨q0, q', rfl⟩ := List.exists_cons_of_ne_nil hq
        obtain rfl := (List.cons.inj hqc).1
        exact absurd List.mem_cons_self (hapart q0 (hmx ▸ List.mem_append_right _ List.mem_cons_self))

theorem ne_of_neverDevice {s : Text} (h : neverDevice s = true) : s ≠ a ++ (deviceName ++ c) := by
  rintro rfl
  have htail := List.all_eq_true.1 h (deviceName ++ c) ((List.mem_tails _ _).2 (List.suffix_append _ _))
  rw [List.isPrefixOf_iff_prefix.2 (List.prefix_append deviceName c)] at htail
  cases htail

theorem eq_nil_of_headDevice {s : Text} (h : headDevice s = true) (heq : s = a ++ (deviceName ++ c)) : a = [] := by
  cases a with
  | nil => rfl
  | cons ch a =>
    subst heq
    exact absurd rfl (ne_of_neverDevice h)

/-- A name mentions the device at its head only. -/
theorem eq_nil_of_device (he : e ∈ gMatchParameters) (heq : e.nameAt k = a ++ (deviceName ++ c)) : a = [] := by
  have hheaded : headedTemplate e.template = true := distinct_table.headed _ (List.mem_map.2 ⟨e, he, rfl⟩)
  rw [MatchParameter.nameAt] at heq
  cases htemplate : e.template with
  | whole name =>
    rw [htemplate] at hheaded heq
    exact eq_nil_of_headDevice hheaded heq
  | hole front back =>
    rw [htemplate] at hheaded heq
    obtain ⟨hfront, hback⟩ := Bool.and_eq_true_iff.1 hheaded
    have hapart : ∀ ch ∈ Nat.toDigits 10 k, ch ∉ deviceName := by
      intro ch hch hmem
      have hdigit := List.all_eq_true.1 (all_isDigit_toDigits k) ch hch
      have hnone : deviceName.all (fun ch => !ch.isDigit) = true := by decide
      have hnot := List.all_eq_true.1 hnone ch hmem
      rw [hdigit] at hnot
      cases hnot
    rcases split_of_middle (List.cons_ne_nil _ _) Nat.toDigits_ne_nil hapart heq.symm with ⟨c', hf⟩ | ⟨a', hb⟩
    · exact eq_nil_of_headDevice hfront hf
    · exact absurd hb (ne_of_neverDevice hback)

/-- The object of a table is mentioned in the names of its table only. -/
theorem own_of_mentions (hd : d ∈ gMatchParameters) (h : d.IsInstance) (he : e ∈ gMatchParameters)
    (hmention : Http.mentions (e.nameAt k) d.name = true) : d.conflibAppID = e.conflibAppID ∧ ∃ back, e.template = .hole d.name back := by
  obtain ⟨a, c, hname⟩ : d.name <:+: e.nameAt k := by
    by_contra hnot
    rw [Http.mentions, dropInfix?_eq_none.2 hnot] at hmention
    cases hmention
  have hdevice : deviceName.isPrefixOf d.name = true := distinct_table.device (d, d.name) (List.mem_map.2 ⟨d, hd, rfl⟩) h
  obtain ⟨rest, hrest⟩ := List.isPrefixOf_iff_prefix.1 hdevice
  obtain rfl : a = [] := by
    refine eq_nil_of_device (e := e) (k := k) (c := rest ++ c) he ?_
    rw [← hname, ← hrest]
    simp only [List.append_assoc]
  have hown : ownFront d e d.name e.template = true :=
    distinct_table.own _ (List.mem_map.2 ⟨d, hd, rfl⟩) h _ (List.mem_map.2 ⟨e, he, rfl⟩)
  rw [MatchParameter.nameAt] at hname
  cases htemplate : e.template with
  | whole name =>
    rw [htemplate] at hown hname
    have hprefix : d.name.isPrefixOf name = true := List.isPrefixOf_iff_prefix.2 ⟨c, hname⟩
    rw [ownFront, hprefix] at hown
    cases hown
  | hole front back =>
    rw [htemplate] at hown hname
    rw [ownFront] at hown
    split at hown
    · rename_i happ
      rw [of_decide_eq_true hown]
      exact ⟨happ, back, rfl⟩
    · exact absurd hname (Template.append_ne_of_differ hown c _)

/-- The names of a table begin with its object. -/
theorem template_of_own (hd : d ∈ gMatchParameters) (h : d.IsInstance) (he : e ∈ gMatchParameters) (hrow : e.IsInstance ∨ e.IsColumn)
    (happ : d.conflibAppID = e.conflibAppID) : ∃ back, e.template = .hole d.name ('.' :: back) := by
  have hown : ownFront d e d.name e.template = true :=
    distinct_table.own _ (List.mem_map.2 ⟨d, hd, rfl⟩) h _ (List.mem_map.2 ⟨e, he, rfl⟩)
  have hback : ∃ front back, e.template = .hole front ('.' :: back) := by
    rcases hrow with hinstance | hcolumn
    · exact ⟨_, [], hinstance.template_eq⟩
    · obtain ⟨cut, hcut⟩ := hcolumn.exists_cut he
      exact ⟨_, _, hcolumn.template_eq hcut⟩
  obtain ⟨front, back, htemplate⟩ := hback
  rw [htemplate, ownFront, if_pos happ] at hown
  exact ⟨back, by rw [htemplate, of_decide_eq_true hown]⟩

/-- Only the entries of tables have names for rows. -/
theorem row_of_hole (he : e ∈ gMatchParameters) {front back : Text} (htemplate : e.template = .hole front back) :
    e.IsInstance ∨ e.IsColumn := by
  unfold MatchParameter.template templateOf at htemplate
  split at htemplate
  · rename_i hinstance
    exact .inl hinstance
  split at htemplate
  · rename_i hinstance hrow
    exact .inr (isColumn_of_row he hrow hinstance)
  · cases htemplate

/-! ## What the entries make of a name -/

theorem eq_of_plain (hz : z ∈ gMatchParameters) (h : z.IsPlain) (he : e ∈ gMatchParameters) (hname : z.name = e.nameAt k) : z = e :=
  MatchParameter.eq_of_nameAt_eq (j := 0) hz he ((h.nameAt_eq hz 0).trans hname)

/-- A column takes its own names only. -/
theorem eq_of_match (hz : z ∈ gMatchParameters) (h : z.IsColumn) (he : e ∈ gMatchParameters)
    (hmatch : templateMatchCompare z.name (e.nameAt k) = true) : z = e := by
  by_contra hne
  have : Std.Symm fun x y : MatchParameter × Text => passesColumn x y ∧ passesColumn y x := ⟨fun _ _ hxy => ⟨hxy.2, hxy.1⟩⟩
  have hpasses := List.Pairwise.forall distinct_table.columns (List.mem_map.2 ⟨z, hz, rfl⟩) (List.mem_map.2 ⟨e, he, rfl⟩)
    fun heq => hne (Prod.mk.inj heq).1
  obtain ⟨cut, hcut⟩ := h.exists_cut hz
  obtain ⟨ch, mid, hname, -⟩ := (templateMatchCompare_iff_of_cut hcut).1 hmatch
  have hapart := hpasses.1 h
  rw [looseTemplate, hcut] at hapart
  exact Template.fill_ne hapart (ch :: mid) (Nat.toDigits 10 k) hname.symm

theorem match_own (he : e ∈ gMatchParameters) (h : e.IsColumn) (hpos : 1 ≤ k) (hk : k ≤ 99) : templateMatchCompare e.name (e.nameAt k) = true := by
  obtain ⟨cut, hcut⟩ := h.exists_cut he
  refine (templateMatchCompare_iff_of_cut hcut).2 ⟨'.', Nat.toDigits 10 k, ?_, ?_, length_toDigits_row hpos hk⟩
  · rw [MatchParameter.nameAt, h.template_eq hcut, Template.fill, List.append_assoc]
    rfl
  · intro hdot
    exact absurd (List.all_eq_true.1 (all_isDigit_toDigits k) '.' hdot) (by decide)

/-- The row of a name of the table; one above 99 is refused. -/
theorem getInstanceidMatchRowId_fill (front back : Text) (k : Nat) :
    getInstanceidMatchRowId front ((Template.hole front ('.' :: back)).fill (Nat.toDigits 10 k)) = if k ≤ 99 then (k : Int) else -1 := by
  have hdot : '.' ∉ Nat.toDigits 10 k := by
    intro hdot
    exact absurd (List.all_eq_true.1 (all_isDigit_toDigits k) '.' hdot) (by decide)
  have hlength := Nat.length_toDigits_le_iff (b := 10) (n := k) (k := 2) (by decide) (by decide)
  rw [Template.fill, getInstanceidMatchRowId, List.drop_left, Conf.strchr_eq_some_iff.2 ⟨rfl, hdot⟩]
  dsimp only
  have hne : 0 < (Nat.toDigits 10 k).length := List.length_pos_iff.2 Nat.toDigits_ne_nil
  by_cases hk : k ≤ 99
  · rw [if_pos hk, if_pos ⟨hne, by omega⟩, stringToNum, if_neg Nat.toDigits_ne_nil, stringToNum_toDigits, Option.getD_some, intMax]
    omega
  · rw [if_neg hk, if_neg (by omega)]

end CodeFactory.Tcm
