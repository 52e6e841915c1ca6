import CodeFactory.Conf.Lines
import CodeFactory.Tcm.MatchTable
import CodeFactory.Tr69.Text

/-!
# The names of the match table

How the agent and the library of the other programs make the name of an object or a parameter from a name of the table and the index of
a row, and that no name of the parameter tree is made in two ways.
-/

namespace CodeFactory.Tcm

open Tr69

/-- `strstr` with `".0."`: what is in front of it, and what is behind it. -/
def strstrTemplate : Text → Option (Text × Text)
  | [] => none
  | ch :: rest =>
    if ['.', '0', '.'].isPrefixOf (ch :: rest) then some ([], rest.drop 2)
    else (strstrTemplate rest).map fun cut => (ch :: cut.1, cut.2)

def constructInstanceName (instanceTr069Name : Text) (instanceIndex : Nat) : Option Text :=
  if instanceTr069Name.getLast? ≠ some '.' then none
  else some (instanceTr069Name ++ (Nat.toDigits 10 instanceIndex ++ ['.']))

/-- `getInstanceParName`. Its `sprintf` reads the front of the name from the buffer it writes to, where it stands already. -/
def getInstanceParName (instanceTr069Name : Text) (instanceIndex : Nat) : Option Text :=
  (strstrTemplate instanceTr069Name).map fun cut => cut.1 ++ '.' :: (Nat.toDigits 10 instanceIndex ++ '.' :: cut.2)

def createParameterName (tr069Name : Text) (index : Int) : Option Text :=
  if index < 1 ∨ 99 < index then none
  else (strstrTemplate tr069Name).map fun cut => cut.1 ++ ('.' :: (decimal index ++ ['.'])) ++ cut.2

def createInstanceName (tr069Name : Text) (index : Int) : Option Text :=
  if index < 1 ∨ 99 < index ∨ tr069Name.getLast? ≠ some '.' then none
  else some (tr069Name ++ (decimal index ++ ['.']))

/-! ## The names that an entry is for -/

/-- The names of the tree that an entry with such flags is for. -/
def templateOf (conflibRowID : RowID) (conflibParID : ParID) (tr069Name : Text) : Template Char :=
  if conflibParID = .flagInstanceID then .hole tr069Name ['.']
  else if conflibRowID = .flagTemplateRow then
    match strstrTemplate tr069Name with
    | some cut => .hole (cut.1 ++ ['.']) ('.' :: cut.2)
    | none => .whole tr069Name
  else .whole tr069Name

namespace MatchParameter

variable (e : MatchParameter)

/-- The name of the entry as a C string. -/
def name : Text := e.tr069Name.toList

/-- The names of the tree that the entry is for. -/
def template : Template Char := templateOf e.conflibRowID e.conflibParID e.name

def nameAt (row : Nat) : Text := e.template.fill (Nat.toDigits 10 row)

def IsDefaultObject : Prop := e.conflibAppID = .flagAddDefaultObject

/-- The object of a row of a table. -/
def IsInstance : Prop := e.conflibParID = .flagInstanceID

/-- A parameter outside of the tables. -/
def IsPlain : Prop := e.conflibRowID = .flagNoRow ∧ e.conflibParID ≠ .flagStatusStyle

/-- A column of a table. -/
def IsColumn : Prop :=
  e.conflibRowID = .flagTemplateRow ∧ e.conflibParID ≠ .flagInstanceID ∧ e.conflibParID ≠ .flagStatusStyle

instance : Decidable e.IsDefaultObject := inferInstanceAs (Decidable (_ = _))
instance : Decidable e.IsInstance := inferInstanceAs (Decidable (_ = _))
instance : Decidable e.IsPlain := inferInstanceAs (Decidable (_ ∧ _))
instance : Decidable e.IsColumn := inferInstanceAs (Decidable (_ ∧ _))

end MatchParameter

/-! ## The table -/

/-- What the name of an entry has to be like. -/
def wellNamed (e : MatchParameter) (name : Text) : Bool :=
  (!decide e.IsInstance || name.getLast? == some '.') && (!decide e.IsColumn || (strstrTemplate name).isSome)

def connectionRequestURL : String := "InternetGatewayDevice.ManagementServer.ConnectionRequestURL"

/-- The names of the table are as they have to be, and pairwise apart, also from the address for connection requests. -/
theorem exists_names : ∃ url names,
    CharsOf ((connectionRequestURL :: gMatchParameters.map MatchParameter.tr069Name).map String.toList) (url :: names) ∧
    (∀ x ∈ gMatchParameters.zip names, wellNamed x.1 x.2 = true ∧ x.2.length ≤ 200) ∧
    (Template.whole url :: gMatchParameters.zipWith (fun e name => templateOf e.conflibRowID e.conflibParID name) names).Pairwise
      fun s t => s.apart t = true := by
  apply Exists.intro
  apply Exists.intro
  apply And.intro
  · unfold gMatchParameters connectionRequestURL
    simp only [List.map_cons, List.map_nil]
    repeat apply CharsOf.cons
    apply CharsOf.nil
  · decide +kernel

/-- The names of objects end with a dot, those of columns have a place for the row, and none is long. -/
theorem wellNamed_name {e : MatchParameter} (he : e ∈ gMatchParameters) : wellNamed e e.name = true ∧ e.name.length ≤ 200 := by
  obtain ⟨url, names, hchars, hnamed, -⟩ := exists_names
  obtain ⟨-, rfl⟩ := List.cons.inj hchars.eq
  refine hnamed (e, e.name) ?_
  rw [List.map_map, ← List.map_prod_left_eq_zip]
  exact List.mem_map.2 ⟨e, he, rfl⟩

theorem templates_pairwise : (gMatchParameters.map MatchParameter.template).Pairwise (fun s t => s.apart t = true) ∧
    ∀ e ∈ gMatchParameters, (Template.whole connectionRequestURL.toList).apart e.template = true := by
  obtain ⟨url, names, hchars, -, hpairwise⟩ := exists_names
  obtain ⟨rfl, rfl⟩ := List.cons.inj hchars.eq
  rw [List.map_map, List.zipWith_map_right, List.zipWith_self, List.pairwise_cons] at hpairwise
  exact ⟨hpairwise.2, fun e he => hpairwise.1 _ (List.mem_map.2 ⟨e, he, rfl⟩)⟩

/-- What the flags of an entry have to be like. -/
def wellFlagged (e : MatchParameter) : Prop :=
  (e.IsDefaultObject → ¬e.IsInstance ∧ e.conflibRowID = .flagAddDefaultObject) ∧ (e.IsInstance → e.conflibRowID = .flagTemplateRow) ∧
  (e.IsInstance ∨ e.IsColumn → e.maxNumInstance = maxNumOfRuleInstance) ∧
  (e.IsInstance → ∃ d ∈ gMatchParameters, d.IsColumn ∧ d.conflibAppID = e.conflibAppID)

instance (e : MatchParameter) : Decidable (wellFlagged e) := inferInstanceAs (Decidable (_ ∧ _))

/-- A table that the programs can work with. -/
structure MatchTable where
  entries : List MatchParameter
  flagged : ∀ e ∈ entries, wellFlagged e
  /-- The object of a table comes before the columns. -/
  instances : entries.Pairwise fun d e => ¬(d.IsColumn ∧ e.IsInstance ∧ d.conflibAppID = e.conflibAppID)

def matchTable : MatchTable where
  entries := gMatchParameters
  flagged := by decide +kernel
  instances := by decide +kernel

theorem wellFlagged_of_mem {e : MatchParameter} (he : e ∈ gMatchParameters) : wellFlagged e := matchTable.flagged e he

namespace MatchParameter

variable {e : MatchParameter}

/-- An entry of the table is of one kind only. -/
theorem IsDefaultObject.others (h : e.IsDefaultObject) (he : e ∈ gMatchParameters) : ¬e.IsInstance ∧ ¬e.IsPlain ∧ ¬e.IsColumn := by
  obtain ⟨hinstance, hrow⟩ := (wellFlagged_of_mem he).1 h
  refine ⟨hinstance, fun hp => ?_, fun hc => ?_⟩
  · exact absurd (hrow.symm.trans hp.1) (by decide)
  · exact absurd (hrow.symm.trans hc.1) (by decide)

@[inherit_doc IsDefaultObject.others]
theorem IsInstance.others (h : e.IsInstance) (he : e ∈ gMatchParameters) : ¬e.IsDefaultObject ∧ ¬e.IsPlain ∧ ¬e.IsColumn := by
  have hrow := (wellFlagged_of_mem he).2.1 h
  refine ⟨fun hd => (hd.others he).1 h, fun hp => ?_, fun hc => hc.2.1 h⟩
  exact absurd (hrow.symm.trans hp.1) (by decide)

@[inherit_doc IsDefaultObject.others]
theorem IsColumn.others (h : e.IsColumn) (he : e ∈ gMatchParameters) : ¬e.IsDefaultObject ∧ ¬e.IsInstance ∧ ¬e.IsPlain := by
  refine ⟨fun hd => (hd.others he).2.2 h, h.2.1, fun hp => ?_⟩
  exact absurd (h.1.symm.trans hp.1) (by decide)

@[inherit_doc IsDefaultObject.others]
theorem IsPlain.others (h : e.IsPlain) (he : e ∈ gMatchParameters) : ¬e.IsDefaultObject ∧ ¬e.IsInstance ∧ ¬e.IsColumn :=
  ⟨fun hd => (hd.others he).2.1 h, fun hi => (hi.others he).2.1 h, fun hc => (hc.others he).2.2 h⟩

theorem IsColumn.not_isInstance (h : e.IsColumn) : ¬e.IsInstance := h.2.1

theorem IsInstance.template_eq (h : e.IsInstance) : e.template = .hole e.name ['.'] := if_pos h

theorem IsColumn.template_eq (h : e.IsColumn) {cut : Text × Text} (hcut : strstrTemplate e.name = some cut) :
    e.template = .hole (cut.1 ++ ['.']) ('.' :: cut.2) := by
  unfold template templateOf
  rw [if_neg h.2.1, if_pos h.1, hcut]

theorem nameAt_eq_name (h : ¬e.IsInstance) (hrow : e.conflibRowID ≠ .flagTemplateRow) (k : Nat) : e.nameAt k = e.name := by
  have htemplate : e.template = .whole e.name := by
    unfold template templateOf
    rw [if_neg (show e.conflibParID ≠ .flagInstanceID from h), if_neg hrow]
  rw [nameAt, htemplate]
  rfl

theorem IsPlain.nameAt_eq (h : e.IsPlain) (he : e ∈ gMatchParameters) (k : Nat) : e.nameAt k = e.name :=
  nameAt_eq_name (h.others he).2.1 (by rw [h.1]; decide) k

theorem IsDefaultObject.nameAt_eq (h : e.IsDefaultObject) (he : e ∈ gMatchParameters) (k : Nat) : e.nameAt k = e.name := by
  obtain ⟨hinstance, hflag⟩ := (wellFlagged_of_mem he).1 h
  exact nameAt_eq_name hinstance (by rw [hflag]; decide) k

theorem IsColumn.exists_cut (h : e.IsColumn) (he : e ∈ gMatchParameters) : ∃ cut, strstrTemplate e.name = some cut := by
  have hnamed := (wellNamed_name he).1
  rw [wellNamed, Bool.and_eq_true, Bool.or_eq_true, Bool.or_eq_true] at hnamed
  rcases hnamed.2 with hnot | hsome
  · rw [Bool.not_eq_true', decide_eq_false_iff_not] at hnot
    exact absurd h hnot
  · exact Option.isSome_iff_exists.1 hsome

/-- The name of the object of a row. -/
theorem IsInstance.constructInstanceName_eq (h : e.IsInstance) (he : e ∈ gMatchParameters) (k : Nat) :
    constructInstanceName e.name k = some (e.nameAt k) := by
  have hnamed := (wellNamed_name he).1
  rw [wellNamed, Bool.and_eq_true, Bool.or_eq_true, Bool.or_eq_true] at hnamed
  have hdot : e.name.getLast? = some '.' := by
    rcases hnamed.1 with hnot | hdot
    · rw [Bool.not_eq_true', decide_eq_false_iff_not] at hnot
      exact absurd h hnot
    · exact eq_of_beq hdot
  rw [constructInstanceName, if_neg (not_not.2 hdot), nameAt, h.template_eq]
  rfl

theorem IsColumn.getInstanceParName_eq (h : e.IsColumn) (he : e ∈ gMatchParameters) (k : Nat) :
    getInstanceParName e.name k = some (e.nameAt k) := by
  obtain ⟨cut, hcut⟩ := h.exists_cut he
  rw [getInstanceParName, hcut, nameAt, h.template_eq hcut, Option.map_some, Template.fill, List.append_assoc]
  rfl

/-- The library makes the same name for the object of a row. -/
theorem IsInstance.createInstanceName_eq (h : e.IsInstance) (he : e ∈ gMatchParameters) {k : Nat} (hpos : 1 ≤ k) (hk : k ≤ 99) :
    createInstanceName e.name k = some (e.nameAt k) := by
  have hconstruct := h.constructInstanceName_eq he k
  unfold constructInstanceName at hconstruct
  split at hconstruct
  · cases hconstruct
  · rename_i hdot
    rw [createInstanceName, if_neg (fun hbad => ?_)]
    · exact hconstruct
    · rcases hbad with hlow | hhigh | hend
      · omega
      · omega
      · exact hdot hend

theorem IsColumn.createParameterName_eq (h : e.IsColumn) (he : e ∈ gMatchParameters) {k : Nat} (hpos : 1 ≤ k) (hk : k ≤ 99) :
    createParameterName e.name k = some (e.nameAt k) := by
  obtain ⟨cut, hcut⟩ := h.exists_cut he
  rw [createParameterName, if_neg (by omega), hcut, nameAt, h.template_eq hcut, Option.map_some, Template.fill]
  simp only [decimal, List.append_assoc, List.cons_append, List.nil_append]

theorem length_strstrTemplate {name : Text} {cut : Text × Text} (h : strstrTemplate name = some cut) :
    cut.1.length + cut.2.length ≤ name.length := by
  induction name generalizing cut with
  | nil => cases h
  | cons ch rest ih =>
    rw [strstrTemplate] at h
    split at h
    · cases h
      simp only [List.length_nil, List.length_drop, List.length_cons]
      omega
    · obtain ⟨cut', hcut', rfl⟩ := Option.map_eq_some_iff.1 h
      have := ih hcut'
      simp only [List.length_cons]
      omega

/-- No name for a row is long. -/
theorem length_nameAt_le (he : e ∈ gMatchParameters) {k : Nat} (hk : k ≤ 99) : (e.nameAt k).length ≤ 204 := by
  have hname := (wellNamed_name he).2
  have hdigits : (Nat.toDigits 10 k).length ≤ 2 := by
    have hall : ∀ k ≤ 99, (Nat.toDigits 10 k).length ≤ 2 := by decide +kernel
    exact hall k hk
  unfold nameAt template templateOf
  split
  · simp only [Template.fill, List.length_append, List.length_cons, List.length_nil]
    omega
  split
  · cases hcut : strstrTemplate e.name with
    | none =>
      change e.name.length ≤ 204
      omega
    | some cut =>
      have hlength := length_strstrTemplate hcut
      simp only [Template.fill, List.length_append, List.length_cons, List.length_nil]
      omega
  · change e.name.length ≤ 204
    omega

/-- Entries have names of their own. -/
theorem eq_of_nameAt_eq {d : MatchParameter} (hd : d ∈ gMatchParameters) (he : e ∈ gMatchParameters) {j k : Nat}
    (heq : d.nameAt j = e.nameAt k) : d = e := by
  have hpairwise := templates_pairwise.1
  rw [List.pairwise_map] at hpairwise
  obtain ⟨xs, ys, hsplit⟩ := List.append_of_mem he
  rw [hsplit] at hpairwise hd
  by_contra hne
  have hother : d ∈ xs ∨ d ∈ ys := by
    rcases List.mem_append.1 hd with hx | hy
    · exact .inl hx
    · exact .inr ((List.mem_cons.1 hy).resolve_left hne)
  exact Template.fill_ne_of_pairwise hpairwise hother _ _ heq

/-- Rows have names of their own. -/
theorem nameAt_inj (h : e.IsInstance ∨ e.IsColumn) (he : e ∈ gMatchParameters) {k k' : Nat} (heq : e.nameAt k = e.nameAt k') :
    k = k' := by
  have hfill : ∃ front back, e.template = .hole front back := by
    rcases h with hi | hc
    · exact ⟨_, _, hi.template_eq⟩
    · obtain ⟨cut, hcut⟩ := hc.exists_cut he
      exact ⟨_, _, hc.template_eq hcut⟩
  obtain ⟨front, back, htemplate⟩ := hfill
  rw [nameAt, nameAt, htemplate, Template.fill_hole_inj] at heq
  have hatoi := congrArg Conf.atoi heq
  rw [Conf.atoi_toDigits, Conf.atoi_toDigits] at hatoi
  exact Int.ofNat.inj hatoi

end MatchParameter

end CodeFactory.Tcm
