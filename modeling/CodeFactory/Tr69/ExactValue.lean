import CodeFactory.Tr69.Subtree

/-!
# A value that is set and read back

`get_tr069_value`, and what `set_tr069_value` has done when it says that the value is set. What the conversion should deliver is said
here by the number a value stands for, apart from the 32 bits it is kept in.
-/

namespace CodeFactory.Tr69

inductive Tr069Style where
  | configuration | treeStatus
  deriving DecidableEq, Repr

/-- What is read besides the tree of values: the style of a node, and `gCB.get_value`, which is `NULL` or delivers the text of a value
unless it fails. -/
structure Device where
  style : Pos → Tr069Style
  getValue : Option (Text → Option Text)

/-- The value of a leaf as it is read: the one in the tree (`get_value`), or for a leaf with another style than `CONFIGURATION` the one
the device has, which is empty or 0 if there is none. -/
def Device.readValue (device : Device) (name : Text) (p : Pos) (value : Tr069Value) : Except Result Tr069Value :=
  match device.style p with
  | .configuration => .ok value
  | .treeStatus =>
    match device.getValue.bind fun getValue => getValue name with
    | none => .ok (if value.type = .string then .string [] else value.ofBits 0)
    | some text =>
      if value.type = .string then .ok (.string text) else
      match stringToNum text with
      | none => .error .nodeValueError
      | some i => .ok (value.ofBits (BitVec.ofInt 32 i))

/-- `get_values`, which puts each leaf before those in `nameList` and `valueList`. -/
def Device.getValues (device : Device) (lists : List Tr069NameArg × List Tr069Value) (v : Visit) :
    Except Result (List Tr069NameArg × List Tr069Value) :=
  match v.cell with
  | .node ⟨_, accessType, _, _, _, _, _, .leaf value⟩ =>
    (device.readValue v.allName v.pos value).map fun value => (⟨v.allName, accessType⟩ :: lists.1, value :: lists.2)
  | _ => .ok lists

namespace TreeState

/-- `get_tr069_value`: the two lists, or an error. -/
def getTr069Value (s : TreeState) (device : Device) (name : Text) :
    Option (Except Result (List Tr069NameArg × List Tr069Value) × TreeState) :=
  if name = [] ∨ name = ['.'] then
    s.tree.rootNode.node.map fun p => ((s.tree.visitsFrom [] p).foldlM device.getValues ([], []), s)
  else if name.getLast? = some '.' then
    -- `get_tr069_father_name`
    if name.head? = some '.' then some (.error .nodeNameError, s) else
    s.withNode name .error fun entry s =>
      match entry.node with
      | none => some (.ok ([], []), s)
      | some p => some ((s.tree.visitsFrom (uptoLastDot (cutDot name)) p).foldlM device.getValues ([], []), s)
  else
    s.withNode name .error fun entry s =>
      match s.node? entry.node with
      | none => none
      | some (p, node) =>
        match node.content with
        | .leaf value =>
          some ((device.readValue name p value).map fun value => ([⟨name, node.accessType⟩], [value]), s)
        | _ => some (.error .nodeTypeError, s)

end TreeState

/-! ## What values stand for -/

/-- The number a string of digits stands for, whatever its size. -/
def digitsNumber (digits : Text) : Nat := digits.foldl (fun n c => 10 * n + (c.toNat - 48)) 0

/-- The number a text stands for. -/
def textNumber (text : Text) : Option Int :=
  match text with
  | [] => none
  | '-' :: rest => if rest ≠ [] ∧ rest.all Char.isDigit then some (-digitsNumber rest) else none
  | _ => if text.all Char.isDigit then some (digitsNumber text) else none

namespace Tr069Value

/-- The number a value stands for: the two words for the Booleans are taken for 1 and 0. -/
def number : Tr069Value → Option Int
  | int v | bool v => some v.toInt
  | unsigned v => some v.toNat
  | string s =>
    if sameWord s "true".toList then some 1 else if sameWord s "false".toList then some 0 else textNumber s

/-- The value is the conversion of the argument to the type: the text itself, the number as a text, or a value of the type that stands
for the same number. -/
def ConvertsTo (arg : Tr069Value) (type : Tr069Type) (value : Tr069Value) : Prop :=
  value.type = type ∧
    match arg, value with
    | string s, string t => t = s
    | arg, string t => ∃ i, arg.number = some i ∧ t = decimal i
    | arg, value => ∃ i, arg.number = some i ∧ value.number = some i

/-- The number of the argument is one that the words of both types stand for, and that `atoi` reads. -/
def Fits (arg : Tr069Value) (type : Tr069Type) : Prop :=
  match arg, type with
  | string _, .string => True
  | string _, .unsigned => ∀ i ∈ arg.number, 0 ≤ i ∧ i ≤ intMax
  | string _, _ => ∀ i ∈ arg.number, -intMax ≤ i ∧ i ≤ intMax
  | unsigned _, .unsigned => True
  | unsigned _, _ => ∀ i ∈ arg.number, i ≤ intMax
  | _, .unsigned => ∀ i ∈ arg.number, 0 ≤ i
  | _, _ => True

/-- The value lies in the range: the number, or the length of the text. -/
def Within (min max : Int) : Tr069Value → Prop
  | int v | bool v => min ≤ v.toInt ∧ v.toInt ≤ max
  | unsigned v => min ≤ v.toNat ∧ v.toNat ≤ max
  | string s => min ≤ s.length ∧ s.length ≤ max

/-- Bounds that mean for a type what they say: the lower one is an `int`, and the upper one is not negative where it is compared as an
unsigned number. -/
def BoundsFor (min max : Int) (type : Tr069Type) : Prop := min ≤ intMax ∧ (type = .unsigned ∨ type = .string → 0 ≤ max)

/-- A check of the range that says yes is right. -/
theorem within_of_inRange {min max : Int} {value : Tr069Value} (h : value.inRange min max = true)
    (hbounds : BoundsFor min max value.type) : value.Within min max := by
  obtain ⟨hmin, hmax⟩ := hbounds
  have hcompare : ∀ n : Nat, unsignedBound min ≤ n → n ≤ unsignedBound max → 0 ≤ max → min ≤ n ∧ (n : Int) ≤ max := by
    intro n hlow hhigh hnonneg
    unfold unsignedBound at hlow hhigh
    rw [BitVec.toNat_ofInt] at hlow hhigh
    unfold intMax at hmin
    omega
  unfold inRange at h
  cases value with
  | int v => simpa [Within] using h
  | bool v => simpa [Within] using h
  | unsigned v =>
    have hrange : unsignedBound min ≤ v.toNat ∧ v.toNat ≤ unsignedBound max := by simpa using h
    exact hcompare _ hrange.1 hrange.2 (hmax (Or.inl rfl))
  | string s =>
    have hrange : unsignedBound min ≤ s.length ∧ s.length ≤ unsignedBound max := by simpa using h
    exact hcompare _ hrange.1 hrange.2 (hmax (Or.inr rfl))

/-- What `string_to_num` reads is the number of the text, if `atoi` can hold it. -/
theorem textNumber_of_stringToNum {text : Text} {j : Int} (h : stringToNum text = some j) :
    ∃ i, textNumber text = some i ∧ (-intMax ≤ i → i ≤ intMax → j = i) := by
  have hatoi : ∀ digits, (digitsNumber digits : Int) ≤ intMax → atoi digits = digitsNumber digits := by
    intro digits hle
    have hmin : atoi digits = min intMax (digitsNumber digits) := rfl
    omega
  cases text with
  | nil => cases h
  | cons c rest =>
    by_cases hc : c = '-'
    · subst hc
      simp only [stringToNum, textNumber] at h ⊢
      split at h
      · rename_i hdigits
        cases h
        refine ⟨-digitsNumber rest, by rw [if_pos hdigits], ?_⟩
        intro hlow _
        rw [hatoi rest (by omega)]
        omega
      · cases h
    · simp only [stringToNum, textNumber, List.cons.injEq, hc, false_and, imp_false, not_false_eq_true, implies_true] at h ⊢
      split at h
      · rename_i hdigits
        cases h
        refine ⟨digitsNumber (c :: rest), by rw [if_pos hdigits], ?_⟩
        intro _ hhigh
        exact hatoi _ hhigh
      · cases h

/-- The bits of a text are those of its number. -/
theorem number_of_textBits {text : Text} {b : BitVec 32} (h : textBits text = some b) :
    ∃ i, (string text).number = some i ∧ (-intMax ≤ i → i ≤ intMax → b = BitVec.ofInt 32 i) := by
  simp only [textBits, number] at h ⊢
  split at h
  · rename_i htrue
    cases h
    exact ⟨1, by rw [if_pos htrue], fun _ _ => rfl⟩
  rename_i htrue
  split at h
  · rename_i hfalse
    cases h
    exact ⟨0, by rw [if_neg htrue, if_pos hfalse], fun _ _ => rfl⟩
  rename_i hfalse
  obtain ⟨j, hj, rfl⟩ := Option.map_eq_some_iff.1 h
  obtain ⟨i, hi, heq⟩ := textNumber_of_stringToNum hj
  refine ⟨i, by rw [if_neg htrue, if_neg hfalse, hi], ?_⟩
  intro hlow hhigh
  rw [heq hlow hhigh]

theorem toInt_ofInt {i : Int} (hlow : -intMax ≤ i) (hhigh : i ≤ intMax) : (BitVec.ofInt 32 i).toInt = i := by
  unfold intMax at hlow hhigh
  rw [BitVec.toInt_ofInt, Int.bmod_eq_of_le (by omega) (by omega)]

theorem toNat_ofInt {i : Int} (hlow : 0 ≤ i) (hhigh : i ≤ intMax) : ((BitVec.ofInt 32 i).toNat : Int) = i := by
  unfold intMax at hhigh
  rw [BitVec.toNat_ofInt]
  omega

/-- A word stands for one number, signed or not, if it is not negative. -/
theorem toInt_eq_toNat {b : BitVec 32} (h : (b.toNat : Int) ≤ intMax) : b.toInt = b.toNat := by
  unfold intMax at h
  rw [BitVec.toInt_eq_toNat_of_lt (by omega)]

theorem toNat_eq_toInt {b : BitVec 32} (h : 0 ≤ b.toInt) : (b.toNat : Int) = b.toInt := by
  have hlt := BitVec.toInt_lt (x := b)
  rw [BitVec.toInt_eq_toNat_cond] at h ⊢
  have := b.isLt
  split at h
  · rw [if_pos ‹_›]
  · omega

/-- A text for a leaf that holds a number. -/
theorem convert_text {leaf value : Tr069Value} {text : Text} (hleaf : leaf.type ≠ .string)
    (h : leaf.convert (string text) = .ok value) : ∃ b, textBits text = some b ∧ value = leaf.ofBits b := by
  cases leaf with
  | string s => exact absurd rfl hleaf
  | int v | unsigned v | bool v =>
    simp only [convert] at h
    split at h
    · rename_i b hb
      cases h
      exact ⟨b, hb, rfl⟩
    · cases h

/-- **The conversion is exact** for an argument that fits. -/
theorem convertsTo_of_convert {leaf arg value : Tr069Value} (h : leaf.convert arg = .ok value) (hfits : arg.Fits leaf.type) :
    arg.ConvertsTo leaf.type value := by
  refine ⟨type_convert h, ?_⟩
  cases arg with
  | string text =>
    cases leaf with
    | string s =>
      cases h
      rfl
    | int v | bool v =>
      obtain ⟨b, hb, rfl⟩ := convert_text (by simp [type]) h
      obtain ⟨i, hi, heq⟩ := number_of_textBits hb
      obtain ⟨hlow, hhigh⟩ := hfits i hi
      exact ⟨i, hi, by rw [heq hlow hhigh, ofBits, number, toInt_ofInt hlow hhigh]⟩
    | unsigned v =>
      obtain ⟨b, hb, rfl⟩ := convert_text (by simp [type]) h
      obtain ⟨i, hi, heq⟩ := number_of_textBits hb
      obtain ⟨hlow, hhigh⟩ := hfits i hi
      have hint : -intMax ≤ i := by
        unfold intMax
        omega
      exact ⟨i, hi, by rw [heq hint hhigh, ofBits, number, toNat_ofInt hlow hhigh]⟩
  | int v | bool v =>
    cases leaf with
    | string s =>
      cases h
      exact ⟨v.toInt, rfl, rfl⟩
    | int u | bool u =>
      cases h
      exact ⟨v.toInt, rfl, rfl⟩
    | unsigned u =>
      cases h
      have hnonneg : 0 ≤ v.toInt := hfits _ rfl
      exact ⟨v.toInt, rfl, by rw [ofBits, number, bits, toNat_eq_toInt hnonneg]⟩
  | unsigned v =>
    cases leaf with
    | unsigned u =>
      cases h
      exact ⟨v.toNat, rfl, rfl⟩
    | string s =>
      cases h
      have hle : (v.toNat : Int) ≤ intMax := hfits _ rfl
      exact ⟨v.toNat, rfl, by rw [bits, toInt_eq_toNat hle]⟩
    | int u | bool u =>
      cases h
      have hle : (v.toNat : Int) ≤ intMax := hfits _ rfl
      exact ⟨v.toNat, rfl, by rw [ofBits, number, bits, toInt_eq_toNat hle]⟩

end Tr069Value

/-! ## Looking up a leaf again -/

namespace Tr069Tree

variable {t : Tr069Tree} {r name : Text} {k : Nat} {cache cache' e : Tr069NodeEntry} {p : Pos} {cell : Cell}

/-- What has just been found under a name is found under it again, from the cache that the first lookup has left. -/
theorem lookup_again (h : t.Rooted r k) (hc : DotName cache.name) (hdot : name.getLast? ≠ some '.')
    (hl : t.getTr069NodeByName cache name = .ok (e, cache')) (he : e.node = some p) (hp : t.nodes.get? p = some cell)
    (hcell : cell.type ≠ .object) : ∃ cache'', t.getTr069NodeByName cache' name = .ok (e, cache'') := by
  have hn : name ≠ [] := by
    rintro rfl
    cases hl
  have hcut : cutDot name = name := if_neg hdot
  have hroot : DotName t.rootNode.name := by
    rw [h.entry]
    exact ⟨[r], by simpa using h.noDot, by simp⟩
  have hsame : t.SameOutside t p := ⟨rfl, fun _ _ _ hL => hL, fun _ cell _ hcell => ⟨cell, hcell, rfl⟩⟩
  obtain ⟨ps, l, d, d', hps, hl', hname, _, hstep, rfl, _, hsecond⟩ :=
    lookup_sibling hsame h.searches hroot (by simp [h.entry]) hc hl he
  rw [hcut] at hname
  have hlne : l ≠ [] := by
    rintro rfl
    obtain ⟨qs, q, rfl⟩ := (List.eq_nil_or_concat' ps).resolve_left (by
      rintro rfl
      exact hn hname)
    rw [List.append_nil, dotted_concat] at hname
    exact hdot (by simp [hname])
  -- without a dot in its name only the root is found
  have hpsne : ps ≠ [] := by
    rintro rfl
    rw [dotted_nil, List.nil_append] at hname
    subst hname
    have hparts : parts (cutDot name) = [] ++ [name] := by
      rw [hcut]
      exact List.splitOn_eq_singleton hl'
    by_cases hempty : cache.name = []
    · rw [lookup_empty hn hparts hempty] at hl
      obtain ⟨_, d'', hw, hroot, hd'', _⟩ := search_ok hl
      obtain rfl := Except.ok.inj hw
      exact hcell (h.type_of_step hroot (hd''.symm ▸ he) hp)
    · obtain ⟨qs, hqs, hdotted⟩ := hc
      have hqsne : qs ≠ [] := by
        rintro rfl
        exact hempty hdotted
      have hpre : ¬cache.name <+: cutDot name := by
        have hnot : ¬dotted '.' qs <+: dotted '.' [] ++ name := not_dotted_prefix hqs (by simp) hl' (List.length_pos_iff.2 hqsne)
        rw [hdotted, hcut]
        exact hnot
      rw [lookup_miss hn hparts hempty hpre] at hl
      obtain ⟨_, d'', hw, hroot, hd'', _⟩ := search_ok hl
      obtain rfl := Except.ok.inj hw
      exact hcell (h.type_of_step hroot (hd''.symm ▸ he) hp)
  have hagain := hsecond hpsne l hl' hlne
  rw [← hname, hstep] at hagain
  obtain ⟨⟨e', cache''⟩, hg, hfst⟩ := map_eq_ok.1 hagain
  obtain rfl : e' = d'.1 := hfst
  exact ⟨cache'', hg⟩

end Tr069Tree

/-! ## Setting and reading back -/

namespace TreeState

/-- All that could be asked of a stored value: it is within the range, it is the conversion of the argument, and it is what is read. -/
structure Stored (device : Device) (name : Text) (arg : Tr069Value) (s' : TreeState) (p : Pos) (n : Tr069Node)
    (value : Tr069Value) : Prop where
  within : value.Within n.min n.max
  converted : arg.ConvertsTo n.content.type value
  read : ∃ cache, s'.getTr069Value device name = some (.ok ([⟨name, n.accessType⟩], [value]), { s' with cache := cache })

/-- Whatever `set_tr069_value` returns says what it has done: the value is stored in the leaf that the name leads to, or nothing in the
tree has changed. What is asked of the stored value is `stored`. -/
def SetsOrKeeps (stored : TreeState → Pos → Tr069Node → Tr069Value → Prop) (s : TreeState) (module : Tr069AccessModule) (name : Text)
    (arg : Tr069Value) : Prop :=
  ∀ ret s', s.setTr069Value module name arg = some (ret, s') →
    (¬IsSet ret ∧ s'.tree = s.tree) ∨
      IsSet ret ∧ ∃ p n value, s.tree.leadsTo s.cache name = some p ∧ s.tree.nodes.get? p = some (.node n) ∧
        s'.tree.valueAt p = some value ∧ stored s' p n value

/-- What holds of a stored value: it is within bounds that mean what they say, it is the conversion of an argument that fits, and it is
what is read under the name of a leaf that is read from the tree. -/
structure StoredAsFits (device : Device) (name : Text) (arg : Tr069Value) (s' : TreeState) (p : Pos) (n : Tr069Node)
    (value : Tr069Value) : Prop where
  within : Tr069Value.BoundsFor n.min n.max n.content.type → value.Within n.min n.max
  converted : arg.Fits n.content.type → arg.ConvertsTo n.content.type value
  read : device.style p = .configuration → name.getLast? ≠ some '.' →
    ∃ cache, s'.getTr069Value device name = some (.ok ([⟨name, n.accessType⟩], [value]), { s' with cache := cache })

variable {s : TreeState} {r : Text} {k : Nat} {device : Device}

/-- **Setting a value is exact or has no effect**, from a cache whose name ends in a dot as those of fathers do. -/
theorem setsOrKeeps (h : s.tree.Rooted r k) (hc : DotName s.cache.name) (device : Device) (module : Tr069AccessModule) (name : Text)
    (arg : Tr069Value) : s.SetsOrKeeps (StoredAsFits device name arg) module name arg := by
  intro ret s' hset
  have hsearch := sameSearch_setTr069Value hset
  rcases setTr069Value_cases hset with ⟨_, _, rfl, hret⟩ | ⟨entry, cache, p, n, n', he, hp, hn, hnode, rfl⟩
  · exact Or.inl ⟨hret, rfl⟩
  obtain ⟨leaf, value, hleaf, hvalue, _, _, hret, _, hn'⟩ := Tr069Node.set_eq_ok hnode
  obtain ⟨hconvert, hrange⟩ := setValue_eq_ok.1 hvalue
  have htype : n.content.type = leaf.type := by rw [hleaf, Content.type]
  have hcontent : n'.content = .leaf value := by rw [hn']
  have haccess : n'.accessType = n.accessType := by rw [hn']
  have hafter : (({ s with cache := cache } : TreeState).setNodes (s.tree.nodes.modify p fun _ => .node n')).tree.nodes.get? p =
      some (.node n') := by
    rw [setNodes_nodes, Memory.get?_modify, if_pos rfl, hn]
    rfl
  refine Or.inr ⟨hret, p, n, value, ?_, hn, ?_, ?_, ?_, ?_⟩
  · rw [Tr069Tree.leadsTo, he]
    exact hp
  · rw [Tr069Tree.valueAt, hafter]
    simp [Cell.value?, hcontent]
  · intro hbounds
    rw [htype, ← Tr069Value.type_convert hconvert] at hbounds
    exact Tr069Value.within_of_inRange hrange hbounds
  · intro hfits
    rw [htype] at hfits ⊢
    exact Tr069Value.convertsTo_of_convert hconvert hfits
  · intro hstyle hdot
    have hobject : (Cell.node n).type ≠ .object := by
      rw [Cell.type, htype]
      cases leaf <;> simp [Tr069Value.type]
    obtain ⟨cache', hagain⟩ := Tr069Tree.lookup_again h hc hdot he hp hn hobject
    rw [← hsearch.lookup] at hagain
    have hroot : ¬(name = [] ∨ name = ['.']) := by
      rintro (rfl | rfl)
      · cases he
      · exact hdot rfl
    have hfound : ({ ({ s with cache := cache } : TreeState).setNodes (s.tree.nodes.modify p fun _ => .node n') with
        cache := cache' } : TreeState).node? entry.node = some (p, n') := node?_eq_some.2 ⟨hp, hafter⟩
    refine ⟨cache', ?_⟩
    unfold getTr069Value withNode
    rw [if_neg hroot, if_neg hdot, setNodes_cache]
    simp only [hagain, hfound, hcontent, Device.readValue, hstyle, haccess]
    rfl

/-- A device with all leaves read from the tree. -/
def plainDevice : Device := ⟨fun _ => .configuration, none⟩

/-- Setting the leaf of an instance. -/
theorem setsOrKeeps_host :
    (twoLeafState "A" "B").SetsOrKeeps (StoredAsFits plainDevice "Device.Host.1.A".toList (.string "x".toList)) .acsModule
      "Device.Host.1.A".toList (.string "x".toList) :=
  setsOrKeeps (twoLeafTree_rooted "A" "B" .none) ⟨["Device".toList], by decide, by decide⟩ plainDevice .acsModule _ _

/-- `Device.Name`, of the type and range of the leaf. -/
def oneLeafState (min max : Int) (value : Tr069Value) : TreeState where
  tree :=
    { rootNode := ⟨"Device.".toList, .object, some [0]⟩
      nodes :=
        { forest :=
            .cons 0 (Tr069Tree.nodeCell "Device" .object)
              (.cons 0 (.node ⟨"Name".toList, ⟨true, true⟩, .none, .all, false, min, max, .leaf value⟩) .nil .nil) .nil
          mark := 1
          separate := by simp [Forest.Separate, Forest.heads] } }
  cache := ⟨"Device.".toList, .object, some [0]⟩
  gInitSuccess := true

/-- What is asked of a stored value holds of the one that is stored. -/
theorem SetsOrKeeps.stored {stored : TreeState → Pos → Tr069Node → Tr069Value → Prop} {module : Tr069AccessModule} {name : Text}
    {arg : Tr069Value} {n : Tr069Node} (h : s.SetsOrKeeps stored module name arg) (p : Pos) (value : Tr069Value)
    (hset : (s.setTr069Value module name arg).map (fun x => (x.1, x.2.tree.valueAt p)) = some (.tcmagentOk, some value))
    (hp : s.tree.leadsTo s.cache name = some p) (hn : s.tree.nodes.get? p = some (.node n)) :
    ∃ s', s.setTr069Value module name arg = some (.tcmagentOk, s') ∧ stored s' p n value := by
  obtain ⟨⟨ret, s'⟩, hs', heq⟩ := Option.map_eq_some_iff.1 hset
  obtain ⟨rfl, hvalue⟩ := Prod.mk.inj heq
  rcases h _ s' hs' with ⟨hnot, _⟩ | ⟨_, p', n', value', hp', hn', hvalue', hstored⟩
  · exact absurd (Or.inl rfl) hnot
  obtain rfl := Option.some.inj (hp.symm.trans hp')
  obtain rfl := Cell.node.inj (Option.some.inj (hn.symm.trans hn'))
  obtain rfl := Option.some.inj (hvalue.symm.trans hvalue')
  exact ⟨s', hs', hstored⟩

/-- What is set in a leaf that is read from the device is not read; an unsigned number that is no `int` is set as another number in a
leaf of type `Int`; and where the bounds of an unsigned leaf are negative, what is set is not between them. -/
theorem not_setsOrKeeps_stored :
    ¬(oneLeafState 0 16 (.string [])).SetsOrKeeps (Stored ⟨fun _ => .treeStatus, none⟩ "Device.Name".toList (.string ['x'])) .acsModule
        "Device.Name".toList (.string ['x']) ∧
      ¬(oneLeafState (-10) 10 (.int 0)).SetsOrKeeps (Stored plainDevice "Device.Name".toList (.unsigned (-1))) .acsModule
        "Device.Name".toList (.unsigned (-1)) ∧
      ¬(oneLeafState (-5) (-1) (.unsigned (-1))).SetsOrKeeps (Stored plainDevice "Device.Name".toList (.unsigned (-2))) .acsModule
        "Device.Name".toList (.unsigned (-2)) := by
  refine ⟨?_, ?_, ?_⟩
  · intro h
    obtain ⟨s', hs', hstored⟩ := h.stored [0, 0] (.string ['x']) (by decide +kernel) (by decide +kernel) rfl
    obtain ⟨cache, hread⟩ := hstored.read
    have hempty : ((oneLeafState 0 16 (.string [])).setTr069Value .acsModule "Device.Name".toList (.string ['x'])).bind
        (fun x => (x.2.getTr069Value ⟨fun _ => .treeStatus, none⟩ "Device.Name".toList).map fun y => y.1.toOption.map Prod.snd) =
          some (some [.string []]) := by decide +kernel
    rw [hs', Option.bind_some, hread] at hempty
    -- the text that was set is not the empty one
    have hvalues : [Tr069Value.string ['x']] = [.string []] := Option.some.inj (Option.some.inj hempty)
    exact absurd hvalues (by decide)
  · intro h
    obtain ⟨s', _, hstored⟩ := h.stored [0, 0] (.int (-1)) (by decide +kernel) (by decide +kernel) rfl
    obtain ⟨_, i, hi, hi'⟩ := hstored.converted
    cases hi
    exact absurd hi' (by decide)
  · intro h
    obtain ⟨s', _, hstored⟩ := h.stored [0, 0] (.unsigned (-2)) (by decide +kernel) (by decide +kernel) rfl
    have hwithin : (-5 : Int) ≤ (-2 : BitVec 32).toNat ∧ ((-2 : BitVec 32).toNat : Int) ≤ -1 := hstored.within
    exact absurd hwithin.2 (by decide)

end TreeState

end CodeFactory.Tr69
