import CodeFactory.Lib.Literal
import CodeFactory.Tr69.XmlNode

/-!
# Writing a node and reading it again

What `init_tr069_node` has accepted is written by `build_xml_node` and read once more. `node_roundTrips_iff` says when the same node comes
back: the texts of the enumerations, the numbers and the ranges are read as they were written, but not everything is written, and what
is written in the place of a default value that was not given need not be accepted.
-/

namespace CodeFactory.Tr69

/-! ## What is written is read -/

/-- A member of an enumeration is found by its text, where no two have the same. -/
theorem ofText?_text {α : Type} {text : α → Text} {a : α} {members : List α} (ha : a ∈ members) {texts : List Text}
    (htexts : CharsOf (members.map text) texts) (hnodup : texts.Nodup) : ofText? text members (text a) = some a := by
  rw [← htexts.eq] at hnodup
  clear htexts
  induction members with
  | nil => cases ha
  | cons b members ih =>
    rw [List.map_cons, List.nodup_cons] at hnodup
    rw [ofText?, List.find?_cons]
    by_cases hsame : text b = text a
    · rcases List.mem_cons.1 ha with rfl | ha
      · simp
      · exact absurd (List.mem_map.2 ⟨a, ha, hsame.symm⟩) hnodup.1
    · rw [decide_eq_false hsame]
      rcases List.mem_cons.1 ha with rfl | ha
      · exact absurd rfl hsame
      · exact ih ha hnodup.2

theorem attributeName?_text (a : AttributeName) : attributeName? a.text = some a := by
  apply ofText?_text (by cases a <;> decide)
  · repeat apply CharsOf.cons
    apply CharsOf.nil
  · decide

theorem type?_typeInfo {type : Tr069Type} (h : type ≠ .unknown) : type? (typeInfo type) = some type := by
  apply ofText?_text (by cases type <;> first | exact absurd rfl h | decide)
  · repeat apply CharsOf.cons
    apply CharsOf.nil
  · decide

theorem access?_accessInfo {access : Tr069AccessType} (h : access ≠ ⟨false, false⟩) : access? (accessInfo access) = some access := by
  apply ofText?_text
  · obtain ⟨read, write⟩ := access
    cases read <;> cases write <;> first | exact absurd rfl h | decide
  · repeat apply CharsOf.cons
    apply CharsOf.nil
  · decide

theorem notification?_notificationInfo (x : Tr069Notification) : notification? (notificationInfo x) = some x := by
  apply ofText?_text (by cases x <;> decide)
  · repeat apply CharsOf.cons
    apply CharsOf.nil
  · decide

theorem reboot?_rebootInfo (x : Bool) : reboot? (rebootInfo x) = some x := by
  apply ofText?_text (by cases x <;> decide)
  · repeat apply CharsOf.cons
    apply CharsOf.nil
  · decide

theorem style?_styleInfo (x : Tr069Style) : style? (styleInfo x) = some x := by
  apply ofText?_text (by cases x <;> decide)
  · repeat apply CharsOf.cons
    apply CharsOf.nil
  · decide

theorem accessList?_accessListInfo (x : Tr069AccessList) : accessList? (accessListInfo x) = some x := by
  cases x with
  | acs => rfl
  | all => exact ofChars (P := fun s => accessList? s = some .all) rfl

/-- The numbers that `string_to_num` reads are never the smallest `int`. -/
theorem bounds_of_stringToNum {s : Text} {i : Int} (h : stringToNum s = some i) : -intMax ≤ i ∧ i ≤ intMax := by
  have hatoi : ∀ digits, 0 ≤ atoi digits ∧ atoi digits ≤ intMax := by
    intro digits
    unfold atoi intMax
    omega
  unfold stringToNum at h
  split at h
  · cases h
  · rename_i rest
    split at h
    · cases h
      have := hatoi rest
      unfold intMax at *
      omega
    · cases h
  · split at h
    · cases h
      have := hatoi s
      unfold intMax at *
      omega
    · cases h

theorem stringToNum_decimal_of_le {n : Nat} (h : intMax ≤ n) : stringToNum (decimal n) = some intMax := by
  have hdecimal : decimal n = Nat.toDigits 10 n := rfl
  rw [hdecimal, stringToNum_toDigits, Int.min_eq_left h]

/-! ## Ranges -/

theorem cutMinus_append {before : Text} (h : '-' ∉ before) (behind : Text) :
    cutMinus (before ++ '-' :: behind) = some (before, behind) := by
  have hbefore : ∀ c ∈ before, (decide (c ≠ '-')) = true := by
    intro c hc
    rw [decide_eq_true_eq]
    rintro rfl
    exact h hc
  unfold cutMinus
  rw [List.span_eq_takeWhile_dropWhile, List.takeWhile_append_of_pos hbefore, List.dropWhile_append_of_pos hbefore]
  simp

theorem cutMinus_of_notMem {s : Text} (h : '-' ∉ s) : cutMinus s = none := by
  have hs : ∀ c ∈ s, (decide (c ≠ '-')) = true := by
    intro c hc
    rw [decide_eq_true_eq]
    rintro rfl
    exact h hc
  unfold cutMinus
  rw [List.span_eq_takeWhile_dropWhile, List.dropWhile_eq_nil_iff.2 hs]

theorem minus_notMem_toDigits (n : Nat) : '-' ∉ Nat.toDigits 10 n := by
  intro h
  have hdigit := List.all_eq_true.1 (all_isDigit_toDigits n) _ h
  cases hdigit

theorem minus_notMem_decimal {i : Int} (h : 0 ≤ i) : '-' ∉ decimal i := by
  obtain ⟨n, rfl⟩ := Int.eq_ofNat_of_zero_le h
  exact minus_notMem_toDigits n

/-- **A range is cut where it was put together**, whatever the signs of its bounds. -/
theorem splitRange_decimal {min max : Int} (h : min ≤ max) :
    splitRange (decimal min ++ '-' :: decimal max) = some (decimal min, decimal max) := by
  unfold splitRange
  by_cases hmin : 0 ≤ min
  · rw [cutMinus_append (minus_notMem_decimal hmin)]
    simp only [cutMinus_of_notMem (minus_notMem_decimal (Int.le_trans hmin h))]
  · obtain ⟨n, rfl⟩ : ∃ n : Nat, min = Int.negSucc n := by
      cases min with
      | ofNat n => exact absurd (Int.natCast_nonneg n) hmin
      | negSucc n => exact ⟨n, rfl⟩
    -- the sign of the lower bound is the first minus, the one between the bounds the second
    have hdecimal : decimal (Int.negSucc n) = '-' :: Nat.toDigits 10 (n + 1) := rfl
    have hfirst : cutMinus ([] ++ '-' :: (Nat.toDigits 10 (n + 1) ++ '-' :: decimal max)) =
        some ([], Nat.toDigits 10 (n + 1) ++ '-' :: decimal max) := cutMinus_append (by simp) _
    rw [hdecimal, List.cons_append]
    rw [List.nil_append] at hfirst
    rw [hfirst]
    simp only [cutMinus_append (minus_notMem_toDigits (n + 1)), List.head?_cons, or_true, if_true, List.nil_append]

theorem range?_decimal {min max : Int} (h : min ≤ max) (hlow : -intMax ≤ min) (hhigh : max ≤ intMax) :
    range? (decimal min ++ '-' :: decimal max) = some (min, max) := by
  unfold range?
  rw [splitRange_decimal h]
  simp only [stringToNum_decimal hlow (Int.le_trans h hhigh), stringToNum_decimal (Int.le_trans hlow h) hhigh]
  rw [if_neg (by omega)]

/-- The bounds of a range that is read. -/
theorem bounds_of_range? {value : Text} {range : Int × Int} (h : range? value = some range) :
    range.1 ≤ range.2 ∧ -intMax ≤ range.1 ∧ range.2 ≤ intMax := by
  unfold range? at h
  split at h
  · cases h
  split at h
  · rename_i min max hmin hmax
    split at h
    · cases h
    · cases h
      exact ⟨by omega, (bounds_of_stringToNum hmin).1, (bounds_of_stringToNum hmax).2⟩
  · cases h

/-! ## The settings that are read -/

@[simp] theorem orError_eq_ok {α β : Type} {ret : Result} {value : Option α} {f : α → β} {b : β} :
    orError ret value f = .ok b ↔ ∃ a, value = some a ∧ f a = b := by
  cases value <;> simp [orError]

namespace Settings

/-- What holds of the settings, whatever has been read. -/
structure Valid (l : Settings) : Prop where
  access : l.accessType ≠ ⟨false, false⟩
  range : l.min ≤ l.max
  low : -intMax ≤ l.min
  high : l.max ≤ intMax
  children : 0 ≤ l.nextLevelNum ∧ l.nextLevelNum ≤ intMax

theorem valid_initial (maxNumOfEntries : BitVec 32) : (initial maxNumOfEntries).Valid where
  access := by simp [initial]
  range := Int.le_refl 0
  low := by simp [initial, intMax]
  high := by simp [initial, intMax]
  children := by simp [initial, intMax]

theorem access_ne_of_access? {s : Text} {access : Tr069AccessType} (h : access? s = some access) : access ≠ ⟨false, false⟩ := by
  unfold access? ofText? at h
  have hmem := List.mem_of_find?_eq_some h
  rintro rfl
  simp at hmem

/-- One attribute keeps the settings valid. -/
theorem valid_read {l l' : Settings} {attr : XmlAttribute} (hl : l.Valid) (h : l.read attr = .ok l') : l'.Valid := by
  delta read at h
  split at h
  case h_2 =>
    obtain ⟨access, haccess, rfl⟩ := orError_eq_ok.1 h
    exact { hl with access := access_ne_of_access? haccess }
  case h_5 =>
    obtain ⟨num, hnum, rfl⟩ := orError_eq_ok.1 h
    obtain ⟨hnum, hnonneg⟩ := Option.filter_eq_some_iff.1 hnum
    exact { hl with children := ⟨by simpa using hnonneg, (bounds_of_stringToNum hnum).2⟩ }
  case h_6 =>
    obtain ⟨range, hrange, rfl⟩ := orError_eq_ok.1 h
    obtain ⟨hle, hlow, hhigh⟩ := bounds_of_range? hrange
    exact { hl with range := hle, low := hlow, high := hhigh }
  case h_7 =>
    obtain ⟨range, hrange, rfl⟩ := orError_eq_ok.1 h
    obtain ⟨hrange, -⟩ := Option.filter_eq_some_iff.1 hrange
    obtain ⟨hle, hlow, hhigh⟩ := bounds_of_range? hrange
    exact { hl with range := hle, low := hlow, high := hhigh }
  case h_11 =>
    cases h
    exact { hl with }
  case h_12 => cases h
  all_goals
    obtain ⟨_, -, rfl⟩ := orError_eq_ok.1 h
    exact { hl with }

theorem readAll_cons_of_ok {l l' : Settings} {attr : XmlAttribute} (h : l.read attr = .ok l') (attrs : List XmlAttribute) :
    l.readAll (attr :: attrs) = l'.readAll attrs := by
  rw [readAll, List.foldlM_cons, h]
  rfl

theorem readAll_cons_of_error {l : Settings} {attr : XmlAttribute} {ret : Result} (h : l.read attr = .error ret)
    (attrs : List XmlAttribute) : l.readAll (attr :: attrs) = .error ret := by
  rw [readAll, List.foldlM_cons, h]
  rfl

theorem valid_readAll {attrs : List XmlAttribute} : ∀ {l l' : Settings}, l.Valid → l.readAll attrs = .ok l' → l'.Valid := by
  induction attrs with
  | nil =>
    intro l l' hl h
    cases h
    exact hl
  | cons attr attrs ih =>
    intro l l' hl h
    cases hread : l.read attr with
    | error ret =>
      rw [readAll_cons_of_error hread] at h
      cases h
    | ok l₁ =>
      rw [readAll_cons_of_ok hread] at h
      exact ih (valid_read hl hread) h

end Settings

/-! ## What the attributes say -/

/-- The value of the last attribute with one of the names. -/
def lastValue (names : List AttributeName) (attrs : List XmlAttribute) : Option Text :=
  (attrs.reverse.find? fun attr => (attributeName? attr.name).any fun name => name ∈ names).map XmlAttribute.value

theorem lastValue_concat (names : List AttributeName) (attrs : List XmlAttribute) {attr : XmlAttribute} {name : AttributeName}
    (h : attributeName? attr.name = some name) :
    lastValue names (attrs ++ [attr]) = if name ∈ names then some attr.value else lastValue names attrs := by
  unfold lastValue
  rw [List.reverse_append, List.reverse_singleton, List.singleton_append, List.find?_cons, h]
  by_cases hname : name ∈ names
  · simp [hname]
  · simp [hname]

/-- What the last attribute with one of the names says, or the initial value. -/
def saidBy {α : Type} (names : List AttributeName) (read : Text → Option α) (initial : α) (attrs : List XmlAttribute) : α :=
  ((lastValue names attrs).bind read).getD initial

/-- The settings that the attributes say. Only the maximum of entries is not settled by them, if it is not given. -/
def Settings.said (maxNumOfEntries : BitVec 32) (attrs : List XmlAttribute) : Settings where
  type := saidBy [.type] type? .unknown attrs
  accessType := saidBy [.access] access? ⟨true, true⟩ attrs
  notification := saidBy [.notification] notification? .none attrs
  needReboot := saidBy [.needReboot] reboot? false attrs
  accessModule := saidBy [.accessList] accessList? .all attrs
  style := saidBy [.style] style? .configuration attrs
  lengthRange := (lastValue [.lengthRange] attrs).isSome
  valueRange := (lastValue [.valueRange] attrs).isSome
  min := (saidBy [.lengthRange, .valueRange] range? (0, 0) attrs).1
  max := (saidBy [.lengthRange, .valueRange] range? (0, 0) attrs).2
  nextLevelNum := saidBy [.nextLevelNum] stringToNum 0 attrs
  maxNumOfEntries := saidBy [.maxNumOfEntries] (fun value => (stringToNum value).map (BitVec.ofInt 32)) maxNumOfEntries attrs
  defaultValue := lastValue [.defaultValue] attrs

theorem Settings.said_concat {m : BitVec 32} {attrs : List XmlAttribute} {attr : XmlAttribute} {l : Settings}
    (h : (said m attrs).read attr = .ok l) : l = said m (attrs ++ [attr]) := by
  cases hname : attributeName? attr.name with
  | none =>
    delta read at h
    rw [hname] at h
    cases h
  | some name =>
    delta read at h
    rw [hname] at h
    cases name
    case nextLevelNum =>
      obtain ⟨num, hnum, rfl⟩ := orError_eq_ok.1 h
      obtain ⟨hnum, -⟩ := Option.filter_eq_some_iff.1 hnum
      simp [said, saidBy, lastValue_concat _ _ hname, hnum]
    case lengthRange =>
      obtain ⟨range, hrange, rfl⟩ := orError_eq_ok.1 h
      obtain ⟨hrange, -⟩ := Option.filter_eq_some_iff.1 hrange
      simp [said, saidBy, lastValue_concat _ _ hname, hrange]
    case defaultValue =>
      cases h
      simp [said, saidBy, lastValue_concat _ _ hname]
    all_goals
      obtain ⟨value, hvalue, rfl⟩ := orError_eq_ok.1 h
      simp [said, saidBy, lastValue_concat _ _ hname, hvalue]

/-- **The loop over the attributes reads what they say.** -/
theorem Settings.eq_said {m : BitVec 32} {attrs : List XmlAttribute} :
    ∀ {l : Settings}, (initial m).readAll attrs = .ok l → l = said m attrs := by
  induction attrs using List.reverseRecOn with
  | nil =>
    intro l h
    cases h
    rfl
  | append_singleton attrs attr ih =>
    intro l h
    rw [readAll, List.foldlM_append] at h
    cases hread : (initial m).readAll attrs with
    | error ret =>
      rw [readAll] at hread
      rw [hread] at h
      cases h
    | ok l₁ =>
      obtain rfl := ih hread
      rw [readAll] at hread
      rw [hread] at h
      change readAll _ [attr] = _ at h
      cases hlast : (said m attrs).read attr with
      | error ret =>
        rw [readAll_cons_of_error hlast] at h
        cases h
      | ok l₂ =>
        rw [readAll_cons_of_ok hlast] at h
        cases h
        exact said_concat hlast

/-! ## The attributes that are written -/

namespace Settings

theorem read_type {l : Settings} {type : Tr069Type} (h : type ≠ .unknown) :
    l.read ⟨AttributeName.type.text, typeInfo type⟩ = .ok { l with type := type } := by
  delta read
  simp only [attributeName?_text, type?_typeInfo h, orError]

theorem read_access {l : Settings} {access : Tr069AccessType} (h : access ≠ ⟨false, false⟩) :
    l.read ⟨AttributeName.access.text, accessInfo access⟩ = .ok { l with accessType := access } := by
  delta read
  simp only [attributeName?_text, access?_accessInfo h, orError]

theorem read_notification {l : Settings} (x : Tr069Notification) :
    l.read ⟨AttributeName.notification.text, notificationInfo x⟩ = .ok { l with notification := x } := by
  delta read
  simp only [attributeName?_text, notification?_notificationInfo, orError]

theorem read_needReboot {l : Settings} (x : Bool) :
    l.read ⟨AttributeName.needReboot.text, rebootInfo x⟩ = .ok { l with needReboot := x } := by
  delta read
  simp only [attributeName?_text, reboot?_rebootInfo, orError]

theorem read_accessList {l : Settings} (x : Tr069AccessList) :
    l.read ⟨AttributeName.accessList.text, accessListInfo x⟩ = .ok { l with accessModule := x } := by
  delta read
  simp only [attributeName?_text, accessList?_accessListInfo, orError]

theorem read_style {l : Settings} (x : Tr069Style) : l.read ⟨AttributeName.style.text, styleInfo x⟩ = .ok { l with style := x } := by
  delta read
  simp only [attributeName?_text, style?_styleInfo, orError]

/-- The range of a leaf, under the name that the type has for it. -/
theorem read_range {l : Settings} {type : Tr069Type} {min max : Int} (h : min ≤ max) (hlow : -intMax ≤ min) (hhigh : max ≤ intMax)
    (hlength : type = .string → 0 ≤ min) :
    l.read ⟨(if type = .string then AttributeName.lengthRange else AttributeName.valueRange).text, decimal min ++ '-' :: decimal max⟩ =
      .ok
        { l with
          min := min
          max := max
          lengthRange := decide (type = .string) || l.lengthRange
          valueRange := decide (type ≠ .string) || l.valueRange } := by
  by_cases hstring : type = .string
  · have hmin := hlength hstring
    delta read
    simp only [attributeName?_text, range?_decimal h hlow hhigh, if_pos hstring]
    rw [Option.filter_some, if_pos (by simp; omega), orError]
    simp [hstring]
  · delta read
    simp only [attributeName?_text, range?_decimal h hlow hhigh, orError, if_neg hstring]
    simp [hstring]

theorem read_lengthRange_of_negative {l : Settings} {type : Tr069Type} {min max : Int} (h : min ≤ max) (hlow : -intMax ≤ min)
    (hhigh : max ≤ intMax) (hstring : type = .string) (hmin : min < 0) :
    l.read ⟨(if type = .string then AttributeName.lengthRange else AttributeName.valueRange).text, decimal min ++ '-' :: decimal max⟩ =
      .error .attributeRangeError := by
  delta read
  simp only [attributeName?_text, range?_decimal h hlow hhigh, if_pos hstring]
  rw [Option.filter_some, if_neg (by simp; omega), orError]

theorem read_defaultValue {l : Settings} (text : Text) :
    l.read ⟨AttributeName.defaultValue.text, text⟩ = .ok { l with defaultValue := some text } := by
  delta read
  simp only [attributeName?_text]

theorem read_nextLevelNum {l : Settings} {num : Int} (hlow : 0 ≤ num) (hhigh : num ≤ intMax) :
    l.read ⟨AttributeName.nextLevelNum.text, decimal num⟩ = .ok { l with nextLevelNum := num } := by
  have hnum : stringToNum (decimal num) = some num := stringToNum_decimal (Int.le_trans (by decide) hlow) hhigh
  delta read
  simp only [attributeName?_text, hnum]
  rw [Option.filter_some, if_pos (by simpa using hlow), orError]

end Settings

/-- The settings that the attributes of a leaf say. -/
def LoadedNode.leafSettings (n : LoadedNode) (maxNumOfEntries : BitVec 32) (defaultText : Text) : Settings where
  type := n.type
  accessType := n.accessType
  notification := n.notification
  needReboot := n.needReboot
  accessModule := n.accessModule
  style := n.style
  lengthRange := n.type = .string
  valueRange := n.type ≠ .string
  min := n.min
  max := n.max
  nextLevelNum := 0
  maxNumOfEntries := maxNumOfEntries
  defaultValue := some defaultText

section Leaf

variable {n : LoadedNode} (htype : n.type ≠ .unknown) (haccess : n.accessType ≠ ⟨false, false⟩) (hrange : n.min ≤ n.max)
  (hlow : -intMax ≤ n.min) (hhigh : n.max ≤ intMax)

include htype haccess hrange hlow hhigh

/-- **The attributes of a leaf are read as they were written.** -/
theorem readAll_leafAttributes (hlength : n.type = .string → 0 ≤ n.min) (m : BitVec 32) (text : Text) :
    (Settings.initial m).readAll (n.leafAttributes text) = .ok (n.leafSettings m text) := by
  unfold LoadedNode.leafAttributes
  rw [Settings.readAll_cons_of_ok (Settings.read_type htype), Settings.readAll_cons_of_ok (Settings.read_access haccess),
    Settings.readAll_cons_of_ok (Settings.read_notification _), Settings.readAll_cons_of_ok (Settings.read_needReboot _),
    Settings.readAll_cons_of_ok (Settings.read_accessList _), Settings.readAll_cons_of_ok (Settings.read_style _),
    Settings.readAll_cons_of_ok (Settings.read_range hrange hlow hhigh hlength),
    Settings.readAll_cons_of_ok (Settings.read_defaultValue _)]
  simp [Settings.readAll, Settings.initial, LoadedNode.leafSettings, pure, Except.pure]

theorem readAll_leafAttributes_of_negative (hstring : n.type = .string) (hmin : n.min < 0) (m : BitVec 32) (text : Text) :
    (Settings.initial m).readAll (n.leafAttributes text) = .error .attributeRangeError := by
  unfold LoadedNode.leafAttributes
  rw [Settings.readAll_cons_of_ok (Settings.read_type htype), Settings.readAll_cons_of_ok (Settings.read_access haccess),
    Settings.readAll_cons_of_ok (Settings.read_notification _), Settings.readAll_cons_of_ok (Settings.read_needReboot _),
    Settings.readAll_cons_of_ok (Settings.read_accessList _), Settings.readAll_cons_of_ok (Settings.read_style _),
    Settings.readAll_cons_of_error (Settings.read_lengthRange_of_negative hrange hlow hhigh hstring hmin)]

end Leaf

/-! ## What comes back -/

/-- The node of an entry is written and read again, with other local variables, as the same node. -/
def RoundTrips (locals : Locals) (entry : InitEntry) : Prop :=
  ∃ attrs, buildXmlNode entry.node.entryType entry.node = .ok attrs ∧ initTr069Node locals entry.name attrs = .ok entry

instance (locals : Locals) (entry : InitEntry) : Decidable (RoundTrips locals entry) :=
  match h : buildXmlNode entry.node.entryType entry.node with
  | .ok attrs => decidable_of_iff (initTr069Node locals entry.name attrs = .ok entry) (by simp [RoundTrips, h])
  | .error _ => .isFalse (by simp [RoundTrips, h])

theorem initTr069Node_eq_ok {locals : Locals} {nodeName : Text} {attrs : List XmlAttribute} {entry : InitEntry} :
    initTr069Node locals nodeName attrs = .ok entry ↔
      locals.nameLength ≤ maxTr069NameLen ∧ nodeName.length ≤ maxTr069NameLen ∧
        ∃ l, (Settings.initial locals.maxNumOfEntries).readAll attrs = .ok l ∧ l.fault = none ∧
          l.node nodeName = some entry.node ∧ entry.name = nodeName := by
  unfold initTr069Node
  by_cases hlocal : maxTr069NameLen < locals.nameLength
  · rw [if_pos hlocal]
    refine iff_of_false (by simp) fun h => ?_
    exact absurd hlocal (Nat.not_lt.2 h.1)
  by_cases hname : maxTr069NameLen < nodeName.length
  · rw [if_neg hlocal, if_pos hname]
    refine iff_of_false (by simp) fun h => ?_
    exact absurd hname (Nat.not_lt.2 h.2.1)
  rw [if_neg hlocal, if_neg hname]
  cases hread : (Settings.initial locals.maxNumOfEntries).readAll attrs with
  | error ret => simp
  | ok l =>
    cases hfault : l.fault with
    | some ret => simp [hfault]
    | none =>
      obtain ⟨name, node⟩ := entry
      simp only [hfault, map_eq_ok, deref_eq_ok, Nat.not_lt.1 hlocal, Nat.not_lt.1 hname, true_and]
      constructor
      · rintro ⟨_, hnode, hentry⟩
        cases hentry
        exact ⟨l, rfl, hfault, hnode, rfl⟩
      · rintro ⟨_, hl, -, hnode, rfl⟩
        cases hl
        exact ⟨node, hnode, rfl⟩

namespace Settings

/-- The text that is written for the default value of a leaf is accepted, and read as the same value. -/
def DefaultKept (l : Settings) (nodeName : Text) (maxNumOfEntries : BitVec 32) : Prop :=
  ∃ text, (l.loadedNode nodeName).defaultText = some text ∧
    ((l.loadedNode nodeName).leafSettings maxNumOfEntries text).fault = none ∧
    ((l.loadedNode nodeName).leafSettings maxNumOfEntries text).default = l.default

/-- A leaf comes back, if its default value does. -/
theorem roundTrips_leaf {l : Settings} {nodeName : Text} {locals : Locals} (hvalid : l.Valid)
    (hlength : nodeName.length ≤ maxTr069NameLen) (hleaf : l.type.isLeaf = true) (hname : nodeName ≠ []) :
    RoundTrips locals ⟨nodeName, .node (l.loadedNode nodeName)⟩ ↔
      locals.nameLength ≤ maxTr069NameLen ∧ (l.type = .string → 0 ≤ l.min) ∧ l.nextLevelNum = 0 ∧
        l.DefaultKept nodeName locals.maxNumOfEntries := by
  have htype : (l.loadedNode nodeName).type = l.type := rfl
  have hne : ∀ type : Tr069Type, type.isLeaf = false → l.type ≠ type := by
    rintro _ hother rfl
    rw [hleaf] at hother
    cases hother
  have hinst : l.type ≠ .inst := hne _ rfl
  have hunknown : l.type ≠ .unknown := hne _ rfl
  have hentry : (InitNode.node (l.loadedNode nodeName)).entryType = .object := by
    rw [InitNode.entryType, htype, if_neg (hne _ rfl)]
  have hbuild : buildXmlNode .object (.node (l.loadedNode nodeName)) =
      (deref (l.loadedNode nodeName).defaultText).map (l.loadedNode nodeName).leafAttributes := by
    rw [buildXmlNode, htype, if_pos hleaf]
  have hread := @readAll_leafAttributes (l.loadedNode nodeName) hunknown hvalid.access hvalid.range hvalid.low hvalid.high
  -- the node of the settings that are read again
  have hagain : ∀ text, ((l.loadedNode nodeName).leafSettings locals.maxNumOfEntries text).node nodeName =
      some (.node (l.loadedNode nodeName)) ↔
        l.nextLevelNum = 0 ∧ ((l.loadedNode nodeName).leafSettings locals.maxNumOfEntries text).default = l.default := by
    intro text
    have hinst' : ((l.loadedNode nodeName).leafSettings locals.maxNumOfEntries text).type ≠ .inst := hinst
    rw [Settings.node, if_neg hinst', if_neg hname]
    simp only [Option.some.injEq, InitNode.node.injEq, loadedNode, LoadedNode.leafSettings, LoadedNode.mk.injEq, true_and]
    by_cases htemplate : isTemplateName nodeName
    · simp [htemplate, eq_comm]
    · simp [htemplate, eq_comm]
  unfold RoundTrips DefaultKept
  simp only [hentry, hbuild, map_eq_ok, deref_eq_ok, initTr069Node_eq_ok]
  constructor
  · rintro ⟨_, ⟨text, htext, rfl⟩, hlocals, -, l', hl', hfault', hnode, -⟩
    by_cases hmin : l.type = .string ∧ l.min < 0
    · rw [readAll_leafAttributes_of_negative hunknown hvalid.access hvalid.range hvalid.low hvalid.high hmin.1 hmin.2] at hl'
      cases hl'
    · have hmin' : l.type = .string → 0 ≤ l.min := by
        intro hstring
        exact Int.not_lt.1 fun h => hmin ⟨hstring, h⟩
      rw [hread hmin'] at hl'
      cases hl'
      obtain ⟨hchildren, hdefault⟩ := (hagain text).1 hnode
      exact ⟨hlocals, hmin', hchildren, text, htext, hfault', hdefault⟩
  · rintro ⟨hlocals, hmin, hchildren, text, htext, hfault', hdefault⟩
    exact ⟨_, ⟨text, htext, rfl⟩, hlocals, hlength, _, hread hmin _ _, hfault', (hagain text).2 ⟨hchildren, hdefault⟩,
      trivial⟩

/-- The number of a leaf that has been accepted is within its range, if it is given. -/
theorem number_within {l : Settings} (hfault : l.fault = none) (htype : l.type = .int ∨ l.type = .unsigned) {text : Text}
    (htext : l.defaultValue = some text) : ∃ value, stringToNum text = some value ∧ l.min ≤ value ∧ value ≤ l.max := by
  unfold fault at hfault
  cases hnum : stringToNum text with
  | none =>
    rcases htype with htype | htype
    all_goals
      rw [htype, htext] at hfault
      simp only [hnum] at hfault
      split at hfault <;> cases hfault
  | some value =>
    refine ⟨value, rfl, ?_⟩
    rcases htype with htype | htype
    all_goals
      rw [htype, htext] at hfault
      simp only [hnum] at hfault
      split at hfault
      · cases hfault
      split at hfault
      · cases hfault
      omega

section Default

variable {l : Settings} {nodeName : Text} {m : BitVec 32}

/-- Written as a number, the default value is accepted if the number is within the range. -/
theorem fault_leafSettings (htype : l.type = .int ∨ l.type = .unsigned) {text : Text} {value : Int}
    (hvalue : stringToNum text = some value) :
    ((l.loadedNode nodeName).leafSettings m text).fault = none ↔ l.min ≤ value ∧ value ≤ l.max := by
  have hfault : ((l.loadedNode nodeName).leafSettings m text).fault =
      if value < l.min ∨ value > l.max then some .attributeDefaultvallueError else none := by
    rcases htype with htype | htype
    · simp [fault, LoadedNode.leafSettings, loadedNode, htype, hvalue]
    · simp [fault, LoadedNode.leafSettings, loadedNode, htype, hvalue]
  rw [hfault]
  split
  · exact iff_of_false (by simp) (by omega)
  · exact iff_of_true rfl (by omega)

theorem defaultKept_string (hfault : l.fault = none) (htype : l.type = .string) :
    l.DefaultKept nodeName m ↔ l.defaultValue ≠ none := by
  have htext : (l.loadedNode nodeName).defaultText = l.defaultValue := by
    cases hdefault : l.defaultValue <;> simp [LoadedNode.defaultText, loadedNode, default, htype, hdefault]
  unfold DefaultKept
  rw [htext]
  constructor
  · rintro ⟨text, hdefault, -⟩
    rw [hdefault]
    exact Option.some_ne_none text
  · intro hdefault
    obtain ⟨text, hdefault⟩ := Option.ne_none_iff_exists'.1 hdefault
    refine ⟨text, hdefault, ?_, ?_⟩
    · unfold fault at hfault
      rw [htype, hdefault] at hfault
      simp only at hfault
      split at hfault
      · cases hfault
      · simpa [fault, LoadedNode.leafSettings, loadedNode, htype] using hfault
    · simp [default, LoadedNode.leafSettings, loadedNode, htype, hdefault]

/-- The number that a default value is made of. -/
theorem bounds_number (l : Settings) :
    -intMax ≤ (l.defaultValue.bind stringToNum).getD 0 ∧ (l.defaultValue.bind stringToNum).getD 0 ≤ intMax := by
  cases hnumber : l.defaultValue.bind stringToNum with
  | none => decide
  | some value =>
    obtain ⟨text, -, hvalue⟩ := Option.bind_eq_some_iff.1 hnumber
    exact bounds_of_stringToNum hvalue

theorem within_number_iff (hfault : l.fault = none) (htype : l.type = .int ∨ l.type = .unsigned) :
    (l.min ≤ (l.defaultValue.bind stringToNum).getD 0 ∧ (l.defaultValue.bind stringToNum).getD 0 ≤ l.max) ↔
      (l.defaultValue = none → l.min ≤ 0 ∧ 0 ≤ l.max) := by
  cases hdefault : l.defaultValue with
  | none => simp
  | some text =>
    obtain ⟨value, hvalue, hwithin⟩ := number_within hfault htype hdefault
    rw [Option.bind_some, hvalue]
    exact iff_of_true hwithin (by simp)

theorem defaultKept_int (hfault : l.fault = none) (htype : l.type = .int) :
    l.DefaultKept nodeName m ↔ (l.defaultValue = none → l.min ≤ 0 ∧ 0 ≤ l.max) := by
  rw [← within_number_iff hfault (.inl htype)]
  obtain ⟨hlow, hhigh⟩ := bounds_number l
  generalize hnumber : (l.defaultValue.bind stringToNum).getD 0 = value at hlow hhigh
  have hdefault : l.default = some (.int (BitVec.ofInt 32 value)) := by
    simp only [default, htype, hnumber]
  have htext : (l.loadedNode nodeName).defaultText = some (decimal value) := by
    simp only [LoadedNode.defaultText, loadedNode, hdefault, Tr069Value.toInt_ofInt hlow hhigh]
  have hread := stringToNum_decimal hlow hhigh
  have hagain : ((l.loadedNode nodeName).leafSettings m (decimal value)).default = l.default := by
    rw [hdefault]
    simp [default, LoadedNode.leafSettings, loadedNode, htype, hread]
  unfold DefaultKept
  rw [htext]
  constructor
  · rintro ⟨_, ht, hfault', -⟩
    cases ht
    exact (fault_leafSettings (.inl htype) hread).1 hfault'
  · intro hwithin
    exact ⟨_, rfl, (fault_leafSettings (.inl htype) hread).2 hwithin, hagain⟩

/-- A negative default value of an unsigned leaf is written as the large number that it stands for, which is read as the largest
`int`. -/
theorem defaultKept_unsigned (hfault : l.fault = none) (htype : l.type = .unsigned) :
    l.DefaultKept nodeName m ↔
      (l.defaultValue = none → l.min ≤ 0 ∧ 0 ≤ l.max) ∧ ∀ value, l.defaultValue.bind stringToNum = some value → 0 ≤ value := by
  have hnonneg : (∀ value, l.defaultValue.bind stringToNum = some value → 0 ≤ value) ↔
      0 ≤ (l.defaultValue.bind stringToNum).getD 0 := by
    cases l.defaultValue.bind stringToNum <;> simp
  rw [← within_number_iff hfault (.inr htype), hnonneg]
  obtain ⟨hlow, hhigh⟩ := bounds_number l
  generalize hnumber : (l.defaultValue.bind stringToNum).getD 0 = value at hlow hhigh
  have hdefault : l.default = some (.unsigned (BitVec.ofInt 32 value)) := by
    simp only [default, htype, hnumber]
  have htext : (l.loadedNode nodeName).defaultText = some (decimal (BitVec.ofInt 32 value).toNat) := by
    simp only [LoadedNode.defaultText, loadedNode, hdefault]
  have hagain : ∀ {text read}, stringToNum text = some read →
      ((l.loadedNode nodeName).leafSettings m text).default = some (.unsigned (BitVec.ofInt 32 read)) := by
    intro text read hread
    simp [default, LoadedNode.leafSettings, loadedNode, htype, hread]
  unfold DefaultKept
  rw [htext]
  by_cases hvalue : 0 ≤ value
  · have hread := stringToNum_decimal hlow hhigh
    rw [Tr069Value.toNat_ofInt hvalue hhigh]
    constructor
    · rintro ⟨_, ht, hfault', -⟩
      cases ht
      exact ⟨(fault_leafSettings (.inr htype) hread).1 hfault', hvalue⟩
    · rintro ⟨hwithin, -⟩
      exact ⟨_, rfl, (fault_leafSettings (.inr htype) hread).2 hwithin, (hagain hread).trans hdefault.symm⟩
  · have hlarge : intMax ≤ ((BitVec.ofInt 32 value).toNat : Int) := by
      rw [BitVec.toNat_ofInt]
      unfold intMax at hlow ⊢
      omega
    refine iff_of_false ?_ fun h => hvalue h.2
    rintro ⟨_, ht, -, hsame⟩
    cases ht
    rw [hagain (stringToNum_decimal_of_le hlarge), hdefault] at hsame
    injection hsame with hsame
    injection hsame with hsame
    have hint := congrArg BitVec.toInt hsame
    rw [Tr069Value.toInt_ofInt (by decide) (by decide), Tr069Value.toInt_ofInt hlow hhigh] at hint
    rw [← hint] at hvalue
    exact hvalue (by decide)

/-- A truth value is written as 0 or 1. -/
theorem defaultKept_bool (htype : l.type = .bool) : l.DefaultKept nodeName m := by
  by_cases hzero : (l.defaultValue.map Conf.atoi).getD 0 = 0
  · have hdefault : l.default = some (.bool 0) := by
      simp only [default, htype, if_pos hzero]
    refine ⟨decimal 0, ?_, ?_, ?_⟩
    · simp [LoadedNode.defaultText, loadedNode, hdefault]
    · simp [fault, LoadedNode.leafSettings, loadedNode, htype]
    · rw [hdefault]
      simp only [default, LoadedNode.leafSettings, loadedNode, htype]
      rfl
  · have hdefault : l.default = some (.bool 1) := by
      simp only [default, htype, if_neg hzero]
    refine ⟨decimal 1, ?_, ?_, ?_⟩
    · simp [LoadedNode.defaultText, loadedNode, hdefault]
    · simp [fault, LoadedNode.leafSettings, loadedNode, htype]
    · rw [hdefault]
      simp only [default, LoadedNode.leafSettings, loadedNode, htype]
      rfl

end Default

/-! ### Objects and instances -/

/-- The children that have been accepted. -/
theorem nextLevelNum_pos {l : Settings} (hfault : l.fault = none)
    (htype : l.type = .inst ∨ l.type = .multiObject ∨ l.type = .object) : 0 < l.nextLevelNum := by
  unfold fault at hfault
  have hcheck : (if l.nextLevelNum ≤ 0 then some Result.attributeNextlevelnumError else none) = none := by
    rcases htype with htype | htype | htype
    · rw [htype] at hfault
      exact hfault
    · rw [htype] at hfault
      exact hfault
    · rw [htype] at hfault
      exact hfault
  split at hcheck
  · cases hcheck
  · omega

section Inner

variable {l : Settings} {nodeName : Text} {locals : Locals} (hvalid : l.Valid) (hfault : l.fault = none)
  (hlength : nodeName.length ≤ maxTr069NameLen)

include hvalid hfault hlength

/-- Of an object only the type and the number of children are written. -/
theorem roundTrips_object (htype : l.type = .object ∨ l.type = .multiObject) (hname : nodeName ≠ []) :
    RoundTrips locals ⟨nodeName, .node (l.loadedNode nodeName)⟩ ↔
      locals.nameLength ≤ maxTr069NameLen ∧ l.accessType = ⟨true, true⟩ ∧
        (isTemplateName nodeName ∨ l.notification = .none ∧ l.accessModule = .all) ∧
        l.needReboot = false ∧ l.style = .configuration ∧ l.min = 0 ∧ l.max = 0 := by
  have hnode : (l.loadedNode nodeName).type = l.type := rfl
  have hchildren : (l.loadedNode nodeName).childNum = l.nextLevelNum := rfl
  have hpos : 0 < l.nextLevelNum := nextLevelNum_pos hfault (.inr htype.symm)
  have hunknown : l.type ≠ .unknown := by
    rcases htype with htype | htype <;> simp [htype]
  have hinst : l.type ≠ .inst := by
    rcases htype with htype | htype <;> simp [htype]
  have hdefault : l.default = none := by
    rcases htype with htype | htype <;> simp [default, htype]
  have hbuild : buildXmlNode (InitNode.node (l.loadedNode nodeName)).entryType (.node (l.loadedNode nodeName)) =
      .ok [⟨AttributeName.type.text, typeInfo l.type⟩, ⟨AttributeName.nextLevelNum.text, decimal l.nextLevelNum⟩] := by
    rcases htype with htype | htype
    · simp [InitNode.entryType, buildXmlNode, hnode, hchildren, htype, Tr069Type.isLeaf]
    · simp [InitNode.entryType, buildXmlNode, hnode, hchildren, htype, Tr069Type.isLeaf]
  have hread : (initial locals.maxNumOfEntries).readAll
      [⟨AttributeName.type.text, typeInfo l.type⟩, ⟨AttributeName.nextLevelNum.text, decimal l.nextLevelNum⟩] =
        .ok { initial locals.maxNumOfEntries with type := l.type, nextLevelNum := l.nextLevelNum } := by
    rw [readAll_cons_of_ok (read_type hunknown), readAll_cons_of_ok (read_nextLevelNum hvalid.children.1 hvalid.children.2)]
    rfl
  have hagain : ({ initial locals.maxNumOfEntries with type := l.type, nextLevelNum := l.nextLevelNum } : Settings).fault = none := by
    rcases htype with htype | htype
    · simp [fault, htype, hpos]
    · simp [fault, htype, hpos]
  have hnode' : ({ initial locals.maxNumOfEntries with type := l.type, nextLevelNum := l.nextLevelNum } : Settings).node nodeName =
      some (.node (l.loadedNode nodeName)) ↔ l.accessType = ⟨true, true⟩ ∧
        (isTemplateName nodeName ∨ l.notification = .none ∧ l.accessModule = .all) ∧
        l.needReboot = false ∧ l.style = .configuration ∧ l.min = 0 ∧ l.max = 0 := by
    have hdefault' : ({ initial locals.maxNumOfEntries with type := l.type, nextLevelNum := l.nextLevelNum } : Settings).default =
        none := by
      rcases htype with htype | htype <;> simp [default, htype]
    rw [Settings.node, if_neg hinst, if_neg hname]
    simp only [Option.some.injEq, InitNode.node.injEq, loadedNode, LoadedNode.mk.injEq, hdefault, hdefault']
    simp only [initial]
    by_cases htemplate : isTemplateName nodeName
    · simp only [htemplate, if_true, true_and, true_or]
      constructor
      · rintro ⟨haccess, hreboot, hstyle, hmin, hmax⟩
        exact ⟨haccess.symm, hreboot.symm, hstyle.symm, hmin.symm, hmax.symm⟩
      · rintro ⟨haccess, hreboot, hstyle, hmin, hmax⟩
        exact ⟨haccess.symm, hreboot.symm, hstyle.symm, hmin.symm, hmax.symm⟩
    · simp only [htemplate, if_false, true_and, false_or]
      constructor
      · rintro ⟨haccess, hnotification, hreboot, hmodule, hstyle, hmin, hmax⟩
        exact ⟨haccess.symm, ⟨hnotification.symm, hmodule.symm⟩, hreboot.symm, hstyle.symm, hmin.symm, hmax.symm⟩
      · rintro ⟨haccess, ⟨hnotification, hmodule⟩, hreboot, hstyle, hmin, hmax⟩
        exact ⟨haccess.symm, hnotification.symm, hreboot.symm, hmodule.symm, hstyle.symm, hmin.symm, hmax.symm⟩
  unfold RoundTrips
  simp only [hbuild, initTr069Node_eq_ok]
  constructor
  · rintro ⟨_, hattrs, hlocals, -, l', hl', -, hsame, -⟩
    cases hattrs
    rw [hread] at hl'
    cases hl'
    exact ⟨hlocals, hnode'.1 hsame⟩
  · rintro ⟨hlocals, hsame⟩
    exact ⟨_, rfl, hlocals, hlength, _, hread, hagain, hnode'.2 hsame, trivial⟩

/-- Of an instance only the number of children and the maximum of entries are written. -/
theorem roundTrips_instance (htype : l.type = .inst) {node : InitNode} (hnode : l.node nodeName = some node) :
    RoundTrips locals ⟨nodeName, node⟩ ↔
      locals.nameLength ≤ maxTr069NameLen ∧ l.accessType = ⟨true, true⟩ ∧ l.notification = .none ∧ l.accessModule = .all ∧
        l.maxNumOfEntries ≠ 0x80000000#32 := by
  rw [Settings.node, if_pos htype] at hnode
  cases hnode
  have hpos : 0 < l.nextLevelNum := nextLevelNum_pos hfault (.inl htype)
  have hchildren : ((l.nextLevelNum.toNat : Nat) : Int) = l.nextLevelNum := Int.toNat_of_nonneg hvalid.children.1
  -- what the number of entries is read as
  obtain ⟨value, hvalue, hkept⟩ : ∃ value, stringToNum (decimal l.maxNumOfEntries.toInt) = some value ∧
      (BitVec.ofInt 32 value = l.maxNumOfEntries ↔ l.maxNumOfEntries ≠ 0x80000000#32) := by
    by_cases hsmallest : l.maxNumOfEntries = 0x80000000#32
    · rw [hsmallest]
      exact ⟨-intMax, rfl, by decide⟩
    · have hlow : -intMax ≤ l.maxNumOfEntries.toInt := by
        have hle := BitVec.le_toInt l.maxNumOfEntries
        have hne : l.maxNumOfEntries.toInt ≠ (0x80000000#32).toInt := fun h => hsmallest (BitVec.eq_of_toInt_eq h)
        have hint : (0x80000000#32).toInt = -2147483648 := by decide
        unfold intMax
        omega
      have hhigh : l.maxNumOfEntries.toInt ≤ intMax := by
        have hlt := BitVec.toInt_lt (x := l.maxNumOfEntries)
        unfold intMax
        omega
      exact ⟨_, stringToNum_decimal hlow hhigh, iff_of_true (BitVec.ofInt_toInt) hsmallest⟩
  have hread : (initial locals.maxNumOfEntries).readAll
      [⟨AttributeName.type.text, typeInfo .inst⟩, ⟨AttributeName.nextLevelNum.text, decimal l.nextLevelNum⟩,
        ⟨AttributeName.maxNumOfEntries.text, decimal l.maxNumOfEntries.toInt⟩] =
      .ok { initial locals.maxNumOfEntries with
        type := .inst
        nextLevelNum := l.nextLevelNum
        maxNumOfEntries := BitVec.ofInt 32 value } := by
    have hentries : ∀ l' : Settings, l'.read ⟨AttributeName.maxNumOfEntries.text, decimal l.maxNumOfEntries.toInt⟩ =
        .ok { l' with maxNumOfEntries := BitVec.ofInt 32 value } := by
      intro l'
      delta read
      simp only [attributeName?_text, hvalue, orError]
    rw [readAll_cons_of_ok (read_type (by decide)), readAll_cons_of_ok (read_nextLevelNum hvalid.children.1 hvalid.children.2),
      readAll_cons_of_ok (hentries _)]
    rfl
  unfold RoundTrips
  simp only [InitNode.entryType, buildXmlNode, List.length_replicate, hchildren, initTr069Node_eq_ok]
  constructor
  · rintro ⟨_, hattrs, hlocals, -, l', hl', -, hsame, -⟩
    cases hattrs
    rw [hread] at hl'
    cases hl'
    rw [Settings.node, if_pos rfl] at hsame
    simp only [Option.some.injEq, InitNode.instances.injEq, Template.mk.injEq, Tr069Instances.mk.injEq, Tr069Instance.mk.injEq, initial] at hsame
    obtain ⟨⟨-, hentries, -⟩, ⟨-, haccess, hnotification, hmodule⟩, -⟩ := hsame
    exact ⟨hlocals, haccess.symm, hnotification.symm, hmodule.symm, hkept.1 hentries⟩
  · rintro ⟨hlocals, haccess, hnotification, hmodule, hentries⟩
    refine ⟨_, rfl, hlocals, hlength, _, hread, by simp [fault, hpos], ?_, trivial⟩
    simp [Settings.node, initial, haccess, hnotification, hmodule, hkept.2 hentries]

end Inner

/-! ### Every type -/

/-- Everything in the settings is written, and what is written in the place of what is not given is accepted. -/
def Kept (l : Settings) (nodeName : Text) : Prop :=
  match l.type with
  | .string => l.nextLevelNum = 0 ∧ l.defaultValue ≠ none ∧ 0 ≤ l.min
  | .int => l.nextLevelNum = 0 ∧ (l.defaultValue = none → l.min ≤ 0 ∧ 0 ≤ l.max)
  | .unsigned =>
    l.nextLevelNum = 0 ∧ (l.defaultValue = none → l.min ≤ 0 ∧ 0 ≤ l.max) ∧
      ∀ value, l.defaultValue.bind stringToNum = some value → 0 ≤ value
  | .bool => l.nextLevelNum = 0
  | .object | .multiObject =>
    l.accessType = ⟨true, true⟩ ∧ (isTemplateName nodeName ∨ l.notification = .none ∧ l.accessModule = .all) ∧
      l.needReboot = false ∧ l.style = .configuration ∧ l.min = 0 ∧ l.max = 0
  | .inst =>
    l.accessType = ⟨true, true⟩ ∧ l.notification = .none ∧ l.accessModule = .all ∧ l.maxNumOfEntries ≠ 0x80000000#32
  | .unknown => True

end Settings

/-- **When a node that has been accepted comes back.** The attributes must not say anything that is not written: the number of children
of a leaf, and but for it and the maximum of entries all of what they say of an object or an instance. What is written of a leaf must be
accepted: a string must have a default value and no negative length, an unsigned number no negative default value, and the zero that is
written for a default value that is not given must be within the range. And there must not be a long text by chance where the name is
going to be copied to. -/
theorem node_roundTrips_iff {locals locals' : Locals} {nodeName : Text} {attrs : List XmlAttribute} {entry : InitEntry}
    (h : initTr069Node locals nodeName attrs = .ok entry) :
    RoundTrips locals' entry ↔
      locals'.nameLength ≤ maxTr069NameLen ∧ (Settings.said locals.maxNumOfEntries attrs).Kept nodeName := by
  obtain ⟨-, hlength, l, hread, hfault, hnode, hname⟩ := initTr069Node_eq_ok.1 h
  have hvalid := Settings.valid_readAll (Settings.valid_initial _) hread
  rw [← Settings.eq_said hread]
  obtain ⟨name, node⟩ := entry
  obtain rfl : name = nodeName := hname
  by_cases hinst : l.type = .inst
  · rw [Settings.roundTrips_instance hvalid hfault hlength hinst hnode, Settings.Kept, hinst]
  rw [Settings.node, if_neg hinst] at hnode
  have hnonempty : name ≠ [] := by
    rintro rfl
    cases hnode
  rw [if_neg hnonempty] at hnode
  cases hnode
  unfold Settings.Kept
  cases htype : l.type with
  | unknown =>
    unfold Settings.fault at hfault
    rw [htype] at hfault
    cases hfault
  | inst => exact absurd htype hinst
  | object => exact Settings.roundTrips_object hvalid hfault hlength (.inl htype) hnonempty
  | multiObject => exact Settings.roundTrips_object hvalid hfault hlength (.inr htype) hnonempty
  | string =>
    rw [Settings.roundTrips_leaf hvalid hlength (by rw [htype]; rfl) hnonempty, Settings.defaultKept_string hfault htype]
    simp only [htype, true_imp_iff]
    tauto
  | int =>
    rw [Settings.roundTrips_leaf hvalid hlength (by rw [htype]; rfl) hnonempty, Settings.defaultKept_int hfault htype]
    simp [htype]
  | unsigned =>
    rw [Settings.roundTrips_leaf hvalid hlength (by rw [htype]; rfl) hnonempty, Settings.defaultKept_unsigned hfault htype]
    simp [htype]
  | bool =>
    rw [Settings.roundTrips_leaf hvalid hlength (by rw [htype]; rfl) hnonempty]
    simp [htype, Settings.defaultKept_bool htype]

/-- A leaf with bounds of both signs. -/
theorem node_roundTrips_offset :
    ∃ entry, initTr069Node ⟨0, 0⟩ "Device.Time.Offset".toList
        [⟨"type".toList, "Int".toList⟩, ⟨"access".toList, "readOnly".toList⟩, ⟨"valueRange".toList, "-720-720".toList⟩,
          ⟨"defaultValue".toList, "-60".toList⟩] = .ok entry ∧
      RoundTrips ⟨256, 0⟩ entry := by
  have haccepted : initTr069Node ⟨0, 0⟩ "Device.Time.Offset".toList
      [⟨"type".toList, "Int".toList⟩, ⟨"access".toList, "readOnly".toList⟩, ⟨"valueRange".toList, "-720-720".toList⟩,
        ⟨"defaultValue".toList, "-60".toList⟩] =
      .ok ⟨"Device.Time.Offset".toList, .node
        ⟨"Offset".toList, .int, ⟨true, false⟩, .none, false, .all, .configuration, 0, some (.int (BitVec.ofInt 32 (-60))), -720, 720⟩⟩ := by
    decide +kernel
  refine ⟨_, haccepted, (node_roundTrips_iff haccepted).2 ⟨by decide, ?_⟩⟩
  generalize hsaid : Settings.said _ _ = l
  have hkept : l.type = .int ∧ l.nextLevelNum = 0 ∧ l.defaultValue ≠ none := by
    rw [← hsaid]
    decide +kernel
  rw [Settings.Kept, hkept.1]
  exact ⟨hkept.2.1, fun hnone => absurd hnone hkept.2.2⟩

/-- A leaf whose range excludes zero, without a default value: what is written of it is refused. -/
theorem not_node_roundTrips :
    ¬∀ (locals locals' : Locals) (nodeName : Text) (attrs : List XmlAttribute) (entry : InitEntry),
      locals'.nameLength ≤ maxTr069NameLen → initTr069Node locals nodeName attrs = .ok entry → RoundTrips locals' entry := by
  intro h
  have hfalse : ∃ entry, initTr069Node ⟨0, 0⟩ "Device.Port".toList
      [⟨"type".toList, "Int".toList⟩, ⟨"valueRange".toList, "1-10".toList⟩] = .ok entry ∧ ¬RoundTrips ⟨0, 0⟩ entry := by
    refine ⟨⟨"Device.Port".toList, .node
      ⟨"Port".toList, .int, ⟨true, true⟩, .none, false, .all, .configuration, 0, some (.int 0), 1, 10⟩⟩, ?_, ?_⟩
    · decide +kernel
    · decide +kernel
  obtain ⟨entry, haccepted, hlost⟩ := hfalse
  exact hlost (h _ _ _ _ _ (by decide) haccepted)

end CodeFactory.Tr69
