import CodeFactory.Lib.Dotted

/-!
# Names and numbers as text

The C strings of the parameter tree as lists of characters, without the terminating null, and the functions on them: cutting a
name at its dots, reading and writing numbers, and `get_num_of_entries_name`. The buffers the source copies names into are
taken to be large enough.
-/

namespace CodeFactory.Tr69

/-- A C string. -/
abbrev Text := List Char

/-- The parts of a name between its dots, as `strchr` finds them one after the other. -/
def parts (name : Text) : List Text := name.splitOn '.'

/-- Cut a dot off the end, if there is one. -/
def cutDot (name : Text) : Text := if name.getLast? = some '.' then name.dropLast else name

/-- A name up to its last dot, with the dot; nothing if `strrchr` finds none. -/
def uptoLastDot (name : Text) : Text := name.rdropWhile (· ≠ '.')

/-- What is behind the last dot of a name. -/
def afterLastDot (name : Text) : Text := name.rtakeWhile (· ≠ '.')

/-- The largest `int`. -/
def intMax : Int := 2147483647

/-- `atoi` of a string of digits: the overflow `string_to_num` does not consider gives the largest number. -/
def atoi (digits : Text) : Int := min intMax (digits.foldl (fun n c => 10 * n + (c.toNat - 48)) 0 : Nat)

/-- `MAX_TR069_NAME_LEN`. An array for a name holds so many characters and a null. -/
def maxTr069NameLen : Nat := 256

/-- `string_to_num`: digits, with a minus before them or not. -/
def stringToNum (str : Text) : Option Int :=
  match str with
  | [] => none
  | '-' :: rest => if rest ≠ [] ∧ rest.all Char.isDigit then some (0 - atoi rest) else none
  | _ => if str.all Char.isDigit then some (atoi str) else none

/-- `sprintf` with `%d`. -/
def decimal (n : Int) : Text :=
  match n with
  | .ofNat n => Nat.toDigits 10 n
  | .negSucc n => '-' :: Nat.toDigits 10 (n + 1)

/-- `strcasecmp` with a lower case word finds no difference. -/
def sameWord (str : Text) (lower : Text) : Bool := str.map Char.toLower = lower

def numberOfEntriesStr : Text := "NumberOfEntries".toList

/-- The renaming at the head of `get_num_of_entries_name`. -/
def countedName (nodeName : Text) : Text :=
  if nodeName = "Forwarding".toList then "Forward".toList
  else if nodeName = "LANEthernetInterfaceConfig".toList then "LANEthernetInterface".toList
  else if nodeName = "LANUSBInterfaceConfig".toList then "LANUSBInterface".toList
  else if nodeName = "WLANConfiguration".toList then "LANWLANConfiguration".toList
  else if nodeName = "Vendor-ConfigFile".toList then "VendorConfigFile".toList
  else if nodeName = "WANConnectionDevice".toList then "WANConnection".toList
  else nodeName

/-- `get_num_of_entries_name`: the name of the leaf that counts the instances of an object. The empty name stands for no
leaf. -/
def getNumOfEntriesName (nodeName : Text) : Text :=
  let nodeName := countedName nodeName
  if nodeName = "WEPKey".toList ∨ nodeName = "X_CISCO_COM_Key".toList ∨ nodeName = "PreSharedKey".toList then []
  else if nodeName = "Line".toList then "NumberOfLines".toList
  else nodeName ++ numberOfEntriesStr

example : stringToNum "-12".toList = some (-12) := by decide
example : stringToNum "-".toList = none := by decide
example : decimal 120 = "120".toList := by decide
example : getNumOfEntriesName "Forwarding".toList = "ForwardNumberOfEntries".toList := by decide

theorem exists_parts (name : Text) :
    ∃ ps l, (∀ p ∈ ps, '.' ∉ p) ∧ '.' ∉ l ∧ name = dotted '.' ps ++ l ∧ parts name = ps ++ [l] := exists_dotted '.' name

theorem cutDot_append_dot (name : Text) : cutDot (name ++ ['.']) = name := by
  simp [cutDot]

theorem cutDot_of_part {ps : List Text} {l : Text} (hl : '.' ∉ l) (hne : l ≠ []) :
    cutDot (dotted '.' ps ++ l) = dotted '.' ps ++ l := by
  have h : (dotted '.' ps ++ l).getLast? = some (l.getLast hne) := by
    rw [List.getLast?_append_of_ne_nil _ hne, List.getLast?_eq_getLast_of_ne_nil hne]
  rw [cutDot, h, if_neg]
  intro he
  exact hl (Option.some.inj he ▸ List.getLast_mem hne)

/-- A name that is empty or ends in a dot, as the names of fathers do. -/
def DotName (name : Text) : Prop := ∃ ps, (∀ p ∈ ps, '.' ∉ p) ∧ name = dotted '.' ps

theorem DotName.nil : DotName [] := ⟨[], by simp, rfl⟩

theorem DotName.dotted {ps : List Text} (h : ∀ p ∈ ps, '.' ∉ p) : DotName (dotted '.' ps) := ⟨ps, h, rfl⟩

theorem DotName.append {name name' : Text} (h : DotName name) (h' : DotName name') : DotName (name ++ name') := by
  obtain ⟨ps, hps, rfl⟩ := h
  obtain ⟨qs, hqs, rfl⟩ := h'
  exact ⟨ps ++ qs, List.forall_mem_append.2 ⟨hps, hqs⟩, (dotted_append '.' ps qs).symm⟩

theorem notMem_countedName {name : Text} (h : '.' ∉ name) : '.' ∉ countedName name := by
  unfold countedName
  repeat' split
  all_goals first | exact h | decide

theorem notMem_getNumOfEntriesName {name : Text} (h : '.' ∉ name) : '.' ∉ getNumOfEntriesName name := by
  unfold getNumOfEntriesName
  simp only
  split
  · simp
  split
  · decide
  · rw [List.mem_append, not_or]
    exact ⟨notMem_countedName h, by decide⟩

theorem atoi_toDigits (n : Nat) : atoi (Nat.toDigits 10 n) = min intMax n := by
  have hfold : (Nat.toDigits 10 n).foldl (fun n c => 10 * n + (c.toNat - 48)) 0 = n :=
    (Nat.ofDigitChars_eq_foldl.symm.trans Nat.ofDigitChars_ten_toDigits)
  rw [atoi, hfold]

theorem all_isDigit_toDigits (n : Nat) : (Nat.toDigits 10 n).all Char.isDigit = true := by
  rw [List.all_eq_true]
  intro c hc
  exact Nat.isDigit_of_mem_toDigits (by decide) (by decide) hc

theorem stringToNum_toDigits (n : Nat) : stringToNum (Nat.toDigits 10 n) = some (min intMax n) := by
  have hall := all_isDigit_toDigits n
  unfold stringToNum
  split
  · rename_i h
    exact absurd h Nat.toDigits_ne_nil
  · rename_i rest h
    rw [h] at hall
    exact absurd hall (by simp)
  · rw [if_pos hall, atoi_toDigits]

/-- The text of a number is read back as the number, but for the smallest `int`. -/
theorem stringToNum_decimal {i : Int} (hmin : -intMax ≤ i) (hmax : i ≤ intMax) : stringToNum (decimal i) = some i := by
  cases i with
  | ofNat n =>
    have hread : min intMax (n : Int) = .ofNat n := Int.min_eq_right hmax
    have hdecimal : decimal (.ofNat n) = Nat.toDigits 10 n := rfl
    rw [hdecimal, stringToNum_toDigits, hread]
  | negSucc n =>
    have hread : atoi (Nat.toDigits 10 (n + 1)) = (n + 1 : Nat) := (atoi_toDigits _).trans (Int.min_eq_right (by omega))
    have hall := all_isDigit_toDigits (n + 1)
    unfold decimal stringToNum
    simp only [hread, hall, and_true, ne_eq, Nat.toDigits_ne_nil, not_false_eq_true, if_true, Option.some.injEq]
    omega

theorem decimal_ne_nil (i : Int) : decimal i ≠ [] := by
  cases i with
  | ofNat n => exact Nat.toDigits_ne_nil
  | negSucc n => exact List.cons_ne_nil _ _

/-- What a number is written with are digits, and a minus. -/
theorem notMem_decimal_of {c : Char} (hdigit : c.isDigit = false) (hminus : c ≠ '-') (i : Int) : c ∉ decimal i := by
  have hdigits : ∀ n, c ∉ Nat.toDigits 10 n := by
    intro n hc
    have h := List.all_eq_true.1 (all_isDigit_toDigits n) c hc
    rw [hdigit] at h
    cases h
  cases i with
  | ofNat n => exact hdigits n
  | negSucc n => exact List.not_mem_cons_of_ne_of_not_mem hminus (hdigits (n + 1))

theorem notMem_decimal (i : Int) : '.' ∉ decimal i := notMem_decimal_of (by decide) (by decide) i

/-- A number is written in one way. -/
theorem decimal_injective {i j : Int} (h : decimal i = decimal j) : i = j := by
  have hdigits : ∀ m n, Nat.toDigits 10 m = Nat.toDigits 10 n → m = n := by
    intro m n hmn
    rw [← Nat.ofDigitChars_ten_toDigits (n := m), hmn, Nat.ofDigitChars_ten_toDigits]
  have hminus : ∀ (m : Nat) (rest : Text), Nat.toDigits 10 m ≠ '-' :: rest := by
    intro m rest hm
    have hall := all_isDigit_toDigits m
    rw [hm] at hall
    cases hall
  cases i with
  | ofNat m =>
    cases j with
    | ofNat n => exact congrArg Int.ofNat (hdigits m n h)
    | negSucc n => exact absurd h (hminus m _)
  | negSucc m =>
    cases j with
    | ofNat n => exact absurd h.symm (hminus n _)
    | negSucc n =>
      have hmn := hdigits _ _ (List.cons.inj h).2
      rw [Nat.succ.inj hmn]

end CodeFactory.Tr69
