import CodeFactory.Conf.Load
import CodeFactory.Lib.Machine
import CodeFactory.Lib.Words
import CodeFactory.Oal.TcmRet

/-!
# IP addresses

`tcmUtl_isValidIpAddress` and `tcmUtl_ipStrToOctets` of `strconv.c`: the string is copied, `strtok_r` cuts it at the dots, and
`tcmUtl_strtoul` makes a number of each of the first four tokens. Where there is no token, `strtok_r` gives the null pointer, and
`tcmUtl_strtoul` follows it.
-/

namespace CodeFactory.Oal

open Conf (isspace digitsNum)
open Words (words IsWord Ends)

/-- The sign in front of a number, whether it is a minus, and what is behind it. -/
def sign : List Char → Bool × List Char
  | '-' :: s => (true, s)
  | '+' :: s => (false, s)
  | s => (false, s)

/-- `strtoul` with base 10: whether the number is out of range, the number, and what is behind it. -/
def strtoul (m : DataModel) (str : List Char) : Bool × Nat × List Char :=
  let (negative, s) := sign (str.dropWhile isspace)
  if s.takeWhile Char.isDigit = [] then (false, 0, str)
  else if m.ulongMax < digitsNum s then (true, m.ulongMax, s.dropWhile Char.isDigit)
  else (false, if negative then (m.ulongMax + 1 - digitsNum s) % (m.ulongMax + 1) else digitsNum s, s.dropWhile Char.isDigit)

/-- `tcmUtl_strtoul` with base 10, with the value, which has 32 bits. -/
def tcmUtlStrtoul (m : DataModel) (str : List Char) : TcmRet × Nat :=
  let str := str.dropWhile isspace
  if str.head? = some '-' then (.invalidArguments, 0)
  else
    let (erange, val, localEndPtr) := strtoul m str
    if erange ∨ localEndPtr ≠ [] then (.invalidArguments, 0) else (.success, val % 2 ^ 32)

/-- `strtok_r` with a dot: the token, and the string that the next call goes on with. -/
def strtokR (s : List Char) : Option (List Char) × List Char :=
  let s := s.dropWhile (· = '.')
  if s = [] then (none, []) else (some (s.takeWhile (· ≠ '.')), (s.dropWhile (· ≠ '.')).tail)

/-- The number of a token, if it is taken for one of an address. -/
def octet? (m : DataModel) (token : List Char) : Option Nat :=
  let (ret, num) := tcmUtlStrtoul m token
  if ret ≠ .success ∨ 255 < num then none else some num

/-- The first token and the loop over the others of `tcmUtl_isValidIpAddress`, with the number of tokens. -/
def checkTokens (m : DataModel) : Nat → List Char → Outcome Bool
  | 0, _ => .done true
  | n + 1, s =>
    (follow (strtokR s).1).bind fun token =>
      match octet? m token with
      | none => .done false
      | some _ => checkTokens m n (strtokR s).2

/-- `tcmUtl_isValidIpAddress`. -/
def isValidIpAddress (m : DataModel) (input : Option (List Char)) : Outcome Bool :=
  match input with
  | none => .done false
  | some input => if input.length < 7 ∨ 15 < input.length then .done false else checkTokens m 4 input

/-- The first token and the loop over the others of `tcmUtl_ipStrToOctets`, with the octets that it writes to `output` from `i` on. -/
def convertTokens (m : DataModel) : Nat → List Char → Outcome (Bool × List Nat)
  | 0, _ => .done (true, [])
  | n + 1, s =>
    (follow (strtokR s).1).bind fun token =>
      match octet? m token with
      | none => .done (false, [])
      | some num => (convertTokens m n (strtokR s).2).map fun (ret, output) => (ret, num :: output)

/-- `tcmUtl_ipStrToOctets`, with the octets that it writes. -/
def ipStrToOctets (m : DataModel) (input : Option (List Char)) : Outcome (Bool × List Nat) :=
  match input with
  | none => .done (false, [])
  | some input => if input.length < 7 ∨ 15 < input.length then .done (false, []) else convertTokens m 4 input

/-- A decimal number from 0 to 255. -/
def IsOctet (t : List Char) : Prop := t ≠ [] ∧ (∀ c ∈ t, c.isDigit = true) ∧ digitsNum t ≤ 255

/-- Four such numbers, separated by single dots. -/
def DottedQuad (s : List Char) : Prop :=
  ∃ a b c d, IsOctet a ∧ IsOctet b ∧ IsOctet c ∧ IsOctet d ∧ s = a ++ '.' :: (b ++ '.' :: (c ++ '.' :: d))

/-! ## Tokens -/

/-- What stands between tokens. -/
def isDot (c : Char) : Bool := c = '.'

variable {m : DataModel} {s t : List Char}

theorem strtokR_eq (s : List Char) : (strtokR s).1 = (words isDot s).head? ∧ words isDot (strtokR s).2 = (words isDot s).tail := by
  have hskip : s.dropWhile (· = '.') = s.dropWhile isDot := rfl
  rw [strtokR, hskip, ← Words.words_dropWhile s]
  have hfirst := List.head?_dropWhile_not isDot s
  cases hs : s.dropWhile isDot with
  | nil => exact ⟨rfl, rfl⟩
  | cons c r =>
    rw [hs] at hfirst
    have hc : isDot c = false := by simpa using hfirst
    have hneg : ∀ x : Char, decide (x ≠ '.') = !isDot x := fun x => by simp [isDot]
    rw [if_neg (List.cons_ne_nil _ _)]
    simp only [hneg]
    have hends : Words.Ends isDot ((c :: r).dropWhile fun x => !isDot x) := Words.ends_dropWhile (c :: r)
    have hwords := Words.words_append (Words.isWord_takeWhile hc r) hends
    rw [List.takeWhile_append_dropWhile] at hwords
    rw [hwords]
    refine ⟨rfl, ?_⟩
    cases hd : (c :: r).dropWhile (fun x => !isDot x) with
    | nil => rfl
    | cons d q =>
      rw [hd] at hends
      rw [List.tail_cons, List.tail_cons, Words.words_cons_sep (hends d rfl)]

theorem convertTokens_succ (m : DataModel) (n : Nat) (s : List Char) :
    convertTokens m (n + 1) s = (follow (words isDot s).head?).bind fun token =>
      match octet? m token with
      | none => .done (false, [])
      | some num => (convertTokens m n (strtokR s).2).map fun (ret, output) => (ret, num :: output) := by
  rw [convertTokens, (strtokR_eq s).1]

/-- The check accepts what the conversion converts. -/
theorem checkTokens_eq (m : DataModel) (n : Nat) (s : List Char) : checkTokens m n s = (convertTokens m n s).map Prod.fst := by
  induction n generalizing s with
  | zero => rfl
  | succ n ih =>
    rw [checkTokens, convertTokens]
    cases (strtokR s).1 with
    | none => rfl
    | some token =>
      rw [follow, Outcome.bind_done, Outcome.bind_done]
      cases octet? m token with
      | none => rfl
      | some num =>
        dsimp only
        rw [ih]
        cases convertTokens m n (strtokR s).2 <;> rfl

/-- Where the words are numbers, they are converted. -/
theorem convertTokens_of_octets {ts : List (List Char)} {nums : List Nat} (hoctets : ts.map (octet? m) = nums.map some)
    (h : words isDot s = ts) : convertTokens m ts.length s = .done (true, nums) := by
  induction ts generalizing s nums with
  | nil =>
    obtain rfl := List.map_eq_nil_iff.1 hoctets.symm
    rfl
  | cons t ts ih =>
    cases nums with
    | nil => cases hoctets
    | cons num nums =>
      rw [List.map_cons, List.map_cons, List.cons_eq_cons] at hoctets
      have hrest := (strtokR_eq s).2
      rw [h] at hrest
      rw [List.length_cons, convertTokens_succ, h]
      rw [List.head?_cons, follow, Outcome.bind_done, hoctets.1]
      dsimp only
      rw [ih hoctets.2 hrest]
      rfl

/-! ## Numbers -/

theorem isspace_of_isDigit {c : Char} (h : c.isDigit = true) : isspace c = false := by
  rw [isspace, List.contains_eq_mem]
  refine decide_eq_false fun hmem => ?_
  simp only [List.mem_cons, List.not_mem_nil, or_false] at hmem
  rcases hmem with rfl | rfl | rfl | rfl | rfl | rfl <;> revert h <;> decide

theorem sign_cons {c : Char} (hminus : c ≠ '-') (hplus : c ≠ '+') (s : List Char) : sign (c :: s) = (false, c :: s) := by
  unfold sign
  split
  next heq => exact absurd (List.cons_eq_cons.1 heq).1 hminus
  next heq => exact absurd (List.cons_eq_cons.1 heq).1 hplus
  next => rfl

/-- `strtoul` takes digits as they are. -/
theorem strtoul_of_digits (hne : t ≠ []) (hdigits : ∀ c ∈ t, c.isDigit = true) (hle : digitsNum t ≤ m.ulongMax) :
    strtoul m t = (false, digitsNum t, []) := by
  have htake : t.takeWhile Char.isDigit = t := List.takeWhile_eq_self_iff.2 hdigits
  have hdrop : t.dropWhile Char.isDigit = [] := List.dropWhile_eq_nil_iff.2 hdigits
  obtain ⟨c, r, rfl⟩ := List.exists_cons_of_ne_nil hne
  have hc := hdigits c List.mem_cons_self
  have hspace : (c :: r).dropWhile isspace = c :: r := List.dropWhile_cons_of_neg (by simp [isspace_of_isDigit hc])
  have hsign : c ≠ '-' ∧ c ≠ '+' := by
    constructor
    · rintro rfl
      revert hc
      decide
    · rintro rfl
      revert hc
      decide
  rw [strtoul, hspace, sign_cons hsign.1 hsign.2]
  dsimp only
  rw [if_neg (by rw [htake]; exact hne), if_neg (Nat.not_lt.2 hle), if_neg Bool.false_ne_true, hdrop]

/-- A number from 0 to 255 is taken for what it is. -/
theorem octet?_of_isOctet (h : IsOctet t) : octet? m t = some (digitsNum t) := by
  obtain ⟨hne, hdigits, hle⟩ := h
  have hmax : digitsNum t ≤ m.ulongMax := by
    cases m
    · exact hle.trans (by decide)
    · exact hle.trans (by decide)
  have hstrtoul := strtoul_of_digits hne hdigits hmax
  obtain ⟨c, r, rfl⟩ := List.exists_cons_of_ne_nil hne
  have hc := hdigits c List.mem_cons_self
  have hspace : (c :: r).dropWhile isspace = c :: r := List.dropWhile_cons_of_neg (by simp [isspace_of_isDigit hc])
  have hminus : (c :: r).head? ≠ some '-' := by
    rw [List.head?_cons]
    intro heq
    obtain rfl := Option.some.inj heq
    revert hc
    decide
  rw [octet?, tcmUtlStrtoul, hspace, if_neg hminus, hstrtoul]
  simp only [Bool.false_eq_true, ne_eq, not_true_eq_false, or_self, if_false, false_or]
  rw [Nat.mod_eq_of_lt (by omega), if_neg (by omega)]

/-! ## Addresses -/

theorem IsOctet.isWord (h : IsOctet t) : IsWord isDot t := by
  refine ⟨h.1, fun c hc => decide_eq_false ?_⟩
  rintro rfl
  have hdigit := h.2.1 _ hc
  revert hdigit
  decide

/-- The tokens of a dotted quad. -/
theorem words_of_isOctet {a b c d : List Char} (ha : IsOctet a) (hb : IsOctet b) (hc : IsOctet c) (hd : IsOctet d) :
    words isDot (a ++ '.' :: (b ++ '.' :: (c ++ '.' :: d))) = [a, b, c, d] := by
  have hends : ∀ r, Ends isDot ('.' :: r) := fun r => Words.Ends.cons rfl r
  have hlast := Words.words_append hd.isWord Words.Ends.nil
  rw [List.append_nil] at hlast
  rw [Words.words_append ha.isWord (hends _), Words.words_cons_sep rfl, Words.words_append hb.isWord (hends _), Words.words_cons_sep rfl,
    Words.words_append hc.isWord (hends _), Words.words_cons_sep rfl, hlast, Words.words_nil]

theorem convertTokens_of_dottedQuad (h : DottedQuad s) : ∃ nums, convertTokens m 4 s = .done (true, nums) := by
  obtain ⟨a, b, c, d, ha, hb, hc, hd, rfl⟩ := h
  refine ⟨[digitsNum a, digitsNum b, digitsNum c, digitsNum d], convertTokens_of_octets ?_ (words_of_isOctet ha hb hc hd)⟩
  simp only [List.map_cons, List.map_nil, octet?_of_isOctet ha, octet?_of_isOctet hb, octet?_of_isOctet hc, octet?_of_isOctet hd]

theorem seven_le_length (h : DottedQuad s) : 7 ≤ s.length := by
  obtain ⟨a, b, c, d, ha, hb, hc, hd, rfl⟩ := h
  have hpos := List.length_pos_iff.2 ha.1
  have hpos' := List.length_pos_iff.2 hb.1
  have hpos'' := List.length_pos_iff.2 hc.1
  have hpos''' := List.length_pos_iff.2 hd.1
  simp only [List.length_append, List.length_cons]
  omega

/-- The first token is there, and is no number of an address. -/
def FirstRejected (m : DataModel) (s : List Char) : Prop := ∃ t ∈ (words isDot s).head?, octet? m t = none

/-- Exactly dotted quads are valid, no token that is absent is used, and for a string that is rejected no octets are written. -/
def ChecksRight (m : DataModel) (s : List Char) : Prop :=
  (∃ valid, isValidIpAddress m (some s) = .done valid ∧ (valid = true ↔ DottedQuad s)) ∧
    ∃ ret output, ipStrToOctets m (some s) = .done (ret, output) ∧ (ret = false → output = [])

/-- Only where the first token is rejected, a rejected string gives no octets. -/
theorem convertTokens_rejects_iff (m : DataModel) (n : Nat) (s : List Char) :
    convertTokens m (n + 1) s = .done (false, []) ↔ FirstRejected m s := by
  rw [convertTokens_succ, FirstRejected]
  cases (words isDot s).head? with
  | none =>
    constructor
    · intro h
      cases h
    · rintro ⟨t, ht, -⟩
      cases ht
  | some t =>
    rw [follow, Outcome.bind_done]
    simp only [Option.mem_some_iff, exists_eq_left']
    cases octet? m t with
    | none => simp
    | some num =>
      refine iff_of_false (fun h => ?_) fun h => absurd h (Option.some_ne_none num)
      dsimp only at h
      obtain ⟨x, -, hx⟩ := Outcome.map_eq_done.1 h
      exact absurd (congrArg Prod.snd hx) (List.cons_ne_nil _ _)

/-- **Addresses are checked right** in exactly these cases: strings that are too short; strings that are too long, and no dotted quads;
dotted quads; and strings whose first token is rejected. -/
theorem checksRight_iff (m : DataModel) (s : List Char) :
    ChecksRight m s ↔
      s.length < 7 ∨ (15 < s.length ∧ ¬DottedQuad s) ∨ (s.length ≤ 15 ∧ (DottedQuad s ∨ FirstRejected m s)) := by
  rw [ChecksRight, isValidIpAddress, ipStrToOctets]
  by_cases hshort : s.length < 7
  · rw [if_pos (.inl hshort), if_pos (.inl hshort)]
    have hnot : ¬DottedQuad s := fun h => absurd (seven_le_length h) (by omega)
    exact iff_of_true ⟨⟨false, rfl, by simp [hnot]⟩, false, [], rfl, fun _ => rfl⟩ (.inl hshort)
  by_cases hlong : 15 < s.length
  · rw [if_pos (.inr hlong), if_pos (.inr hlong)]
    simp only [hshort, hlong, Nat.not_le.2 hlong, true_and, false_and, or_false, false_or]
    constructor
    · rintro ⟨⟨valid, hvalid, hiff⟩, -⟩ hquad
      cases (Outcome.done.inj hvalid).trans (hiff.2 hquad)
    · intro hnot
      exact ⟨⟨false, rfl, by simp [hnot]⟩, false, [], rfl, fun _ => rfl⟩
  rw [if_neg (not_or.2 ⟨hshort, hlong⟩), if_neg (not_or.2 ⟨hshort, hlong⟩), checkTokens_eq]
  simp only [hshort, hlong, Nat.not_lt.1 hlong, true_and, false_and, false_or]
  constructor
  · rintro ⟨⟨valid, hvalid, hiff⟩, ret, output, hrun, hnone⟩
    rw [hrun] at hvalid
    obtain rfl : ret = valid := Outcome.done.inj hvalid
    cases ret with
    | true => exact .inl (hiff.1 rfl)
    | false =>
      rw [hnone rfl] at hrun
      exact .inr ((convertTokens_rejects_iff m 3 s).1 hrun)
  · rintro (hquad | hfirst)
    · obtain ⟨nums, hrun⟩ := convertTokens_of_dottedQuad (m := m) hquad
      rw [hrun]
      exact ⟨⟨true, rfl, by simp [hquad]⟩, true, nums, rfl, nofun⟩
    · have hrun := (convertTokens_rejects_iff m 3 s).2 hfirst
      have hnot : ¬DottedQuad s := fun hquad => by
        obtain ⟨nums, hrun'⟩ := convertTokens_of_dottedQuad (m := m) hquad
        rw [hrun] at hrun'
        cases hrun'
      rw [hrun]
      exact ⟨⟨false, rfl, by simp [hnot]⟩, false, [], rfl, fun _ => rfl⟩

/-- With three numbers, the null pointer for the fourth is followed. -/
theorem not_checksRight : ¬∀ (m : DataModel) (s : List Char), ChecksRight m s := by
  intro h
  obtain ⟨⟨valid, hvalid, -⟩, -⟩ := h .ilp32 "192.168.1".toList
  have hrun : isValidIpAddress .ilp32 (some "192.168.1".toList) = .undefined := by decide
  rw [hrun] at hvalid
  cases hvalid

/-- Five numbers are accepted, and so is one with a blank before it. -/
example : isValidIpAddress .lp64 (some "10.0.0.1.7".toList) = .done true ∧ isValidIpAddress .lp64 (some "10.0. 0.1".toList) = .done true := by
  decide

end CodeFactory.Oal
