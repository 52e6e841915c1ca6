import CodeFactory.Tcm.Values

/-!
# The stored form of a password

`tcmCB_set_value` writes a password as hexadecimal numbers with colons, and `revertPSW` reads it back.
-/

namespace CodeFactory.Tcm

open Tr69
open Http (isxdigit hexVal hexNum skipHexSign)

def pswLen : Nat := 16

/-- A `char` as a number: it has a sign. -/
def signedChar (ch : Char) : Int := if ch.toNat < 128 then ch.toNat else ch.toNat - 256

/-- `convertPSW`, at an index below `PSW_Len`, with the character of `strPSWOffset` at the index. -/
def convertPSW (cPassword : Int) (offset : Char) : Int := if cPassword ≠ 0 then cPassword + offset.toNat else 0 + offset.toNat

/-- `sprintf` with `%X`. -/
def printX (n : Int) : Text := (Nat.toDigits 16 (n % 4294967296).toNat).map Char.toUpper

/-- `strcpy` of the value to `passwd`; what the array holds behind the null is what was there before. -/
def copyPasswd (value : Text) (stale : List Int) : Outcome (List Int) :=
  if value.length < pswLen then .done (value.map signedChar ++ 0 :: stale.drop (value.length + 1)) else .undefined

/-- A round of the loop that prints the numbers to `tBuf`. -/
def printRound (tBuf : Text) (cvrtPSW : Int) : Outcome Text :=
  let printed := tBuf ++ (printX cvrtPSW ++ [':'])
  if printed.length < 3 * pswLen + 1 then .done printed else .undefined

/-- The branch of `tcmCB_set_value` for the password of an account. -/
def convertPassword (value : Text) (stale : List Int) : Outcome Text :=
  (copyPasswd value stale).bind fun passwd => Outcome.foldl printRound [] (List.zipWith convertPSW passwd strPSWOffset)

/-- The stored form stays in its buffers and is read back as the password. -/
def Survives (password : Text) (stale : List Int) : Prop :=
  ∃ stored, convertPassword password stale = .done stored ∧ revertPSW stored = .done password

/-- The numbers that are printed for the positions behind the null. -/
def unused (password : Text) (stale : List Int) : List Int :=
  List.zipWith (fun x offset => x + (offset.toNat : Int)) (stale.drop (password.length + 1)) (strPSWOffset.drop (password.length + 1))

/-- The characters of a number between -2147483648 and 255, with its colon. -/
def width (n : Int) : Nat := if n < 0 then 9 else if n < 16 then 2 else 3

variable {n : Nat} {c x : Int} {ch offset : Char} {s rest password : Text} {cs stale passwd : List Int} {offsets : List Char}

/-! ## Hexadecimal numbers -/

theorem digitChar_toUpper {d : Nat} (h : d < 16) : isxdigit d.digitChar.toUpper = true ∧ hexVal d.digitChar.toUpper = d ∧
    Conf.isspace d.digitChar.toUpper = false ∧ d.digitChar.toUpper.toLower ≠ 'x' ∧ d.digitChar.toUpper ≠ '-' ∧ d.digitChar.toUpper ≠ '+' := by
  have hall : ∀ d < 16, isxdigit d.digitChar.toUpper = true ∧ hexVal d.digitChar.toUpper = d ∧
    Conf.isspace d.digitChar.toUpper = false ∧ d.digitChar.toUpper.toLower ≠ 'x' ∧ d.digitChar.toUpper ≠ '-' ∧ d.digitChar.toUpper ≠ '+' := by decide
  exact hall d h

theorem mem_hexDigits (h : ch ∈ (Nat.toDigits 16 n).map Char.toUpper) : ∃ d < 16, ch = d.digitChar.toUpper := by
  induction n using Nat.strong_induction_on with
  | _ n ih =>
    rw [Nat.toDigits_eq_if (by decide)] at h
    split at h
    · rename_i hlt
      exact ⟨n, hlt, List.mem_singleton.1 h⟩
    · rename_i hle
      rw [List.map_append, List.mem_append] at h
      rcases h with hfront | hlast
      · exact ih (n / 16) (Nat.div_lt_self (by omega) (by decide)) hfront
      · exact ⟨n % 16, Nat.mod_lt n (by decide), List.mem_singleton.1 hlast⟩

theorem hexNum_hexDigits (n : Nat) : hexNum ((Nat.toDigits 16 n).map Char.toUpper) = n := by
  induction n using Nat.strong_induction_on with
  | _ n ih =>
    rw [Nat.toDigits_eq_if (by decide)]
    split
    · rename_i hlt
      have hval := (digitChar_toUpper hlt).2.1
      simp [hexNum, hval]
    · rename_i hle
      have hval := (digitChar_toUpper (Nat.mod_lt n (by decide : 0 < 16))).2.1
      have hfront := ih (n / 16) (Nat.div_lt_self (by omega) (by decide))
      rw [hexNum] at hfront ⊢
      rw [List.map_append, List.foldl_append, hfront, List.map_cons, List.map_nil, List.foldl_cons, List.foldl_nil, hval]
      exact Nat.div_add_mod n 16

theorem skipHexSign_eq {front : Text} (h : ∀ ch ∈ front, ch.toLower ≠ 'x') : skipHexSign (front ++ ':' :: rest) = front ++ ':' :: rest := by
  unfold skipHexSign
  split
  · rename_i x y t heq
    have hx : x.toLower ≠ 'x' := by
      match front, heq, h with
      | [], heq, _ => exact absurd (List.cons.inj heq).1 (by decide)
      | [_], heq, _ =>
        obtain rfl := (List.cons.inj (List.cons.inj heq).2).1
        decide
      | _ :: z :: _, heq, h =>
        obtain rfl := (List.cons.inj (List.cons.inj heq).2).1
        exact h z (by simp)
    rw [if_neg fun hsign => hx hsign.1, heq]
  · rfl

/-- A number that is printed is scanned. -/
theorem scanX_printX (hmin : -2147483648 ≤ c) (hmax : c < 2147483648) : scanX (printX c ++ ':' :: rest) = some (c, ':' :: rest) := by
  have hmem : ∀ ch ∈ printX c, ∃ d < 16, ch = d.digitChar.toUpper := fun ch hch => mem_hexDigits hch
  obtain ⟨first, digits, hfirst⟩ : ∃ first digits, printX c = first :: digits :=
    List.exists_cons_of_ne_nil fun hnil => Nat.toDigits_ne_nil (List.map_eq_nil_iff.1 hnil)
  obtain ⟨d, hd, hch⟩ := hmem first (by rw [hfirst]; exact List.mem_cons_self)
  obtain ⟨-, -, hspace, -, hminus, hplus⟩ := digitChar_toUpper hd
  rw [← hch] at hspace hminus hplus
  have hdrop : (printX c ++ ':' :: rest).dropWhile Conf.isspace = printX c ++ ':' :: rest := by
    rw [hfirst, List.cons_append, List.dropWhile_cons_of_neg (by simp [hspace])]
  have hskip : skipHexSign (printX c ++ ':' :: rest) = printX c ++ ':' :: rest := by
    refine skipHexSign_eq fun ch hch => ?_
    obtain ⟨d, hd, rfl⟩ := hmem ch hch
    exact (digitChar_toUpper hd).2.2.2.1
  have hall : ∀ ch ∈ printX c, isxdigit ch = true := by
    intro ch hch
    obtain ⟨d, hd, rfl⟩ := hmem ch hch
    exact (digitChar_toUpper hd).1
  have htake : (printX c ++ ':' :: rest).takeWhile isxdigit = printX c := by
    rw [List.takeWhile_append_of_pos hall, List.takeWhile_cons_of_neg (by decide), List.append_nil]
  have hbehind : (printX c ++ ':' :: rest).dropWhile isxdigit = ':' :: rest := by
    rw [List.dropWhile_append_of_pos hall, List.dropWhile_cons_of_neg (by decide)]
  have hvalue : toUnsigned false (hexNum (printX c)) = c := by
    rw [printX, hexNum_hexDigits, toUnsigned, if_neg (by omega), if_neg (by decide), BitVec.toInt_ofInt]
    change Int.bmod ((c % 4294967296).toNat : Int) 4294967296 = c
    rw [Int.bmod_def]
    split <;> omega
  have hsign : scanSign (printX c ++ ':' :: rest) = (false, printX c ++ ':' :: rest) := by
    rw [hfirst]
    unfold scanSign
    split
    · rename_i heq
      exact absurd (List.cons.inj heq).1 hminus
    · rename_i heq
      exact absurd (List.cons.inj heq).1 hplus
    · rfl
  rw [scanX, hdrop, hsign]
  dsimp only
  rw [hskip, htake, hbehind, hvalue, if_neg]
  rw [hfirst]
  exact List.cons_ne_nil _ _

/-! ## The password is printed -/

/-- What the loop prints, as long as there is room. -/
theorem foldl_printRound {tBuf : Text} (h : tBuf.length ≤ 3 * pswLen) : Outcome.foldl printRound tBuf cs =
    if (tBuf ++ cs.flatMap fun c => printX c ++ [':']).length ≤ 3 * pswLen then .done (tBuf ++ cs.flatMap fun c => printX c ++ [':'])
    else .undefined := by
  induction cs generalizing tBuf with
  | nil =>
    rw [List.flatMap_nil, List.append_nil, if_pos h]
    rfl
  | cons c cs ih =>
    have hassoc : tBuf ++ (c :: cs).flatMap (fun c => printX c ++ [':']) =
        (tBuf ++ (printX c ++ [':'])) ++ cs.flatMap fun c => printX c ++ [':'] := by
      rw [List.flatMap_cons]
      exact (List.append_assoc tBuf _ _).symm
    rw [Outcome.foldl, printRound, hassoc]
    split
    · rename_i hroom
      rw [Outcome.bind_done, ih (Nat.le_of_lt_succ hroom)]
    · rename_i hroom
      rw [Outcome.bind_undefined, if_neg]
      intro hle
      rw [List.length_append] at hle
      omega

theorem length_printX (hmin : -2147483648 ≤ c) (hmax : c < 256) : (printX c ++ [':']).length = width c := by
  have hle : ∀ k, 0 < k → ∀ n, (Nat.toDigits 16 n).length ≤ k ↔ n < 16 ^ k := fun k hk n => Nat.length_toDigits_le_iff (by decide) hk
  rw [List.length_append, List.length_singleton, printX, List.length_map, width]
  have h1 := hle 1 (by decide) (c % 4294967296).toNat
  have h2 := hle 2 (by decide) (c % 4294967296).toNat
  have h7 := hle 7 (by decide) (c % 4294967296).toNat
  have h8 := hle 8 (by decide) (c % 4294967296).toNat
  have hpos : 0 < (Nat.toDigits 16 (c % 4294967296).toNat).length := Nat.length_toDigits_pos
  simp only [Nat.reducePow] at h1 h2 h7 h8
  split
  · omega
  · split <;> omega

theorem length_flatMap_printX (h : ∀ c ∈ cs, -2147483648 ≤ c ∧ c < 256) :
    (cs.flatMap fun c => printX c ++ [':']).length = (cs.map width).sum := by
  rw [List.length_flatMap]
  exact congrArg List.sum (List.map_congr_left fun c hc => length_printX (h c hc).1 (h c hc).2)

/-! ## The password is read back -/

theorem scanS_eq (hne : s ≠ []) (h : ∀ ch ∈ s, Conf.isspace ch = false) : scanS s = some s := by
  obtain ⟨first, rest, rfl⟩ := List.exists_cons_of_ne_nil hne
  have hdrop : (first :: rest).dropWhile Conf.isspace = first :: rest := by
    rw [List.dropWhile_cons_of_neg]
    rw [h first List.mem_cons_self]
    exact Bool.false_ne_true
  have htake : (first :: rest).takeWhile (fun ch => !Conf.isspace ch) = first :: rest :=
    List.takeWhile_eq_self_iff.2 fun ch hch => by simp [h ch hch]
  rw [scanS, hdrop, htake]
  exact if_neg (List.cons_ne_nil _ _)

theorem isspace_of_mem_printed (h : ch ∈ cs.flatMap fun c => printX c ++ [':']) : Conf.isspace ch = false := by
  obtain ⟨c, -, hch⟩ := List.mem_flatMap.1 h
  rcases List.mem_append.1 hch with hdigit | hcolon
  · obtain ⟨d, hd, rfl⟩ := mem_hexDigits hdigit
    exact (digitChar_toUpper hd).2.2.1
  · obtain rfl := List.mem_singleton.1 hcolon
    decide

/-- Each round reads a number, and leaves those behind it. -/
theorem revertRounds_printed (hlen : cs.length = offsets.length) (h : ∀ c ∈ cs, -2147483648 ≤ c ∧ c < 256) (tVal : Option Int) :
    revertRounds offsets tVal (cs.flatMap fun c => printX c ++ [':']) =
      .done (List.zipWith (fun c offset => some (Char.ofNat ((c - offset.toNat) % 256).toNat)) cs offsets) := by
  induction offsets generalizing cs tVal with
  | nil =>
    obtain rfl := List.length_eq_zero_iff.1 hlen
    rfl
  | cons offset offsets ih =>
    cases cs with
    | nil => cases hlen
    | cons c cs =>
      obtain ⟨hc, hcs⟩ := List.forall_mem_cons.1 h
      have hrest := ih (Nat.succ.inj hlen) hcs (some c)
      have htext : (c :: cs).flatMap (fun c => printX c ++ [':']) = printX c ++ ':' :: cs.flatMap fun c => printX c ++ [':'] := by
        rw [List.flatMap_cons, List.append_assoc]
        rfl
      rw [htext, revertRounds, if_neg (by simp), scanX_printX hc.1 (by omega)]
      dsimp only
      rw [Option.map_some, Option.some_or]
      dsimp only
      cases cs with
      | nil =>
        obtain rfl : offsets = [] := List.length_eq_zero_iff.1 (Nat.succ.inj hlen).symm
        rfl
      | cons c' cs =>
        have hne : (c' :: cs).flatMap (fun c => printX c ++ [':']) ≠ [] := by simp
        change (revertRounds offsets (some c) ((scanS ((c' :: cs).flatMap fun c => printX c ++ [':'])).getD _)).map _ = _
        rw [scanS_eq hne fun ch hch => isspace_of_mem_printed hch, Option.getD_some, hrest]
        rfl

theorem convertPSW_eq (x : Int) (offset : Char) : convertPSW x offset = x + offset.toNat := by
  rw [convertPSW]
  split <;> omega

/-- The characters come back. -/
theorem zipWith_convertPSW (hlen : passwd.length = offsets.length) :
    List.zipWith (fun c offset => some (Char.ofNat ((c - offset.toNat) % 256).toNat)) (List.zipWith convertPSW passwd offsets) offsets =
      passwd.map fun x => some (Char.ofNat (x % 256).toNat) := by
  induction passwd generalizing offsets with
  | nil => rfl
  | cons x passwd ih =>
    cases offsets with
    | nil => cases hlen
    | cons offset offsets =>
      rw [List.zipWith_cons_cons, List.zipWith_cons_cons, ih (Nat.succ.inj hlen), convertPSW_eq, Int.add_sub_cancel, List.map_cons]

theorem readString_append (h : ∀ ch ∈ s, ch ≠ '\x00') (rest : List (Option Char)) :
    readString (s.map some ++ some '\x00' :: rest) = .done s := by
  induction s with
  | nil => rfl
  | cons ch s ih =>
    obtain ⟨hch, hs⟩ := List.forall_mem_cons.1 h
    rw [List.map_cons, List.cons_append, readString, if_neg hch, ih hs]
    rfl

/-! ## When a password survives -/

theorem mem_zipWith_convertPSW (h : c ∈ List.zipWith convertPSW passwd offsets) : ∃ x ∈ passwd, ∃ offset ∈ offsets, c = x + offset.toNat := by
  rw [← List.map_uncurry_zip_eq_zipWith] at h
  obtain ⟨⟨x, offset⟩, hmem, rfl⟩ := List.mem_map.1 h
  obtain ⟨hx, hoffset⟩ := List.of_mem_zip hmem
  exact ⟨x, hx, offset, hoffset, convertPSW_eq x offset⟩

theorem strPSWOffset_bounds (h : offset ∈ strPSWOffset) : 45 ≤ offset.toNat ∧ offset.toNat ≤ 121 := by
  have hall : strPSWOffset.all (fun offset => decide (45 ≤ offset.toNat ∧ offset.toNat ≤ 121)) = true := by decide
  exact of_decide_eq_true (List.all_eq_true.1 hall offset h)

/-- What is in `passwd` when the password has been copied to it. -/
def passwdOf (password : Text) (stale : List Int) : List Int := password.map signedChar ++ 0 :: stale.drop (password.length + 1)

/-- The numbers for the password and its null take three characters each. -/
theorem sum_width (h7 : ∀ ch ∈ password, 0 < ch.toNat ∧ ch.toNat < 128) (hlen : password.length < pswLen) :
    ((List.zipWith convertPSW (passwdOf password stale) strPSWOffset).map width).sum =
      3 * (password.length + 1) + ((unused password stale).map width).sum := by
  have hsplit : List.zipWith convertPSW (passwdOf password stale) strPSWOffset =
      List.zipWith convertPSW (password.map signedChar ++ [0]) (strPSWOffset.take (password.length + 1)) ++ unused password stale := by
    have hfun : convertPSW = fun x offset => x + (offset.toNat : Int) := funext fun x => funext fun offset => convertPSW_eq x offset
    have hpasswd : passwdOf password stale = (password.map signedChar ++ [0]) ++ stale.drop (password.length + 1) := by simp [passwdOf]
    have htake : (strPSWOffset.take (password.length + 1)).length = password.length + 1 :=
      List.length_take_of_le hlen
    conv => lhs; rw [hpasswd, ← List.take_append_drop (password.length + 1) strPSWOffset]
    rw [List.zipWith_append (by simp [htake]), unused, hfun]
  have hthree : (List.zipWith convertPSW (password.map signedChar ++ [0]) (strPSWOffset.take (password.length + 1))).map width =
      List.replicate (password.length + 1) 3 := by
    refine List.eq_replicate_iff.2 ⟨?_, fun w hw => ?_⟩
    · have h16 : password.length + 1 ≤ strPSWOffset.length := hlen
      simp only [List.length_map, List.length_zipWith, List.length_append, List.length_singleton, List.length_take]
      omega
    · obtain ⟨c, hc, rfl⟩ := List.mem_map.1 hw
      obtain ⟨x, hx, offset, hoffset, rfl⟩ := mem_zipWith_convertPSW hc
      have hbounds := strPSWOffset_bounds (List.mem_of_mem_take hoffset)
      have hx7 : 0 ≤ x ∧ x < 128 := by
        rcases List.mem_append.1 hx with hchar | hnull
        · obtain ⟨ch, hch, rfl⟩ := List.mem_map.1 hchar
          have hseven := h7 ch hch
          rw [signedChar, if_pos hseven.2]
          omega
        · rw [List.mem_singleton.1 hnull]
          decide
      rw [width, if_neg (by omega), if_neg (by omega)]
  rw [hsplit, List.map_append, List.sum_append, hthree, List.sum_replicate_nat, Nat.mul_comm]

theorem passwd_bounds (h7 : ∀ ch ∈ password, 0 < ch.toNat ∧ ch.toNat < 128) (hstale : ∀ x ∈ stale, -128 ≤ x ∧ x ≤ 127)
    (hc : c ∈ List.zipWith convertPSW (passwdOf password stale) strPSWOffset) : -2147483648 ≤ c ∧ c < 256 := by
  obtain ⟨x, hx, offset, hoffset, rfl⟩ := mem_zipWith_convertPSW hc
  have hbounds := strPSWOffset_bounds hoffset
  have hx8 : -128 ≤ x ∧ x ≤ 127 := by
    rcases List.mem_append.1 hx with hchar | hrest
    · obtain ⟨ch, hch, rfl⟩ := List.mem_map.1 hchar
      have hseven := h7 ch hch
      rw [signedChar, if_pos hseven.2]
      omega
    · rcases List.mem_cons.1 hrest with rfl | hold
      · decide
      · exact hstale x (List.mem_of_mem_drop hold)
  omega

/-- A password survives if and only if it has less than 16 characters, and what is printed for the positions behind its null takes
no more than three characters for each of them. -/
theorem survives_iff (password : Text) (stale : List Int)
    (h7 : ∀ ch ∈ password, 0 < ch.toNat ∧ ch.toNat < 128) (hsize : stale.length = pswLen) (hstale : ∀ x ∈ stale, -128 ≤ x ∧ x ≤ 127) :
    Survives password stale ↔
      password.length < pswLen ∧ ((unused password stale).map width).sum ≤ 3 * (pswLen - 1 - password.length) := by
  have hoffsets : strPSWOffset.length = pswLen := rfl
  have hcopy : password.length < pswLen → copyPasswd password stale = .done (passwdOf password stale) := fun h => if_pos h
  have hroom (hlt : password.length < pswLen) : ((List.zipWith convertPSW (passwdOf password stale) strPSWOffset).flatMap
      fun c => printX c ++ [':']).length ≤ 3 * pswLen ↔
        ((unused password stale).map width).sum ≤ 3 * (pswLen - 1 - password.length) := by
    rw [length_flatMap_printX fun c hc => passwd_bounds h7 hstale hc, sum_width h7 hlt]
    omega
  constructor
  · rintro ⟨stored, hstored, -⟩
    obtain ⟨passwd, hpasswd, hprinted⟩ := Outcome.bind_eq_done.1 hstored
    have hlt : password.length < pswLen := by
      by_contra h
      rw [copyPasswd, if_neg h] at hpasswd
      cases hpasswd
    rw [hcopy hlt] at hpasswd
    cases hpasswd
    refine ⟨hlt, (hroom hlt).1 ?_⟩
    by_contra h
    rw [foldl_printRound (Nat.zero_le _), List.nil_append, if_neg h] at hprinted
    cases hprinted
  · rintro ⟨hlt, hwidths⟩
    have hfits := (hroom hlt).2 hwidths
    have hpasswd : (passwdOf password stale).length = strPSWOffset.length := by
      simp only [passwdOf, List.length_append, List.length_map, List.length_cons, List.length_drop, hsize, hoffsets]
      omega
    refine ⟨(List.zipWith convertPSW (passwdOf password stale) strPSWOffset).flatMap fun c => printX c ++ [':'], ?_, ?_⟩
    · rw [convertPassword, hcopy hlt, Outcome.bind_done, foldl_printRound (Nat.zero_le _), List.nil_append, if_pos hfits]
    · have hlength : (List.zipWith convertPSW (passwdOf password stale) strPSWOffset).length = strPSWOffset.length := by
        rw [List.length_zipWith, hpasswd, Nat.min_self]
      rw [revertPSW, hoffsets, if_neg (Nat.not_lt.2 hfits), revertRounds_printed hlength (fun c hc => passwd_bounds h7 hstale hc),
        Outcome.bind_done, zipWith_convertPSW hpasswd]
      have hchars : (passwdOf password stale).map (fun x => some (Char.ofNat (x % 256).toNat)) =
          password.map some ++ some '\x00' :: (stale.drop (password.length + 1)).map fun x => some (Char.ofNat (x % 256).toNat) := by
        rw [passwdOf, List.map_append, List.map_map, List.map_cons]
        congr 1
        refine List.map_congr_left fun ch hch => ?_
        have hseven := h7 ch hch
        have hmod : ((ch.toNat : Int) % 256).toNat = ch.toNat := by omega
        rw [Function.comp_apply, signedChar, if_pos hseven.2, hmod, Char.ofNat_toNat]
      rw [hchars]
      refine readString_append (fun ch hch => ?_) _
      rintro rfl
      exact absurd (h7 _ hch).1 (by decide)

/-- A password of five characters, and zeros on the stack. -/
theorem survives_admin : Survives "admin".toList (List.replicate pswLen 0) := by
  have h7 : "admin".toList.all (fun ch => decide (0 < ch.toNat ∧ ch.toNat < 128)) = true := by decide
  exact (survives_iff "admin".toList (List.replicate pswLen 0) (fun ch hch => of_decide_eq_true (List.all_eq_true.1 h7 ch hch)) rfl
    (by decide)).2 (by decide)

/-- A password of 16 characters. -/
theorem not_survives_sixteen : ¬Survives "0123456789abcdef".toList (List.replicate pswLen 0) := by
  rintro ⟨stored, hstored, -⟩
  cases hstored

end CodeFactory.Tcm
