import CodeFactory.Lib.Base64
import CodeFactory.Lib.Literal
import CodeFactory.Lib.Outcome
import Mathlib.Algebra.Ring.Nat

/-!
# `base64.c`

The encoder of the user name and the password for basic authentication. The text is followed by its zero, which is read, too, when
two octets are left. The length that is written is an `int`, and undefined where it overflows.
-/

namespace CodeFactory.Auth

def base64Encoding : List Char := "ABCDEFGHIJKLMNOPQRSTUVWXYZabcdefghijklmnopqrstuvwxyz0123456789+/".toList

/-- `base64_encoding[n]`; the index is always that of a character of the string, or of the zero behind it. -/
def base64Char (n : Nat) : Char := base64Encoding.getD n '\x00'

/-- `buflen += 4`. -/
def addFour (buflen : Nat) : Outcome Nat := if buflen + 4 ≤ 2147483647 then .done (buflen + 4) else .undefined

/-- The loop of `base64_encrypt`: `size` octets are left, at `text`. The result is what is written and `buflen`. -/
def base64Loop : (size : Nat) → (text : List UInt8) → (buflen : Nat) → Outcome (List Char × Nat)
  | 0, _, buflen => .done ([], buflen)
  | 1, a :: _, buflen => (addFour buflen).map fun buflen =>
      ([base64Char ((a.toNat >>> 2) &&& 0x3f), base64Char ((a.toNat &&& 3) <<< 4), '=', '='], buflen)
  | 2, a :: b :: c :: _, buflen => (addFour buflen).map fun buflen =>
      ([base64Char ((a.toNat >>> 2) &&& 0x3f), base64Char (((a.toNat &&& 3) <<< 4) ||| (b.toNat >>> 4)),
        base64Char (((b.toNat &&& 0x0f) <<< 2) ||| (c.toNat >>> 6)), '='], buflen)
  | size + 3, a :: b :: c :: text, buflen => (addFour buflen).bind fun buflen =>
    (base64Loop size text buflen).map fun r =>
      (base64Char ((a.toNat >>> 2) &&& 0x3f) :: base64Char (((a.toNat &&& 3) <<< 4) ||| (b.toNat >>> 4)) ::
        base64Char (((b.toNat &&& 0xf) <<< 2) ||| (c.toNat >>> 6)) :: base64Char (c.toNat &&& 0x3f) :: r.1, r.2)
  | _, _, _ => .undefined

/-- `base64_encrypt`, for a size that is an `int`: what is written to `buf`, and the length that is returned. -/
def base64Encrypt (text : List UInt8) (size : Int) : Outcome (List Char × Nat) :=
  (base64Loop size.toNat text 0).map fun r => (r.1 ++ ['\x00'], r.2)

/-! ## Bits -/

theorem base64Encoding_eq : base64Encoding = Base64.alphabet := by
  unfold base64Encoding
  exact ofChars (P := fun chars => chars = Base64.alphabet) rfl

theorem base64Char_eq {n : Nat} (h : n < 64) : base64Char n = Base64.digit n := by
  have hall : ∀ n < 64, Base64.alphabet.getD n '\x00' = Base64.alphabet.getD n '=' := by decide
  rw [base64Char, base64Encoding_eq, Base64.digit, hall n h]

/-- Bits that are moved up and bits below them. -/
theorem shiftLeft_or {a b i : Nat} (hb : b < 2 ^ i) : a <<< i ||| b = a * 2 ^ i + b := by
  rw [← Nat.shiftLeft_add_eq_or_of_lt hb, Nat.shiftLeft_eq]

theorem base64Char_first (a : UInt8) : base64Char ((a.toNat >>> 2) &&& 0x3f) = Base64.digit (a.toNat / 4) := by
  have ha := a.toNat_lt
  have hbits : (a.toNat >>> 2) &&& 0x3f = a.toNat / 4 := by
    rw [Nat.shiftRight_eq_div_pow]
    exact (Nat.and_two_pow_sub_one_eq_mod _ 6).trans (Nat.mod_eq_of_lt (by omega))
  rw [hbits, base64Char_eq (by omega)]

theorem base64Char_second (a b : UInt8) :
    base64Char (((a.toNat &&& 3) <<< 4) ||| (b.toNat >>> 4)) = Base64.digit (a.toNat % 4 * 16 + b.toNat / 16) := by
  have hb := b.toNat_lt
  have hlow : a.toNat &&& 3 = a.toNat % 4 := Nat.and_two_pow_sub_one_eq_mod _ 2
  have hhigh : b.toNat >>> 4 = b.toNat / 16 := Nat.shiftRight_eq_div_pow _ 4
  rw [hlow, hhigh, shiftLeft_or (by omega)]
  exact base64Char_eq (by omega)

theorem base64Char_third (b c : UInt8) :
    base64Char (((b.toNat &&& 0xf) <<< 2) ||| (c.toNat >>> 6)) = Base64.digit (b.toNat % 16 * 4 + c.toNat / 64) := by
  have hc := c.toNat_lt
  have hlow : b.toNat &&& 0xf = b.toNat % 16 := Nat.and_two_pow_sub_one_eq_mod _ 4
  have hhigh : c.toNat >>> 6 = c.toNat / 64 := Nat.shiftRight_eq_div_pow _ 6
  rw [hlow, hhigh, shiftLeft_or (by omega)]
  exact base64Char_eq (by omega)

theorem base64Char_fourth (c : UInt8) : base64Char (c.toNat &&& 0x3f) = Base64.digit (c.toNat % 64) := by
  have hlow : c.toNat &&& 0x3f = c.toNat % 64 := Nat.and_two_pow_sub_one_eq_mod _ 6
  rw [hlow, base64Char_eq (by omega)]

/-! ## The encoder -/

theorem addFour_eq {buflen : Nat} (h : buflen + 4 ≤ 2147483647) : addFour buflen = .done (buflen + 4) := if_pos h

/-- The loop writes the encoding of the string that is followed by a zero, where its length does not overflow. -/
theorem base64Loop_eq (s behind : List UInt8) {buflen : Nat} (h : buflen + (Base64.encode s).length ≤ 2147483647) :
    base64Loop s.length (s ++ 0 :: behind) buflen = .done (Base64.encode s, buflen + (Base64.encode s).length) := by
  induction s using Base64.encode.induct generalizing buflen with
  | case1 => rfl
  | case2 a =>
    have hsecond : base64Char ((a.toNat &&& 3) <<< 4) = Base64.digit (a.toNat % 4 * 16) := by
      have h := base64Char_second a 0
      rwa [show (0 : UInt8).toNat >>> 4 = 0 from rfl, Nat.or_zero] at h
    rw [List.length_singleton, List.singleton_append, base64Loop, base64Char_first, hsecond, addFour_eq h]
    rfl
  | case3 a b =>
    change base64Loop 2 (a :: b :: 0 :: behind) buflen = _
    rw [base64Loop, base64Char_first, base64Char_second, base64Char_third, addFour_eq h]
    rfl
  | case4 a b c s ih =>
    rw [Base64.encode] at h ⊢
    simp only [List.length_cons] at h ⊢
    have hrest : buflen + 4 + (Base64.encode s).length ≤ 2147483647 := by omega
    change base64Loop (s.length + 3) (a :: b :: c :: (s ++ 0 :: behind)) buflen = _
    rw [base64Loop, addFour_eq (by omega), Outcome.bind_done, ih hrest, base64Char_first, base64Char_second, base64Char_third,
      base64Char_fourth, Nat.add_assoc buflen 4, Nat.add_comm 4]
    rfl

/-- **Every string is encoded as RFC 4648 has it**, whatever stands behind it, where the length that is written is an `int`. (The caller
passes a string in an array of 128 bytes.) -/
theorem base64Encrypt_rfc (s behind : List UInt8) (h : s.length ≤ 1610612733) :
    ∃ buf, base64Encrypt (s ++ 0 :: behind) s.length = .done (buf ++ ['\x00'], buf.length) ∧
      buf.length = 4 * ((s.length + 2) / 3) ∧ Base64.Padded buf ∧ Base64.decode buf = some s := by
  have hlength := Base64.length_encode s
  refine ⟨Base64.encode s, ?_, hlength, Base64.padded_encode s, Base64.decode_encode s⟩
  rw [base64Encrypt, Int.toNat_natCast, base64Loop_eq s behind (by omega), Nat.zero_add]
  rfl

theorem base64Encrypt_rfc_four : ∃ buf, base64Encrypt [0xff, 0x7f, 0x80, 0x2a, 0] 4 = .done (buf ++ ['\x00'], buf.length) ∧
    buf.length = 8 ∧ Base64.Padded buf ∧ Base64.decode buf = some [0xff, 0x7f, 0x80, 0x2a] :=
  base64Encrypt_rfc [0xff, 0x7f, 0x80, 0x2a] [] (by decide)

end CodeFactory.Auth
