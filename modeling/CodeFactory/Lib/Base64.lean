import Mathlib.Data.List.Basic

/-!
# Base 64

The encoding of octets by characters of RFC 4648, and the decoder that takes nothing but what the encoding gives.
-/

namespace CodeFactory.Base64

def alphabet : List Char :=
  ['A', 'B', 'C', 'D', 'E', 'F', 'G', 'H', 'I', 'J', 'K', 'L', 'M', 'N', 'O', 'P', 'Q', 'R', 'S', 'T', 'U', 'V', 'W', 'X', 'Y', 'Z',
    'a', 'b', 'c', 'd', 'e', 'f', 'g', 'h', 'i', 'j', 'k', 'l', 'm', 'n', 'o', 'p', 'q', 'r', 's', 't', 'u', 'v', 'w', 'x', 'y', 'z',
    '0', '1', '2', '3', '4', '5', '6', '7', '8', '9', '+', '/']

/-- The character that stands for six bits. -/
def digit (n : Nat) : Char := alphabet.getD n '='

/-- The six bits that a character stands for. -/
def value (c : Char) : Option Nat := alphabet.findIdx? (· == c)

/-- The bits of three octets are cut into four groups. Missing octets are taken as zeros, and the characters for them are padding. -/
def encode : List UInt8 → List Char
  | [] => []
  | [a] => [digit (a.toNat / 4), digit (a.toNat % 4 * 16), '=', '=']
  | [a, b] => [digit (a.toNat / 4), digit (a.toNat % 4 * 16 + b.toNat / 16), digit (b.toNat % 16 * 4), '=']
  | a :: b :: c :: s =>
    digit (a.toNat / 4) :: digit (a.toNat % 4 * 16 + b.toNat / 16) :: digit (b.toNat % 16 * 4 + c.toNat / 64) ::
      digit (c.toNat % 64) :: encode s

/-- The last group, when there is padding in it: the bits that stand for no octet are zeros. -/
def decodeLast (w x y : Char) : Option (List UInt8) :=
  (value w).bind fun w => (value x).bind fun x =>
    if y = '=' then if x % 16 = 0 then some [(w * 4 + x / 16).toUInt8] else none
    else
      (value y).bind fun y =>
        if y % 4 = 0 then some [(w * 4 + x / 16).toUInt8, (x % 16 * 16 + y / 4).toUInt8] else none

/-- The decoder. -/
def decode : List Char → Option (List UInt8)
  | [] => some []
  | w :: x :: y :: z :: s =>
    if z = '=' then if s = [] then decodeLast w x y else none
    else
      (value w).bind fun w => (value x).bind fun x => (value y).bind fun y => (value z).bind fun z =>
        (decode s).map fun t =>
          (w * 4 + x / 16).toUInt8 :: (x % 16 * 16 + y / 4).toUInt8 :: (y % 4 * 64 + z).toUInt8 :: t
  | _ => none

/-- A text of the alphabet, with padding nowhere but at its end. -/
def Padded (s : List Char) : Prop := ∃ body pad, s = body ++ List.replicate pad '=' ∧ pad ≤ 2 ∧ ∀ c ∈ body, c ∈ alphabet

/-! ## Six bits -/

theorem value_digit {n : Nat} (h : n < 64) : value (digit n) = some n := by
  have hall : ∀ n < 64, value (digit n) = some n := by decide
  exact hall n h

theorem digit_ne_pad {n : Nat} (h : n < 64) : digit n ≠ '=' := by
  have hall : ∀ n < 64, digit n ≠ '=' := by decide
  exact hall n h

theorem digit_mem {n : Nat} (h : n < 64) : digit n ∈ alphabet := by
  have hall : ∀ n < 64, digit n ∈ alphabet := by decide
  exact hall n h

/-! ## What is encoded -/

theorem length_encode (s : List UInt8) : (encode s).length = 4 * ((s.length + 2) / 3) := by
  induction s using encode.induct with
  | case1 => rfl
  | case2 a => simp [encode]
  | case3 a b => simp [encode]
  | case4 a b c s ih =>
    rw [encode]
    simp only [List.length_cons, ih]
    omega

theorem Padded.append {s : List Char} (h : Padded s) (body : List Char) (hbody : ∀ c ∈ body, c ∈ alphabet) : Padded (body ++ s) := by
  obtain ⟨t, pad, rfl, hpad, ht⟩ := h
  refine ⟨body ++ t, pad, (List.append_assoc ..).symm, hpad, fun c hc => ?_⟩
  exact (List.mem_append.1 hc).elim (hbody c) (ht c)

theorem padded_encode (s : List UInt8) : Padded (encode s) := by
  induction s using encode.induct with
  | case1 => exact ⟨[], 0, rfl, by omega, List.forall_mem_nil _⟩
  | case2 a =>
    have ha := a.toNat_lt
    have hend : Padded ['=', '='] := ⟨[], 2, rfl, Nat.le_refl 2, List.forall_mem_nil _⟩
    refine hend.append [_, _] fun c hc => ?_
    simp only [List.mem_cons, List.not_mem_nil, or_false] at hc
    rcases hc with rfl | rfl
    · exact digit_mem (by omega)
    · exact digit_mem (by omega)
  | case3 a b =>
    have ha := a.toNat_lt
    have hb := b.toNat_lt
    have hend : Padded ['='] := ⟨[], 1, rfl, by omega, List.forall_mem_nil _⟩
    refine hend.append [_, _, _] fun c hc => ?_
    simp only [List.mem_cons, List.not_mem_nil, or_false] at hc
    rcases hc with rfl | rfl | rfl
    · exact digit_mem (by omega)
    · exact digit_mem (by omega)
    · exact digit_mem (by omega)
  | case4 a b c s ih =>
    have ha := a.toNat_lt
    have hb := b.toNat_lt
    have hc := c.toNat_lt
    rw [encode]
    refine ih.append [_, _, _, _] fun ch hch => ?_
    simp only [List.mem_cons, List.not_mem_nil, or_false] at hch
    rcases hch with rfl | rfl | rfl | rfl
    · exact digit_mem (by omega)
    · exact digit_mem (by omega)
    · exact digit_mem (by omega)
    · exact digit_mem (by omega)

/-! ## What is decoded -/

/-- An octet is put together of the bits it was cut into. -/
theorem toUInt8_eq {n : Nat} {a : UInt8} (h : n = a.toNat) : n.toUInt8 = a := by
  rw [h]
  exact UInt8.ofNat_toNat

/-- The decoder gives back what was encoded. -/
theorem decode_encode (s : List UInt8) : decode (encode s) = some s := by
  induction s using encode.induct with
  | case1 => rfl
  | case2 a =>
    have ha := a.toNat_lt
    rw [encode, decode, if_pos rfl, if_pos rfl, decodeLast, value_digit (by omega), value_digit (by omega)]
    simp only [Option.bind_some, if_true]
    rw [if_pos (by omega), toUInt8_eq (a := a) (by omega)]
  | case3 a b =>
    have ha := a.toNat_lt
    have hb := b.toNat_lt
    rw [encode, decode, if_pos rfl, if_pos rfl, decodeLast, value_digit (by omega), value_digit (by omega)]
    simp only [Option.bind_some]
    rw [if_neg (digit_ne_pad (by omega)), value_digit (by omega)]
    simp only [Option.bind_some]
    rw [if_pos (by omega), toUInt8_eq (a := a) (by omega), toUInt8_eq (a := b) (by omega)]
  | case4 a b c s ih =>
    have ha := a.toNat_lt
    have hb := b.toNat_lt
    have hc := c.toNat_lt
    rw [encode, decode, if_neg (digit_ne_pad (by omega)), value_digit (by omega), value_digit (by omega),
      value_digit (by omega), value_digit (by omega), ih]
    simp only [Option.bind_some, Option.map_some]
    rw [toUInt8_eq (a := a) (by omega), toUInt8_eq (a := b) (by omega), toUInt8_eq (a := c) (by omega)]

end CodeFactory.Base64
