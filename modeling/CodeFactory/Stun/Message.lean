import Mathlib.Data.List.Basic

/-!
# STUN messages

A message is a header of twenty octets and attributes behind it, each a type and a length of two octets and a value of that length.
-/

namespace CodeFactory.Stun

def stunHeaderLen : Nat := 20

def mappedAddress : Nat := 0x0001
def responseAddress : Nat := 0x0002
/-- `USERNAME`. -/
def usernameType : Nat := 0x0006
def messageIntegrity : Nat := 0x0008
/-- `ERROR_CODE`. -/
def errorCodeType : Nat := 0x0009
def connectionRequestBinding : Nat := 0xC001
def bindingChange : Nat := 0xC002

def bindingRequest : Nat := 0x0001
def bindingResponse : Nat := 0x0101
def bindingErrResp : Nat := 0x0111
def sharedSecretResp : Nat := 0x0102
def sharedSecretErrResp : Nat := 0x0112

/-- A number of two octets as it is sent: `ntohs` of the number at its place. -/
def ntohs : List UInt8 → Nat
  | [a, b] => 256 * a.toNat + b.toNat
  | _ => 0

/-- A number in two octets as it is sent: `htons`. -/
def htons (n : Nat) : List UInt8 := [UInt8.ofNat (n / 256), UInt8.ofNat (n % 256)]

@[simp] theorem length_htons (n : Nat) : (htons n).length = 2 := rfl

theorem ntohs_htons {n : Nat} (h : n < 65536) : ntohs (htons n) = n := by
  simp only [ntohs, htons, UInt8.toNat_ofNat']
  omega

structure Attribute where
  type : Nat
  value : List UInt8

namespace Attribute

/-- An attribute as it is sent. -/
def octets (a : Attribute) : List UInt8 := htons a.type ++ htons a.value.length ++ a.value

theorem length_octets (a : Attribute) : a.octets.length = 4 + a.value.length := by
  simp [octets]
  omega

theorem four_le_length_octets (a : Attribute) : 4 ≤ a.octets.length := by
  rw [length_octets]
  omega

/-- Attributes that begin with a header have the value that it declares. -/
theorem exists_cons {as : List Attribute} {type len rest : List UInt8} (hsmall : ∀ a ∈ as, a.value.length < 65536)
    (htype : type.length = 2) (hlen : len.length = 2) (h : as.flatMap octets = type ++ len ++ rest) :
    ∃ a as', as = a :: as' ∧ a.value = rest.take (ntohs len) ∧ ntohs len ≤ rest.length ∧
      as'.flatMap octets = rest.drop (ntohs len) := by
  cases as with
  | nil =>
    have hnil := congrArg List.length h
    simp [htype] at hnil
    omega
  | cons a as =>
    have hvalue := hsmall a List.mem_cons_self
    rw [List.flatMap_cons, octets, List.append_assoc, List.append_assoc, List.append_assoc] at h
    obtain ⟨-, h⟩ := List.append_inj h (by rw [length_htons, htype])
    obtain ⟨hdeclared, h⟩ := List.append_inj h (by rw [length_htons, hlen])
    have hlength : ntohs len = a.value.length := by rw [← hdeclared, ntohs_htons hvalue]
    refine ⟨a, as, rfl, ?_, ?_, ?_⟩
    · rw [hlength, ← h, List.take_left]
    · rw [hlength, ← h, List.length_append]
      omega
    · rw [hlength, ← h, List.drop_left]

/-- Two ways to cut octets into attributes begin in the same way. -/
theorem exists_append {as bs : List Attribute} {rest : List UInt8} (has : ∀ a ∈ as, a.value.length < 65536)
    (hbs : ∀ a ∈ bs, a.value.length < 65536) (h : bs.flatMap octets = as.flatMap octets ++ rest) :
    ∃ cs : List Attribute, (∀ a ∈ cs, a ∈ bs) ∧ cs.flatMap octets = rest := by
  induction as generalizing bs with
  | nil => exact ⟨bs, fun a ha => ha, h⟩
  | cons a as ih =>
    have heq : bs.flatMap octets = htons a.type ++ htons a.value.length ++ (a.value ++ (as.flatMap octets ++ rest)) := by
      rw [h, List.flatMap_cons, octets]
      simp only [List.append_assoc]
    obtain ⟨b, bs', rfl, -, -, hrest⟩ := exists_cons hbs (length_htons _) (length_htons _) heq
    rw [ntohs_htons (has a List.mem_cons_self), List.drop_left] at hrest
    obtain ⟨cs, hmem, hcs⟩ := ih (fun a ha => has a (List.mem_cons_of_mem _ ha)) (fun a ha => hbs a (List.mem_cons_of_mem _ ha))
      hrest
    exact ⟨cs, fun a ha => List.mem_cons_of_mem _ (hmem a ha), hcs⟩

end Attribute

end CodeFactory.Stun
