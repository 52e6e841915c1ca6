import CodeFactory.Lib.Outcome
import CodeFactory.Result
import CodeFactory.Stun.Message
import Mathlib.Data.List.GetD
import Mathlib.Data.List.TakeWhile
import Mathlib.Order.Basic

/-!
# Handling a STUN response

`stun_handle_binding_resp` and the functions below it look at octets of the receive buffer, in which a datagram stands with zeros
behind it. `Reads` keeps which octets have been looked at. The header of the datagram is taken at its word: neither its length nor its
transaction id is compared with anything.
-/

namespace CodeFactory.Stun

/-! ## Looking at a buffer -/

/-- Which octets have been looked at, and what came of it. -/
structure Reads (α : Type) where
  indices : List Nat
  result : Outcome α

namespace Reads

variable {α β : Type}

/-- Nothing is looked at. -/
def pure (a : α) : Reads α := ⟨[], .done a⟩

/-- Go on with the result. -/
def bind (r : Reads α) (f : α → Reads β) : Reads β :=
  match r.result with
  | .done a => ⟨r.indices ++ (f a).indices, (f a).result⟩
  | .undefined => ⟨r.indices, .undefined⟩
  | .outOfFuel => ⟨r.indices, .outOfFuel⟩

/-- There is a result, and it has the property `P`; only octets below `n` have been looked at. -/
def Good (n : Nat) (r : Reads α) (P : α → Prop) : Prop := (∃ a, r.result = .done a ∧ P a) ∧ ∀ i ∈ r.indices, i < n

variable {n : Nat} {r : Reads α} {f : α → Reads β} {a : α} {P : β → Prop}

theorem good_pure {P : α → Prop} : Good n (pure a) P ↔ P a := by
  constructor
  · rintro ⟨⟨_, heq, hP⟩, -⟩
    exact Outcome.done.inj heq ▸ hP
  · intro hP
    exact ⟨⟨a, rfl, hP⟩, fun i hi => by cases hi⟩

/-- What goes on with a result looks at the octets of both parts. -/
theorem good_bind (h : r.result = .done a) : Good n (r.bind f) P ↔ (∀ i ∈ r.indices, i < n) ∧ Good n (f a) P := by
  have heq : r.bind f = ⟨r.indices ++ (f a).indices, (f a).result⟩ := by
    unfold bind
    rw [h]
  rw [heq, Good, List.forall_mem_append, Good]
  exact and_left_comm

/-- A result that is only changed. -/
theorem good_bind_pure {g : α → β} : Good n (r.bind fun a => pure (g a)) P ↔ Good n r fun a => P (g a) := by
  cases h : r.result with
  | done a =>
    rw [good_bind h, good_pure, Good, h]
    constructor
    · rintro ⟨hin, hP⟩
      exact ⟨⟨a, rfl, hP⟩, hin⟩
    · rintro ⟨⟨_, ⟨⟩, hP⟩, hin⟩
      exact ⟨hin, hP⟩
  | undefined =>
    have heq : (r.bind fun a => pure (g a)).result = .undefined := by rw [bind, h]
    refine iff_of_false ?_ ?_
    · rintro ⟨⟨_, hdone, -⟩, -⟩
      cases heq.symm.trans hdone
    · rintro ⟨⟨_, hdone, -⟩, -⟩
      cases h.symm.trans hdone
  | outOfFuel =>
    have heq : (r.bind fun a => pure (g a)).result = .outOfFuel := by rw [bind, h]
    refine iff_of_false ?_ ?_
    · rintro ⟨⟨_, hdone, -⟩, -⟩
      cases heq.symm.trans hdone
    · rintro ⟨⟨_, hdone, -⟩, -⟩
      cases h.symm.trans hdone

/-- The octets that have been looked at stay looked at. -/
theorem Good.inside (h : Good n (r.bind f) P) : ∀ i ∈ r.indices, i < n := by
  intro i hi
  refine h.2 i ?_
  unfold bind
  split
  · exact List.mem_append_left _ hi
  · exact hi
  · exact hi

end Reads

/-- `STUN_GUESSED_RESP_LEN`, the size of the receive buffer. -/
def stunGuessedRespLen : Nat := 1460

/-- A datagram in the receive buffer. -/
structure Datagram where
  octets : List UInt8
  fits : octets.length ≤ stunGuessedRespLen

namespace Datagram

variable (d : Datagram)

/-- An octet of the buffer; behind the datagram there are zeros. -/
def octet (i : Nat) : UInt8 := d.octets.getD i 0

/-- Look at `k` octets from an index on. -/
def look (i k : Nat) : Reads (List UInt8) where
  indices := List.range' i k
  result := if i + k ≤ stunGuessedRespLen then .done ((List.range' i k).map d.octet) else .undefined

/-- Look at the octets from an index on up to the first zero, as `%s` does. -/
def lookText (i : Nat) : Reads Unit where
  indices := List.range' i (((d.octets.drop i).takeWhile (· ≠ 0)).length + 1)
  result := if i + ((d.octets.drop i).takeWhile (· ≠ 0)).length < stunGuessedRespLen then .done () else .undefined

end Datagram

/-! ## The functions of `stun.c` -/

/-- The `PAL_INT32_T` that the host reads from four octets, as the bits of an unsigned number. -/
def hostNumber (littleEndian : Bool) : List UInt8 → Nat
  | [a, b, c, d] =>
    if littleEndian then a.toNat + 256 * b.toNat + 65536 * c.toNat + 16777216 * d.toNat
    else d.toNat + 256 * c.toNat + 65536 * b.toNat + 16777216 * a.toNat
  | _ => 0

/-- What goes to `gMappedStunServeStrIP` and `gMappedStunServePort`. -/
structure MappedAddress where
  ipaddr : List UInt8
  port : Nat
  deriving DecidableEq

/-- `__handle_binding_resp` from a position on, in at most as many rounds as given. -/
def handleBindingResp (d : Datagram) (dataLen : Nat) : Nat → Nat → Reads (Result × Option MappedAddress)
  | rounds, currentPos =>
    if dataLen ≤ currentPos then .pure (.stunErrFailed, none)
    else
      match rounds with
      | 0 => ⟨[], .outOfFuel⟩
      | rounds + 1 =>
        (d.look (stunHeaderLen + currentPos) 2).bind fun attribType =>
          (d.look (stunHeaderLen + currentPos + 2) 2).bind fun attribLen =>
            if ntohs attribType = mappedAddress then
              (d.look (stunHeaderLen + (currentPos + 4) + 2) 2).bind fun port =>
                (d.look (stunHeaderLen + (currentPos + 4) + 4) 4).bind fun ipaddr =>
                  .pure (.tcmagentOk, some ⟨ipaddr, ntohs port⟩)
            else handleBindingResp d dataLen rounds (currentPos + 4 + ntohs attribLen)

/-- `__handle_binding_err_resp`, with the value of `error_code` if it is set. `& 0x700 >> 8` is the mask `0x700 >> 8`. When the logger
prints what is informative, it prints the text behind the number. -/
def handleBindingErrResp (littleEndian logs : Bool) (d : Datagram) (dataLen : Nat) : Reads (Result × Option Nat) :=
  if dataLen < 4 then .pure (.stunErrFailed, none)
  else
    (d.look stunHeaderLen 4).bind fun word =>
      (d.look stunHeaderLen 4).bind fun word' =>
        let classValue := hostNumber littleEndian word &&& (0x700 >>> 8)
        let numberValue := hostNumber littleEndian word' &&& 0xFF
        if 0 < classValue ∧ classValue < 7 ∧ numberValue ≤ 99 then
          let errorCode := classValue * 100 + numberValue
          (if logs then d.lookText (stunHeaderLen + 4) else .pure ()).bind fun _ =>
            if errorCode = 401 then .pure (.stunErrNeedAuth, some errorCode) else .pure (.stunErrFailed, some errorCode)
        else .pure (.stunErrFailed, none)

/-- `stun_handle_binding_resp`. The pointer to the buffer is not null, so the length of the datagram is not looked at; the functions
for shared secrets are empty. -/
def stunHandleBindingResp (littleEndian logs : Bool) (d : Datagram) : Reads (Result × Option MappedAddress) :=
  (d.look 0 2).bind fun msgType =>
    (d.look 2 2).bind fun msgLength =>
      if ntohs msgType = bindingResponse then handleBindingResp d (ntohs msgLength) (ntohs msgLength) 0
      else if ntohs msgType = bindingErrResp then
        (handleBindingErrResp littleEndian logs d (ntohs msgLength)).bind fun r => .pure (r.1, none)
      else if ntohs msgType = sharedSecretResp then .pure (.tcmagentOk, none)
      else if ntohs msgType = sharedSecretErrResp then .pure (.stunErrNeedAuth, none)
      else .pure (.stunErrFailed, none)

/-! ## What is looked at -/

section Looking

open Reads

variable {d : Datagram} {i k : Nat} {α : Type} {f : List UInt8 → Reads α} {P : α → Prop}

theorem map_octet (h : i + k ≤ d.octets.length) : (List.range' i k).map d.octet = (d.octets.drop i).take k := by
  refine List.ext_getElem ?_ fun j h₁ h₂ => ?_
  · rw [List.length_map, List.length_range', List.length_take, List.length_drop]
    omega
  · rw [List.length_map, List.length_range'] at h₁
    rw [List.getElem_map, List.getElem_range', List.getElem_take, List.getElem_drop, Datagram.octet, Nat.one_mul,
      List.getD_eq_getElem _ _ (by omega)]

/-- To look at octets is good when they are the datagram's. -/
theorem good_look (hk : 0 < k) :
    Good d.octets.length ((d.look i k).bind f) P ↔
      i + k ≤ d.octets.length ∧ Good d.octets.length (f ((d.octets.drop i).take k)) P := by
  have hiff : (∀ j ∈ (d.look i k).indices, j < d.octets.length) ↔ i + k ≤ d.octets.length := by
    constructor
    · intro h
      have := h (i + (k - 1)) (List.mem_range'_1.2 (by omega))
      omega
    · intro h j hj
      have := List.mem_range'_1.1 hj
      omega
  by_cases hin : i + k ≤ d.octets.length
  · have hresult : (d.look i k).result = .done ((d.octets.drop i).take k) := by
      unfold Datagram.look
      rw [if_pos (by have := d.fits; omega), map_octet hin]
    rw [good_bind hresult, hiff]
  · exact iff_of_false (fun h => hin (hiff.1 h.inside)) fun h => hin h.1

/-- To look at a text is good when its zero is the datagram's. -/
theorem good_lookText {f : Unit → Reads α} :
    Good d.octets.length ((d.lookText i).bind f) P ↔ 0 ∈ d.octets.drop i ∧ Good d.octets.length (f ()) P := by
  have hlen : ((d.octets.drop i).takeWhile (· ≠ 0)).length < (d.octets.drop i).length ↔ 0 ∈ d.octets.drop i := by
    constructor
    · intro h
      by_contra hno
      rw [List.takeWhile_eq_self_iff.2 fun b hb => by
        simpa using fun (e : b = 0) => hno (e ▸ hb)] at h
      exact Nat.lt_irrefl _ h
    · intro hmem
      refine lt_of_le_of_ne (List.takeWhile_prefix _).length_le fun heq => ?_
      have hall := List.takeWhile_eq_self_iff.1 (List.IsPrefix.eq_of_length (List.takeWhile_prefix _) heq)
      exact absurd (hall 0 hmem) (by decide)
  have hiff : (∀ j ∈ (d.lookText i).indices, j < d.octets.length) ↔ 0 ∈ d.octets.drop i := by
    rw [← hlen, List.length_drop]
    constructor
    · intro h
      have := h (i + ((d.octets.drop i).takeWhile (· ≠ 0)).length) (List.mem_range'_1.2 (by omega))
      omega
    · intro h j hj
      have := List.mem_range'_1.1 hj
      omega
  by_cases hin : 0 ∈ d.octets.drop i
  · have hresult : (d.lookText i).result = .done () := by
      have h := hlen.2 hin
      rw [List.length_drop] at h
      unfold Datagram.lookText
      rw [if_pos (by have := d.fits; omega)]
    rw [good_bind hresult, hiff]
  · exact iff_of_false (fun h => hin (hiff.1 h.inside)) fun h => hin h.1

end Looking

/-! ## Staying inside the datagram -/

/-- The attributes of a body up to the first mapped address, or to the end of what is declared (`left` octets): each has its header in
the body, and the mapped address its eight octets. It is also said whether there is a mapped address. -/
inductive Attributes : Nat → List UInt8 → Bool → Prop where
  | ended (body : List UInt8) : Attributes 0 body false
  | mapped (left : Nat) (type len rest : List UInt8) (htype : type.length = 2 ∧ ntohs type = mappedAddress)
      (hlen : len.length = 2) (hrest : 8 ≤ rest.length) : Attributes (left + 1) (type ++ len ++ rest) true
  | other (left : Nat) (type len rest : List UInt8) (found : Bool) (htype : type.length = 2 ∧ ntohs type ≠ mappedAddress)
      (hlen : len.length = 2) (hrest : Attributes (left + 1 - (4 + ntohs len)) (rest.drop (ntohs len)) found) :
      Attributes (left + 1) (type ++ len ++ rest) found

/-- The datagram is an answer to a binding request with the transaction id `id`: its type is that of one, the length in its header is
its own, and it has the id. -/
structure Datagram.Answers (d : Datagram) (id : List UInt8) : Prop where
  type : ntohs (d.octets.take 2) = bindingResponse ∨ ntohs (d.octets.take 2) = bindingErrResp
  length : stunHeaderLen + ntohs ((d.octets.drop 2).take 2) = d.octets.length
  id : (d.octets.drop 4).take 16 = id

instance (d : Datagram) (id : List UInt8) : Decidable (d.Answers id) :=
  decidable_of_iff (((ntohs (d.octets.take 2) = bindingResponse ∨ ntohs (d.octets.take 2) = bindingErrResp) ∧
      stunHeaderLen + ntohs ((d.octets.drop 2).take 2) = d.octets.length) ∧ (d.octets.drop 4).take 16 = id)
    ⟨fun h => ⟨h.1.1, h.1.2, h.2⟩, fun h => ⟨⟨h.type, h.length⟩, h.id⟩⟩

/-- What is asked of the handling of a datagram when the request with the transaction id `id` is outstanding: it ends, it has looked
at octets of the datagram only, and it has rejected the datagram unless that answers the request. -/
def Datagram.HandledWell (littleEndian logs : Bool) (d : Datagram) (id : List UInt8) : Prop :=
  Reads.Good d.octets.length (stunHandleBindingResp littleEndian logs d) fun r => r.1 = .stunErrFailed ∨ d.Answers id

/-- The low octet of the number that the host reads behind the header: it is at the one end or at the other. -/
def Datagram.lowOctet (littleEndian : Bool) (d : Datagram) : UInt8 := d.octet (if littleEndian then 20 else 23)

/-- The code looks for an error number in that octet: its lower bits are from one to six, and it is at most 99. -/
def errorOctet (b : UInt8) : Prop := 0 < b.toNat % 8 ∧ b.toNat % 8 < 7 ∧ b.toNat ≤ 99

instance (b : UInt8) : Decidable (errorOctet b) := by unfold errorOctet; infer_instance

/-- The condition on a datagram. It has four octets at least; a binding response has its attributes in the datagram, and answers the
request if there is a mapped address; a binding error response has four octets of body if it declares them, and a zero behind them if
the logger prints a text; and the type is none of those for shared secrets. -/
def Datagram.Harmless (littleEndian logs : Bool) (d : Datagram) (id : List UInt8) : Prop :=
  4 ≤ d.octets.length ∧
    (ntohs (d.octets.take 2) = bindingResponse →
      ∃ found, Attributes (ntohs ((d.octets.drop 2).take 2)) (d.octets.drop stunHeaderLen) found ∧
        (found = true → d.Answers id)) ∧
    (ntohs (d.octets.take 2) = bindingErrResp → 4 ≤ ntohs ((d.octets.drop 2).take 2) →
      stunHeaderLen + 4 ≤ d.octets.length ∧
        (logs = true → errorOctet (d.lowOctet littleEndian) → 0 ∈ d.octets.drop (stunHeaderLen + 4))) ∧
    ntohs (d.octets.take 2) ≠ sharedSecretResp ∧ ntohs (d.octets.take 2) ≠ sharedSecretErrResp

section Handling

open Reads

variable (littleEndian : Bool) {logs : Bool} {d : Datagram} {id body : List UInt8} {left dataLen rounds currentPos : Nat} {found : Bool}
  {A : Prop}

/-- Where something is declared, the attributes begin with one. -/
theorem attributes_iff (hleft : 0 < left) : Attributes left body found ↔ 4 ≤ body.length ∧
    (ntohs (body.take 2) = mappedAddress ∧ 4 + 8 ≤ body.length ∧ found = true ∨
      ntohs (body.take 2) ≠ mappedAddress ∧
        Attributes (left - (4 + ntohs ((body.drop 2).take 2))) (body.drop (4 + ntohs ((body.drop 2).take 2))) found) := by
  constructor
  · rintro ⟨⟩
    · exact absurd hleft (Nat.lt_irrefl 0)
    · rename_i left type len rest htype hlen hrest
      rw [List.append_assoc, List.take_append_of_le_length (by omega), List.take_of_length_le (by omega),
        List.length_append, List.length_append, htype.1, hlen]
      exact ⟨by omega, Or.inl ⟨htype.2, by omega, rfl⟩⟩
    · rename_i left type len rest htype hlen hrest
      have hdrop : (type ++ len ++ rest).drop (4 + ntohs len) = rest.drop (ntohs len) := by
        rw [List.drop_append, List.length_append, htype.1, hlen, List.drop_of_length_le (by simp [htype.1, hlen]),
          List.nil_append]
        congr 1
        omega
      have hlenEq : ((type ++ len ++ rest).drop 2).take 2 = len := by
        rw [List.append_assoc, List.drop_append_of_le_length (by omega), List.drop_of_length_le (by omega), List.nil_append,
          List.take_append_of_le_length (by omega), List.take_of_length_le (by omega)]
      have htypeEq : (type ++ len ++ rest).take 2 = type := by
        rw [List.append_assoc, List.take_append_of_le_length (by omega), List.take_of_length_le (by omega)]
      rw [hlenEq, htypeEq, hdrop]
      refine ⟨by simp [htype.1, hlen]; omega, Or.inr ⟨htype.2, hrest⟩⟩
  · rintro ⟨hlen, h⟩
    obtain ⟨left, rfl⟩ : ∃ k, left = k + 1 := ⟨left - 1, by omega⟩
    have hbody : body = body.take 2 ++ (body.drop 2).take 2 ++ body.drop 4 := by
      rw [List.append_assoc, ← List.drop_drop (i := 2) (j := 2), List.take_append_drop, List.take_append_drop]
    rcases h with ⟨htype, hrest, rfl⟩ | ⟨htype, hrest⟩
    · rw [hbody]
      exact .mapped left _ _ _ ⟨by simp; omega, htype⟩ (by simp; omega) (by simp; omega)
    · rw [hbody]
      refine .other left _ _ _ found ⟨by simp; omega, htype⟩ (by simp; omega) ?_
      rwa [List.drop_drop]

/-- The loop handles a binding response well when its attributes are in the datagram, and what is asked of an accepted one is so. -/
theorem good_handleBindingResp (hrounds : dataLen - currentPos ≤ rounds) :
    Good d.octets.length (handleBindingResp d dataLen rounds currentPos) (fun r => r.1 = .stunErrFailed ∨ A) ↔
      ∃ found, Attributes (dataLen - currentPos) (d.octets.drop (stunHeaderLen + currentPos)) found ∧ (found = true → A) := by
  induction rounds generalizing currentPos with
  | zero =>
    rw [handleBindingResp, if_pos (by omega), good_pure, show dataLen - currentPos = 0 by omega]
    exact iff_of_true (Or.inl rfl) ⟨false, .ended _, nofun⟩
  | succ rounds ih =>
    rw [handleBindingResp]
    by_cases hend : dataLen ≤ currentPos
    · rw [if_pos hend, good_pure, show dataLen - currentPos = 0 by omega]
      exact iff_of_true (Or.inl rfl) ⟨false, .ended _, nofun⟩
    · rw [if_neg hend, good_look (by decide), good_look (by decide)]
      simp only [attributes_iff (show 0 < dataLen - currentPos by omega), List.length_drop, List.drop_drop]
      by_cases htype : ntohs ((d.octets.drop (stunHeaderLen + currentPos)).take 2) = mappedAddress
      · rw [if_pos htype, good_look (by decide), good_look (by decide), good_pure]
        constructor
        · rintro ⟨-, -, -, hin, hA⟩
          exact ⟨true, ⟨by omega, Or.inl ⟨htype, by omega, rfl⟩⟩, fun _ => hA.resolve_left nofun⟩
        · rintro ⟨found, ⟨-, ⟨-, hin, rfl⟩ | ⟨hother, -⟩⟩, hA⟩
          · exact ⟨by omega, by omega, by omega, by omega, Or.inr (hA rfl)⟩
          · exact absurd htype hother
      · rw [if_neg htype, ih (by omega), Nat.sub_sub, ← Nat.add_assoc, ← Nat.add_assoc]
        constructor
        · rintro ⟨-, hin, found, hrest, hA⟩
          exact ⟨found, ⟨by omega, Or.inr ⟨htype, by simpa only [Nat.add_assoc, Nat.sub_sub] using hrest⟩⟩, hA⟩
        · rintro ⟨found, ⟨hin, ⟨hmapped, -⟩ | ⟨-, hrest⟩⟩, hA⟩
          · exact absurd hmapped htype
          · exact ⟨by omega, by omega, found, by simpa only [Nat.add_assoc, Nat.sub_sub] using hrest, hA⟩

theorem hostNumber_mod (a b c e : UInt8) :
    hostNumber littleEndian [a, b, c, e] % 256 = (if littleEndian then a else e).toNat := by
  have ha := a.toNat_lt
  have he := e.toNat_lt
  unfold hostNumber
  cases littleEndian
  · simp only [Bool.false_eq_true, if_false]
    omega
  · simp only [if_true]
    omega

theorem take_four (h : 24 ≤ d.octets.length) :
    (d.octets.drop stunHeaderLen).take 4 = [d.octet 20, d.octet 21, d.octet 22, d.octet 23] :=
  (map_octet (i := stunHeaderLen) (k := 4) h).symm

/-- What the code takes for the class and the number are bits of one octet. -/
theorem masks (h : 24 ≤ d.octets.length) :
    hostNumber littleEndian ((d.octets.drop stunHeaderLen).take 4) &&& (0x700 >>> 8) = (d.lowOctet littleEndian).toNat % 8 ∧
      hostNumber littleEndian ((d.octets.drop stunHeaderLen).take 4) &&& 0xFF = (d.lowOctet littleEndian).toNat := by
  have hmod := hostNumber_mod littleEndian (d.octet 20) (d.octet 21) (d.octet 22) (d.octet 23)
  have hlow : (if littleEndian then d.octet 20 else d.octet 23) = d.lowOctet littleEndian := by
    unfold Datagram.lowOctet
    cases littleEndian <;> rfl
  rw [hlow] at hmod
  rw [take_four h]
  have h8 := Nat.and_two_pow_sub_one_eq_mod
    (hostNumber littleEndian [d.octet 20, d.octet 21, d.octet 22, d.octet 23]) 3
  have h256 := Nat.and_two_pow_sub_one_eq_mod
    (hostNumber littleEndian [d.octet 20, d.octet 21, d.octet 22, d.octet 23]) 8
  constructor
  · refine h8.trans ?_
    omega
  · exact h256.trans hmod

/-- A class and a number from one octet never make 401, nor 430 or 438. -/
theorem errorCode_ne (b : Nat) : b % 8 * 100 + b ≠ 401 := by
  intro h
  have := Nat.mod_lt b (show 0 < 8 by decide)
  omega

/-- What the handling of a binding error response looks at and returns: it always returns an error, since the error number that it
makes of one octet is never 401. -/
theorem good_handleBindingErrResp {P : Result × Option Nat → Prop} :
    Good d.octets.length (handleBindingErrResp littleEndian logs d dataLen) P ↔
      dataLen < 4 ∧ P (.stunErrFailed, none) ∨
        4 ≤ dataLen ∧ 24 ≤ d.octets.length ∧
          if errorOctet (d.lowOctet littleEndian) then
            (logs = true → 0 ∈ d.octets.drop 24) ∧
              P (.stunErrFailed, some ((d.lowOctet littleEndian).toNat % 8 * 100 + (d.lowOctet littleEndian).toNat))
          else P (.stunErrFailed, none) := by
  unfold handleBindingErrResp
  by_cases hshort : dataLen < 4
  · rw [if_pos hshort, good_pure]
    constructor
    · exact fun hP => Or.inl ⟨hshort, hP⟩
    · rintro (⟨-, hP⟩ | ⟨hlong, -⟩)
      · exact hP
      · exact absurd hlong (Nat.not_le.2 hshort)
  · rw [if_neg hshort, good_look (by decide), good_look (by decide)]
    by_cases hin : 24 ≤ d.octets.length
    · obtain ⟨hclass, hnumber⟩ := masks littleEndian hin
      simp only [hclass, hnumber]
      have hcond : (0 < (d.lowOctet littleEndian).toNat % 8 ∧ (d.lowOctet littleEndian).toNat % 8 < 7 ∧
          (d.lowOctet littleEndian).toNat ≤ 99) = errorOctet (d.lowOctet littleEndian) := rfl
      simp only [hcond, if_neg (errorCode_ne (d.lowOctet littleEndian).toNat)]
      have hreach : dataLen < 4 ∧ P (.stunErrFailed, none) ↔ False := iff_false_intro fun h => hshort h.1
      have hheader : stunHeaderLen + 4 ≤ d.octets.length := hin
      simp only [hreach, false_or, hheader, hin, Nat.not_lt.1 hshort, true_and]
      by_cases hoctet : errorOctet (d.lowOctet littleEndian)
      · rw [if_pos hoctet, if_pos hoctet]
        cases logs with
        | true =>
          rw [if_pos rfl, good_lookText, good_pure]
          simp [stunHeaderLen]
        | false =>
          rw [if_neg Bool.false_ne_true, good_bind (a := ()) rfl, good_pure]
          simp [Reads.pure]
      · rw [if_neg hoctet, if_neg hoctet, good_pure]
    · have hheader : ¬stunHeaderLen + 4 ≤ d.octets.length := hin
      simp [hheader, hin, hshort]

/-- **A datagram is handled well exactly when it is harmless.** -/
theorem handledWell_iff : d.HandledWell littleEndian logs id ↔ d.Harmless littleEndian logs id := by
  unfold Datagram.HandledWell stunHandleBindingResp Datagram.Harmless
  rw [good_look (by decide), good_look (by decide)]
  simp only [List.drop_zero, Nat.zero_add]
  generalize htype : ntohs (d.octets.take 2) = type
  generalize ntohs ((d.octets.drop 2).take 2) = dataLen
  by_cases hresp : type = bindingResponse
  · subst hresp
    rw [if_pos rfl, good_handleBindingResp (by omega)]
    have hne : bindingResponse ≠ bindingErrResp ∧ bindingResponse ≠ sharedSecretResp ∧ bindingResponse ≠ sharedSecretErrResp := by
      decide
    simp only [Nat.sub_zero, Nat.add_zero, hne.1, hne.2.1, hne.2.2, ne_eq, not_false_iff, true_imp_iff, false_imp_iff,
      and_true]
    constructor
    · exact fun h => ⟨h.2.1, h.2.2⟩
    · exact fun h => ⟨by omega, h.1, h.2⟩
  · rw [if_neg hresp]
    simp only [hresp, false_imp_iff, true_and]
    by_cases herr : type = bindingErrResp
    · subst herr
      rw [if_pos rfl, good_bind_pure, good_handleBindingErrResp]
      have hne : bindingErrResp ≠ sharedSecretResp ∧ bindingErrResp ≠ sharedSecretErrResp := by decide
      simp only [hne.1, hne.2, ne_eq, not_false_iff, and_true, true_imp_iff, true_or]
      by_cases hshort : dataLen < 4
      · simp only [hshort, Nat.not_le.2 hshort, false_and, or_false, false_imp_iff, and_true]
        omega
      · by_cases hoctet : errorOctet (d.lowOctet littleEndian)
        · simp only [hshort, Nat.not_lt.1 hshort, hoctet, if_true, false_or, true_and, true_imp_iff, stunHeaderLen]
          constructor
          · exact fun h => ⟨by omega, h.2.2⟩
          · exact fun h => ⟨by omega, by omega, h.2⟩
        · simp only [hshort, Nat.not_lt.1 hshort, hoctet, if_false, false_or, true_and, true_imp_iff, false_imp_iff,
            imp_true_iff, and_true, stunHeaderLen]
          omega
    · rw [if_neg herr]
      simp only [herr, false_imp_iff, true_and]
      -- the types for shared secrets do not answer a binding request, and are not rejected
      have hanswers : ¬d.Answers id := by
        intro h
        rcases h.type with h | h
        · exact hresp (htype.symm.trans h)
        · exact herr (htype.symm.trans h)
      by_cases hshared : type = sharedSecretResp
      · rw [if_pos hshared, good_pure]
        refine iff_of_false ?_ fun h => h.2.1 hshared
        rintro ⟨-, -, h | h⟩
        · cases h
        · exact hanswers h
      · rw [if_neg hshared]
        by_cases hshared' : type = sharedSecretErrResp
        · rw [if_pos hshared', good_pure]
          refine iff_of_false ?_ fun h => h.2.2 hshared'
          rintro ⟨-, -, h | h⟩
          · cases h
          · exact hanswers h
        · rw [if_neg hshared', good_pure]
          constructor
          · exact fun h => ⟨h.2.1, hshared, hshared'⟩
          · exact fun h => ⟨by omega, h.1, Or.inl rfl⟩

/-- A binding response with a mapped address and a transaction id of zeros is accepted when the id of the request is another one, and
of an empty datagram four octets are looked at that it does not have. -/
theorem not_handledWell :
    (∃ d : Datagram, d.octets = [1, 1, 0, 12] ++ List.replicate 16 0 ++ [0, 1, 0, 8, 0, 1, 13, 150, 192, 0, 2, 1] ∧
      (stunHandleBindingResp true false d).result = .done (.tcmagentOk, some ⟨[192, 0, 2, 1], 3478⟩) ∧
      ¬d.HandledWell true false (List.replicate 16 7)) ∧
    ¬(⟨[], by decide⟩ : Datagram).HandledWell true false (List.replicate 16 7) := by
  constructor
  · have hresult : (stunHandleBindingResp true false ⟨[1, 1, 0, 12] ++ List.replicate 16 0 ++
        [0, 1, 0, 8, 0, 1, 13, 150, 192, 0, 2, 1], by decide⟩).result = .done (.tcmagentOk, some ⟨[192, 0, 2, 1], 3478⟩) := by
      decide +kernel
    refine ⟨_, rfl, hresult, ?_⟩
    rintro ⟨⟨r, hr, hrejected⟩, -⟩
    obtain rfl := Outcome.done.inj (hresult.symm.trans hr)
    rcases hrejected with h | h
    · cases h
    · exact absurd h.id (by decide)
  · rintro ⟨-, hinside⟩
    exact absurd (hinside 0 (by decide +kernel)) (by decide)

end Handling

end CodeFactory.Stun
