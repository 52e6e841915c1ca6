import CodeFactory.Stun.Response

/-!
# The error code of a binding error response

An error response carries its class and its number in the third and the fourth octet of the value of an ERROR-CODE attribute. The code
looks for them behind the header of the message, where the first attribute has its own header, and takes both from one octet.
-/

namespace CodeFactory.Stun

/-- A binding error response: attributes, among them one with the error code, in a datagram that fits the receive buffer. -/
structure ErrorResponse where
  id : List UInt8
  before : List Attribute
  classValue : Nat
  number : Nat
  reason : List UInt8
  after : List Attribute
  idLength : id.length = 16
  class_mem : 3 ≤ classValue ∧ classValue ≤ 6
  number_le : number ≤ 99
  types : ∀ a ∈ before ++ after, a.type < 65536 ∧ a.type ≠ errorCodeType
  fits : stunHeaderLen + ((before ++ ⟨errorCodeType, [0, 0, UInt8.ofNat classValue, UInt8.ofNat number] ++ reason⟩ :: after).flatMap
    Attribute.octets).length ≤ stunGuessedRespLen

namespace ErrorResponse

variable (r : ErrorResponse)

def attributes : List Attribute :=
  r.before ++ ⟨errorCodeType, [0, 0, UInt8.ofNat r.classValue, UInt8.ofNat r.number] ++ r.reason⟩ :: r.after

/-- The attributes as they are sent. -/
def body : List UInt8 := r.attributes.flatMap Attribute.octets

def errorCode : Nat := r.classValue * 100 + r.number

def datagram : Datagram where
  octets := htons bindingErrResp ++ htons r.body.length ++ r.id ++ r.body
  fits := by
    have hfits := r.fits
    simp only [List.length_append, r.idLength, htons, List.length_cons, List.length_nil]
    exact hfits

/-- **The error code is understood**: the code makes of the response the error code that it carries, and the handling of the three
codes that ask for credentials is triggered for those codes and no others. -/
structure Understood (littleEndian logs : Bool) : Prop where
  yields : ∃ ret, (handleBindingErrResp littleEndian logs r.datagram r.body.length).result = .done (ret, some r.errorCode)
  triggers : (∃ m, (stunHandleBindingResp littleEndian logs r.datagram).result = .done (.stunErrNeedAuth, m)) ↔
    r.errorCode = 401 ∨ r.errorCode = 430 ∨ r.errorCode = 438

/-- The octet that the host takes for the lowest one of the first word of the body: of the type of the first attribute the high octet, or
of its length the low one. -/
def lowOctet (littleEndian : Bool) : UInt8 := r.body.getD (if littleEndian then 0 else 3) 0

variable {r} {littleEndian logs : Bool}

theorem lowOctet_datagram : r.datagram.lowOctet littleEndian = r.lowOctet littleEndian := by
  have hindex : ∀ k, r.datagram.octet (20 + k) = r.body.getD k 0 := by
    intro k
    have hheader : (htons bindingErrResp ++ htons r.body.length ++ r.id).length = 20 := by
      simp [htons, r.idLength]
    unfold Datagram.octet datagram
    rw [List.getD_append_right _ _ _ _ (by omega), hheader]
    congr 1
    omega
  cases littleEndian
  · exact hindex 3
  · exact hindex 0

/-- The attribute with the error code, behind its header and in it, has a zero four octets behind the start of the body. -/
theorem zero_mem_drop : 0 ∈ r.body.drop 4 := by
  have hcode : ∀ rest, (⟨errorCodeType, [0, 0, UInt8.ofNat r.classValue, UInt8.ofNat r.number] ++ r.reason⟩ : Attribute).octets ++ rest =
      0 :: 9 :: (htons ([0, 0, UInt8.ofNat r.classValue, UInt8.ofNat r.number] ++ r.reason).length ++
        [0, 0, UInt8.ofNat r.classValue, UInt8.ofNat r.number] ++ r.reason ++ rest) := by
    intro rest
    simp [Attribute.octets, errorCodeType, htons]
  unfold body attributes
  rw [List.flatMap_append, List.flatMap_cons, hcode]
  cases hbefore : r.before with
  | nil => simp [htons]
  | cons a as =>
    rw [List.flatMap_cons, List.append_assoc, List.drop_append_of_le_length (Attribute.four_le_length_octets a)]
    simp

theorem length_datagram : r.datagram.octets.length = 20 + r.body.length := by
  simp [datagram, htons, r.idLength]
  omega

theorem four_le_length_body : 4 ≤ r.body.length := by
  have hmem := zero_mem_drop (r := r)
  by_contra hshort
  rw [List.drop_of_length_le (by omega)] at hmem
  cases hmem

theorem zero_mem_datagram : 0 ∈ r.datagram.octets.drop 24 := by
  have hheader : (htons bindingErrResp ++ htons r.body.length ++ r.id).length = 20 := by
    simp [htons, r.idLength]
  unfold datagram
  rw [List.drop_append, hheader, List.drop_of_length_le (by omega), List.nil_append]
  exact zero_mem_drop

/-- What the handling of the attributes comes to. -/
theorem result_handleBindingErrResp :
    (handleBindingErrResp littleEndian logs r.datagram r.body.length).result =
      .done (.stunErrFailed, if errorOctet (r.lowOctet littleEndian) then
        some ((r.lowOctet littleEndian).toNat % 8 * 100 + (r.lowOctet littleEndian).toNat) else none) := by
  have hlen := length_datagram (r := r)
  have hbody := four_le_length_body (r := r)
  have hgood : Reads.Good r.datagram.octets.length (handleBindingErrResp littleEndian logs r.datagram r.body.length)
      (· = (.stunErrFailed, if errorOctet (r.lowOctet littleEndian) then
        some ((r.lowOctet littleEndian).toNat % 8 * 100 + (r.lowOctet littleEndian).toNat) else none)) := by
    rw [good_handleBindingErrResp, lowOctet_datagram]
    refine Or.inr ⟨hbody, by omega, ?_⟩
    by_cases hoctet : errorOctet (r.lowOctet littleEndian)
    · rw [if_pos hoctet, if_pos hoctet]
      exact ⟨fun _ => zero_mem_datagram, rfl⟩
    · rw [if_neg hoctet, if_neg hoctet]
  obtain ⟨⟨_, hresult, rfl⟩, -⟩ := hgood
  exact hresult

/-- The handling of the response never asks for credentials. -/
theorem result_stunHandleBindingResp :
    (stunHandleBindingResp littleEndian logs r.datagram).result = .done (.stunErrFailed, none) := by
  have hlen := length_datagram (r := r)
  have hbody := four_le_length_body (r := r)
  have hfits := r.datagram.fits
  have htype : ntohs (r.datagram.octets.take 2) = bindingErrResp := by
    rw [show r.datagram.octets.take 2 = htons bindingErrResp by simp [datagram, htons]]
    exact ntohs_htons (by decide)
  have hlength : ntohs ((r.datagram.octets.drop 2).take 2) = r.body.length := by
    rw [show (r.datagram.octets.drop 2).take 2 = htons r.body.length by simp [datagram, htons]]
    exact ntohs_htons (by unfold stunGuessedRespLen at hfits; omega)
  have hgood : Reads.Good r.datagram.octets.length (stunHandleBindingResp littleEndian logs r.datagram)
      (· = (.stunErrFailed, none)) := by
    unfold stunHandleBindingResp
    rw [good_look (by decide), good_look (by decide), List.drop_zero, htype, hlength, if_neg (by decide), if_pos rfl,
      Reads.good_bind_pure, good_handleBindingErrResp]
    refine ⟨by omega, by omega, Or.inr ⟨hbody, by omega, ?_⟩⟩
    split
    · exact ⟨fun _ => zero_mem_datagram, rfl⟩
    · rfl
  obtain ⟨⟨_, hresult, rfl⟩, -⟩ := hgood
  exact hresult

/-- **The error code is understood exactly when the low octet of the first word of the body, which belongs to the header of the first
attribute, happens to be the number of the error, and has the class in its three low bits**; no code that asks for credentials is of
that kind. -/
theorem understood_iff : r.Understood littleEndian logs ↔
    (r.lowOctet littleEndian).toNat = r.number ∧ r.number % 8 = r.classValue := by
  have hclass := r.class_mem
  have hnumber := r.number_le
  have hnever : ¬∃ m, (stunHandleBindingResp littleEndian logs r.datagram).result = .done (.stunErrNeedAuth, m) := by
    rintro ⟨m, h⟩
    cases result_stunHandleBindingResp.symm.trans h
  constructor
  · rintro ⟨⟨ret, hyields⟩, -⟩
    rw [result_handleBindingErrResp] at hyields
    have hcode := (Prod.mk.inj (Outcome.done.inj hyields)).2
    split at hcode
    · rename_i hoctet
      have hcode := Option.some.inj hcode
      obtain ⟨-, -, hle⟩ := hoctet
      unfold errorCode at hcode
      generalize hlow : (r.lowOctet littleEndian).toNat = low at hcode hle ⊢
      have hmod : low % 8 = r.classValue := by
        generalize low % 8 = bits at hcode ⊢
        omega
      omega
    · cases hcode
  · rintro ⟨hlow, hmod⟩
    have hoctet : errorOctet (r.lowOctet littleEndian) := by
      unfold errorOctet
      omega
    refine ⟨⟨.stunErrFailed, ?_⟩, iff_of_false hnever ?_⟩
    · rw [result_handleBindingErrResp, if_pos hoctet, hlow, hmod]
      rfl
    · unfold errorCode
      omega

/-- A response with the error code 401, the reason phrase "Unauthorized" and no other attribute. -/
def unauthorized : ErrorResponse where
  id := List.replicate 16 0
  before := []
  classValue := 4
  number := 1
  reason := [85, 110, 97, 117, 116, 104, 111, 114, 105, 122, 101, 100]
  after := []
  idLength := rfl
  class_mem := by decide
  number_le := by decide
  types := by simp
  fits := by decide

/-- It is taken for a response without an error number, and asks for no credentials. -/
theorem not_understood_unauthorized : unauthorized.errorCode = 401 ∧
    (handleBindingErrResp true false unauthorized.datagram unauthorized.body.length).result = .done (.stunErrFailed, none) ∧
    ¬unauthorized.Understood true false := by
  have hresult : (handleBindingErrResp true false unauthorized.datagram unauthorized.body.length).result =
      .done (.stunErrFailed, none) := by decide +kernel
  refine ⟨rfl, hresult, ?_⟩
  rintro ⟨⟨ret, hyields⟩, -⟩
  cases hresult.symm.trans hyields

end ErrorResponse

end CodeFactory.Stun
