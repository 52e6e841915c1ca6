import CodeFactory.Lib.Outcome
import CodeFactory.Stun.Message

/-!
# Building a STUN binding request

`stun_build_binding_req` writes a header and, from one of four labels on, attributes into the buffer of the caller, and the length of
the body last. The labels follow each other: behind the attributes of a changed binding come those of the lifetime query. Of the
transaction id of the caller four octets are copied, and the attribute with the integrity value declares more octets than it has.
-/

namespace CodeFactory.Stun

/-! ## The function of `stun.c` -/

/-- `STUN_GUESSED_REQ_LEN`, the size of the buffer. -/
def stunGuessedReqLen : Nat := 128

/-- `STUN_TRANS_ID_SIZE`, "size in 4 bytes". -/
def stunTransIdSize : Nat := 4

def saConnReqBindingValue : List UInt8 :=
  [100, 115, 108, 102, 111, 114, 117, 109, 46, 111, 114, 103, 47, 84, 82, 45, 49, 49, 49, 32]

def saConnReqBindingValueLen : Nat := 0x0014
def saConnReqBindingChangeValueLen : Nat := 0x0
def saRespAddrValueLen : Nat := 8
def saMessageIntegrityValueLen : Nat := 0x40
def sha1Len : Nat := 20

/-- A transaction id, of four words. -/
structure TransID where
  octets : List UInt8
  length_octets : octets.length = 16

def maxUsernameLength : Nat := 128

/-- The globals that the function reads: two members of `gManagementServer`, and the mapped port and address, this one as `inet_aton`
leaves it. -/
structure RequestGlobals where
  stunUsername : List UInt8
  stunUsername_le : stunUsername.length ≤ maxUsernameLength
  stunPassword : List UInt8
  gMappedStunServePort : Nat
  gMappedStunServeIP : UInt8 × UInt8 × UInt8 × UInt8

/-- `hmac_sha1`: of a key and a context, the octets that it writes. -/
structure Hmac where
  hmacSha1 : List UInt8 → List UInt8 → List UInt8
  length_hmacSha1 : ∀ key context, (hmacSha1 key context).length = sha1Len

/-- The buffer and `currentPos`. -/
abbrev Building := List UInt8 × Nat

/-- Write octets at a place. -/
def put (data : List UInt8) (pos : Nat) (octets : List UInt8) : Outcome (List UInt8) :=
  if pos + octets.length ≤ data.length then .done (data.take pos ++ octets ++ data.drop (pos + octets.length)) else .undefined

/-- Write the type and the length of an attribute and octets of its value, from one of them on, and go on by what it takes. -/
def putAttribute (type len offset : Nat) (octets : List UInt8) (taken : Nat) (b : Building) : Outcome Building :=
  (put b.1 b.2 (htons type)).bind fun data =>
    (put data (b.2 + 2) (htons len)).bind fun data =>
      (put data (b.2 + 4 + offset) octets).map fun data => (data, b.2 + 4 + taken)

/-- The attribute CONNECTION-REQUEST-BINDING. -/
def putConnectionRequestBinding : Building → Outcome Building :=
  putAttribute connectionRequestBinding saConnReqBindingValueLen 0 saConnReqBindingValue saConnReqBindingValueLen

/-- The attribute BINDING-CHANGE. -/
def putBindingChange : Building → Outcome Building :=
  putAttribute bindingChange saConnReqBindingChangeValueLen 0 [] saConnReqBindingChangeValueLen

/-- `usernamelen`: the length of the user name, filled up to words. -/
def usernamelen (g : RequestGlobals) : Nat := (g.stunUsername.length + 3) / 4 * 4

/-- The attribute USERNAME. -/
def putUsername (g : RequestGlobals) : Building → Outcome Building :=
  putAttribute usernameType (usernamelen g) 0 g.stunUsername (usernamelen g)

/-- The attribute RESPONSE-ADDRESS. The first octet of its value is not written. -/
def putResponseAddress (g : RequestGlobals) : Building → Outcome Building :=
  putAttribute responseAddress saRespAddrValueLen 1
    (1 :: htons g.gMappedStunServePort ++
      [g.gMappedStunServeIP.1, g.gMappedStunServeIP.2.1, g.gMappedStunServeIP.2.2.1, g.gMappedStunServeIP.2.2.2])
    saRespAddrValueLen

/-- From the label `nat_query` on. -/
def natQuery (g : RequestGlobals) (b : Building) : Outcome Building :=
  (putConnectionRequestBinding b).bind fun b => if usernamelen g = 0 then .done b else putUsername g b

/-- From the label `lifetime_query` on. -/
def lifetimeQuery (g : RequestGlobals) : Building → Outcome Building := putResponseAddress g

/-- From the label `bind_change` on. -/
def bindChange (g : RequestGlobals) (b : Building) : Outcome Building :=
  (putConnectionRequestBinding b).bind fun b =>
    (putBindingChange b).bind fun b =>
      if usernamelen g = 0 then .done b else (putUsername g b).bind (lifetimeQuery g)

/-- A number of two octets as the host stores it. -/
def hostOctets (littleEndian : Bool) (n : Nat) : List UInt8 := if littleEndian then (htons n).reverse else htons n

/-- From the label `integrity` on. The length of the message is written in the order of the host before the integrity value is
computed, of what stands in front of the attribute. -/
def integrity (littleEndian : Bool) (hmac : Hmac) (g : RequestGlobals) (b : Building) : Outcome Building :=
  (putConnectionRequestBinding b).bind fun b =>
    (putBindingChange b).bind fun b =>
      (putUsername g b).bind fun b =>
        (put b.1 b.2 (htons messageIntegrity)).bind fun data =>
          (put data (b.2 + 2) (htons saMessageIntegrityValueLen)).bind fun data =>
            (put data 2 (hostOctets littleEndian (b.2 + 4 + sha1Len - stunHeaderLen))).bind fun data =>
              (put data (b.2 + 4) (hmac.hmacSha1 g.stunPassword (data.take b.2))).map fun data => (data, b.2 + 4 + sha1Len)

inductive Label where
  | integrity | lifetimeQuery | natQuery | bindChange
  deriving DecidableEq

/-- The label that the flags of `method` lead to. -/
def label (method : Nat) : Label :=
  if method &&& 0x08 ≠ 0 then .integrity
  else if method &&& 0x02 ≠ 0 then .lifetimeQuery
  else if method &&& 0x01 ≠ 0 then .natQuery
  else if method &&& 0x04 ≠ 0 then .natQuery
  else if method &&& 0x10 ≠ 0 then .bindChange
  else .natQuery

/-- `transID`: what `rand` generated, with as many octets as there are words copied from the id of the caller. -/
def transIDOf (generated : TransID) : Option TransID → List UInt8
  | none => generated.octets
  | some transid => transid.octets.take stunTransIdSize ++ generated.octets.drop stunTransIdSize

def stunBuildBindingReq (littleEndian : Bool) (hmac : Hmac) (g : RequestGlobals) (data : List UInt8) (method : Nat)
    (transid : Option TransID) (generated : TransID) : Outcome Building :=
  (put data 0 (htons bindingRequest)).bind fun data =>
    (put data 4 (transIDOf generated transid)).bind fun data =>
      (match label method with
        | .integrity => integrity littleEndian hmac g (data, stunHeaderLen)
        | .lifetimeQuery => lifetimeQuery g (data, stunHeaderLen)
        | .natQuery => natQuery g (data, stunHeaderLen)
        | .bindChange => bindChange g (data, stunHeaderLen)).bind fun b =>
          (put b.1 2 (htons (b.2 - stunHeaderLen))).map fun data => (data, b.2)

/-! ## Writing into the buffer -/

section Put

variable {data data' octets : List UInt8} {pos k : Nat}

theorem put_of_le (h : pos + octets.length ≤ data.length) :
    put data pos octets = .done (data.take pos ++ octets ++ data.drop (pos + octets.length)) := if_pos h

theorem put_of_lt (h : data.length < pos + octets.length) : put data pos octets = .undefined := if_neg (Nat.not_le.2 h)

theorem put_eq_done : put data pos octets = .done data' ↔
    pos + octets.length ≤ data.length ∧ data' = data.take pos ++ octets ++ data.drop (pos + octets.length) := by
  unfold put
  split
  · rename_i h
    rw [Outcome.done.injEq]
    exact ⟨fun e => ⟨h, e.symm⟩, fun e => e.2.symm⟩
  · rename_i h
    exact ⟨nofun, fun e => absurd e.1 h⟩

theorem length_put (h : put data pos octets = .done data') : data'.length = data.length := by
  obtain ⟨hle, rfl⟩ := put_eq_done.1 h
  simp only [List.length_append, List.length_take, List.length_drop]
  omega

/-- What is in front of the place is as it was. -/
theorem take_put_of_le (h : put data pos octets = .done data') (hk : k ≤ pos) : data'.take k = data.take k := by
  obtain ⟨hle, rfl⟩ := put_eq_done.1 h
  rw [List.append_assoc, List.take_append_of_le_length (by rw [List.length_take]; omega), List.take_take, Nat.min_eq_left hk]

/-- Up to the end of what is written there is what was in front and what is written. -/
theorem take_put (h : put data pos octets = .done data') : data'.take (pos + octets.length) = data.take pos ++ octets := by
  obtain ⟨hle, rfl⟩ := put_eq_done.1 h
  rw [List.take_append_of_le_length (by simp only [List.length_append, List.length_take]; omega),
    List.take_of_length_le (by simp only [List.length_append, List.length_take]; omega)]

/-- What is behind is as it was. -/
theorem drop_put_of_le (h : put data pos octets = .done data') (hk : pos + octets.length ≤ k) : data'.drop k = data.drop k := by
  obtain ⟨hle, rfl⟩ := put_eq_done.1 h
  have hlen : (data.take pos ++ octets).length = pos + octets.length := by
    simp only [List.length_append, List.length_take]
    omega
  rw [List.drop_append, hlen, List.drop_of_length_le (by omega), List.nil_append, List.drop_drop]
  congr 1
  omega

end Put

/-! ## Attributes one behind the other -/

/-- What `currentPos` has behind it is the header and attributes, each of a length in whole words. -/
structure Built (header : List UInt8) (b : Building) : Prop where
  size : b.1.length = stunGuessedReqLen
  le_size : b.2 ≤ stunGuessedReqLen
  aligned : b.2 % 4 = 0
  tiled : ∃ attrs : List Attribute, b.1.take b.2 = header ++ attrs.flatMap Attribute.octets ∧
    ∀ a ∈ attrs, a.value.length < 65536 ∧ a.value.length % 4 = 0

/-- The function appends attributes that take `n` octets, as far as the buffer has them. -/
def Appends (header : List UInt8) (f : Building → Outcome Building) (n : Nat) : Prop :=
  ∀ b, Built header b →
    if b.2 + n ≤ stunGuessedReqLen then ∃ data, f b = .done (data, b.2 + n) ∧ Built header (data, b.2 + n) else f b = .undefined

section Appends

variable {header octets : List UInt8} {f f' : Building → Outcome Building} {m n type len offset : Nat} {b : Building}

/-- Nothing is appended. -/
theorem appends_done : Appends header .done 0 := by
  intro b hb
  rw [if_pos (show b.2 + 0 ≤ stunGuessedReqLen from hb.le_size)]
  exact ⟨b.1, rfl, hb⟩

/-- One behind the other. -/
theorem Appends.bind (h : Appends header f m) (h' : Appends header f' n) :
    Appends header (fun b => (f b).bind f') (m + n) := by
  intro b hb
  have hf := h b hb
  by_cases hm : b.2 + m ≤ stunGuessedReqLen
  · rw [if_pos hm] at hf
    obtain ⟨data, hf, hb'⟩ := hf
    have hf' := h' _ hb'
    simp only [hf, Outcome.bind_done, ← Nat.add_assoc]
    exact hf'
  · rw [if_neg hm] at hf
    rw [if_neg (by omega)]
    change (f b).bind f' = .undefined
    rw [hf]
    rfl

/-- An attribute whose value is written but for less than a word at its end or in front. -/
theorem appends_putAttribute (hlen : len < 65536) (haligned : len % 4 = 0) (hwritten : offset + octets.length ≤ len)
    (hrest : len < offset + octets.length + 4) : Appends header (putAttribute type len offset octets len) (4 + len) := by
  intro b hb
  have hsize := hb.size
  have hmod := hb.aligned
  unfold stunGuessedReqLen at hsize
  by_cases hfits : b.2 + (4 + len) ≤ stunGuessedReqLen
  · rw [if_pos hfits]
    unfold stunGuessedReqLen at hfits
    have hput : put b.1 b.2 (htons type) = .done _ := put_of_le (by rw [length_htons]; omega)
    generalize b.1.take b.2 ++ htons type ++ b.1.drop (b.2 + (htons type).length) = data₁ at hput
    have hlen₁ := length_put hput
    have hput' : put data₁ (b.2 + 2) (htons len) = .done _ := put_of_le (by rw [length_htons]; omega)
    generalize data₁.take (b.2 + 2) ++ htons len ++ data₁.drop (b.2 + 2 + (htons len).length) = data₂ at hput'
    have hlen₂ := length_put hput'
    have hput'' : put data₂ (b.2 + 4 + offset) octets = .done _ := put_of_le (by omega)
    generalize data₂.take (b.2 + 4 + offset) ++ octets ++ data₂.drop (b.2 + 4 + offset + octets.length) = data₃ at hput''
    have hlen₃ := length_put hput''
    have hdone : putAttribute type len offset octets len b = .done (data₃, b.2 + (4 + len)) := by
      unfold putAttribute
      rw [hput, Outcome.bind_done, hput', Outcome.bind_done, hput'', ← Nat.add_assoc]
      rfl
    refine ⟨data₃, hdone, ?_, ?_, ?_, ?_⟩
    · change data₃.length = 128
      omega
    · exact hfits
    · change (b.2 + (4 + len)) % 4 = 0
      omega
    · obtain ⟨attrs, htiled, hattrs⟩ := hb.tiled
      have hvalue : ((data₃.drop (b.2 + 4)).take len).length = len := by
        rw [List.length_take, List.length_drop]
        omega
      refine ⟨attrs ++ [⟨type, (data₃.drop (b.2 + 4)).take len⟩], ?_, ?_⟩
      · have hfront : data₃.take (b.2 + 4) = header ++ attrs.flatMap Attribute.octets ++ htons type ++ htons len := by
          rw [take_put_of_le hput'' (by omega)]
          have h₂ := take_put hput'
          rw [length_htons, Nat.add_assoc] at h₂
          have h₁ := take_put hput
          rw [length_htons] at h₁
          rw [h₂, h₁, htiled]
        change data₃.take (b.2 + (4 + len)) = _
        rw [← Nat.add_assoc, List.take_add, hfront, List.flatMap_append, List.flatMap_singleton, Attribute.octets, hvalue]
        simp only [List.append_assoc]
      · intro a ha
        rcases List.mem_append.1 ha with ha | ha
        · exact hattrs a ha
        · rw [List.mem_singleton.1 ha, hvalue]
          exact ⟨hlen, haligned⟩
  · rw [if_neg hfits]
    unfold stunGuessedReqLen at hfits
    unfold putAttribute
    -- one of the three places is behind the end
    by_cases h₁ : b.2 + (htons type).length ≤ b.1.length
    · have hput : put b.1 b.2 (htons type) = .done _ := put_of_le h₁
      generalize b.1.take b.2 ++ htons type ++ b.1.drop (b.2 + (htons type).length) = data₁ at hput
      have hlen₁ := length_put hput
      rw [hput, Outcome.bind_done]
      by_cases h₂ : b.2 + 2 + (htons len).length ≤ data₁.length
      · have hput' : put data₁ (b.2 + 2) (htons len) = .done _ := put_of_le h₂
        generalize data₁.take (b.2 + 2) ++ htons len ++ data₁.drop (b.2 + 2 + (htons len).length) = data₂ at hput'
        have hlen₂ := length_put hput'
        rw [hput', Outcome.bind_done, put_of_lt (by omega)]
        rfl
      · rw [put_of_lt (Nat.lt_of_not_le h₂)]
        rfl
    · rw [put_of_lt (Nat.lt_of_not_le h₁)]
      rfl

theorem appends_putConnectionRequestBinding : Appends header putConnectionRequestBinding 24 :=
  appends_putAttribute (by decide) (by decide) (by decide) (by decide)

theorem appends_putBindingChange : Appends header putBindingChange 4 :=
  appends_putAttribute (by decide) (by decide) (by decide) (by decide)

theorem appends_putResponseAddress (g : RequestGlobals) : Appends header (putResponseAddress g) 12 :=
  appends_putAttribute (by decide) (by decide) (by simp [saRespAddrValueLen]) (by simp [saRespAddrValueLen])

theorem appends_putUsername (g : RequestGlobals) : Appends header (putUsername g) (4 + usernamelen g) := by
  have hshort : g.stunUsername.length ≤ 128 := g.stunUsername_le
  unfold putUsername usernamelen
  exact appends_putAttribute (by omega) (by omega) (by omega) (by omega)

theorem Appends.unlessEmpty (g : RequestGlobals) (h : Appends header f n) :
    Appends header (fun b => if usernamelen g = 0 then .done b else f b) (if usernamelen g = 0 then 0 else n) := by
  by_cases hempty : usernamelen g = 0
  · simp only [if_pos hempty]
    exact appends_done
  · simp only [if_neg hempty]
    exact h

theorem appends_natQuery (g : RequestGlobals) :
    Appends header (natQuery g) (24 + if usernamelen g = 0 then 0 else 4 + usernamelen g) :=
  appends_putConnectionRequestBinding.bind ((appends_putUsername g).unlessEmpty g)

theorem appends_bindChange (g : RequestGlobals) :
    Appends header (bindChange g) (24 + (4 + if usernamelen g = 0 then 0 else 4 + usernamelen g + 12)) :=
  appends_putConnectionRequestBinding.bind
    (appends_putBindingChange.bind (((appends_putUsername g).bind (appends_putResponseAddress g)).unlessEmpty g))

end Appends

/-! ## Well-formed requests -/

/-- The request is well formed: the buffer has a packet of twenty octets and as many as its header says, the body is attributes of the
lengths that they declare, in whole words, and the id in it is `id`. -/
def WellBuilt (result : Outcome Building) (id : TransID) : Prop :=
  ∃ data dataLen, result = .done (data, dataLen) ∧ dataLen = stunHeaderLen + ntohs ((data.drop 2).take 2) ∧
    dataLen ≤ data.length ∧
    (∃ attrs : List Attribute, (data.take dataLen).drop stunHeaderLen = attrs.flatMap Attribute.octets ∧
      ∀ a ∈ attrs, a.value.length < 65536 ∧ a.value.length % 4 = 0) ∧
    (data.drop 4).take 16 = id.octets

/-- The user name leaves room in the buffer for what the label writes. For the integrity value there is no such name. -/
def Label.Fits (g : RequestGlobals) : Label → Prop
  | .integrity => False
  | .lifetimeQuery => True
  | .natQuery => g.stunUsername.length ≤ 80
  | .bindChange => g.stunUsername.length ≤ 64

/-- A buffer of the caller. -/
structure RequestBuffer where
  octets : List UInt8
  length_octets : octets.length = stunGuessedReqLen

section WellBuilt

variable {littleEndian : Bool} {hmac : Hmac} {g : RequestGlobals} {buffer : RequestBuffer} {method : Nat} {transid : Option TransID}
  {generated id : TransID} {header : List UInt8} {b : Building}

theorem length_transIDOf (transid : Option TransID) (generated : TransID) : (transIDOf generated transid).length = 16 := by
  cases transid with
  | none => exact generated.length_octets
  | some t =>
    unfold transIDOf
    rw [List.length_append, List.length_take, List.length_drop, t.length_octets, generated.length_octets]
    rfl

/-- The id in the packet is the caller's or the generated one when the part that is not copied is the same in both. -/
theorem transIDOf_eq : transIDOf generated transid = (transid.getD generated).octets ↔
    ∀ t ∈ transid, t.octets.drop stunTransIdSize = generated.octets.drop stunTransIdSize := by
  cases transid with
  | none => exact iff_of_true rfl fun t ht => by cases ht
  | some t =>
    change t.octets.take stunTransIdSize ++ generated.octets.drop stunTransIdSize = t.octets ↔ _
    constructor
    · intro h t' ht'
      obtain rfl := Option.some.inj ht'
      rw [← List.take_append_drop stunTransIdSize t.octets] at h
      rw [List.take_append_drop] at h
      have hdrop := congrArg (List.drop stunTransIdSize) h
      rw [List.drop_append_of_le_length (by rw [List.length_take, t.length_octets]; decide),
        List.drop_of_length_le (by rw [List.length_take, t.length_octets]; decide), List.nil_append] at hdrop
      exact hdrop.symm
    · intro h
      rw [← h t rfl, List.take_append_drop]

theorem body_put {data data' octets : List UInt8} (h : put data 2 octets = .done data') (hlen : octets.length = 2) (k : Nat) :
    (data'.take k).drop stunHeaderLen = (data.take k).drop stunHeaderLen := by
  have hbehind : data'.drop 4 = data.drop 4 := drop_put_of_le h (by omega)
  rw [List.drop_take, List.drop_take, show stunHeaderLen = 4 + 16 from rfl, ← List.drop_drop, ← List.drop_drop, hbehind]

/-- The length of the body is written last. -/
theorem Built.finish (hb : Built header b) (hheader : header.length = stunHeaderLen) (hpos : stunHeaderLen ≤ b.2) :
    ∃ data, put b.1 2 (htons (b.2 - stunHeaderLen)) = .done data ∧
      (WellBuilt (.done (data, b.2)) id ↔ header.drop 4 = id.octets) := by
  obtain ⟨hsize, hle, -, attrs, htiled, hattrs⟩ := hb
  unfold stunGuessedReqLen at hsize hle
  unfold stunHeaderLen at hheader hpos
  have hput : put b.1 2 (htons (b.2 - stunHeaderLen)) = .done _ := put_of_le (by rw [length_htons]; omega)
  generalize b.1.take 2 ++ htons (b.2 - stunHeaderLen) ++ b.1.drop (2 + (htons (b.2 - stunHeaderLen)).length) = data at hput
  have hlen := length_put hput
  have hbehind : data.drop 4 = b.1.drop 4 := drop_put_of_le hput (Nat.le_refl 4)
  have hlength : (data.drop 2).take 2 = htons (b.2 - stunHeaderLen) := by
    have htake := congrArg (List.drop 2) (take_put hput)
    rw [length_htons, List.drop_take, List.drop_left' (by rw [List.length_take]; omega)] at htake
    exact htake
  have hbody : (data.take b.2).drop stunHeaderLen = attrs.flatMap Attribute.octets := by
    rw [body_put hput (length_htons _), htiled]
    exact List.drop_left' hheader
  have hid : (data.drop 4).take 16 = header.drop 4 := by
    have htake : b.1.take 20 = header := by
      have := congrArg (List.take 20) htiled
      rw [List.take_take, Nat.min_eq_left hpos, List.take_left' hheader] at this
      exact this
    rw [hbehind, ← htake, List.drop_take]
  refine ⟨data, hput, ?_⟩
  constructor
  · rintro ⟨data', dataLen, hdone, -, -, -, hid'⟩
    obtain ⟨rfl, -⟩ := Prod.mk.inj (Outcome.done.inj hdone)
    exact hid.symm.trans hid'
  · intro h
    refine ⟨data, b.2, rfl, ?_, by omega, ⟨attrs, hbody, hattrs⟩, hid.trans h⟩
    rw [hlength, ntohs_htons (by omega)]
    unfold stunHeaderLen
    omega

/-- What one of the three labels without an integrity value makes is well formed when the user name leaves room and the id is the
right one. -/
theorem Appends.wellBuilt {f : Building → Outcome Building} {n : Nat} (h : Appends header f n) (hb : Built header b)
    (hheader : header.length = stunHeaderLen) (hpos : b.2 = stunHeaderLen) :
    WellBuilt ((f b).bind fun b => (put b.1 2 (htons (b.2 - stunHeaderLen))).map fun data => (data, b.2)) id ↔
      stunHeaderLen + n ≤ stunGuessedReqLen ∧ header.drop 4 = id.octets := by
  have hf := h b hb
  rw [hpos] at hf
  by_cases hfits : stunHeaderLen + n ≤ stunGuessedReqLen
  · rw [if_pos hfits] at hf
    obtain ⟨data, hf, hb'⟩ := hf
    obtain ⟨data', hput, hiff⟩ := hb'.finish hheader (by change _ ≤ stunHeaderLen + n; omega)
    rw [hf, Outcome.bind_done]
    simp only at hput ⊢
    rw [hput]
    exact hiff.trans ⟨fun h => ⟨hfits, h⟩, fun h => h.2⟩
  · rw [if_neg hfits] at hf
    rw [hf]
    refine iff_of_false ?_ fun h => hfits h.1
    rintro ⟨data, dataLen, hdone, -⟩
    cases hdone

theorem appends_integrityFront (g : RequestGlobals) :
    Appends header (fun b => (putConnectionRequestBinding b).bind fun b => (putBindingChange b).bind (putUsername g))
      (24 + (4 + (4 + usernamelen g))) :=
  appends_putConnectionRequestBinding.bind (appends_putBindingChange.bind (appends_putUsername g))

/-- The last attribute declares sixty-four octets where twenty are left, so the body is not attributes. -/
theorem not_wellBuilt_integrity (hb : Built header b) (hheader : header.length = stunHeaderLen) (hpos : b.2 = stunHeaderLen) :
    ¬WellBuilt ((integrity littleEndian hmac g b).bind fun b =>
      (put b.1 2 (htons (b.2 - stunHeaderLen))).map fun data => (data, b.2)) id := by
  rintro ⟨data, dataLen, hdone, -, -, ⟨as, hbody, has⟩, -⟩
  obtain ⟨b', hintegrity, hlast⟩ := Outcome.bind_eq_done.1 hdone
  obtain ⟨data', hput, heq⟩ := Outcome.map_eq_done.1 hlast
  obtain ⟨rfl, rfl⟩ := Prod.mk.inj heq
  unfold integrity at hintegrity
  obtain ⟨b₁, hb₁, hintegrity⟩ := Outcome.bind_eq_done.1 hintegrity
  obtain ⟨b₂, hb₂, hintegrity⟩ := Outcome.bind_eq_done.1 hintegrity
  obtain ⟨b₃, hb₃, hintegrity⟩ := Outcome.bind_eq_done.1 hintegrity
  obtain ⟨data₁, hput₁, hintegrity⟩ := Outcome.bind_eq_done.1 hintegrity
  obtain ⟨data₂, hput₂, hintegrity⟩ := Outcome.bind_eq_done.1 hintegrity
  obtain ⟨data₃, hput₃, hintegrity⟩ := Outcome.bind_eq_done.1 hintegrity
  obtain ⟨data₄, hput₄, rfl⟩ := Outcome.map_eq_done.1 hintegrity
  have hb₃' : Built header b₃ ∧ b₃.2 = stunHeaderLen + (24 + (4 + (4 + usernamelen g))) := by
    have hfront := appends_integrityFront g b hb
    simp only [hb₁, hb₂, hb₃, Outcome.bind_done, hpos] at hfront
    split at hfront
    · obtain ⟨data, heq, hbuilt⟩ := hfront
      obtain rfl := Outcome.done.inj heq
      exact ⟨hbuilt, rfl⟩
    · cases hfront
  obtain ⟨⟨hsize, hle, -, attrs, htiled, hattrs⟩, hpos₃⟩ := hb₃'
  unfold stunHeaderLen at hpos₃
  have hmac_length : (hmac.hmacSha1 g.stunPassword (data₃.take b₃.2)).length = 20 := hmac.length_hmacSha1 _ _
  have hhost : (hostOctets littleEndian (b₃.2 + 4 + sha1Len - stunHeaderLen)).length = 2 := by
    unfold hostOctets
    cases littleEndian <;> rfl
  -- what stands behind the header: the attributes, the header of the last one, and the twenty octets
  have hfull : data₄.take (b₃.2 + 4 + sha1Len) = data₃.take (b₃.2 + 4) ++ hmac.hmacSha1 g.stunPassword (data₃.take b₃.2) := by
    have htake := take_put hput₄
    rwa [hmac_length] at htake
  have hthree : (data₃.take (b₃.2 + 4)).drop stunHeaderLen =
      attrs.flatMap Attribute.octets ++ htons messageIntegrity ++ htons saMessageIntegrityValueLen := by
    have htake₂ := take_put hput₂
    rw [length_htons, Nat.add_assoc] at htake₂
    have htake₁ := take_put hput₁
    rw [length_htons] at htake₁
    rw [body_put hput₃ hhost, htake₂, htake₁, htiled]
    simp only [List.append_assoc]
    exact List.drop_left' hheader
  rw [body_put hput (length_htons _)] at hbody
  change (data₄.take (b₃.2 + 4 + sha1Len)).drop stunHeaderLen = _ at hbody
  have hlen₃ : (data₃.take (b₃.2 + 4)).length = b₃.2 + 4 := by
    have h₄ := (put_eq_done.1 hput₄).1
    rw [List.length_take]
    omega
  rw [hfull, List.drop_append_of_le_length (by unfold stunHeaderLen; omega), hthree, List.append_assoc, List.append_assoc] at hbody
  obtain ⟨cs, hcs, hrest⟩ := Attribute.exists_append (fun a ha => (hattrs a ha).1) (fun a ha => (has a ha).1) hbody.symm
  rw [← List.append_assoc] at hrest
  obtain ⟨-, -, -, -, hle, -⟩ := Attribute.exists_cons (fun a ha => (has a (hcs a ha)).1) (length_htons _) (length_htons _) hrest
  rw [ntohs_htons (by decide), hmac_length] at hle
  exact absurd hle (by decide)

/-- **When a request is well formed**: it is not one with an integrity value, the user name leaves room in the buffer, and the part of
the caller's transaction id that is not copied is the one generated. -/
theorem wellBuilt_iff :
    WellBuilt (stunBuildBindingReq littleEndian hmac g buffer.octets method transid generated) (transid.getD generated) ↔
      (label method).Fits g ∧ ∀ t ∈ transid, t.octets.drop stunTransIdSize = generated.octets.drop stunTransIdSize := by
  have hbuffer : buffer.octets.length = 128 := buffer.length_octets
  have hid := length_transIDOf transid generated
  have hname : g.stunUsername.length ≤ 128 := g.stunUsername_le
  have hput : put buffer.octets 0 (htons bindingRequest) = .done _ := put_of_le (by rw [length_htons]; omega)
  unfold stunBuildBindingReq
  generalize buffer.octets.take 0 ++ htons bindingRequest ++ buffer.octets.drop (0 + (htons bindingRequest).length) = data₁ at hput
  have hlen₁ := length_put hput
  have hput' : put data₁ 4 (transIDOf generated transid) = .done _ := put_of_le (by omega)
  generalize data₁.take 4 ++ transIDOf generated transid ++ data₁.drop (4 + (transIDOf generated transid).length) = data₂ at hput'
  have hlen₂ := length_put hput'
  have hheader : (data₂.take stunHeaderLen).length = stunHeaderLen := by
    rw [List.length_take]
    unfold stunHeaderLen
    omega
  have hb : Built (data₂.take stunHeaderLen) (data₂, stunHeaderLen) := by
    refine ⟨?_, (by decide : stunHeaderLen ≤ stunGuessedReqLen), (by decide : stunHeaderLen % 4 = 0), [], by simp,
      fun a ha => by cases ha⟩
    change data₂.length = 128
    omega
  have hdrop : (data₂.take stunHeaderLen).drop 4 = transIDOf generated transid := by
    have htake := take_put hput'
    rw [hid] at htake
    change (data₂.take (4 + 16)).drop 4 = _
    rw [htake, List.drop_left' (by rw [List.length_take]; omega)]
  rw [hput, Outcome.bind_done, hput', Outcome.bind_done]
  rw [← transIDOf_eq, ← hdrop]
  have hfill : usernamelen g = (g.stunUsername.length + 3) / 4 * 4 := rfl
  cases label method with
  | integrity => exact iff_of_false (not_wellBuilt_integrity hb hheader rfl) fun h => h.1
  | lifetimeQuery =>
    refine ((appends_putResponseAddress g).wellBuilt hb hheader rfl).trans (and_congr_left fun _ => ?_)
    exact iff_of_true (by decide) trivial
  | natQuery =>
    refine ((appends_natQuery g).wellBuilt hb hheader rfl).trans (and_congr_left fun _ => ?_)
    change 20 + (24 + if usernamelen g = 0 then 0 else 4 + usernamelen g) ≤ 128 ↔ g.stunUsername.length ≤ 80
    split <;> omega
  | bindChange =>
    refine ((appends_bindChange g).wellBuilt hb hheader rfl).trans (and_congr_left fun _ => ?_)
    change 20 + (24 + (4 + if usernamelen g = 0 then 0 else 4 + usernamelen g + 12)) ≤ 128 ↔ g.stunUsername.length ≤ 64
    split <;> omega

/-- A request that is sent again with an integrity value, for the user "user": of the id 1, ..., 16 the first four octets are in the
packet, and the last attribute declares sixty-four octets of twenty. -/
theorem not_wellBuilt_resent :
    ∃ (hmac : Hmac) (g : RequestGlobals) (buffer : RequestBuffer) (transid generated : TransID),
      g.stunUsername = [117, 115, 101, 114] ∧ transid.octets = [1, 2, 3, 4, 5, 6, 7, 8, 9, 10, 11, 12, 13, 14, 15, 16] ∧
        (stunBuildBindingReq true hmac g buffer.octets 0x08 (some transid) generated).map
            (fun b => (b.2, (b.1.drop 4).take 16, (b.1.drop 56).take 4)) =
          .done (80, [1, 2, 3, 4, 0, 0, 0, 0, 0, 0, 0, 0, 0, 0, 0, 0], [0, 8, 0, 64]) ∧
        ¬WellBuilt (stunBuildBindingReq true hmac g buffer.octets 0x08 (some transid) generated) transid := by
  have hresult : (stunBuildBindingReq true ⟨fun _ _ => List.replicate 20 0, fun _ _ => by simp [sha1Len]⟩
      ⟨[117, 115, 101, 114], by decide, [], 0, 0, 0, 0, 0⟩ (List.replicate 128 0) 0x08
      (some ⟨[1, 2, 3, 4, 5, 6, 7, 8, 9, 10, 11, 12, 13, 14, 15, 16], rfl⟩) ⟨List.replicate 16 0, rfl⟩).map
        (fun b => (b.2, (b.1.drop 4).take 16, (b.1.drop 56).take 4)) =
      .done (80, [1, 2, 3, 4, 0, 0, 0, 0, 0, 0, 0, 0, 0, 0, 0, 0], [0, 8, 0, 64]) := by
    decide +kernel
  refine ⟨_, _, ⟨List.replicate 128 0, rfl⟩, _, _, rfl, rfl, hresult, ?_⟩
  rintro ⟨data, dataLen, hdone, -, -, -, hid⟩
  rw [hdone] at hresult
  have hid' := (Prod.mk.inj (Prod.mk.inj (Outcome.done.inj hresult)).2).1
  exact absurd (hid.symm.trans hid') (by decide)

end WellBuilt

end CodeFactory.Stun
