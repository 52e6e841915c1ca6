import CodeFactory.Core.ConnectionRequest
import CodeFactory.Lib.Fields
import CodeFactory.Lib.Literal

/-!
# The parameters of a digest line

What `crq_do_authentication` reads from an `Authorization` line of digest type, and when it is what the line says.
-/

namespace CodeFactory.Core

open Conf (strchr strchr_append strchr_of_notMem strchr_eq_some)
open CodeFactory.Field (Place Stands)

/-! ## The names -/

/-- The names of `paramNameArray`. -/
inductive DigestParam where
  | username
  | realm
  | nonce
  | uri
  | qop
  | nc
  | cnonce
  | opaqueText
  | response
  deriving DecidableEq, Repr

namespace DigestParam

def name : DigestParam → List Char
  | username => "username".toList
  | realm => "realm".toList
  | nonce => "nonce".toList
  | uri => "uri".toList
  | qop => "qop".toList
  | nc => "nc".toList
  | cnonce => "cnonce".toList
  | opaqueText => "opaque".toList
  | response => "response".toList

/-- What is behind the places that the search for the name stops at. -/
def Follows : DigestParam → List Char → Prop
  | nc, rest => rest.head? = some '=' ∨ rest.head? = some ' '
  | _, _ => True

theorem name_nc : nc.name = ['n', 'c'] := ofChars (P := fun chars => chars = ['n', 'c']) rfl

theorem follows_eq (p : DigestParam) (rest : List Char) : p.Follows ('=' :: rest) := by
  cases p
  case nc => exact .inl rfl
  all_goals trivial

theorem notMem_name (p : DigestParam) : '=' ∉ p.name := by
  cases p <;> decide

theorem name_injective {p q : DigestParam} (h : p.name = q.name) : p = q := by
  revert h
  cases p <;> cases q <;> decide

end DigestParam

namespace AuthParams

/-- The array of a parameter. -/
def get (a : AuthParams) : DigestParam → List Char
  | .username => a.username
  | .realm => a.realm
  | .nonce => a.nonce
  | .uri => a.uri
  | .qop => a.qop
  | .nc => a.nc
  | .cnonce => a.cnonce
  | .opaqueText => a.opaqueText
  | .response => a.response

/-- Arrays that hold some values. -/
def of (value : DigestParam → List Char) : AuthParams where
  username := value .username
  realm := value .realm
  nonce := value .nonce
  uri := value .uri
  qop := value .qop
  nc := value .nc
  cnonce := value .cnonce
  opaqueText := value .opaqueText
  response := value .response

@[simp] theorem get_of (value : DigestParam → List Char) (p : DigestParam) : (of value).get p = value p := by
  cases p <;> rfl

end AuthParams

/-! ## The search for one name -/

variable {line held value : List Char}

/-- `nc` is found where an equals sign or a blank comes next. -/
theorem findNc_iff {s : List Char} :
    findNc line = some s ↔ ∃ rest, s = DigestParam.nc.name ++ rest ∧ Place DigestParam.nc.Follows DigestParam.nc.name line rest := by
  have hname : "nc".toList = ['n', 'c'] := DigestParam.name_nc
  rw [DigestParam.name_nc]
  induction line with
  | nil =>
    refine iff_of_false (fun h => by cases h) ?_
    rintro ⟨rest, -, before, hline, -, -⟩
    have hlength := congrArg List.length hline
    simp at hlength
  | cons ch line ih =>
    rw [findNc, hname]
    by_cases hhere : ∃ rest, ch :: line = ['n', 'c'] ++ rest ∧ DigestParam.nc.Follows rest
    · obtain ⟨rest, hline, hok⟩ := hhere
      have hplace : Place DigestParam.nc.Follows ['n', 'c'] (ch :: line) rest := Place.here hline hok
      have htail : line.tail = rest := congrArg (fun l => l.tail.tail) hline
      have hprefix : ['n', 'c'].isPrefixOf (ch :: line) = true := List.isPrefixOf_iff_prefix.2 ⟨rest, hline.symm⟩
      rw [if_pos (by rw [htail, hprefix]; simpa [DigestParam.Follows] using hok)]
      constructor
      · intro h
        cases h
        exact ⟨rest, hline, hplace⟩
      · rintro ⟨rest', rfl, hplace'⟩
        rw [hplace'.unique hplace, hline]
    · have hneg : ¬((['n', 'c'].isPrefixOf (ch :: line) &&
          (line.tail.head? == some '=' || line.tail.head? == some ' ')) = true) := by
        intro h
        rw [Bool.and_eq_true] at h
        obtain ⟨rest, hline⟩ := List.isPrefixOf_iff_prefix.1 h.1
        have htail : line.tail = rest := congrArg (fun l => l.tail.tail) hline.symm
        refine hhere ⟨rest, hline.symm, ?_⟩
        rw [htail] at h
        simpa [DigestParam.Follows] using h.2
      rw [if_neg hneg]
      refine ih.trans (exists_congr fun rest => and_congr_right fun _ => ?_)
      exact (Place.cons_iff hhere).symm

/-- Another name is found at its first place. -/
theorem findParam_of_ne {name s : List Char} (h : name ≠ DigestParam.nc.name) :
    findParam name line = some s ↔ ∃ rest, s = name ++ rest ∧ Place (fun _ => True) name line rest := by
  have hne : name ≠ "nc".toList := h
  rw [findParam, if_neg hne]
  simp only [Place.iff_dropInfix?, Option.map_eq_some_iff, Prod.exists]
  constructor
  · rintro ⟨before, rest, hfind, rfl⟩
    exact ⟨rest, rfl, before, hfind⟩
  · rintro ⟨rest, rfl, before, hfind⟩
    exact ⟨before, rest, hfind, rfl⟩

theorem findParam_iff (p : DigestParam) {s : List Char} :
    findParam p.name line = some s ↔ ∃ rest, s = p.name ++ rest ∧ Place p.Follows p.name line rest := by
  by_cases hp : p = .nc
  · subst hp
    exact (iff_of_eq (congrArg (· = some s) (if_pos rfl))).trans findNc_iff
  · have hfollows : p.Follows = fun _ => True := by
      funext rest
      cases p
      case nc => exact absurd rfl hp
      all_goals rfl
    rw [findParam_of_ne fun h => hp (DigestParam.name_injective h), hfollows]

theorem strchr_append_of_notMem {ch : Char} {s : List Char} (h : ch ∉ s) (t : List Char) :
    strchr ch (s ++ t) = (strchr ch t).map fun r => (s ++ r.1, r.2) := by
  induction s with
  | nil => simp
  | cons x s ih =>
    obtain ⟨hx, h⟩ := List.ne_and_not_mem_of_not_mem_cons h
    rw [List.cons_append, strchr, if_neg (Ne.symm hx), ih h, Option.map_map]
    rfl

/-- What is read is the first word, without quotes around it. -/
theorem dequote_eq_done {word : List Char} : dequote word = .done value ↔ Field.Unquoted word value := by
  rw [dequote]
  split
  · next hquotes =>
    obtain ⟨hhead, hlast⟩ := hquotes
    cases word with
    | nil => cases hhead
    | cons x inner =>
      obtain rfl : x = '"' := Option.some.inj hhead
      cases inner using List.reverseRecOn with
      | nil =>
        refine iff_of_false (by simp) ?_
        rintro (h | ⟨-, h⟩)
        · simp at h
        · exact h ⟨rfl, rfl⟩
      | append_singleton inner y _ =>
        obtain rfl : y = '"' := by simpa [List.getLast?_cons] using hlast
        rw [if_neg (by simp)]
        simp only [List.tail_cons, List.dropLast_concat, Outcome.done.injEq, Field.Unquoted]
        constructor
        · rintro rfl
          exact .inl rfl
        · rintro (h | ⟨-, h⟩)
          · exact List.append_cancel_right (List.cons_eq_cons.1 h).2
          · exact absurd ⟨hhead, hlast⟩ h
  · next hquotes =>
    simp only [Outcome.done.injEq, Field.Unquoted]
    constructor
    · rintro rfl
      exact .inr ⟨rfl, hquotes⟩
    · rintro (rfl | ⟨rfl, -⟩)
      · exact absurd ⟨rfl, by simp [List.getLast?_cons]⟩ hquotes
      · rfl

/-- What an array holds behind a step of the loop: what it held where the name is not found, and else the value that stands in the
line. -/
theorem authParam_iff {ok : List Char → Prop} {name : List Char} (hname : '=' ∉ name)
    (hsearch : ∀ s, findParam name line = some s ↔ ∃ rest, s = name ++ rest ∧ Place ok name line rest) :
    authParam line name held = .done (some value) ↔
      (¬∃ rest, Place ok name line rest) ∧ held = value ∨ Stands ok crqAuthParamLen name line value := by
  rw [authParam]
  cases hfind : findParam name line with
  | none =>
    have hnone : ¬∃ rest, Place ok name line rest := by
      rintro ⟨rest, hrest⟩
      rw [(hsearch _).2 ⟨rest, rfl, hrest⟩] at hfind
      cases hfind
    simp only [Outcome.done.injEq, Option.some.injEq]
    constructor
    · exact fun h => .inl ⟨hnone, h⟩
    · rintro (⟨-, h⟩ | ⟨rest, _, _, hrest, -⟩)
      · exact h
      · exact absurd ⟨rest, hrest⟩ hnone
  | some s =>
    obtain ⟨rest, rfl, hplace⟩ := (hsearch s).1 hfind
    have hreads : (¬∃ rest, Place ok name line rest) ∧ held = value ∨ Stands ok crqAuthParamLen name line value ↔
        ∃ field word, Field.Between rest field ∧ field.length < crqAuthParamLen ∧ Field.FirstWord field word ∧
          Field.Unquoted word value := by
      constructor
      · rintro (⟨hnone, -⟩ | ⟨rest', field, word, hrest', h⟩)
        · exact absurd ⟨rest, hplace⟩ hnone
        · rw [hplace.unique hrest']
          exact ⟨field, word, h⟩
      · rintro ⟨field, word, h⟩
        exact .inr ⟨rest, field, word, hplace, h⟩
    rw [hreads]
    have hskip : strchr '=' (name ++ rest) = (strchr '=' rest).map fun r => (name ++ r.1, r.2) :=
      strchr_append_of_notMem hname rest
    dsimp only
    rw [hskip]
    cases heq : strchr '=' rest with
    | none =>
      refine iff_of_false (by simp) ?_
      rintro ⟨field, word, ⟨skipped, behind, rfl, hskipped, -⟩, -⟩
      rw [strchr_append hskipped] at heq
      cases heq
    | some r =>
      obtain ⟨skipped, text⟩ := r
      obtain ⟨rfl, hskipped⟩ := strchr_eq_some heq
      have hbetween : ∀ field, Field.Between (skipped ++ '=' :: text) field ↔ text.takeWhile (· != ',') = field := by
        intro field
        rw [Field.between_iff]
        constructor
        · rintro ⟨skipped', text', hsame, hskipped', hfield⟩
          have hfirst := strchr_append hskipped' text'
          rw [← hsame, heq] at hfirst
          cases hfirst
          exact hfield
        · exact fun hfield => ⟨skipped, text, rfl, hskipped, hfield⟩
      simp only [Option.map_some, hbetween]
      split
      · next hroom =>
        refine iff_of_false (by simp) ?_
        rintro ⟨field, word, rfl, hlength, -⟩
        omega
      · next hroom =>
        rw [Outcome.map_eq_done]
        simp only [Option.some.injEq, exists_eq_right, dequote_eq_done]
        constructor
        · intro h
          exact ⟨_, _, rfl, Nat.lt_of_not_le hroom, Field.firstWord_iff.2 rfl, h⟩
        · rintro ⟨field, word, rfl, -, hword, h⟩
          rw [trim, Field.firstWord_iff.1 hword]
          exact h

/-- What an array of `crq_do_authentication` holds behind the loop. -/
def ReadsAs (line : List Char) (p : DigestParam) (held value : List Char) : Prop :=
  (¬∃ rest, Place p.Follows p.name line rest) ∧ held = value ∨ Stands p.Follows crqAuthParamLen p.name line value

theorem authParam_eq_some (p : DigestParam) : authParam line p.name held = .done (some value) ↔ ReadsAs line p held value :=
  authParam_iff p.notMem_name fun _ => findParam_iff p

/-! ## The loop over the names -/

section NextParam

variable {name : String} {get : AuthParams → List Char} {set : AuthParams → List Char → AuthParams} {a b : AuthParams}

/-- A step that sets an array. -/
theorem nextParam_some (h : authParam line name.toList (get b) = .done (some value)) :
    nextParam line name get set (some b) = .done (some (set b value)) := by
  rw [nextParam, h]
  rfl

theorem nextParam_eq_some (h : nextParam line name get set (some b) = .done (some a)) :
    ∃ value, authParam line name.toList (get b) = .done (some value) ∧ set b value = a := by
  obtain ⟨read, hread, h⟩ := Outcome.map_eq_done.1 h
  obtain ⟨value, rfl, rfl⟩ := Option.map_eq_some_iff.1 h
  exact ⟨value, hread, rfl⟩

/-- What sets all arrays goes on behind a step that sets one. -/
theorem bind_nextParam {k : Option AuthParams → Outcome (Option AuthParams)}
    (h : (nextParam line name get set (some b)).bind k = .done (some a)) (hk : k none = .done none) :
    ∃ value, authParam line name.toList (get b) = .done (some value) ∧ k (some (set b value)) = .done (some a) := by
  obtain ⟨read, hread, h⟩ := Outcome.bind_eq_done.1 h
  cases read with
  | none =>
    rw [hk] at h
    cases h
  | some c =>
    obtain ⟨value, hvalue, rfl⟩ := nextParam_eq_some hread
    exact ⟨value, hvalue, h⟩

end NextParam

/-- The loop has read a line when it has read for every name what is there. -/
theorem readParams_eq_some {held a : AuthParams} :
    readParams line held = .done (some a) ↔ ∀ p : DigestParam, ReadsAs line p (held.get p) (a.get p) := by
  simp only [← authParam_eq_some]
  constructor
  · intro h
    rw [readParams] at h
    obtain ⟨username, husername, h⟩ := bind_nextParam h rfl
    obtain ⟨realm, hrealm, h⟩ := bind_nextParam h rfl
    obtain ⟨nonce, hnonce, h⟩ := bind_nextParam h rfl
    obtain ⟨uri, huri, h⟩ := bind_nextParam h rfl
    obtain ⟨qop, hqop, h⟩ := bind_nextParam h rfl
    obtain ⟨nc, hnc, h⟩ := bind_nextParam h rfl
    obtain ⟨cnonce, hcnonce, h⟩ := bind_nextParam h rfl
    obtain ⟨opaqueText, hopaque, h⟩ := bind_nextParam h rfl
    obtain ⟨response, hresponse, rfl⟩ := nextParam_eq_some h
    intro p
    cases p
    case username => exact husername
    case realm => exact hrealm
    case nonce => exact hnonce
    case uri => exact huri
    case qop => exact hqop
    case nc => exact hnc
    case cnonce => exact hcnonce
    case opaqueText => exact hopaque
    case response => exact hresponse
  · intro h
    rw [readParams, nextParam_some (h .username), Outcome.bind_done, nextParam_some (h .realm), Outcome.bind_done,
      nextParam_some (h .nonce), Outcome.bind_done, nextParam_some (h .uri), Outcome.bind_done, nextParam_some (h .qop),
      Outcome.bind_done, nextParam_some (h .nc), Outcome.bind_done, nextParam_some (h .cnonce), Outcome.bind_done,
      nextParam_some (h .opaqueText), Outcome.bind_done, nextParam_some (h .response)]
    rfl

/-! ## Lines of digest type -/

/-- What an `Authorization` line of digest type begins with. -/
def digestHead : List Char := "Authorization: Digest ".toList

/-- An `Authorization` line of digest type that fits the array `line`, with some of the parameters but `opaque` in any order. -/
structure DigestLine where
  fields : List Field.Written
  named : ∀ w ∈ fields, ∃ p : DigestParam, p ≠ .opaqueText ∧ w.name = p.name
  once : (fields.map (·.name)).Nodup
  plain : ∀ w ∈ fields, w.Plain
  short : ∀ w ∈ fields, w.value.length < crqAuthParamLen
  fits : (Field.line digestHead fields).length < lineLen

namespace DigestLine

def text (l : DigestLine) : List Char := Field.line digestHead l.fields

/-- The value that is given for a parameter, which is empty if there is none. -/
def given (l : DigestLine) (p : DigestParam) : List Char := ((l.fields.find? (·.name = p.name)).map (·.value)).getD []

variable (l : DigestLine) (held : AuthParams)

/-- Every parameter is the one that is given, and one that is not given is empty. -/
def ExtractsExactly : Prop :=
  ∃ a, readParams l.text held = .done (some a) ∧ ∀ p : DigestParam, p ≠ .opaqueText → a.get p = l.given p

/-- The name of a field stands in no place before that of the field. -/
def StandsFirst (p : DigestParam) (w : Field.Written) (post : List Field.Written) : Prop :=
  Place p.Follows p.name l.text ('=' :: (w.field ++ Field.behind post))

/-- When a line is read as it is written. -/
structure ReadAsWritten : Prop where
  /-- A field that its name finds has no blanks in its value, and room with its quotes. -/
  found : ∀ pre w post p, l.fields = pre ++ w :: post → w.name = DigestParam.name p → l.StandsFirst p w post →
    w.field.length < crqAuthParamLen ∧ ' ' ∉ w.value
  /-- Where the name stands in an earlier place, the same value happens to be there. -/
  earlier : ∀ pre w post p, l.fields = pre ++ w :: post → w.name = DigestParam.name p → ¬l.StandsFirst p w post →
    Stands p.Follows crqAuthParamLen p.name l.text w.value
  /-- The name of a parameter that is not given stands nowhere and its array happened to be empty, or an empty value is there. -/
  absent : ∀ p : DigestParam, p ≠ .opaqueText → (∀ w ∈ l.fields, w.name ≠ p.name) →
    (¬∃ rest, Place p.Follows p.name l.text rest) ∧ held.get p = [] ∨ Stands p.Follows crqAuthParamLen p.name l.text []
  /-- Where `opaque` stands in the line, there is a value with room. -/
  opaque_text : (¬∃ rest, Place DigestParam.opaqueText.Follows DigestParam.opaqueText.name l.text rest) ∨
    ∃ value, Stands DigestParam.opaqueText.Follows crqAuthParamLen DigestParam.opaqueText.name l.text value

variable {l held}

theorem given_eq {pre post : List Field.Written} {w : Field.Written} {p : DigestParam} (h : l.fields = pre ++ w :: post)
    (hp : w.name = p.name) : l.given p = w.value := by
  have honce := l.once
  rw [h, List.map_append, List.map_cons, List.nodup_append] at honce
  have hpre : pre.find? (·.name = p.name) = none := by
    rw [List.find?_eq_none]
    intro v hv hname
    rw [decide_eq_true_eq, ← hp] at hname
    exact honce.2.2 _ (List.mem_map_of_mem hv) _ List.mem_cons_self hname
  rw [given, h, List.find?_append, hpre, Option.none_or, List.find?_cons_of_pos (by rw [hp]; exact decide_eq_true rfl)]
  rfl

theorem given_eq_nil {p : DigestParam} (h : ∀ w ∈ l.fields, w.name ≠ p.name) : l.given p = [] := by
  have hnone : l.fields.find? (·.name = p.name) = none := by
    rw [List.find?_eq_none]
    intro w hw hname
    exact h w hw (of_decide_eq_true hname)
  rw [given, hnone]
  rfl

/-- Every array is read as it should be, exactly when the parameters are. -/
theorem extractsExactly_iff_reads : l.ExtractsExactly held ↔
    (∀ p : DigestParam, p ≠ .opaqueText → ReadsAs l.text p (held.get p) (l.given p)) ∧
      ∃ value, ReadsAs l.text .opaqueText (held.get .opaqueText) value := by
  constructor
  · rintro ⟨a, hread, hgiven⟩
    have hreads := readParams_eq_some.1 hread
    refine ⟨fun p hp => ?_, _, hreads .opaqueText⟩
    rw [← hgiven p hp]
    exact hreads p
  · rintro ⟨hgiven, value, hopaque⟩
    refine ⟨AuthParams.of fun p => if p = .opaqueText then value else l.given p, readParams_eq_some.2 fun p => ?_, fun p hp => ?_⟩
    · rw [AuthParams.get_of]
      split
      · next hp => exact hp ▸ hopaque
      · next hp => exact hgiven p hp
    · rw [AuthParams.get_of, if_neg hp]

theorem exists_place {pre post : List Field.Written} {w : Field.Written} {p : DigestParam} (h : l.fields = pre ++ w :: post)
    (hp : w.name = p.name) : ∃ rest, Place p.Follows p.name l.text rest := by
  obtain ⟨before, hline⟩ := Field.line_append digestHead pre w post
  have htext : l.text = before ++ (p.name ++ '=' :: (w.field ++ Field.behind post)) := by rw [text, h, hline, hp]
  obtain ⟨rest, hrest, -⟩ := Place.exists_of_eq htext (p.follows_eq (w.field ++ Field.behind post))
  exact ⟨rest, hrest⟩

/-- **The parameters of a line are extracted exactly** if and only if the line is read as it is written. -/
theorem extractsExactly_iff (l : DigestLine) (held : AuthParams) : l.ExtractsExactly held ↔ l.ReadAsWritten held := by
  rw [extractsExactly_iff_reads]
  constructor
  · rintro ⟨hgiven, value, hopaque⟩
    have hstands : ∀ pre w post p, l.fields = pre ++ w :: post → w.name = DigestParam.name p →
        Stands p.Follows crqAuthParamLen p.name l.text w.value := by
      intro pre w post p hfields hname
      have hne : p ≠ .opaqueText := by
        obtain ⟨q, hq, hqname⟩ := l.named w (by rw [hfields]; exact List.mem_append_right _ List.mem_cons_self)
        rwa [DigestParam.name_injective (hname.symm.trans hqname)]
      have hreads := hgiven p hne
      rw [given_eq hfields hname] at hreads
      obtain ⟨hnone, -⟩ | hstands := hreads
      · exact absurd (exists_place hfields hname) hnone
      · exact hstands
    refine ⟨fun pre w post p hfields hname hfirst => ?_, fun pre w post p hfields hname _ => hstands pre w post p hfields hname,
      fun p hp habsent => ?_, ?_⟩
    · have hplain := l.plain w (by rw [hfields]; exact List.mem_append_right _ List.mem_cons_self)
      rw [StandsFirst, ← hname] at hfirst
      have h := hstands pre w post p hfields hname
      rw [← hname] at h
      exact (Field.Written.stands_iff hplain hfirst).1 h
    · have hreads := hgiven p hp
      rwa [given_eq_nil habsent] at hreads
    · obtain ⟨hnone, -⟩ | hstands := hopaque
      · exact .inl hnone
      · exact .inr ⟨value, hstands⟩
  · intro h
    constructor
    · intro p hp
      by_cases habsent : ∀ w ∈ l.fields, w.name ≠ p.name
      · rw [given_eq_nil habsent]
        exact h.absent p hp habsent
      · simp only [not_forall, not_not] at habsent
        obtain ⟨w, hw, hname⟩ := habsent
        obtain ⟨pre, post, hfields⟩ := List.append_of_mem hw
        rw [given_eq hfields hname]
        by_cases hfirst : l.StandsFirst p w post
        · have hread := h.found pre w post p hfields hname hfirst
          rw [StandsFirst, ← hname] at hfirst
          have hstands : Stands p.Follows crqAuthParamLen w.name l.text w.value :=
            (Field.Written.stands_iff (l.plain w hw) hfirst).2 hread
          rw [hname] at hstands
          exact .inr hstands
        · exact .inr (h.earlier pre w post p hfields hname hfirst)
    · obtain hnone | ⟨value, hstands⟩ := h.opaque_text
      · exact ⟨held.get .opaqueText, .inl ⟨hnone, rfl⟩⟩
      · exact ⟨value, .inr hstands⟩

/-! ### A line with `cnonce` before `nonce` -/

/-- `cnonce=5`. -/
def five : Field.Written := ⟨0, DigestParam.cnonce.name, false, ['5']⟩

/-- `nonce=7`. -/
def seven : Field.Written := ⟨1, DigestParam.nonce.name, false, ['7']⟩

theorem named_fiveSeven : ∀ w ∈ [five, seven], ∃ p : DigestParam, p ≠ .opaqueText ∧ w.name = p.name := by
  intro w hw
  obtain rfl | hw := List.mem_cons.1 hw
  · exact ⟨.cnonce, DigestParam.noConfusion, rfl⟩
  · obtain rfl := List.mem_singleton.1 hw
    exact ⟨.nonce, DigestParam.noConfusion, rfl⟩

/-- `Authorization: Digest cnonce=5, nonce=7`. -/
def fiveSeven : DigestLine where
  fields := [five, seven]
  named := named_fiveSeven
  once := by decide +kernel
  plain := by decide +kernel
  short := by decide +kernel
  fits := by decide +kernel

theorem readParams_fiveSeven : readParams fiveSeven.text {} = .done (some { cnonce := ['5'], nonce := ['5'] }) := by decide +kernel

/-- `nonce` is found in `cnonce`. -/
theorem not_extractsExactly : ¬∀ (l : DigestLine) (held : AuthParams), l.ExtractsExactly held := by
  intro h
  obtain ⟨a, hread, hgiven⟩ := h fiveSeven {}
  rw [readParams_fiveSeven] at hread
  obtain rfl := Option.some.inj (Outcome.done.inj hread)
  have hnonce := hgiven .nonce DigestParam.noConfusion
  have hfields : fiveSeven.fields = [five] ++ seven :: [] := rfl
  have hwritten : fiveSeven.given .nonce = ['7'] := given_eq hfields rfl
  rw [hwritten] at hnonce
  cases hnonce

end DigestLine

end CodeFactory.Core
