import CodeFactory.Http.Parsing

/-!
# The header of an accepted response

Which lines `parse_http_header` passes in the header of a `200` response: lines that fit the array, a content type that is
`text/xml`, and cookies that are taken. The lines are read anew with every piece that is received.
-/

namespace CodeFactory.Http

open Conf (cString atoi intMax digitsNum isspace)

/-! ## Taking a line -/

/-- What a line of the header of an accepted response leaves of the array `line` and of `sessionCookie`, if it is taken. -/
def takeLine (kept : List Char × List SessionCookie) (l : List Char) : Option (List Char × List SessionCookie) :=
  if httpHeadLineLen ≤ l.length then none
  else if beginsWith "Content-Type:".toList l then
    if mentions l "text/xml".toList then some (fill kept.1 l, kept.2) else none
  else if beginsWith "Set-Cookie".toList l then
    match parseCookie (cString ((fill kept.1 l).drop 12)) kept.2 with
    | .done (some sessionCookie) => some (fill kept.1 l, sessionCookie)
    | _ => none
  else some (fill kept.1 l, kept.2)

/-- What the lines leave, one after the other. -/
def takeLines (kept : List Char × List SessionCookie) (ls : List Line) : Option (List Char × List SessionCookie) :=
  ls.foldlM (fun kept l => takeLine kept l.text) kept

/-- What is left of `sessionCookie` when lines are read behind a status line. -/
def StatusLine.takes (s : StatusLine) (sessionCookie : List SessionCookie) (ls : List Line) : Option (List SessionCookie) :=
  (takeLines (fill (List.replicate httpHeadLineLen '\x00') s.text, sessionCookie) ls).map (·.2)

/-- The lines are taken `n` times, one after the other. -/
def StatusLine.Takes (s : StatusLine) (ls : List Line) : Nat → List SessionCookie → Prop
  | 0, _ => True
  | n + 1, sessionCookie => ∃ sessionCookie', s.takes sessionCookie ls = some sessionCookie' ∧ s.Takes ls n sessionCookie'

/-! ## Beginnings of lines -/

theorem beginsWith_iff {name text : List Char} :
    beginsWith name text = true ↔ ∃ t, text.map Char.toLower = name.map Char.toLower ++ t := by
  unfold beginsWith
  rw [List.isPrefixOf_iff_prefix]
  exact ⟨fun ⟨t, ht⟩ => ⟨t, ht.symm⟩, fun ⟨t, ht⟩ => ⟨t, ht.symm⟩⟩

/-- The state as far as it decides which lines are taken. -/
def HeaderState.kept (st : HeaderState) : List Char × List SessionCookie := (st.line, st.sessionCookie)

variable {st st' : HeaderState}

/-- A status with which the loop is left. -/
theorem okLine_left {headType : HeadType} {status : HttpStatus} (h : st.okLine headType = .done (some status, st')) :
    status = .contentNotSupport ∨ status = .formatError ∨
      status = .statusNoContent ∧ beginsWith "Content-Length:".toList st.text = true := by
  unfold HeaderState.okLine at h
  split at h
  · split at h
    · cases h
      exact .inl rfl
    · cases h
  split at h
  · next hname =>
    obtain ⟨cl, -, heq⟩ := Outcome.map_eq_done.1 h
    obtain ⟨hcl, -⟩ := Prod.mk.inj heq
    split at hcl
    · cases hcl
      exact .inr (.inr ⟨rfl, hname⟩)
    · cases hcl
  split at h
  · obtain ⟨r, -, heq⟩ := Outcome.map_eq_done.1 h
    cases r with
    | some sessionCookie => cases heq
    | none =>
      cases heq
      exact .inr (.inl rfl)
  split at h
  all_goals cases h

/-- A line that is not about the length is passed if it is taken. -/
theorem passLine_kept (st : HeaderState) {l : Line} (hname : beginsWith "Content-Length:".toList l.text = false) :
    (passLine (·.okLine .soapHead) st l).map HeaderState.kept = takeLine st.kept l.text := by
  unfold passLine takeLine
  by_cases hlen : l.text.length < httpHeadLineLen
  · rw [if_pos hlen, if_neg (Nat.not_le.2 hlen)]
    unfold HeaderState.okLine
    beta_reduce
    rw [HeaderState.text_enter st l.clean, hname]
    by_cases htype : beginsWith "Content-Type:".toList l.text = true
    · rw [if_pos htype, if_pos htype]
      by_cases hxml : mentions l.text "text/xml".toList = true
      · rw [if_neg (fun h => Bool.false_ne_true (h.2.symm.trans hxml)), if_pos hxml]
        rfl
      · rw [if_pos ⟨rfl, Bool.eq_false_iff.2 hxml⟩, if_neg hxml]
        rfl
    · rw [if_neg htype, if_neg htype, if_neg Bool.false_ne_true]
      by_cases hcookie : beginsWith "Set-Cookie".toList l.text = true
      · rw [if_pos hcookie, if_pos hcookie]
        have hparse : parseCookie (cString ((st.enter l.text).line.drop 12)) (st.enter l.text).sessionCookie =
            parseCookie (cString ((fill st.kept.1 l.text).drop 12)) st.kept.2 := rfl
        rw [hparse]
        rcases parseCookie (cString ((fill st.kept.1 l.text).drop 12)) st.kept.2 with (_ | sessionCookie) | _ | _
        all_goals rfl
      · rw [if_neg hcookie, if_neg hcookie]
        by_cases hcoding : (beginsWith "Transfer-Encoding".toList l.text && mentionsNoCase l.text "chunked".toList) = true
        · rw [if_pos hcoding]
          rfl
        · rw [if_neg hcoding]
          rfl
  · rw [if_neg hlen, if_pos (Nat.le_of_not_lt hlen)]
    rfl

/-- Such a line leaves the length, and a chunk flag that is set. -/
theorem passLine_length {l : Line} (hname : beginsWith "Content-Length:".toList l.text = false)
    (h : passLine (·.okLine .soapHead) st l = some st') :
    st'.contentLength = st.contentLength ∧ (st.gChunkFlag = true → st'.gChunkFlag = true) := by
  obtain ⟨-, h⟩ := passLine_eq_some.1 h
  unfold HeaderState.okLine at h
  rw [HeaderState.text_enter st l.clean, hname] at h
  split at h
  · split at h
    · cases h
    · cases h
      exact ⟨rfl, id⟩
  rw [if_neg Bool.false_ne_true] at h
  split at h
  · obtain ⟨r, -, heq⟩ := Outcome.map_eq_done.1 h
    cases r with
    | some sessionCookie =>
      cases heq
      exact ⟨rfl, id⟩
    | none => cases heq
  split at h
  · cases h
    exact ⟨rfl, fun _ => rfl⟩
  · cases h
    exact ⟨rfl, id⟩

/-! ## The line that delimits the body -/

theorem Blank.isspace {l : List Char} (h : Blank l) : ∀ ch ∈ l, isspace ch = true := by
  intro ch hch
  obtain rfl | rfl := h ch hch
  all_goals rfl

namespace Framing

variable {c : Counted} {d : Chunked}

theorem counted_text : (counted c).text = c.name ++ (c.before ++ (c.digits ++ c.behind)) := by
  simp [text, List.append_assoc]

theorem chunked_text : (chunked d).text = d.name ++ (d.before ++ (d.coding ++ d.behind)) := by
  simp [text, List.append_assoc]

/-- The number in a `Content-Length` line is the length of the body. -/
theorem atoi_text : atoi ((counted c).text.drop 15) = c.body.length := by
  have hname : c.name.length = 15 := by
    have := congrArg List.length c.name_eq
    rw [List.length_map] at this
    exact this
  have hdrop : (counted c).text.drop 15 = c.before ++ (c.digits ++ c.behind) := by
    rw [counted_text, List.drop_left' hname]
  have hbehind : ∀ ch ∈ c.behind.head?, ch.isDigit = false := by
    intro ch hch
    obtain rfl | rfl := c.behind_blank ch (List.mem_of_mem_head? hch)
    all_goals rfl
  rw [hdrop, atoi_digits c.before_blank.isspace c.digits_digit c.digits_ne hbehind, c.length_eq]

theorem counted_lower : ∃ t, (counted c).text.map Char.toLower = "content-length:".toList ++ t := by
  refine ⟨(c.before ++ (c.digits ++ c.behind)).map Char.toLower, ?_⟩
  rw [counted_text, List.map_append, c.name_eq]

theorem chunked_lower : ∃ t, (chunked d).text.map Char.toLower =
    "transfer-encoding:".toList ++ (t ++ ("chunked".toList ++ d.behind.map Char.toLower)) := by
  refine ⟨d.before.map Char.toLower, ?_⟩
  rw [chunked_text, List.map_append, List.map_append, List.map_append, d.name_eq, d.coding_eq]

theorem counted_beginsWith : beginsWith "Content-Length:".toList (counted c).text = true := by
  obtain ⟨t, ht⟩ := counted_lower (c := c)
  exact beginsWith_iff.2 ⟨t, ht⟩

/-- What a `Content-Length` line does to the header of an accepted response. -/
theorem counted_okLine (st : HeaderState) : (st.enter (counted c).text).okLine .soapHead =
    if (c.body.length : Int) ≤ intMax then
      .done (if c.body = [] then some .statusNoContent else none,
        { st.enter (counted c).text with contentLength := some c.body.length })
    else .undefined := by
  obtain ⟨t, ht⟩ := counted_lower (c := c)
  have htext : (st.enter (counted c).text).text = (counted c).text := HeaderState.text_enter st (counted c).line.clean
  have htype : beginsWith "Content-Type:".toList (counted c).text = false := by
    unfold beginsWith
    rw [ht]
    rfl
  have hlow : -intMax - 1 ≤ (c.body.length : Int) := by unfold intMax; omega
  unfold HeaderState.okLine
  rw [htext, htype, counted_beginsWith, if_neg Bool.false_ne_true, if_pos rfl]
  unfold atoiInt
  rw [atoi_text]
  by_cases hint : (c.body.length : Int) ≤ intMax
  · rw [if_pos ⟨hlow, hint⟩, if_pos hint]
    by_cases hbody : c.body = []
    · simp [Outcome.map, hbody]
    · have hne : (c.body.length : Int) ≠ 0 := by
        have := List.length_pos_iff.2 hbody
        omega
      simp [Outcome.map, hbody]
  · rw [if_neg (fun h => hint h.2), if_neg hint]
    rfl

/-- What a `Transfer-Encoding` line does to the header of an accepted response. -/
theorem chunked_okLine (st : HeaderState) : (st.enter (chunked d).text).okLine .soapHead =
    .done (none, { st.enter (chunked d).text with gChunkFlag := true }) := by
  obtain ⟨t, ht⟩ := chunked_lower (d := d)
  have htext : (st.enter (chunked d).text).text = (chunked d).text := HeaderState.text_enter st (chunked d).line.clean
  have htype : beginsWith "Content-Type:".toList (chunked d).text = false := by
    unfold beginsWith
    rw [ht]
    rfl
  have hlength : beginsWith "Content-Length:".toList (chunked d).text = false := by
    unfold beginsWith
    rw [ht]
    rfl
  have hcookie : beginsWith "Set-Cookie".toList (chunked d).text = false := by
    unfold beginsWith
    rw [ht]
    rfl
  have hcoding : beginsWith "Transfer-Encoding".toList (chunked d).text = true := by
    unfold beginsWith
    rw [ht]
    rfl
  have hchunked : mentionsNoCase (chunked d).text "chunked".toList = true := by
    unfold mentionsNoCase mentions
    rw [Option.isSome_iff_ne_none, Ne, dropInfix?_eq_none, not_not, ht]
    exact ⟨"transfer-encoding:".toList ++ t, d.behind.map Char.toLower, by simp [List.append_assoc]⟩
  unfold HeaderState.okLine
  rw [htext, htype, hlength, hcookie, hcoding, hchunked]
  rfl

/-- The body is not so long that its length is no `int`, and there is one if its length is given. -/
def Passes : Framing → Prop
  | counted c => c.body ≠ [] ∧ (c.body.length : Int) ≤ intMax
  | chunked _ => True

/-- What the header of an accepted response says on the body. -/
def Says (f : Framing) (contentLength : Option Int) (st' : HeaderState) : Prop :=
  match f with
  | counted c => st'.contentLength = some (c.body.length : Int)
  | chunked _ => st'.contentLength = contentLength ∧ st'.gChunkFlag = true

variable {f : Framing}

/-- A line that delimits the body is taken if it fits the array. -/
theorem takeLine_text (kept : List Char × List SessionCookie) :
    takeLine kept f.text = if httpHeadLineLen ≤ f.text.length then none else some (fill kept.1 f.text, kept.2) := by
  have htype : beginsWith "Content-Type:".toList f.text = false := by
    cases f with
    | counted c =>
      obtain ⟨t, ht⟩ := counted_lower (c := c)
      unfold beginsWith
      rw [ht]
      rfl
    | chunked d =>
      obtain ⟨t, ht⟩ := chunked_lower (d := d)
      unfold beginsWith
      rw [ht]
      rfl
  have hcookie : beginsWith "Set-Cookie".toList f.text = false := by
    cases f with
    | counted c =>
      obtain ⟨t, ht⟩ := counted_lower (c := c)
      unfold beginsWith
      rw [ht]
      rfl
    | chunked d =>
      obtain ⟨t, ht⟩ := chunked_lower (d := d)
      unfold beginsWith
      rw [ht]
      rfl
  unfold takeLine
  rw [htype, hcookie]
  rfl

theorem passLine_line (st : HeaderState) (hpasses : f.Passes) :
    (passLine (·.okLine .soapHead) st f.line).map HeaderState.kept = takeLine st.kept f.text := by
  rw [takeLine_text]
  unfold passLine
  rw [show f.line.text = f.text from rfl]
  beta_reduce
  by_cases hlen : f.text.length < httpHeadLineLen
  · rw [if_pos hlen, if_neg (Nat.not_le.2 hlen)]
    cases f with
    | counted c =>
      rw [counted_okLine, if_pos hpasses.2, if_neg hpasses.1]
      rfl
    | chunked d =>
      rw [chunked_okLine]
      rfl
  · rw [if_neg hlen, if_pos (Nat.le_of_not_lt hlen)]
    rfl

theorem says_of_passLine (h : passLine (·.okLine .soapHead) st f.line = some st') : f.Passes ∧ f.Says st.contentLength st' := by
  obtain ⟨-, h⟩ := passLine_eq_some.1 h
  cases f with
  | counted c =>
    rw [show (counted c).line.text = (counted c).text from rfl, counted_okLine] at h
    split at h
    · next hint =>
      split at h
      · cases h
      · next hbody =>
        cases h
        exact ⟨⟨hbody, hint⟩, rfl⟩
    · cases h
  | chunked d =>
    rw [show (chunked d).line.text = (chunked d).text from rfl, chunked_okLine] at h
    cases h
    exact ⟨trivial, rfl, rfl⟩

end Framing

/-! ## All the lines -/

theorem takeLines_append (kept : List Char × List SessionCookie) (ls ls' : List Line) :
    takeLines kept (ls ++ ls') = (takeLines kept ls).bind fun kept => takeLines kept ls' := List.foldlM_append

theorem takeLines_cons (kept : List Char × List SessionCookie) (l : Line) (ls : List Line) :
    takeLines kept (l :: ls) = (takeLine kept l.text).bind fun kept => takeLines kept ls := List.foldlM_cons

theorem passLines_kept {ls : List Line} (hplain : ∀ l ∈ ls, Plain l) (st : HeaderState) :
    (passLines (·.okLine .soapHead) st ls).map HeaderState.kept = takeLines st.kept ls := by
  induction ls generalizing st with
  | nil => rfl
  | cons l ls ih =>
    have hl := passLine_kept st (hplain l List.mem_cons_self).1
    rw [passLines_cons, takeLines_cons, ← hl]
    cases passLine (·.okLine .soapHead) st l with
    | none => rfl
    | some st₁ => exact ih (fun x hx => hplain x (List.mem_cons_of_mem l hx)) st₁

theorem passLines_length {ls : List Line} (hplain : ∀ l ∈ ls, Plain l)
    (h : passLines (·.okLine .soapHead) st ls = some st') :
    st'.contentLength = st.contentLength ∧ (st.gChunkFlag = true → st'.gChunkFlag = true) := by
  induction ls generalizing st with
  | nil =>
    cases h
    exact ⟨rfl, id⟩
  | cons l ls ih =>
    rw [passLines_cons, Option.bind_eq_some_iff] at h
    obtain ⟨st₁, hl, h⟩ := h
    obtain ⟨hlen, hflag⟩ := passLine_length (hplain l List.mem_cons_self).1 hl
    obtain ⟨hlen', hflag'⟩ := ih (fun x hx => hplain x (List.mem_cons_of_mem l hx)) h
    exact ⟨hlen'.trans hlen, fun hf => hflag' (hflag hf)⟩

namespace Response

variable {r : Response}

/-- The lines of the header of an accepted response are passed just if they are taken. -/
theorem passLines_lines (hpasses : r.framing.Passes) (st : HeaderState) :
    (passLines (·.okLine .soapHead) st r.lines).map HeaderState.kept = takeLines st.kept r.lines := by
  unfold lines
  rw [passLines_append, takeLines_append, ← passLines_kept r.before_plain st]
  cases passLines (·.okLine .soapHead) st r.before with
  | none => rfl
  | some st₁ =>
    have hline := Framing.passLine_line st₁ hpasses
    rw [Option.bind_some, Option.map_some, Option.bind_some, passLines_cons, takeLines_cons]
    change _ = (takeLine st₁.kept r.framing.text).bind _
    rw [← hline]
    cases passLine (·.okLine .soapHead) st₁ r.framing.line with
    | none => rfl
    | some st₂ => exact passLines_kept r.behind_plain st₂

/-- What the header says on the body. -/
theorem says_of_passLines (h : passLines (·.okLine .soapHead) st r.lines = some st') :
    r.framing.Passes ∧ r.framing.Says st.contentLength st' := by
  unfold lines at h
  rw [passLines_append, Option.bind_eq_some_iff] at h
  obtain ⟨st₁, hbefore, h⟩ := h
  rw [passLines_cons, Option.bind_eq_some_iff] at h
  obtain ⟨st₂, hline, hbehind⟩ := h
  obtain ⟨hpasses, hsaid⟩ := Framing.says_of_passLine hline
  obtain ⟨hlen, -⟩ := passLines_length r.before_plain hbefore
  obtain ⟨hlen', hflag⟩ := passLines_length r.behind_plain hbehind
  refine ⟨hpasses, ?_⟩
  rw [hlen] at hsaid
  cases hf : r.framing with
  | counted c =>
    rw [hf] at hsaid
    exact hlen'.trans hsaid
  | chunked d =>
    rw [hf] at hsaid
    exact ⟨hlen'.trans hsaid.1, hflag hsaid.2⟩

/-- The loop is left for `STATUS_NO_CONTENT` just at the line of a length of zero, after the lines before it were taken. -/
theorem leftAt_noContent {passed behind : List Line} {l : Line} (hlines : r.lines = passed ++ l :: behind)
    (h : LeftAt (·.okLine .soapHead) st passed l .statusNoContent st') :
    (∃ c, r.framing = .counted c ∧ c.body = []) ∧ passed = r.before ∧ l = r.framing.line ∧
      (takeLines st.kept r.before).isSome ∧ r.framing.text.length < httpHeadLineLen := by
  obtain ⟨st₁, hpassed, hlen, hline⟩ := h
  have hname : beginsWith "Content-Length:".toList l.text = true := by
    obtain h | h | ⟨-, h⟩ := okLine_left hline
    · cases h
    · cases h
    · rwa [HeaderState.text_enter st₁ l.clean] at h
  have hnot : ∀ ls : List Line, (∀ x ∈ ls, Plain x) → l ∉ ls := fun ls hls hm =>
    Bool.false_ne_true ((hls l hm).1.symm.trans hname)
  obtain ⟨rfl, rfl, -⟩ := (List.append_cons_inj_of_notMem (hnot _ r.before_plain) (hnot _ r.behind_plain)).1 hlines
  refine ⟨?_, rfl, rfl, ?_, hlen⟩
  · cases hf : r.framing with
    | counted c =>
      refine ⟨c, rfl, ?_⟩
      rw [hf] at hline
      change (st₁.enter (Framing.counted c).text).okLine .soapHead = _ at hline
      rw [Framing.counted_okLine] at hline
      split at hline
      · split at hline
        · assumption
        · cases hline
      · cases hline
    | chunked d =>
      rw [hf] at hline
      change (st₁.enter (Framing.chunked d).text).okLine .soapHead = _ at hline
      rw [Framing.chunked_okLine] at hline
      cases hline
  · rw [← passLines_kept r.before_plain st, hpassed]
    rfl

theorem noContent_leftAt (st : HeaderState) {c : Counted} (hf : r.framing = .counted c) (hbody : c.body = [])
    (hbefore : (takeLines st.kept r.before).isSome) (hlen : r.framing.text.length < httpHeadLineLen) :
    ∃ st', LeftAt (·.okLine .soapHead) st r.before r.framing.line .statusNoContent st' := by
  rw [← passLines_kept r.before_plain st, Option.isSome_map] at hbefore
  obtain ⟨st₁, hst₁⟩ := Option.isSome_iff_exists.1 hbefore
  refine ⟨{ st₁.enter (Framing.counted c).text with contentLength := some c.body.length }, st₁, hst₁, hlen, ?_⟩
  rw [hf]
  change (st₁.enter (Framing.counted c).text).okLine .soapHead = _
  rw [Framing.counted_okLine, if_pos (by rw [hbody]; decide), if_pos hbody]

end Response

end CodeFactory.Http
