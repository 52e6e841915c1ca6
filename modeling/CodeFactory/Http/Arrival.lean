import CodeFactory.Http.Accepted

/-!
# A response that comes from the front

What `parse_http_header` makes of as much of a response as has come, and when: the cases in which `send_packet_to_acs_server`
takes the response for empty or for accepted, and what must have come then.
-/

namespace CodeFactory.Http

open Conf (cString intMax)

namespace Response

variable (r : Response)

/-- The header up to the end of the line that delimits the body. -/
def early : List Char := linesText (r.status.line :: r.before) ++ (r.framing.text ++ ['\r'])

/-- The array and the cookies after the status line. -/
def entered (sessionCookie : List SessionCookie) : List Char × List SessionCookie :=
  (fill (List.replicate httpHeadLineLen '\x00') r.status.text, sessionCookie)

/-- A length of zero is given, and the lines before it are taken. -/
def SaysNothing (sessionCookie : List SessionCookie) : Prop :=
  (∃ c, r.framing = .counted c ∧ c.body = []) ∧ (takeLines (r.entered sessionCookie) r.before).isSome ∧
    r.framing.text.length < httpHeadLineLen

/-- What the header says on the body, after the call was in the state `s`. -/
def Says (s : Call) (gChunkFlag : Bool) (s' : Call) : Prop :=
  match r.framing with
  | .counted c => s'.contentLength = c.body.length
  | .chunked _ => s'.contentLength = s.contentLength ∧ gChunkFlag = true

/-- What is made of the head `q` of a response. -/
inductive Parsed (m : Machine) (s : Call) (q : List Char) : HttpStatus → Bool → Call → Prop
  | failed {status : HttpStatus} {gChunkFlag : Bool} {s' : Call}
      (hstatus : status = .parserError ∨ status = .unknowStatusCode ∨ status = .contentNotSupport ∨ status = .formatError) :
      Parsed m s q status gChunkFlag s'
  | empty {gChunkFlag : Bool} {s' : Call} (hfits : r.status.Fits m) (hcode : r.status.code = 204)
      (hcome : r.status.text ++ crlf <+: q) : Parsed m s q .statusNoContent gChunkFlag s'
  | early {gChunkFlag : Bool} {s' : Call} (hfits : r.status.Fits m) (hcode : r.status.code = 200)
      (hnothing : r.SaysNothing s.client.sessionCookie) (hcome : r.early <+: q) : Parsed m s q .statusNoContent gChunkFlag s'
  | accepted {gChunkFlag : Bool} {s' : Call} (hfits : r.status.Fits m) (hcode : r.status.code = 200)
      (hpasses : r.framing.Passes) (htakes : r.status.takes s.client.sessionCookie r.lines = some s'.client.sessionCookie)
      (hsaid : r.Says s gChunkFlag s') : Parsed m s q .statusOk gChunkFlag s'
  | challenge {status : HttpStatus} {gChunkFlag : Bool} {s' : Call} (hcode : r.status.code = 401 ∨ r.status.code = 400) :
      Parsed m s q status gChunkFlag s'

variable {r} {m : Machine} {s s' : Call}

theorem header_eq : r.header = r.status.text ++ '\r' :: '\n' :: (linesText r.lines ++ crlf) := by
  unfold header
  rw [linesText_cons]
  simp [StatusLine.line, crlf, List.append_assoc]

theorem early_eq : r.early = r.status.text ++ '\r' :: '\n' :: (linesText r.before ++ (r.framing.text ++ ['\r'])) := by
  unfold early
  rw [linesText_cons]
  simp [StatusLine.line, crlf, List.append_assoc]

theorem parse_eq_done {q : List Char} {status : HttpStatus} {gChunkFlag : Bool} (h : s.parse m q = .done (status, gChunkFlag, s')) :
    ∃ st : HeaderState,
      parseHttpHeader m s.client.gHttpPath .soapHead s.client.sessionCookie s.client.gAuthStatus s.client.gDigestAuth q =
        .done (status, st) ∧ gChunkFlag = st.gChunkFlag ∧ s'.client.sessionCookie = st.sessionCookie ∧
      s'.contentLength = st.contentLength.getD s.contentLength ∧ s'.recvLen = q.length := by
  obtain ⟨⟨status', st⟩, hp, heq⟩ := Outcome.map_eq_done.1 h
  cases heq
  exact ⟨st, hp, rfl, rfl, rfl, rfl⟩

/-- As much of a response as has come is parsed in one of the ways above. -/
theorem parsed_of_parse {q x : List Char} {status : HttpStatus} {gChunkFlag : Bool} (hq : q <+: r.header ++ x)
    (h : s.parse m q = .done (status, gChunkFlag, s')) : r.Parsed m s q status gChunkFlag s' := by
  obtain ⟨st, hp, rfl, hcookie, hlength, -⟩ := parse_eq_done h
  have hwire : r.header ++ x = r.status.text ++ '\r' :: '\n' :: (linesText r.lines ++ '\r' :: '\n' :: x) := by
    rw [header_eq]
    simp [crlf, List.append_assoc]
  rw [hwire] at hq
  obtain rfl | ⟨hfits, q', rfl, hq'⟩ := parseHttpHeader_prefix hq hp
  · exact .failed (.inl rfl)
  rw [parseHttpHeader_status hfits] at hp
  dsimp only at hp
  split at hp
  · next hcode =>
    obtain rfl | ⟨passed, l, behind, hlines, hleft, hcome⟩ | ⟨st₁, hpassed, rfl, rfl, -⟩ := headerLoop_prefix hq' hp
    · exact .failed (.inl rfl)
    · obtain ⟨st₁, -, -, hline⟩ := id hleft
      obtain rfl | rfl | ⟨rfl, -⟩ := okLine_left hline
      · exact .failed (.inr (.inr (.inl rfl)))
      · exact .failed (.inr (.inr (.inr rfl)))
      · obtain ⟨hcounted, rfl, rfl, htaken, hlen⟩ := leftAt_noContent hlines hleft
        refine .early hfits hcode ⟨hcounted, htaken, hlen⟩ ?_
        rw [early_eq]
        exact (List.prefix_append_right_inj _).2 (List.cons_prefix_cons.2 ⟨rfl, List.cons_prefix_cons.2 ⟨rfl, hcome⟩⟩)
    · obtain ⟨hpasses, hsaid⟩ := says_of_passLines hpassed
      have hkept := passLines_lines hpasses (HeaderState.start r.status s.client.sessionCookie s.client.gAuthStatus
        s.client.gDigestAuth)
      rw [hpassed, Option.map_some] at hkept
      refine .accepted hfits hcode hpasses ?_ ?_
      · unfold StatusLine.takes
        rw [hcookie]
        exact congrArg (Option.map (·.2)) hkept.symm
      · unfold Says
        unfold Framing.Says at hsaid
        cases hf : r.framing with
        | counted c =>
          rw [hf] at hsaid
          change s'.contentLength = _
          rw [hlength]
          change st₁.contentLength.getD _ = _
          rw [hsaid]
          rfl
        | chunked d =>
          rw [hf] at hsaid
          refine ⟨?_, hsaid.2⟩
          rw [hlength]
          change st₁.contentLength.getD _ = _
          rw [hsaid.1]
          rfl
  split at hp
  · next hcode =>
    cases hp
    exact .empty hfits hcode (by
      rw [show r.status.text ++ '\r' :: '\n' :: q' = r.status.text ++ crlf ++ q' by simp [crlf]]
      exact List.prefix_append _ _)
  split at hp
  · next hcode => exact .challenge hcode
  · cases hp
    exact .failed (.inr (.inl rfl))

/-- What the globals and `*contentLengthPtr` become is known once the status is. -/
theorem parse_of_parseHttpHeader {q : List Char} {status : HttpStatus} (st : HeaderState)
    (h : parseHttpHeader m s.client.gHttpPath .soapHead s.client.sessionCookie s.client.gAuthStatus s.client.gDigestAuth q =
      .done (status, st)) : ∃ gChunkFlag s', s.parse m q = .done (status, gChunkFlag, s') := by
  unfold Call.parse
  rw [h]
  exact ⟨_, _, rfl⟩

theorem parse_empty {q : List Char} (hfits : r.status.Fits m) (hcode : r.status.code = 204) (hcome : r.status.text ++ crlf <+: q) :
    ∃ gChunkFlag s', s.parse m q = .done (.statusNoContent, gChunkFlag, s') := by
  obtain ⟨t, rfl⟩ := hcome
  refine parse_of_parseHttpHeader (HeaderState.start r.status s.client.sessionCookie s.client.gAuthStatus
    s.client.gDigestAuth) ?_
  have htext : r.status.text ++ crlf ++ t = r.status.text ++ '\r' :: '\n' :: t := by simp [crlf]
  rw [htext, parseHttpHeader_status hfits]
  dsimp only
  rw [if_neg (by omega), if_pos hcode]

/-- A response with a length of zero is empty as soon as the line that says so has come. -/
theorem parse_early {q : List Char} (hfits : r.status.Fits m) (hcode : r.status.code = 200)
    (hnothing : r.SaysNothing s.client.sessionCookie) (hcome : r.early <+: q) :
    ∃ gChunkFlag s', s.parse m q = .done (.statusNoContent, gChunkFlag, s') := by
  obtain ⟨t, rfl⟩ := hcome
  obtain ⟨⟨c, hf, hbody⟩, htaken, hlen⟩ := hnothing
  obtain ⟨st', hleft⟩ := noContent_leftAt (HeaderState.start r.status s.client.sessionCookie s.client.gAuthStatus
    s.client.gDigestAuth) hf hbody htaken hlen
  refine parse_of_parseHttpHeader st' ?_
  have htext : r.early ++ t =
      r.status.text ++ '\r' :: '\n' :: (linesText r.before ++ (r.framing.line.text ++ '\r' :: t)) := by
    rw [early_eq]
    simp [Framing.line, List.append_assoc]
  rw [htext, parseHttpHeader_status hfits]
  dsimp only
  rw [if_pos hcode, headerLoop_left hleft]

/-- A response is accepted once its header has come, if its lines are taken. -/
theorem parse_accepted {sessionCookie : List SessionCookie} (hfits : r.status.Fits m) (hcode : r.status.code = 200)
    (hpasses : r.framing.Passes) (htakes : r.status.takes s.client.sessionCookie r.lines = some sessionCookie) (x : List Char) :
    ∃ gChunkFlag s', s.parse m (r.header ++ x) = .done (.statusOk, gChunkFlag, s') ∧ s'.client.sessionCookie = sessionCookie ∧
      r.Says s gChunkFlag s' := by
  obtain ⟨kept, hkept, rfl⟩ := Option.map_eq_some_iff.1 htakes
  have hpass := passLines_lines hpasses (HeaderState.start r.status s.client.sessionCookie s.client.gAuthStatus
    s.client.gDigestAuth)
  have hkept' : takeLines (HeaderState.start r.status s.client.sessionCookie s.client.gAuthStatus s.client.gDigestAuth).kept
      r.lines = some kept := hkept
  rw [hkept'] at hpass
  obtain ⟨st₁, hst₁, -⟩ := Option.map_eq_some_iff.1 hpass
  have htext : r.header ++ x = r.status.text ++ '\r' :: '\n' :: (linesText r.lines ++ '\r' :: '\n' :: x) := by
    rw [header_eq]
    simp [crlf, List.append_assoc]
  obtain ⟨gChunkFlag, s', hs'⟩ : ∃ gChunkFlag s', s.parse m (r.header ++ x) = .done (.statusOk, gChunkFlag, s') := by
    refine parse_of_parseHttpHeader (st₁.enter []) ?_
    rw [htext, parseHttpHeader_status hfits]
    dsimp only
    rw [if_pos hcode, headerLoop_passes hst₁, headerLoop_blank]
  refine ⟨gChunkFlag, s', hs', ?_⟩
  cases parsed_of_parse (List.prefix_refl _) hs' with
  | failed hstatus => simp at hstatus
  | accepted _ _ _ htakes' hsaid =>
    rw [htakes, Option.some.injEq] at htakes'
    exact ⟨htakes'.symm, hsaid⟩
  | challenge hcode' => omega

/-- The end of the header is found just where it is. -/
theorem headerEnd_of_prefix {q x : List Char} {n : Nat} (hq : q <+: r.header ++ x) (h : headerEnd q = some n) :
    n = r.header.length ∧ ∃ y, q = r.header ++ y ∧ y <+: x := by
  obtain hcut | ⟨y, rfl, hy⟩ := prefix_append_cases hq
  · have heq : q = r.header := headerEnd_prefix hcut h
    have hend := headerEnd_eq r.status.line r.lines []
    rw [List.append_nil] at hend
    rw [heq, show headerEnd r.header = some r.header.length from hend, Option.some.injEq] at h
    exact ⟨h.symm, [], by rw [heq, List.append_nil], List.nil_prefix⟩
  · rw [show headerEnd (r.header ++ y) = some r.header.length from headerEnd_eq r.status.line r.lines y, Option.some.injEq] at h
    exact ⟨h.symm, y, rfl, hy⟩

end Response

end CodeFactory.Http
