import CodeFactory.Http.Segments

/-!
# Tries behind challenges

When `send_packet_to_acs_server` gives the body of a response before which the ACS has sent challenges. What a challenge leaves in
`recvLen` is not reset before the next try, and the rest of a body that no `Content-Length` was read for is not received.
-/

namespace CodeFactory.Http

open Conf (cString intMax)

/-! ## Challenges -/

/-- A `401` response in the pieces in which it is received; `recv` gives no more than it is asked for. -/
structure Challenge where
  response : Response
  code_eq : response.status.code = 401
  cut : Cut response.wire
  short : ∀ p ∈ cut.pieces, p.length ≤ httpSoapMaxRecvLength

/-- The challenges are received, one after the other, and then the rest. -/
def answers (cs : List Challenge) (rest : List Recv) : List Recv := cs.foldr (fun c recvs => received c.cut.pieces recvs) rest

/-- Every try receives the answer to its own request, to the end, and asks again. -/
def InStep (m : Machine) (s : Call) (cs : List Challenge) (rest : List Recv) (s' : Call) : Prop :=
  match cs with
  | [] => s' = s
  | c :: cs => ∃ ret s₁,
      recvLoop m s (List.replicate s.recvLen '\x00') (received c.cut.pieces (answers cs rest)) =
        .done (.again ret s₁ (answers cs rest)) ∧ InStep m s₁ cs rest s'

/-- How many requests get out within the tries. -/
def allowed : Nat → List Result → Nat
  | 0, _ => 0
  | tries + 1, sends => (if sends.headD .tcmagentOk ≠ .tcmagentOk then 0 else 1) + allowed tries sends.tail

/-- The line of a challenge that is taken. -/
def Accepts (path l : List Char) : Prop :=
  beginsWith "WWW-Authenticate:".toList l = true ∧
    ∃ authStatus digestAuth, parseAuthInfo (l.drop 17) path .noAuth = .done (.statusNeedAuth, authStatus, digestAuth)

/-- The challenge leaves nothing: it has no body, it comes in one piece, and the way of authentication is named before the length,
behind lines that fit the array. -/
def Challenge.Clean (m : Machine) (path : List Char) (c : Challenge) : Prop :=
  c.response.status.Fits m ∧ (∃ n, c.response.framing = .counted n ∧ n.body = []) ∧ c.cut.pieces = [c.response.wire] ∧
    c.response.wire.length < httpSoapMaxRecvLength ∧
    ∃ passed l behind, c.response.before = passed ++ l :: behind ∧
      (∀ x ∈ passed, beginsWith "WWW-Authenticate:".toList x.text = false ∧ x.text.length < httpHeadLineLen) ∧
      l.text.length < httpHeadLineLen ∧ Accepts path l.text

/-! ## The lines of a challenge -/

section Lines

variable {path : List Char} {st st' : HeaderState}

/-- A challenge is taken whatever was in `gAuthStatus`. -/
theorem parseAuthInfo_needAuth {authBuf : List Char} {old authStatus : AuthStatus} {digestAuth : DigestAuth} (new : AuthStatus)
    (h : parseAuthInfo authBuf path old = .done (.statusNeedAuth, authStatus, digestAuth)) :
    parseAuthInfo authBuf path new = .done (.statusNeedAuth, authStatus, digestAuth) := by
  unfold parseAuthInfo at h ⊢
  dsimp only at h ⊢
  split at h
  · next hdigest => rwa [if_pos hdigest]
  · next hdigest =>
    rw [if_neg hdigest]
    split at h
    · next hbasic => rwa [if_pos hbasic]
    · cases h

/-- The statuses with which the loop is left at a line. -/
theorem authLine_left {status : HttpStatus} (h : st.authLine path = .done (some status, st')) :
    status = .parserError ∨ status = .statusNoContent ∨
      status = .statusNeedAuth ∧ beginsWith "Content-Length:".toList st.text = false ∧ Accepts path st.text ∧
        st'.contentLength = st.contentLength ∧ st'.sessionCookie = st.sessionCookie := by
  unfold HeaderState.authLine at h
  split at h
  · obtain ⟨cl, -, heq⟩ := Outcome.map_eq_done.1 h
    obtain ⟨hcl, -⟩ := Prod.mk.inj heq
    split at hcl
    · cases hcl
      exact .inr (.inl rfl)
    · cases hcl
  next hlength =>
  split at h
  · next hname =>
    obtain ⟨⟨status', authStatus, digestAuth⟩, hauth, heq⟩ := Outcome.map_eq_done.1 h
    cases heq
    by_cases hneed : status' = .statusNeedAuth
    · subst hneed
      exact .inr (.inr ⟨rfl, Bool.eq_false_iff.2 hlength, ⟨hname, _, _, parseAuthInfo_needAuth .noAuth hauth⟩, rfl, rfl⟩)
    · refine .inl ?_
      unfold parseAuthInfo at hauth
      dsimp only at hauth
      split at hauth
      · obtain ⟨d, -, hauth⟩ := Outcome.bind_eq_done.1 hauth
        split at hauth
        · cases hauth
          exact absurd rfl hneed
        · cases hauth
      split at hauth
      · cases hauth
        exact absurd rfl hneed
      · cases hauth
        rfl
  · cases h

theorem authLine_plain (hlength : beginsWith "Content-Length:".toList st.text = false)
    (hauth : beginsWith "WWW-Authenticate:".toList st.text = false) : st.authLine path = .done (none, st) := by
  unfold HeaderState.authLine
  rw [hlength, hauth]
  rfl

/-- At the line of a challenge that is taken, the loop is left. -/
theorem authLine_accepts (hlength : beginsWith "Content-Length:".toList st.text = false) (hauth : Accepts path st.text) :
    ∃ st', st.authLine path = .done (some .statusNeedAuth, st') := by
  obtain ⟨hname, authStatus, digestAuth, hparse⟩ := hauth
  unfold HeaderState.authLine
  rw [hlength, hname, parseAuthInfo_needAuth st.authStatus hparse]
  exact ⟨_, rfl⟩

/-- What is passed leaves the cookies, and a length that is not zero or none. -/
theorem authLine_passed (h : st.authLine path = .done (none, st')) :
    st'.sessionCookie = st.sessionCookie ∧
      (beginsWith "Content-Length:".toList st.text = false →
        beginsWith "WWW-Authenticate:".toList st.text = false ∧ st'.contentLength = st.contentLength) := by
  unfold HeaderState.authLine at h
  split at h
  · next hlength =>
    obtain ⟨cl, -, heq⟩ := Outcome.map_eq_done.1 h
    obtain ⟨-, rfl⟩ := Prod.mk.inj heq
    exact ⟨rfl, fun hnot => absurd (hnot.symm.trans hlength) Bool.false_ne_true⟩
  split at h
  · obtain ⟨r, -, heq⟩ := Outcome.map_eq_done.1 h
    cases heq
  · next hauth =>
    cases h
    exact ⟨rfl, fun _ => ⟨Bool.eq_false_iff.2 hauth, rfl⟩⟩

end Lines

/-- Where the way of authentication is not refused, the line of a length of zero is not passed. -/
theorem Framing.authLine_counted {c : Counted} {path : List Char} {st st' : HeaderState}
    (h : (st.enter (counted c).text).authLine path = .done (none, st')) :
    c.body ≠ [] ∧ st'.contentLength = some (c.body.length : Int) := by
  have htext : (st.enter (counted c).text).text = (counted c).text := HeaderState.text_enter st (counted c).line.clean
  unfold HeaderState.authLine at h
  rw [htext, counted_beginsWith, if_pos rfl] at h
  unfold atoiInt at h
  rw [atoi_text] at h
  split at h
  · obtain ⟨cl, hcl, heq⟩ := Outcome.map_eq_done.1 h
    cases hcl
    obtain ⟨hzero, rfl⟩ := Prod.mk.inj heq
    refine ⟨fun hbody => ?_, rfl⟩
    rw [hbody] at hzero
    cases hzero
  · cases h

/-- The line that delimits the body is not about authentication. -/
theorem Framing.line_noAuth (f : Framing) : beginsWith "WWW-Authenticate:".toList f.text = false := by
  cases f with
  | counted c =>
    obtain ⟨t, ht⟩ := counted_lower (c := c)
    unfold beginsWith
    rw [ht]
    rfl
  | chunked d =>
    obtain ⟨t, ht⟩ := chunked_lower (d := d)
    unfold beginsWith
    rw [ht]
    rfl

theorem Framing.chunked_noLength (d : Chunked) : beginsWith "Content-Length:".toList (chunked d).text = false := by
  obtain ⟨t, ht⟩ := chunked_lower (d := d)
  unfold beginsWith
  rw [ht]
  rfl

/-- What lines of a challenge leave that are passed: the cookies, and a length that only a body can have changed. -/
structure Passed (f : Framing) (ls : List Line) (st st' : HeaderState) : Prop where
  sessionCookie : st'.sessionCookie = st.sessionCookie
  short : ∀ l ∈ ls, l.text.length < httpHeadLineLen
  noAuth : ∀ l ∈ ls, beginsWith "WWW-Authenticate:".toList l.text = false
  length : st'.contentLength = st.contentLength ∨ ∃ c, f = .counted c ∧ st'.contentLength = some (c.body.length : Int)
  notEmpty : f.line ∈ ls → ∀ c, f = .counted c → c.body ≠ []

theorem passed_of_passLines {f : Framing} {path : List Char} {ls : List Line} {st st' : HeaderState}
    (hls : ∀ l ∈ ls, Plain l ∨ l = f.line) (h : passLines (·.authLine path) st ls = some st') : Passed f ls st st' := by
  induction ls generalizing st with
  | nil =>
    cases h
    exact ⟨rfl, (fun _ hm => nomatch hm), (fun _ hm => nomatch hm), .inl rfl, (fun hm => nomatch hm)⟩
  | cons l ls ih =>
    rw [passLines_cons, Option.bind_eq_some_iff] at h
    obtain ⟨st₁, hl, h⟩ := h
    obtain ⟨hlen, hline⟩ := passLine_eq_some.1 hl
    obtain ⟨hcookie, hshort, hnoAuth, hlength, hempty⟩ := ih (fun x hx => hls x (List.mem_cons_of_mem l hx)) h
    obtain ⟨hcookie', hother⟩ := authLine_passed hline
    rw [HeaderState.text_enter st l.clean] at hother
    have hhead : beginsWith "WWW-Authenticate:".toList l.text = false ∧
        (st₁.contentLength = st.contentLength ∨ ∃ c, f = .counted c ∧ st₁.contentLength = some (c.body.length : Int)) ∧
        (l = f.line → ∀ c, f = .counted c → c.body ≠ []) := by
      obtain hplain | rfl := hls l List.mem_cons_self
      · obtain ⟨hauth, hkept⟩ := hother hplain.1
        refine ⟨hauth, .inl hkept, ?_⟩
        rintro rfl c rfl
        exact absurd (hplain.1.symm.trans Framing.counted_beginsWith) Bool.false_ne_true
      · refine ⟨f.line_noAuth, ?_⟩
        cases f with
        | counted c =>
          obtain ⟨hbody, hkept⟩ := Framing.authLine_counted hline
          exact ⟨.inr ⟨c, rfl, hkept⟩, (fun _ c' hc' => by cases hc'; exact hbody)⟩
        | chunked d => exact ⟨.inl (hother (Framing.chunked_noLength d)).2, (fun _ c' hc' => nomatch hc')⟩
    obtain ⟨hauth, hlength', hempty'⟩ := hhead
    refine ⟨hcookie.trans hcookie', ?_, ?_, ?_, ?_⟩
    · exact List.forall_mem_cons.2 ⟨hlen, hshort⟩
    · exact List.forall_mem_cons.2 ⟨hauth, hnoAuth⟩
    · obtain hkept | hset := hlength
      · rwa [hkept]
      · exact .inr hset
    · intro hm
      obtain heq | hm := List.mem_cons.1 hm
      · exact hempty' heq.symm
      · exact hempty hm

/-- Lines that are about nothing of all this are passed. -/
theorem passLines_plain (path : List Char) {ls : List Line} (hplain : ∀ l ∈ ls, Plain l)
    (hls : ∀ l ∈ ls, beginsWith "WWW-Authenticate:".toList l.text = false ∧ l.text.length < httpHeadLineLen) (st : HeaderState) :
    ∃ st', passLines (·.authLine path) st ls = some st' := by
  induction ls generalizing st with
  | nil => exact ⟨st, rfl⟩
  | cons l ls ih =>
    obtain ⟨hauth, hlen⟩ := hls l List.mem_cons_self
    have hl : passLine (·.authLine path) st l = some (st.enter l.text) := by
      refine passLine_eq_some.2 ⟨hlen, authLine_plain ?_ ?_⟩
      · rw [HeaderState.text_enter st l.clean]
        exact (hplain l List.mem_cons_self).1
      · rwa [HeaderState.text_enter st l.clean]
    obtain ⟨st', hst'⟩ := ih (fun x hx => hplain x (List.mem_cons_of_mem l hx)) (fun x hx => hls x (List.mem_cons_of_mem l hx))
      (st.enter l.text)
    exact ⟨st', by rw [passLines_cons, hl, Option.bind_some, hst']⟩

/-! ## One challenge -/

section Piece

variable {m : Machine} {s s' : Call}

/-- What is made of the head of a challenge. -/
theorem Response.parsed_challenge {r : Response} (hcode : r.status.code = 401) {q x : List Char} {status : HttpStatus}
    {gChunkFlag : Bool} (hq : q <+: r.header ++ x) (h : s.parse m q = .done (status, gChunkFlag, s')) :
    status = .parserError ∨ status = .statusNoContent ∨
      status = .statusNeedAuth ∧ r.status.Fits m ∧ s'.client.gHttpPath = s.client.gHttpPath ∧
        s'.client.sessionCookie = s.client.sessionCookie ∧
        (s'.contentLength = s.contentLength ∨ ∃ c, r.framing = .counted c ∧ s'.contentLength = c.body.length) ∧
        ∃ passed l behind, r.lines = passed ++ l :: behind ∧
          (∀ y ∈ passed, beginsWith "WWW-Authenticate:".toList y.text = false ∧ y.text.length < httpHeadLineLen) ∧
          (r.framing.line ∈ passed → ∀ c, r.framing = .counted c → c.body ≠ []) ∧ l.text.length < httpHeadLineLen ∧
          Accepts s.client.gHttpPath l.text := by
  obtain ⟨⟨status', st⟩, hp, heq⟩ := Outcome.map_eq_done.1 h
  cases heq
  have hwire : r.header ++ x = r.status.text ++ '\r' :: '\n' :: (linesText r.lines ++ '\r' :: '\n' :: x) := by
    rw [Response.header_eq]
    simp [crlf, List.append_assoc]
  rw [hwire] at hq
  obtain rfl | ⟨hfits, q', rfl, hq'⟩ := parseHttpHeader_prefix hq hp
  · exact .inl rfl
  rw [parseHttpHeader_status hfits] at hp
  dsimp only at hp
  rw [if_neg (by omega), if_neg (by omega), if_pos (.inl hcode)] at hp
  obtain rfl | ⟨passed, l, behind, hlines, ⟨st₁, hpassed, hlen, hline⟩, -⟩ | ⟨st₁, -, rfl, -⟩ := headerLoop_prefix hq' hp
  · exact .inl rfl
  · obtain rfl | rfl | ⟨rfl, -, haccepts, hlength, hcookie⟩ := authLine_left hline
    · exact .inl rfl
    · exact .inr (.inl rfl)
    · rw [HeaderState.text_enter st₁ l.clean] at haccepts
      have hmem : ∀ y ∈ passed, Plain y ∨ y = r.framing.line := by
        intro y hy
        have hy' : y ∈ r.lines := hlines ▸ List.mem_append_left _ hy
        unfold Response.lines at hy'
        obtain hy' | hy' := List.mem_append.1 hy'
        · exact .inl (r.before_plain y hy')
        obtain hy' | hy' := List.mem_cons.1 hy'
        · exact .inr hy'
        · exact .inl (r.behind_plain y hy')
      obtain ⟨hcookie', hshort, hnoAuth, hlength', hempty⟩ := passed_of_passLines hmem hpassed
      refine .inr (.inr ⟨rfl, hfits, rfl, hcookie.trans hcookie', ?_, passed, l, behind, hlines,
        fun y hy => ⟨hnoAuth y hy, hshort y hy⟩, hempty, hlen, haccepts⟩)
      have hkeeps : st.contentLength.getD s.contentLength = st₁.contentLength.getD s.contentLength := by
        rw [hlength]
        rfl
      obtain hkept | ⟨c, hc, hset⟩ := hlength'
      · refine .inl (hkeeps.trans ?_)
        rw [hkept]
        rfl
      · refine .inr ⟨c, hc, hkeeps.trans ?_⟩
        rw [hset]
        rfl
  · exact .inl rfl

theorem drain_stop {ret : Result} {recvLen : Nat} {contentLength : Int} (h : contentLength ≤ recvLen) (recvs : List Recv) :
    drain ret recvLen contentLength recvs = .done (ret, recvLen, contentLength, recvs) := by
  cases recvs with
  | nil =>
    rw [drain, if_neg (Int.not_lt.2 h)]
  | cons ev recvs =>
    rw [drain, if_neg (Int.not_lt.2 h)]

/-- The rest of the body of a challenge leaves the length of its last piece. -/
theorem drain_received {ps : List (List Char)} {rest : List Recv} {ret : Result} {recvLen : Nat} {contentLength : Int}
    {d : Result × Nat × Int × List Recv} (hne : ∀ p ∈ ps, p ≠ []) (hshort : ∀ p ∈ ps, p.length ≤ httpSoapMaxRecvLength)
    (hsum : (ps.flatten.length : Int) = contentLength - recvLen) (hlt : (recvLen : Int) < contentLength)
    (h : drain ret recvLen contentLength (received ps rest) = .done d) : 0 < d.2.1 := by
  induction ps generalizing ret recvLen contentLength with
  | nil =>
    rw [List.flatten_nil, List.length_nil] at hsum
    omega
  | cons p ps ih =>
    have hpos : 0 < p.length := List.length_pos_iff.2 (hne p List.mem_cons_self)
    have hlen := hshort p List.mem_cons_self
    rw [List.flatten_cons, List.length_append] at hsum
    change drain ret recvLen contentLength (.data p :: received ps rest) = _ at h
    rw [drain, if_pos hlt] at h
    simp only [recvRaw] at h
    rw [if_neg (by omega)] at h
    split at h
    · rw [Outcome.bind_done] at h
      dsimp only at h
      rw [if_neg (by omega)] at h
      by_cases hmore : (p.length : Int) < contentLength - recvLen
      · exact ih (fun x hx => hne x (List.mem_cons_of_mem p hx)) (fun x hx => hshort x (List.mem_cons_of_mem p hx))
          (by omega) hmore h
      · rw [drain_stop (by omega)] at h
        cases h
        exact hpos
    · cases h

theorem recvLoop_needAuth {gChunkFlag : Bool} {p : List Char} {recvs : List Recv} (hp : FitsBehind [] p)
    (h : s.parse m p = .done (.statusNeedAuth, gChunkFlag, s')) :
    recvLoop m s [] (.data p :: recvs) =
      match headerEnd p with
      | none => .done (.returned s'.client { ret := .httpFormatError })
      | some body =>
        if p.length < body then .done (.returned s'.client { ret := .socketRwError })
        else
          (drain .httpAuthError (p.length - body) s'.contentLength recvs).map fun d =>
            .again d.1 { s' with recvLen := d.2.1, contentLength := d.2.2.1 } d.2.2.2 := by
  rw [recvLoop_data hp, List.nil_append, h]
  rfl

end Piece

namespace Challenge

variable {m : Machine} {s s' : Call} {c : Challenge} {more : List Recv} {ret : Result}

theorem line_mem_before {r : Response} {passed behind : List Line} {l : Line} (hlines : r.lines = passed ++ l :: behind)
    (hne : l ≠ r.framing.line) (hnot : r.framing.line ∉ passed) : ∃ behind', r.before = passed ++ l :: behind' := by
  unfold Response.lines at hlines
  obtain ⟨t, htake, hrest⟩ | ⟨t, htake, hrest⟩ := List.append_eq_append_iff.1 hlines
  · -- the lines that are passed reach to the line of the length
    cases t with
    | nil =>
      rw [List.nil_append] at hrest
      cases hrest
      exact absurd rfl hne
    | cons y t =>
      obtain ⟨rfl, -⟩ := List.cons.inj hrest
      rw [htake] at hnot
      exact absurd (List.mem_append_right _ List.mem_cons_self) hnot
  · cases t with
    | nil =>
      rw [List.nil_append] at hrest
      cases hrest
      exact absurd rfl hne
    | cons y t =>
      obtain ⟨rfl, -⟩ := List.cons.inj hrest
      exact ⟨t, htake⟩

/-- A try that receives a challenge to its end leaves a length, or the challenge leaves nothing. -/
theorem recvLoop_left (hs : s.contentLength ≤ 0)
    (h : recvLoop m s [] (received c.cut.pieces more) = .done (.again ret s' more)) :
    0 < s'.recvLen ∨ c.Clean m s.client.gHttpPath ∧ s'.recvLen = 0 ∧ s'.contentLength ≤ 0 ∧
      s'.client.gHttpPath = s.client.gHttpPath ∧ s'.client.sessionCookie = s.client.sessionCookie := by
  obtain ⟨r, hcode, ⟨pieces, hne, hwire⟩, hshort⟩ := c
  cases pieces with
  | nil =>
    have hpos := r.header_pos
    have hlen := congrArg List.length hwire
    unfold Response.wire at hlen
    rw [List.flatten_nil, List.length_append, List.length_nil] at hlen
    omega
  | cons p ps =>
    have hp : p <+: r.header ++ r.framing.wire := ⟨ps.flatten, hwire⟩
    change recvLoop m s [] (.data p :: received ps more) = _ at h
    by_cases hfits : FitsBehind [] p
    · obtain ⟨status, gChunkFlag, s₁, hparse, hlen⟩ := parse_of_recvLoop hfits h
      obtain rfl | rfl | ⟨rfl, hstatus, hpath, hcookie, hlength, hlines⟩ := r.parsed_challenge hcode hp hparse
      · rw [recvLoop_failed hfits (.inl rfl) hparse] at h
        injection h with h
        injection h with hret hs'
        rw [← hs', hlen]
        exact .inl (List.length_pos_iff.2 (hne p List.mem_cons_self))
      · rw [recvLoop_noContent hfits hparse] at h
        cases h
      · rw [recvLoop_needAuth hfits hparse] at h
        cases hend : headerEnd p with
        | none =>
          rw [hend] at h
          cases h
        | some n =>
          obtain ⟨rfl, y, rfl, hy⟩ := Response.headerEnd_of_prefix hp hend
          rw [hend] at h
          dsimp only at h
          rw [if_neg (by rw [List.length_append]; omega), List.length_append, Nat.add_sub_cancel_left] at h
          obtain ⟨⟨ret', recvLen', contentLength', recvs'⟩, hdrain, heq⟩ := Outcome.map_eq_done.1 h
          injection heq with heq hs' hmore
          subst hs'
          have hbody : y ++ ps.flatten = r.framing.wire := by
            rw [List.flatten_cons, List.append_assoc] at hwire
            exact List.append_cancel_left hwire
          by_cases hstop : s₁.contentLength ≤ y.length
          · rw [drain_stop hstop] at hdrain
            injection hdrain with hdrain
            injection hdrain with hret hdrain
            injection hdrain with hrecvLen hdrain
            injection hdrain with hcl hrecvs
            dsimp only at hmore
            subst hrecvLen hcl
            by_cases hpos : 0 < y.length
            · exact .inl hpos
            -- nothing of the body has come, and nothing more is received
            have hnil : y = [] := List.length_eq_zero_iff.1 (Nat.eq_zero_of_not_pos hpos)
            have hps : ps = [] := by
              have hlen := congrArg List.length (hrecvs.trans hmore)
              unfold received at hlen
              rw [List.length_append, List.length_map] at hlen
              exact List.length_eq_zero_iff.1 (by omega)
            subst hnil hps
            rw [List.nil_append, List.flatten_nil] at hbody
            refine .inr ⟨?_, rfl, hstop, hpath, hcookie⟩
            have hempty : ∃ n, r.framing = .counted n ∧ n.body = [] := by
              cases hf : r.framing with
              | counted n =>
                rw [hf] at hbody
                exact ⟨n, rfl, hbody.symm⟩
              | chunked d =>
                rw [hf] at hbody
                change [] = d.toLast ++ linesText d.trailers ++ crlf at hbody
                simp [crlf] at hbody
            obtain ⟨passed, l, behind, hrlines, hpassed, hnotEmpty, hlen, haccepts⟩ := hlines
            obtain ⟨n, hn, hnbody⟩ := hempty
            have hne' : l ≠ r.framing.line := by
              rintro rfl
              exact Bool.false_ne_true (r.framing.line_noAuth.symm.trans haccepts.1)
            obtain ⟨behind', hbefore⟩ := line_mem_before hrlines hne' fun hm => hnotEmpty hm n hn hnbody
            have hone : r.header ++ [] = r.wire := by simpa using hwire
            refine ⟨hstatus, ⟨n, hn, hnbody⟩, congrArg (fun x => [x]) hone, ?_, passed, l, behind', hbefore, hpassed, hlen, haccepts⟩
            rw [← hone]
            exact (Nat.zero_add _).symm.trans_lt hfits.2
          · obtain hkept | ⟨n, hn, hset⟩ := hlength
            · omega
            refine .inl (drain_received (fun x hx => hne x (List.mem_cons_of_mem _ hx))
              (fun x hx => hshort x (List.mem_cons_of_mem _ hx)) ?_ (Int.not_le.1 hstop) hdrain)
            have hlen := congrArg List.length hbody
            rw [hn, List.length_append] at hlen
            change _ = n.body.length at hlen
            rw [hset]
            omega
    · obtain ⟨_, _, heq, -⟩ := recvLoop_long (hne p List.mem_cons_self) hfits h
      cases heq

/-- Behind a challenge that leaves nothing, the next try begins as this one. -/
theorem Clean.recvLoop_eq (hclean : c.Clean m s.client.gHttpPath) (hs : s.contentLength ≤ 0) (more : List Recv) :
    ∃ s', recvLoop m s [] (received c.cut.pieces more) = .done (.again .httpAuthError s' more) ∧
      s'.recvLen = 0 ∧ s'.contentLength ≤ 0 ∧ s'.client.gHttpPath = s.client.gHttpPath ∧
      s'.client.sessionCookie = s.client.sessionCookie := by
  obtain ⟨hstatus, ⟨n, hn, hnbody⟩, hpieces, hlen, passed, l, behind, hbefore, hpassed, hshort, haccepts⟩ := hclean
  have hcode := c.code_eq
  have hplain : ∀ x ∈ passed, Plain x := fun x hx => c.response.before_plain x (hbefore ▸ List.mem_append_left _ hx)
  have hl : Plain l := c.response.before_plain l (hbefore ▸ List.mem_append_right _ List.mem_cons_self)
  have hwire : c.response.wire = c.response.header := by
    unfold Response.wire
    rw [hn]
    change _ ++ n.body = _
    rw [hnbody, List.append_nil]
  have hfits : FitsBehind [] c.response.wire := by
    refine ⟨?_, by rwa [List.length_nil, Nat.zero_add]⟩
    rw [hwire]
    exact List.ne_nil_of_length_pos c.response.header_pos
  -- the line is found and taken
  obtain ⟨st₁, hst₁⟩ := passLines_plain s.client.gHttpPath hplain hpassed
    (HeaderState.start c.response.status s.client.sessionCookie s.client.gAuthStatus s.client.gDigestAuth)
  obtain ⟨st₂, hst₂⟩ : ∃ st₂, (st₁.enter l.text).authLine s.client.gHttpPath = .done (some .statusNeedAuth, st₂) := by
    refine authLine_accepts ?_ ?_
    · rw [HeaderState.text_enter st₁ l.clean]
      exact hl.1
    · rwa [HeaderState.text_enter st₁ l.clean]
  have htext : c.response.wire = c.response.status.text ++ '\r' :: '\n' :: (linesText passed ++
      (l.text ++ '\r' :: ('\n' :: (linesText (behind ++ c.response.framing.line :: c.response.behind) ++ crlf)))) := by
    rw [hwire, Response.header_eq]
    unfold Response.lines
    rw [hbefore, List.append_assoc, linesText_append, List.cons_append, linesText_cons]
    simp [crlf, List.append_assoc]
  have hheader : parseHttpHeader m s.client.gHttpPath .soapHead s.client.sessionCookie s.client.gAuthStatus s.client.gDigestAuth
      c.response.wire = .done (.statusNeedAuth, st₂) := by
    rw [htext, parseHttpHeader_status hstatus]
    dsimp only
    rw [if_neg (by omega), if_neg (by omega), if_pos (.inl hcode)]
    exact headerLoop_left ⟨st₁, hst₁, hshort, hst₂⟩ _
  obtain ⟨gChunkFlag, s', hparse⟩ := Response.parse_of_parseHttpHeader (s := s) st₂ hheader
  obtain h | h | ⟨-, -, hpath, hcookie, hlength, -⟩ :=
    c.response.parsed_challenge hcode (x := []) (by rw [← hwire, List.append_nil]) hparse
  · cases h
  · cases h
  have hend : headerEnd c.response.wire = some c.response.wire.length := by
    have := headerEnd_eq c.response.status.line c.response.lines []
    rw [List.append_nil] at this
    rw [hwire]
    exact this
  have hcl : s'.contentLength ≤ 0 := by
    obtain hkept | ⟨n', hn', hset⟩ := hlength
    · omega
    · rw [hn] at hn'
      cases hn'
      rw [hset, hnbody]
      exact Int.le_refl 0
  refine ⟨{ s' with recvLen := 0 }, ?_, rfl, hcl, hpath, hcookie⟩
  rw [hpieces]
  change recvLoop m s [] (.data c.response.wire :: more) = _
  rw [recvLoop_needAuth hfits hparse, hend]
  dsimp only
  rw [if_neg (Nat.lt_irrefl _), Nat.sub_self, drain_stop (by simpa using hcl)]
  rfl

end Challenge

/-! ## All the challenges -/

section Exchange

variable {m : Machine} {s s' : Call} {cs : List Challenge} {rest : List Recv}

/-- A length that is left is never reset. -/
theorem inStep_recvLen (hs : 0 < s.recvLen) (h : InStep m s cs rest s') : 0 < s'.recvLen := by
  induction cs generalizing s with
  | nil =>
    cases h
    exact hs
  | cons c cs ih =>
    obtain ⟨ret, s₁, hloop, h⟩ := h
    obtain ⟨n, hn⟩ : ∃ n, s.recvLen = n + 1 := ⟨s.recvLen - 1, by omega⟩
    rw [hn, List.replicate_succ] at hloop
    obtain ⟨_, _, heq, -⟩ | ⟨ret', s₂, recvs', heq, hs₂⟩ := recvLoop_nul hloop
    · cases heq
    · injection heq with hret hs₁
      exact ih (hs₁ ▸ hs₂) h

/-- Behind the challenges there is a length, or all of them have left nothing. -/
theorem inStep_left (hs : s.recvLen = 0) (hlength : s.contentLength ≤ 0) (h : InStep m s cs rest s') :
    0 < s'.recvLen ∨ (∀ c ∈ cs, c.Clean m s.client.gHttpPath) ∧ s'.recvLen = 0 ∧ s'.contentLength ≤ 0 ∧
      s'.client.sessionCookie = s.client.sessionCookie := by
  induction cs generalizing s with
  | nil =>
    cases h
    exact .inr ⟨(fun _ hc => nomatch hc), hs, hlength, rfl⟩
  | cons c cs ih =>
    obtain ⟨ret, s₁, hloop, h⟩ := h
    rw [hs, List.replicate_zero] at hloop
    obtain hleft | ⟨hclean, hs₁, hlength₁, hpath, hcookie⟩ := Challenge.recvLoop_left hlength hloop
    · exact .inl (inStep_recvLen hleft h)
    · obtain hleft | ⟨hcleans, hs', hlength', hcookie'⟩ := ih hs₁ hlength₁ h
      · exact .inl hleft
      · rw [hpath] at hcleans
        exact .inr ⟨List.forall_mem_cons.2 ⟨hclean, hcleans⟩, hs', hlength', hcookie'.trans hcookie⟩

/-- Behind challenges that leave nothing, the try begins as the first. -/
theorem inStep_of_clean (rest : List Recv) (hs : s.recvLen = 0) (hlength : s.contentLength ≤ 0) (hclean : ∀ c ∈ cs, c.Clean m s.client.gHttpPath) :
    ∃ s', InStep m s cs rest s' ∧ s'.recvLen = 0 ∧ s'.contentLength ≤ 0 ∧ s'.client.sessionCookie = s.client.sessionCookie := by
  induction cs generalizing s with
  | nil => exact ⟨s, rfl, hs, hlength, rfl⟩
  | cons c cs ih =>
    obtain ⟨hc, hcs⟩ := List.forall_mem_cons.1 hclean
    obtain ⟨s₁, hloop, hs₁, hlength₁, hpath, hcookie⟩ := hc.recvLoop_eq hlength (answers cs rest)
    obtain ⟨s', h, hs', hlength', hcookie'⟩ := ih hs₁ hlength₁ (by rwa [hpath])
    refine ⟨s', ⟨.httpAuthError, s₁, ?_, h⟩, hs', hlength', hcookie'.trans hcookie⟩
    rw [hs, List.replicate_zero]
    exact hloop

/-- The tries that the challenges take. -/
theorem tryLoop_inStep {tries : Nat} (asked : Nat) (ret : Result) {sends : List Result} (h : InStep m s cs rest s')
    (hallowed : cs.length < allowed tries sends) :
    ∃ tries' ret' sends', sends'.headD .tcmagentOk = .tcmagentOk ∧
      tryLoop m tries ret s sends (answers cs rest) asked = tryLoop m (tries' + 1) ret' s' sends' rest (asked + cs.length) := by
  induction tries generalizing s cs ret sends asked with
  | zero => exact absurd hallowed (Nat.not_lt_zero _)
  | succ tries ih =>
    unfold allowed at hallowed
    by_cases hsend : sends.headD .tcmagentOk ≠ .tcmagentOk
    · rw [if_pos hsend, Nat.zero_add] at hallowed
      rw [tryLoop, if_pos hsend]
      exact ih asked _ h hallowed
    · cases cs with
      | nil =>
        cases h
        exact ⟨tries, ret, sends, not_not.1 hsend, rfl⟩
      | cons c cs =>
        obtain ⟨ret₁, s₁, hloop, h⟩ := h
        rw [if_neg hsend, List.length_cons] at hallowed
        have hallowed' : cs.length < allowed tries sends.tail := by omega
        obtain ⟨tries', ret', sends', hhead, htry⟩ := ih (asked + 1) ret₁ h hallowed'
        refine ⟨tries', ret', sends', hhead, ?_⟩
        rw [tryLoop, if_neg hsend]
        change (recvLoop m s _ (received c.cut.pieces (answers cs rest))).bind _ = _
        rw [hloop, Outcome.bind_done]
        refine htry.trans ?_
        rw [List.length_cons, Nat.add_right_comm, Nat.add_assoc]

end Exchange

/-- Behind challenges, `send_packet_to_acs_server` receives the accepting response in the try that follows its request, and gives its
body, just if all the challenges leave nothing and the response is deliverable. -/
theorem sendPacket_inStep_iff (m : Machine) (client : Client) (cs : List Challenge) (r : Response) (hcode : r.NoChallenge)
    (cut : Cut r.wire) (sends : List Result) (hallowed : cs.length < allowed httpMaxTryTimes sends) (rest : List Recv) :
    (∃ s f, InStep m ⟨client, -1, 0⟩ cs (received cut.pieces rest) s ∧
      sendPacketToAcsServer m client sends (answers cs (received cut.pieces rest)) = .done f ∧ f.asked = cs.length + 1 ∧
      f.reply.Gives r.body) ↔
      (∀ c ∈ cs, c.Clean m client.gHttpPath) ∧ r.Deliverable m client.sessionCookie cut.pieces := by
  have hbegin : ((-1 : Int)) ≤ 0 := by decide
  constructor
  · rintro ⟨s, f, hstep, h, -, hgives⟩
    obtain ⟨tries, ret, sends', hhead, htry⟩ := tryLoop_inStep 0 .tcmagentOk hstep hallowed
    unfold sendPacketToAcsServer at h
    rw [htry] at h
    obtain hleft | ⟨hclean, hs, hlength, hcookie⟩ := inStep_left rfl hbegin hstep
    · have hnone := tryLoop_recvLen hleft h
      rw [hgives.2.1] at hnone
      cases hnone
    refine ⟨hclean, ?_⟩
    change s.client.sessionCookie = client.sessionCookie at hcookie
    rw [← hcookie, ← Response.recvLoop_delivers hcode cut rest hlength]
    rw [tryLoop, if_neg (not_not.2 hhead), hs] at h
    obtain ⟨a, ha, h⟩ := Outcome.bind_eq_done.1 h
    cases a with
    | returned client' reply =>
      cases h
      exact ⟨_, _, ha, hgives⟩
    | again ret' s₁ evs =>
      have hnone := tryLoop_recvLen (Response.recvLoop_delivers_again hcode cut ha) h
      rw [hgives.2.1] at hnone
      cases hnone
  · rintro ⟨hclean, hdeliverable⟩
    obtain ⟨s, hstep, hs, hlength, hcookie⟩ := inStep_of_clean (s := ⟨client, -1, 0⟩) (received cut.pieces rest)
      rfl hbegin hclean
    change s.client.sessionCookie = client.sessionCookie at hcookie
    rw [← hcookie] at hdeliverable
    obtain ⟨client', reply, hloop, hgives⟩ := (Response.recvLoop_delivers hcode cut rest hlength).2 hdeliverable
    obtain ⟨tries, ret, sends', hhead, htry⟩ := tryLoop_inStep 0 .tcmagentOk hstep hallowed
    refine ⟨s, ⟨cs.length + 1, client', reply⟩, hstep, ?_, rfl, hgives⟩
    unfold sendPacketToAcsServer
    rw [htry, tryLoop, if_neg (not_not.2 hhead), hs]
    change (recvLoop m s [] _).bind _ = _
    rw [hloop, Nat.zero_add]
    rfl

/-! ## A challenge with a body -/

theorem deniedReason_clean : Clean "Unauthorized".toList := by decide

/-- `HTTP/1.1 401 Unauthorized`. -/
def denied : StatusLine := ⟨'1', '1', 401, "Unauthorized".toList, one_isDigit, one_isDigit, deniedReason_clean⟩

theorem basicText_ne : "WWW-Authenticate: Basic realm=\"a\"".toList ≠ [] := by decide

theorem basicText_clean : Clean "WWW-Authenticate: Basic realm=\"a\"".toList := by decide

/-- The way of authentication. -/
def basicLine : Line := ⟨"WWW-Authenticate: Basic realm=\"a\"".toList, basicText_ne, basicText_clean⟩

theorem basicLine_plain : ∀ l ∈ [basicLine], Plain l := by decide

theorem zero_digit : ∀ ch ∈ ['0'], ch.isDigit = true := List.all_eq_true.1 rfl

theorem zero_ne : ['0'] ≠ [] := List.cons_ne_nil _ _

theorem zero_eq : Conf.digitsNum ['0'] = ([] : List Char).length := by decide

def noBody : Counted :=
  ⟨"Content-Length:".toList, [' '], ['0'], [], [], lengthName_eq, blank_blank, zero_digit, zero_ne, blank_nil, zero_eq⟩

/-- A challenge whose body is delimited in some way. -/
def deniedWith (framing : Framing) : Response := ⟨denied, [basicLine], framing, [], basicLine_plain, no_plain⟩

/-- A response that is received in one piece. -/
def whole (r : Response) : Cut r.wire := by
  refine ⟨[r.wire], fun p hp => ?_, by rw [List.flatten_cons, List.flatten_nil, List.append_nil]⟩
  rw [List.mem_singleton.1 hp]
  unfold Response.wire
  exact List.append_ne_nil_of_left_ne_nil (List.ne_nil_of_length_pos r.header_pos) _

theorem noBody_short : ∀ p ∈ (whole (deniedWith (.counted noBody))).pieces, p.length ≤ httpSoapMaxRecvLength := by decide

theorem abc_short : ∀ p ∈ (whole (deniedWith (.counted abc))).pieces, p.length ≤ httpSoapMaxRecvLength := by decide

/-- A challenge without a body. -/
def bare : Challenge := ⟨deniedWith (.counted noBody), rfl, whole _, noBody_short⟩

/-- A challenge with a body of three characters. -/
def explained : Challenge := ⟨deniedWith (.counted abc), rfl, whole _, abc_short⟩

/-- The theorem, for two challenges. -/
theorem sendPacket_inStep_iff_bare :
    (∃ s f, InStep roomy ⟨newClient, -1, 0⟩ [bare, bare] (received inBody.pieces []) s ∧
      sendPacketToAcsServer roomy newClient [] (answers [bare, bare] (received inBody.pieces [])) = .done f ∧ f.asked = 3 ∧
      f.reply.Gives greeting.body) ↔
      (∀ c ∈ [bare, bare], c.Clean roomy newClient.gHttpPath) ∧
        greeting.Deliverable roomy newClient.sessionCookie inBody.pieces :=
  sendPacket_inStep_iff roomy newClient [bare, bare] greeting (by decide) inBody [] (by decide) []

/-- Behind a challenge with a body, a response is not given that would be given to the first request. -/
theorem not_gives_explained :
    (∃ f, sendPacketToAcsServer roomy newClient [] (received (whole greeting).pieces []) = .done f ∧ f.reply.Gives greeting.body) ∧
      ∃ f, sendPacketToAcsServer roomy newClient [] (answers [explained] (received (whole greeting).pieces [])) = .done f ∧
        f.asked = 3 ∧ f.reply.ret = .socketTimeout ∧ ¬f.reply.Gives greeting.body := by
  refine ⟨⟨⟨1, newClient, ⟨.tcmagentOk, some 3, some ['a', 'b', 'c', '\x00']⟩⟩, ?_, ?_⟩,
    ⟨3, { newClient with gAuthStatus := .basicAuth }, { ret := .socketTimeout }⟩, ?_, rfl, rfl, ?_⟩
  · decide +kernel
  · decide
  · decide +kernel
  · decide

end CodeFactory.Http
