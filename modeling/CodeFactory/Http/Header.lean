import CodeFactory.Http.Text
import CodeFactory.Result

/-!
# The header of a response

`parse_http_header` with `parse_cookie` and `parse_auth_info`. The words of the status line are read into the arrays `protocol`
and `title`, which are followed by other locals of the function that nothing reads: how far a word may run over is the compiler's
choice and a parameter here.
-/

namespace CodeFactory.Http

open Conf (cString isspace strchr intMax)

inductive HttpStatus where
  | statusOk | statusNeedAuth | statusNeedRedirectd | statusNoContent
  | contentNotSupport | protocolNotSupport | unknowStatusCode | formatError | parserError
  deriving DecidableEq, Repr

inductive AuthStatus where
  | noAuth | basicAuth | digestAuth
  deriving DecidableEq, Repr

inductive HeadType where
  | soapHead | downloadHead | uploadHead
  deriving DecidableEq, Repr

/-- `DigestAuth`, the fields that a challenge sets; they begin as zeros. -/
structure DigestAuth where
  realm : List Char := []
  uri : List Char := []
  nonce : List Char := []
  nonceCount : List Char := []
  cNonce : List Char := []
  qop : List Char := []
  alg : List Char := []
  method : List Char := []
  deriving DecidableEq, Repr

/-- `SessionCookie`, as the strings in its arrays; they begin as zeros. -/
structure SessionCookie where
  name : List Char := []
  value : List Char := []
  path : List Char := []
  domain : List Char := []
  port : List Char := []
  deriving DecidableEq, Repr

/-- What the machine brings: how many characters may be written from `protocol` and from `title` on, which are declared with 6
and 10, and the sizes for which there is memory. -/
structure Machine where
  protocolRoom : Nat
  titleRoom : Nat
  malloc : Nat → Bool

/-! ## Cookies -/

def cookieNameLen : Nat := 64
def cookieValueLen : Nat := 128
def cookieDomainLen : Nat := 64
def cookiePathLen : Nat := 32
def cookiePortLen : Nat := 32

namespace SessionCookie

/-- An attribute of a cookie, and what is in `version`. The number behind `Version=` goes into that array of four characters,
which nothing terminates for `atoi`, and from there only into requests, as does `Discard`. -/
def setAttribute (version : List Char) (c : SessionCookie) (s : List Char) : Outcome (List Char × SessionCookie) :=
  if "Version=".toList.isPrefixOf s then
    (strncpy 4 version (s.drop 8)).bind fun version => if atoiEnds version then .done (version, c) else .undefined
  else if "Domain=".toList.isPrefixOf s then
    (strncpy cookieDomainLen c.domain (s.drop 7)).map fun t => (version, { c with domain := t })
  else if "Path=".toList.isPrefixOf s then (strncpy cookiePathLen c.path (s.drop 5)).map fun t => (version, { c with path := t })
  else if "Port=".toList.isPrefixOf s then (strncpy cookiePortLen c.port (s.drop 5)).map fun t => (version, { c with port := t })
  else .done (version, c)

/-- The loop over the attributes. Behind a blank, the next character is passed, too. -/
def attributes (version : List Char) (c : SessionCookie) : List Char → Outcome SessionCookie
  | [] => .done c
  | _ :: s =>
    if s.head? = some ' ' then attributes version c s.tail
    else (c.setAttribute version (s.takeWhile (· != ';'))).bind fun r => attributes r.1 r.2 (s.dropWhile (· != ';'))
termination_by s => s.length
decreasing_by
  · rw [List.length_cons, List.length_tail]; omega
  · exact Nat.lt_succ_of_le (List.length_dropWhile_le _ _)

/-- Every array of the cookie has room for the zero behind its string. -/
def terminated (c : SessionCookie) : Bool :=
  c.name.length < cookieNameLen && c.value.length < cookieValueLen && c.path.length < cookiePathLen &&
    c.domain.length < cookieDomainLen && c.port.length < cookiePortLen

/-- The slot holds the cookie already, or none. -/
def takes (slot c : SessionCookie) : Bool :=
  (slot.name == c.name && slot.domain == c.domain && slot.path.map Char.toLower == c.path.map Char.toLower) || slot.name == []

/-- The first slot that takes a cookie is written over. -/
def store (c : SessionCookie) : List SessionCookie → Option (List SessionCookie)
  | [] => none
  | slot :: slots => if slot.takes c then some (c :: slots) else (store c slots).map (slot :: ·)

end SessionCookie

/-- `parse_cookie`, of what is in `sessionCookie`; nothing for `FORMAT_ERROR`. -/
def parseCookie (cookieBuf : List Char) (sessionCookie : List SessionCookie) : Outcome (Option (List SessionCookie)) :=
  match strchr '=' (cookieBuf.dropWhile (· == ' ')) with
  | none => .done none
  | some (name, cookieBuf) =>
    (strncpy cookieNameLen [] name).bind fun name =>
    match strchr ';' cookieBuf with
    | none => .done none
    | some (value, behind) =>
      (strncpy cookieValueLen [] value).bind fun value =>
      (SessionCookie.attributes [] { name, value } (';' :: behind)).bind fun cookie =>
      if cookie.terminated then .done (cookie.store sessionCookie) else .undefined

/-! ## Challenges -/

/-- `DIGEST_MIDDLE_LENGTH + 1`. -/
def digestRoom : Nat := 33

namespace DigestAuth

/-- A quoted value, less its last character, is copied; without a character behind the quote the length is `-1`. -/
def quoted (old value : List Char) : Outcome (List Char) :=
  if value = [] then .undefined else strncpy digestRoom old value.dropLast

/-- A parameter of a challenge. -/
def param (d : DigestAuth) (s : List Char) : Outcome DigestAuth :=
  if "realm=\"".toList.isPrefixOf s then (quoted d.realm (s.drop 7)).map fun t => { d with realm := t }
  else if "qop=\"".toList.isPrefixOf s then (quoted d.qop (s.drop 5)).map fun t => { d with qop := t }
  else if "nonce=\"".toList.isPrefixOf s then (quoted d.nonce (s.drop 7)).map fun t => { d with nonce := t }
  else if "algorithm=\"".toList.isPrefixOf s then (quoted d.alg (s.drop 11)).map fun t => { d with alg := t }
  else .done d

/-- The loop over the parameters. -/
def params (d : DigestAuth) : List Char → Outcome DigestAuth
  | [] => .done d
  | ch :: s =>
    if ch = ' ' then params d s
    else (d.param ((ch :: s).takeWhile (· != ','))).bind fun d => params d (((ch :: s).dropWhile (· != ',')).tail)
termination_by s => s.length
decreasing_by
  · exact Nat.lt_succ_self _
  · rw [List.length_tail]
    have := List.length_dropWhile_le (· != ',') (ch :: s)
    rw [List.length_cons] at this ⊢
    omega

end DigestAuth

/-- `parse_auth_info`, after `digestAuthPtr` was set to zeros. -/
def parseAuthInfo (authBuf path : List Char) (authStatus : AuthStatus) : Outcome (HttpStatus × AuthStatus × DigestAuth) :=
  let authBuf := authBuf.dropWhile (· == ' ')
  if "Digest".toList.isPrefixOf authBuf then
    (DigestAuth.params {} (authBuf.drop 6)).bind fun d =>
    if path.length < digestRoom then
      .done (.statusNeedAuth, .digestAuth, { d with
        cNonce := "d1234512345123".toList, nonceCount := "00000001".toList, method := "POST".toList, uri := path })
    else .undefined
  else if "Basic".toList.isPrefixOf authBuf then .done (.statusNeedAuth, .basicAuth, {})
  else .done (.parserError, authStatus, {})

/-! ## `parse_http_header` -/

/-- What is read and written while a header is parsed: the array `line`, what `*contentLengthPtr` was set to, and the globals. -/
structure HeaderState where
  line : List Char
  contentLength : Option Int
  gChunkFlag : Bool
  sessionCookie : List SessionCookie
  authStatus : AuthStatus
  digestAuth : DigestAuth
  deriving DecidableEq, Repr

namespace HeaderState

/-- The string in `line`. -/
def text (st : HeaderState) : List Char := cString st.line

/-- A line of the header of a `200` response; the status with which the loop is left. -/
def okLine (headType : HeadType) (st : HeaderState) : Outcome (Option HttpStatus × HeaderState) :=
  if beginsWith "Content-Type:".toList st.text then
    if headType = .soapHead ∧ mentions st.text "text/xml".toList = false then .done (some .contentNotSupport, st)
    else .done (none, st)
  else if beginsWith "Content-Length:".toList st.text then
    (atoiInt (st.text.drop 15)).map fun cl =>
      (if cl = 0 then some .statusNoContent else none, { st with contentLength := some cl })
  else if beginsWith "Set-Cookie".toList st.text then
    (parseCookie (cString (st.line.drop 12)) st.sessionCookie).map fun r =>
      match r with
      | some sessionCookie => (none, { st with sessionCookie := sessionCookie })
      | none => (some .formatError, st)
  else if beginsWith "Transfer-Encoding".toList st.text && mentionsNoCase st.text "chunked".toList then
    .done (none, { st with gChunkFlag := true })
  else .done (none, st)

/-- A line of the header of a `401` or `400` response; the status with which the loop is left. -/
def authLine (path : List Char) (st : HeaderState) : Outcome (Option HttpStatus × HeaderState) :=
  if beginsWith "Content-Length:".toList st.text then
    (atoiInt (st.text.drop 15)).map fun cl =>
      (if cl = 0 then some .statusNoContent else none, { st with contentLength := some cl })
  else if beginsWith "WWW-Authenticate:".toList st.text then
    (parseAuthInfo (st.text.drop 17) path st.authStatus).map fun r =>
      (some r.1, { st with authStatus := r.2.1, digestAuth := r.2.2 })
  else .done (none, st)

end HeaderState

/-- The loop over the lines of a header, up to an empty one. -/
def headerLoop (onLine : HeaderState → Outcome (Option HttpStatus × HeaderState)) (ret : HttpStatus) (st : HeaderState)
    (recvBuf : List Char) : Outcome (HttpStatus × HeaderState) :=
  (getLine st.line recvBuf).bind fun line =>
    if cString line = [] then .done (ret, { st with line := line })
    else
      (onLine { st with line := line }).bind fun r =>
        match r.1 with
        | some ret => .done (ret, r.2)
        | none =>
          match _h : nextLine recvBuf with
          | none => .done (.parserError, r.2)
          | some recvBuf => headerLoop onLine ret r.2 recvBuf
termination_by recvBuf.length
decreasing_by exact nextLine_length ‹_›

/-- `sscanf ( line, "%s %d %s", protocol, &statusCode, title )`: the status code if all three are there. -/
def scanStatus (m : Machine) (line : List Char) : Outcome (Option Int) :=
  let protocol := scanWord line
  if protocol.1 = [] then .done none
  else if m.protocolRoom ≤ protocol.1.length then .undefined
  else
    match scanInt protocol.2 with
    | none => .done none
    | some (statusCode, s) =>
      if -intMax - 1 ≤ statusCode ∧ statusCode ≤ intMax then
        let title := (scanWord s).1
        if title = [] then .done none
        else if m.titleRoom ≤ title.length then .undefined
        else .done (some statusCode)
      else .undefined

def parseHttpHeader (m : Machine) (path : List Char) (headType : HeadType) (sessionCookie : List SessionCookie)
    (authStatus : AuthStatus) (digestAuth : DigestAuth) (recvBuf : List Char) : Outcome (HttpStatus × HeaderState) :=
  (getLine (List.replicate httpHeadLineLen '\x00') recvBuf).bind fun line =>
    let st : HeaderState := ⟨line, none, false, sessionCookie, authStatus, digestAuth⟩
    if st.text = [] then .done (.parserError, st)
    else if "HTTP".toList.isPrefixOf st.text = false then .done (.unknowStatusCode, st)
    else
      (scanStatus m st.text).bind fun statusCode =>
        match statusCode with
        | none => .done (.parserError, st)
        | some statusCode =>
          match nextLine recvBuf with
          | none => .done (.parserError, st)
          | some recvBuf =>
            if statusCode = 200 then headerLoop (·.okLine headType) .statusOk st recvBuf
            else if statusCode = 204 then .done (.statusNoContent, st)
            else if statusCode = 401 ∨ statusCode = 400 then headerLoop (·.authLine path) .parserError st recvBuf
            else .done (.unknowStatusCode, st)

/-! ## The jar -/

namespace SessionCookie

variable {c s : SessionCookie} {slots slots' : List SessionCookie}

/-- What the slot of a cookie is found by. -/
def key (c : SessionCookie) : List Char × List Char × List Char := (c.name, c.domain, c.path.map Char.toLower)

/-- Free slots come behind the others, which have different keys. -/
def Apart (s x : SessionCookie) : Prop := (s.name = [] → x.name = []) ∧ (s.key = x.key → s.name = [])

theorem takes_iff : s.takes c = true ↔ s.key = c.key ∨ s.name = [] := by
  simp [takes, key, and_assoc]

/-- A cookie takes the place of the one with its key, and every other one stays. -/
theorem store_spec (hjar : slots.Pairwise Apart) (h : c.store slots = some slots') :
    slots'.Pairwise Apart ∧ (∀ x ∈ slots', x = c ∨ x ∈ slots) ∧
      ∀ x, x.name ≠ [] → (x ∈ slots' ↔ x = c ∨ x ∈ slots ∧ c.key ≠ x.key) := by
  induction slots generalizing slots' with
  | nil => cases h
  | cons s slots ih =>
    obtain ⟨hs, hslots⟩ := List.pairwise_cons.1 hjar
    rw [store] at h
    by_cases htakes : s.takes c = true
    · rw [if_pos htakes] at h
      cases h
      rw [takes_iff] at htakes
      have hrest : ∀ x ∈ slots, x.name ≠ [] → s.key = c.key ∧ s.name ≠ [] := by
        intro x hx hname
        have hsname : s.name ≠ [] := fun hnil => hname ((hs x hx).1 hnil)
        exact ⟨htakes.resolve_right hsname, hsname⟩
      refine ⟨List.pairwise_cons.2 ⟨fun x hx => ⟨fun hc => ?_, fun hkey => ?_⟩, hslots⟩, fun x hx => ?_, fun x hname => ?_⟩
      · by_contra hname
        obtain ⟨hkey, hsname⟩ := hrest x hx hname
        exact hsname ((congrArg Prod.fst hkey).trans hc)
      · by_contra hc
        obtain ⟨hskey, hsname⟩ := hrest x hx fun hx => hc ((congrArg Prod.fst hkey).trans hx)
        exact hsname ((hs x hx).2 (hskey.trans hkey))
      · exact (List.mem_cons.1 hx).imp_right (List.mem_cons_of_mem s)
      · rw [List.mem_cons, List.mem_cons]
        refine or_congr_right ⟨fun hx => ?_, ?_⟩
        · obtain ⟨hkey, hsname⟩ := hrest x hx hname
          exact ⟨.inr hx, fun hc => hsname ((hs x hx).2 (hkey.trans hc))⟩
        · rintro ⟨rfl | hx, hne⟩
          · exact absurd (htakes.resolve_right hname).symm hne
          · exact hx
    · rw [if_neg htakes] at h
      obtain ⟨later, hlater, rfl⟩ := Option.map_eq_some_iff.1 h
      obtain ⟨hjar', hold, hmem⟩ := ih hslots hlater
      rw [takes_iff, not_or] at htakes
      refine ⟨List.pairwise_cons.2 ⟨fun x hx => ?_, hjar'⟩, fun x hx => ?_, fun x hname => ?_⟩
      · obtain rfl | hx := hold x hx
        · exact ⟨fun hnil => absurd hnil htakes.2, fun hkey => absurd hkey htakes.1⟩
        · exact hs x hx
      · obtain rfl | hx := List.mem_cons.1 hx
        · exact .inr List.mem_cons_self
        · exact (hold x hx).imp_right (List.mem_cons_of_mem s)
      · rw [List.mem_cons, hmem x hname, List.mem_cons]
        constructor
        · rintro (rfl | rfl | ⟨hx, hne⟩)
          · exact .inr ⟨.inl rfl, fun hkey => htakes.1 hkey.symm⟩
          · exact .inl rfl
          · exact .inr ⟨.inr hx, hne⟩
        · rintro (rfl | ⟨rfl | hx, hne⟩)
          · exact .inr (.inl rfl)
          · exact .inl rfl
          · exact .inr (.inr ⟨hx, hne⟩)

theorem stored_last {cs : List SessionCookie} (n : Nat) (h : cs.foldlM (fun slots c => c.store slots) (List.replicate n {}) = some slots) :
    ((slots.filter (·.name ≠ [])).map key).Nodup ∧
      ∀ c : SessionCookie, c.name ≠ [] → (c ∈ slots ↔ (cs.filter (·.key = c.key)).getLast? = some c) := by
  suffices hjar : slots.Pairwise Apart ∧ ∀ c : SessionCookie, c.name ≠ [] → (c ∈ slots ↔ (cs.filter (·.key = c.key)).getLast? = some c) by
    refine ⟨?_, hjar.2⟩
    rw [List.Nodup, List.pairwise_map, List.pairwise_filter]
    refine hjar.1.imp fun hapart hs _ hkey => ?_
    exact absurd (hapart.2 hkey) (of_decide_eq_true hs)
  induction cs using List.reverseRecOn generalizing slots with
  | nil =>
    obtain rfl : List.replicate n {} = slots := Option.some.inj h
    refine ⟨List.pairwise_replicate.2 (.inr ⟨fun _ => rfl, fun _ => rfl⟩), fun c hname => ?_⟩
    simp only [List.mem_replicate, List.filter_nil, List.getLast?_nil, reduceCtorEq, iff_false]
    rintro ⟨-, rfl⟩
    exact hname rfl
  | append_singleton cs d ih =>
    rw [List.foldlM_append] at h
    obtain ⟨before, hbefore, h⟩ := Option.bind_eq_some_iff.1 h
    have hstore : d.store before = some slots := by simpa using h
    obtain ⟨hjar, hmem⟩ := ih hbefore
    obtain ⟨hjar', -, hmem'⟩ := store_spec hjar hstore
    refine ⟨hjar', fun c hname => ?_⟩
    rw [hmem' c hname, hmem c hname, List.filter_append]
    by_cases hkey : d.key = c.key
    · simp [hkey, eq_comm]
    · have hne : c ≠ d := fun heq => hkey (heq ▸ rfl)
      simp [hkey, hne]

end SessionCookie

/-- A field holds a cookie, which a free slot takes as it is. -/
def Holds (cookieBuf : List Char) (c : SessionCookie) : Prop := parseCookie cookieBuf [{}] = .done (some [c])

/-- The fields of a session, one after the other, as long as each gives `STATUS_OK`. -/
def parseCookies : List (List Char) → List SessionCookie → Outcome (Option (List SessionCookie))
  | [], slots => .done (some slots)
  | cookieBuf :: later, slots => (parseCookie cookieBuf slots).bind fun r =>
    match r with
    | none => .done none
    | some slots => parseCookies later slots

theorem parseCookie_store {cookieBuf : List Char} {slots slots' : List SessionCookie} (h : parseCookie cookieBuf slots = .done (some slots')) :
    ∃ c, Holds cookieBuf c ∧ c.store slots = some slots' := by
  rw [parseCookie] at h
  split at h
  · cases h
  next hname =>
  obtain ⟨name, hcopied, h⟩ := Outcome.bind_eq_done.1 h
  split at h
  · cases h
  next hvalue =>
  obtain ⟨value, hcopied', h⟩ := Outcome.bind_eq_done.1 h
  obtain ⟨c, hc, h⟩ := Outcome.bind_eq_done.1 h
  split at h
  · next hterminated =>
    refine ⟨c, ?_, Outcome.done.inj h⟩
    simp [Holds, parseCookie, hname, hcopied, hvalue, hcopied', hc, hterminated, SessionCookie.store, SessionCookie.takes]
  · cases h

theorem parseCookies_store {bufs : List (List Char)} {slots slots' : List SessionCookie} (h : parseCookies bufs slots = .done (some slots')) :
    ∃ cs, List.Forall₂ Holds bufs cs ∧ cs.foldlM (fun slots c => c.store slots) slots = some slots' := by
  induction bufs generalizing slots with
  | nil => exact ⟨[], .nil, Outcome.done.inj h⟩
  | cons cookieBuf later ih =>
    obtain ⟨r, hr, h⟩ := Outcome.bind_eq_done.1 h
    cases r with
    | none => cases h
    | some between =>
      obtain ⟨c, hholds, hstore⟩ := parseCookie_store hr
      obtain ⟨cs, hall, hcs⟩ := ih h
      exact ⟨c :: cs, .cons hholds hall, by simp [hstore, hcs]⟩

/-- **The jar holds the last cookie of each key**, whatever fields are parsed one after the other, as long as there are slots. -/
theorem jar_holds_last {bufs : List (List Char)} {slots : List SessionCookie} (n : Nat)
    (h : parseCookies bufs (List.replicate n {}) = .done (some slots)) :
    ∃ cs, List.Forall₂ Holds bufs cs ∧ ((slots.filter (·.name ≠ [])).map SessionCookie.key).Nodup ∧
      ∀ c : SessionCookie, c.name ≠ [] → (c ∈ slots ↔ (cs.filter (·.key = c.key)).getLast? = some c) := by
  obtain ⟨cs, hall, hcs⟩ := parseCookies_store h
  exact ⟨cs, hall, SessionCookie.stored_last n hcs⟩

theorem jar_holds_last_three : ∃ cs, List.Forall₂ Holds ["a=1;".toList, "b=3;".toList, "a=2;".toList] cs ∧
    (cs.filter (·.key = (['a'], [], []))).getLast? = some { name := ['a'], value := ['2'] } := by
  have hrun : parseCookies ["a=1;".toList, "b=3;".toList, "a=2;".toList] (List.replicate 2 {}) =
      .done (some [{ name := ['a'], value := ['2'] }, { name := ['b'], value := ['3'] }]) := by
    simp [parseCookies, parseCookie, strncpy, strchr, SessionCookie.attributes, SessionCookie.setAttribute]
    decide
  obtain ⟨cs, hall, -, hlast⟩ := jar_holds_last 2 hrun
  exact ⟨cs, hall, (hlast { name := ['a'], value := ['2'] } (by decide)).1 (by decide)⟩

end CodeFactory.Http
