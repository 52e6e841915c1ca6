import CodeFactory.Auth.Digest
import CodeFactory.Http.Text

/-!
# Connection requests

The server of `crq_handler.c`, which asks for digest authentication. The black list is written here but read only where the
preprocessor takes the code out, so it is left out.
-/

namespace CodeFactory.Core

open Conf (cString strchr)
open Http (mentions)
open Auth

def bufsiz : Nat := 8192

def lineLen : Nat := 1024

def crqHttpParamLen : Nat := 128

def crqAuthParamLen : Nat := 128

/-! ## The packet -/

/-- `crq_validate_http_packet`. The search for the end of the first line goes on behind what was received, and behind the array if
there is no zero in it. -/
def crqValidateHttpPacket (buf : List Char) : Outcome Bool :=
  let msgType := buf.takeWhile fun ch => ch != '\r' && ch != '\x00'
  match buf.drop msgType.length with
  | [] => .undefined
  | ch :: _ =>
    if ch = '\x00' then .done false
    else if crqHttpParamLen ≤ msgType.length then .undefined
    else
      match strchr ' ' msgType with
      | none => .done false
      | some (_, p) =>
        match strchr ' ' p with
        | none => .done false
        | some (_, version) =>
          .done (sameNoCase (msgType.take 3) "GET".toList && sameNoCase version "HTTP/1.1".toList)

/-- The loop over the lines of a packet: `left` is how far `p` is from the end of what was received, or nothing when `p` has passed
it, and `q` holds the characters from `q` to `p`. The result is whether an `Authorization` line was found, and what is in `line`. -/
def scanLines (left : Option Nat) (q line : List Char) : List Char → Outcome (Bool × List Char)
  | [] => if left = some 0 then .done (false, line) else .undefined
  | ch :: buf =>
    if left = some 0 then .done (false, line)
    else if ch = '\r' then
      match buf with
      | [] => .undefined
      | next :: buf =>
        if next = '\n' then
          if lineLen ≤ q.length then .undefined
          else if mentions (cString q) "Authorization".toList then .done (true, cString q)
          else scanLines (left.bind fun n => if n = 1 then none else some (n - 2)) [] (cString q) buf
        else scanLines (left.map (· - 1)) (q ++ [ch]) line (next :: buf)
    else scanLines (left.map (· - 1)) (q ++ [ch]) line buf

/-! ## `crq_do_authentication` -/

/-- `__trim`: the first word. -/
def trim (str : List Char) : List Char := (str.dropWhile (· == ' ')).takeWhile (· != ' ')

/-- `__dequote`. A quote alone gives a length of `-1`. -/
def dequote (str : List Char) : Outcome (List Char) :=
  if str.head? = some '"' ∧ str.getLast? = some '"' then
    if str.length < 2 then .undefined else .done str.tail.dropLast
  else .done str

/-- The first `nc` that is followed by an equals sign or a blank. -/
def findNc : List Char → Option (List Char)
  | [] => none
  | ch :: s =>
    if "nc".toList.isPrefixOf (ch :: s) && (s.tail.head? == some '=' || s.tail.head? == some ' ') then some (ch :: s)
    else findNc s

/-- Where the parameter begins. -/
def findParam (name authinfo : List Char) : Option (List Char) :=
  if name = "nc".toList then findNc authinfo else (authinfo.dropInfix? name).map fun r => name ++ r.2

/-- What is in the array of a parameter after the line was read; nothing for `CRQ_ERR_INVALID`. An array that is not written keeps
what it held. -/
def authParam (authinfo : List Char) (name held : List Char) : Outcome (Option (List Char)) :=
  match findParam name authinfo with
  | none => .done (some held)
  | some p =>
    match strchr '=' p with
    | none => .done none
    | some (_, value) =>
      if crqAuthParamLen ≤ (value.takeWhile (· != ',')).length then .undefined
      else (dequote (trim (value.takeWhile (· != ',')))).map some

/-- The arrays of `crq_do_authentication`. -/
structure AuthParams where
  username : List Char := []
  realm : List Char := []
  nonce : List Char := []
  uri : List Char := []
  qop : List Char := []
  nc : List Char := []
  cnonce : List Char := []
  opaqueText : List Char := []
  response : List Char := []
  deriving DecidableEq, Repr

/-- A step of the loop over the parameters, which ends with `CRQ_ERR_INVALID`. -/
def nextParam (authinfo : List Char) (name : String) (held : AuthParams → List Char) (set : AuthParams → List Char → AuthParams)
    (params : Option AuthParams) : Outcome (Option AuthParams) :=
  match params with
  | none => .done none
  | some params => (authParam authinfo name.toList (held params)).map fun value => value.map (set params)

/-- The loop over the parameters, on arrays that hold `held`. -/
def readParams (authinfo : List Char) (held : AuthParams) : Outcome (Option AuthParams) :=
  (nextParam authinfo "username" (·.username) (fun a v => { a with username := v }) (some held)).bind fun a =>
  (nextParam authinfo "realm" (·.realm) (fun a v => { a with realm := v }) a).bind fun a =>
  (nextParam authinfo "nonce" (·.nonce) (fun a v => { a with nonce := v }) a).bind fun a =>
  (nextParam authinfo "uri" (·.uri) (fun a v => { a with uri := v }) a).bind fun a =>
  (nextParam authinfo "qop" (·.qop) (fun a v => { a with qop := v }) a).bind fun a =>
  (nextParam authinfo "nc" (·.nc) (fun a v => { a with nc := v }) a).bind fun a =>
  (nextParam authinfo "cnonce" (·.cnonce) (fun a v => { a with cnonce := v }) a).bind fun a =>
  (nextParam authinfo "opaque" (·.opaqueText) (fun a v => { a with opaqueText := v }) a).bind fun a =>
  nextParam authinfo "response" (·.response) (fun a v => { a with response := v }) a

/-- `gManagementServer`, as far as connection requests go. -/
structure ManagementServer where
  connectionRequestUsername : List Char
  connectionRequestPassword : List Char

/-- The response that the parameters and the password make. -/
def expectedResponse (gManagementServer : ManagementServer) (a : AuthParams) : List Char :=
  let ha1 := digestCalcHa1 "md5".toList a.username a.realm gManagementServer.connectionRequestPassword a.nonce a.cnonce
  digestCalcResponse ha1 a.nonce a.nc a.cnonce a.qop "GET".toList a.uri (List.replicate 32 '\x00')

/-- `crq_do_authentication`: whether it returns `TCMAGENT_OK`. Where the response is another one, `gHttpCliIP` is compared, which is
`NULL` before the first challenge. -/
def crqDoAuthentication (gManagementServer : ManagementServer) (gHttpCliIP : Option (List Char)) (held : AuthParams)
    (authinfo : List Char) : Outcome Bool :=
  (readParams authinfo held).bind fun params =>
    match params with
    | none => .done false
    | some a =>
      if a.username ≠ gManagementServer.connectionRequestUsername then .done false
      else if a.response = expectedResponse gManagementServer a then .done true
      else if gHttpCliIP = none then .undefined
      else .done false

/-! ## `crq_handle_connection_request` -/

/-- What a call of `recv` in `crq_handle_connection_request` gives, or nothing for an error, and what the machine does behind it:
what the arrays of `crq_do_authentication` hold, what the clock says, whether `send` succeeds and whether there is memory. -/
structure CrqRecv where
  packet : Option { p : List Char // p.length ≤ bufsiz }
  held : AuthParams := {}
  timestamp : Int := 0
  sent : Bool := true
  malloc : Bool := true

/-- An answer: `200 OK` to a line, with an Inform, or `401 Unauthorized` with a nonce. -/
inductive Reply where
  | ok (line : List Char) (sent informed : Bool)
  | unauthorized (nonce : Int)
  deriving DecidableEq, Repr

/-- The loop of `crq_handle_connection_request`, up to where it waits for the next packet: `gHttpCliIP` behind it and the answers.
`check_tr069_main_loop_status` returns `TCMAGENT_OK` always. -/
def handleConnectionRequest (gManagementServer : ManagementServer) (gHttpCliIPCurr : List Char) (gHttpCliIP : Option (List Char))
    (buf : List Char) (hasAuthInfo : Bool) (line : List Char) : List CrqRecv → Outcome (Option (List Char) × List Reply)
  | [] => .done (gHttpCliIP, [])
  | r :: received =>
    match r.packet with
    | none => .done (gHttpCliIP, [])
    | some packet =>
      let buf := packet.1 ++ buf.drop packet.1.length
      (crqValidateHttpPacket buf).bind fun valid =>
        if valid = false then .done (gHttpCliIP, [])
        else
          (scanLines (some packet.1.length) [] line buf).bind fun found =>
            if hasAuthInfo = true ∨ found.1 = true then
              (crqDoAuthentication gManagementServer gHttpCliIP r.held found.2).bind fun ok =>
                if ok = true then .done (gHttpCliIP, [.ok found.2 r.sent r.malloc])
                else if r.sent = true then
                  (handleConnectionRequest gManagementServer gHttpCliIPCurr gHttpCliIP buf true found.2 received).map fun h =>
                    (h.1, .unauthorized r.timestamp :: h.2)
                else .done (gHttpCliIP, [])
            else if r.sent = true then
              (handleConnectionRequest gManagementServer gHttpCliIPCurr (some gHttpCliIPCurr) buf false found.2 received).map fun h =>
                (h.1, .unauthorized r.timestamp :: h.2)
            else .done (some gHttpCliIPCurr, [])

/-- A connection: the address, what the arrays `buf` and `line` hold, and what is received. -/
structure Connection where
  ip : List Char
  buf : List Char
  line : List Char
  received : List CrqRecv
  buf_length : buf.length = bufsiz

/-- The loop of `crq_http_server_task` over the connections. -/
def serve (gManagementServer : ManagementServer) (gHttpCliIP : Option (List Char)) : List Connection → Outcome (List Reply)
  | [] => .done []
  | c :: cs =>
    (handleConnectionRequest gManagementServer c.ip gHttpCliIP c.buf false c.line c.received).bind fun h =>
      (serve gManagementServer h.1 cs).map fun replies => h.2 ++ replies

/-! ## What is accepted -/

/-- The parameters of a line are those of somebody who knows the password, over the nonce that the line itself names. -/
def Authentic (gManagementServer : ManagementServer) (held : AuthParams) (line : List Char) : Prop :=
  ∃ a, readParams line held = .done (some a) ∧ a.username = gManagementServer.connectionRequestUsername ∧
    a.response = expectedResponse gManagementServer a

variable {gManagementServer : ManagementServer} {gHttpCliIP : Option (List Char)}

theorem crqDoAuthentication_ok {held : AuthParams} {authinfo : List Char}
    (h : crqDoAuthentication gManagementServer gHttpCliIP held authinfo = .done true) : Authentic gManagementServer held authinfo := by
  obtain ⟨params, hparams, h⟩ := Outcome.bind_eq_done.1 h
  cases params with
  | none => cases h
  | some a =>
    dsimp only at h
    split at h
    · cases h
    next huser =>
    split at h
    · next hresponse => exact ⟨a, hparams, not_not.1 huser, hresponse⟩
    · split at h
      all_goals cases h

/-- An answer `200 OK` of a connection is for a line that is authentic. -/
theorem handleConnectionRequest_ok {gHttpCliIPCurr buf line₀ line : List Char} {hasAuthInfo sent informed : Bool}
    {received : List CrqRecv} {h : Option (List Char) × List Reply}
    (hrun : handleConnectionRequest gManagementServer gHttpCliIPCurr gHttpCliIP buf hasAuthInfo line₀ received = .done h)
    (hok : Reply.ok line sent informed ∈ h.2) : ∃ r ∈ received, Authentic gManagementServer r.held line := by
  induction received generalizing gHttpCliIP buf hasAuthInfo line₀ h with
  | nil =>
    cases hrun
    cases hok
  | cons r received ih =>
    have hlater : ∀ {gHttpCliIP buf hasAuthInfo line₀},
        (handleConnectionRequest gManagementServer gHttpCliIPCurr gHttpCliIP buf hasAuthInfo line₀ received).map
          (fun h => (h.1, Reply.unauthorized r.timestamp :: h.2)) = .done h →
        ∃ r' ∈ r :: received, Authentic gManagementServer r'.held line := by
      intro gHttpCliIP buf hasAuthInfo line₀ hmap
      obtain ⟨h', hrun', rfl⟩ := Outcome.map_eq_done.1 hmap
      obtain hok | hok := List.mem_cons.1 hok
      · cases hok
      · obtain ⟨r', hr', hauth⟩ := ih hrun' hok
        exact ⟨r', List.mem_cons_of_mem r hr', hauth⟩
    unfold handleConnectionRequest at hrun
    cases hpacket : r.packet with
    | none =>
      rw [hpacket] at hrun
      cases hrun
      cases hok
    | some packet =>
      rw [hpacket] at hrun
      obtain ⟨valid, -, hrun⟩ := Outcome.bind_eq_done.1 hrun
      split at hrun
      · cases hrun
        cases hok
      obtain ⟨found, -, hrun⟩ := Outcome.bind_eq_done.1 hrun
      split at hrun
      · obtain ⟨ok, hauth, hrun⟩ := Outcome.bind_eq_done.1 hrun
        split at hrun
        · next hyes =>
          subst hyes
          cases hrun
          obtain heq := List.mem_singleton.1 hok
          cases heq
          exact ⟨r, List.mem_cons_self, crqDoAuthentication_ok hauth⟩
        split at hrun
        · exact hlater hrun
        · cases hrun
          cases hok
      · split at hrun
        · exact hlater hrun
        · cases hrun
          cases hok

def namedNonce (line : List Char) : Outcome (Option (List Char)) := authParam line "nonce".toList []

/-- Every line that is accepted names a nonce that was issued before, and that no line accepted before names. -/
def Fresh (replies : List Reply) : Prop :=
  ∀ before line sent informed behind, replies = before ++ Reply.ok line sent informed :: behind →
    (∃ nonce, Reply.unauthorized nonce ∈ before ∧ namedNonce line = .done (some (toString nonce).toList)) ∧
      ∀ line' sent' informed', Reply.ok line' sent' informed' ∈ before → namedNonce line' ≠ namedNonce line

/-- A user name and a password. -/
def acs : ManagementServer := ⟨"acs".toList, "pw".toList⟩

/-- An `Authorization` line over the nonce `1000`. -/
def authorization : List Char :=
  "Authorization: Digest username=\"acs\", realm=\"cpeAuthentication\", nonce=\"1000\", uri=\"/\", qop=\"auth\", nc=00000001, ".toList ++
    "cnonce=\"2\", response=\"e023d0a8d5e1774ba9c96be37ff8703e\"".toList

theorem plain_length : "GET / HTTP/1.1\r\n\r\n".toList.length ≤ bufsiz := by decide

theorem authorized_length : ("GET / HTTP/1.1\r\n".toList ++ (authorization ++ "\r\n\r\n".toList)).length ≤ bufsiz := by decide +kernel

theorem zeros_length : (List.replicate bufsiz '\x00').length = bufsiz := List.length_replicate

/-- A request without authentication, at the time `1000`. -/
def plainRequest : CrqRecv := { packet := some ⟨_, plain_length⟩, timestamp := 1000 }

/-- A request with the line. -/
def authorizedRequest : CrqRecv := { packet := some ⟨_, authorized_length⟩ }

/-- A connection on which some packets come. -/
def connectionOf (received : List CrqRecv) : Connection :=
  ⟨"10.0.0.1".toList, List.replicate bufsiz '\x00', [], received, zeros_length⟩

/-- A request is authenticated on one connection and comes again on the next. -/
def replayed : List Connection := [connectionOf [plainRequest, authorizedRequest], connectionOf [authorizedRequest]]

theorem serve_replayed : serve acs none replayed =
    .done [.unauthorized 1000, .ok authorization true true, .ok authorization true true] := by decide +kernel

/-- A nonce that was never issued is accepted, too. -/
theorem serve_unissued : serve acs none [connectionOf [authorizedRequest]] = .done [.ok authorization true true] := by decide +kernel

end CodeFactory.Core
