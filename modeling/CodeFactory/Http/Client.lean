import CodeFactory.Http.Header

/-!
# Sending a packet and reading the answer

`recv_raw` and `send_packet_to_acs_server`. What `gRecvBuf` holds is the list of the characters up to the last one that was
received; behind them it holds zeros, up to its end. How the kernel answers `send` and `recv` is given from outside, call by call.
-/

namespace CodeFactory.Http

open Conf (cString intMax)

/-- `HTTP_SOAP_MAX_RECV_LENGTH`, the length of `gRecvBuf` and of `tmprecvbuf`. -/
def httpSoapMaxRecvLength : Nat := 32000

def httpMaxTryTimes : Nat := 3

/-! ## `recv_raw` -/

/-- What `select` and `recv` do: characters come, none where the peer has closed, or there is an error. -/
inductive Recv where
  | data (piece : List Char)
  | failed (ret : Result) (hret : ret ≠ .tcmagentOk)

/-- `recv_raw` of at most `length` characters into a buffer of `room` characters, with the zero that is put behind them. -/
def recvRaw (room length : Nat) : Recv → Outcome (Except Result (List Char))
  | .failed ret _ => .done (.error ret)
  | .data piece =>
    if length < piece.length then .done (.error .socketRwError)
    else if piece.length < room then .done (.ok piece)
    else .undefined

/-! ## The body of a response -/

/-- What `send_packet_to_acs_server` returns: its result, the length and the block that are given to the caller. -/
structure Reply where
  ret : Result
  rBufferLen : Option Nat := none
  rBuffer : Option (List Char) := none
  deriving DecidableEq, Repr

/-- A body is copied into a block with a zero behind it. -/
def giveBody (m : Machine) (body : List Char) : Reply :=
  if m.malloc (body.length + 1) then ⟨.tcmagentOk, some body.length, some (body ++ ['\x00'])⟩
  else ⟨.mallocFailure, some body.length, none⟩

/-- The length of `tmp_buf`. -/
def tmpBufLen : Nat := 30

/-- `strtol ( tmp_buf, NULL, 16 )` after the line was copied there. A number that fills the array has no end. -/
def chunkSize (sizeLine : List Char) : Outcome Int :=
  if tmpBufLen < sizeLine.length then .undefined
  else if sizeLine.length = tmpBufLen ∧ (strtol16 sizeLine).2 = [] then .undefined
  else .done (strtol16 sizeLine).1

/-- A block of `n` characters, of which those that were not received are zeros. -/
def block (n : Nat) (s : List Char) : List Char := (s ++ List.replicate n '\x00').take n

/-- The loop over the chunks: `chunkStart` stands at `pos` in `gRecvBuf`, `out` is what has been copied to `tmprecvbuf`. -/
def chunkLoop (recvLen pos : Nat) (out chunkStart : List Char) : Outcome (Except Result (List Char)) :=
  if httpSoapMaxRecvLength ≤ pos then .undefined
  else
    match _h : (cString chunkStart).dropInfix? crlf with
    | none => .done (.error .httpFormatError)
    | some (sizeLine, _) =>
      (chunkSize sizeLine).bind fun size =>
        if size < 0 then .done (.error .httpFormatError)
        else if intMax < out.length + size then .undefined
        else if (recvLen : Int) < out.length + size then .done (.error .httpFormatError)
        else if httpSoapMaxRecvLength < pos + sizeLine.length + 2 + size.toNat then .undefined
        else
          let chunkBody := chunkStart.drop (sizeLine.length + 2)
          if size = 0 then .done (.ok out)
          else
            chunkLoop recvLen (pos + sizeLine.length + 2 + size.toNat + 2) (out ++ block size.toNat chunkBody)
              (chunkBody.drop (size.toNat + 2))
termination_by chunkStart.length
decreasing_by
  have hpos : 0 < chunkStart.length := by
    cases chunkStart with
    | nil => exact nomatch _h
    | cons ch s => exact Nat.succ_pos _
  rw [List.length_drop, List.length_drop]
  omega

/-- The case `STATUS_OK`; nothing where it goes on receiving. -/
def okPacket (m : Machine) (contentLength : Int) (gChunkFlag : Bool) (recvBuf : List Char) : Outcome (Option Reply) :=
  if 0 < contentLength then
    match headerEnd recvBuf with
    | none => .done (some { ret := .httpFormatError })
    | some httpBody =>
      if recvBuf.length - httpBody < contentLength.toNat then .done none
      else .done (some (giveBody m ((recvBuf.drop httpBody).take contentLength.toNat)))
  else if gChunkFlag then
    match headerEnd recvBuf with
    | none => .done (some { ret := .httpFormatError })
    | some httpBody =>
      if mentions (cString (recvBuf.drop httpBody)) (crlf ++ crlf) = false then .done none
      else
        (chunkLoop recvBuf.length httpBody [] (recvBuf.drop httpBody)).map fun r =>
          match r with
          | .error ret => some { ret }
          | .ok [] => some { ret := .httpFormatError }
          | .ok body => some (giveBody m body)
  else .done (some { ret := .httpFormatError, rBufferLen := some 0 })

/-! ## `send_packet_to_acs_server` -/

/-- The globals that requests and headers are about. -/
structure Client where
  gHttpPath : List Char
  gAuthStatus : AuthStatus
  gDigestAuth : DigestAuth
  sessionCookie : List SessionCookie
  deriving DecidableEq, Repr

/-- What goes from one try to the next: the globals and the locals `contentLength` and `recvLen`. -/
structure Call where
  client : Client
  contentLength : Int
  recvLen : Nat
  deriving DecidableEq, Repr

/-- `parse_http_header` on `gRecvBuf`: the status, `gChunkFlag`, and what it has written. -/
def Call.parse (m : Machine) (s : Call) (recvBuf : List Char) : Outcome (HttpStatus × Bool × Call) :=
  (parseHttpHeader m s.client.gHttpPath .soapHead s.client.sessionCookie s.client.gAuthStatus s.client.gDigestAuth recvBuf).map
    fun r => (r.1, r.2.gChunkFlag, {
      client := { s.client with
        gAuthStatus := r.2.authStatus, gDigestAuth := r.2.digestAuth, sessionCookie := r.2.sessionCookie }
      contentLength := r.2.contentLength.getD s.contentLength
      recvLen := recvBuf.length })

/-- The loop that receives the rest of the body of a challenge: the last result, `recvLen`, `contentLength` and what is left to
be received. -/
def drain (ret : Result) (recvLen : Nat) (contentLength : Int) : List Recv → Outcome (Result × Nat × Int × List Recv)
  | [] => if recvLen < contentLength then .done (.socketTimeout, 0, -1, []) else .done (ret, recvLen, contentLength, [])
  | ev :: recvs =>
    if recvLen < contentLength then
      (recvRaw httpSoapMaxRecvLength httpSoapMaxRecvLength ev).bind fun r =>
        match r with
        | .error ret => drain ret 0 (-1) recvs
        | .ok piece =>
          if contentLength - recvLen < piece.length ∨ piece.length ≤ 0 then drain .tcmagentOk 0 (-1) recvs
          else drain .tcmagentOk piece.length (contentLength - recvLen) recvs
    else .done (ret, recvLen, contentLength, ev :: recvs)

/-- What a try ends with: the function returns, or there is another try. -/
inductive Attempt where
  | returned (client : Client) (reply : Reply)
  | again (ret : Result) (s : Call) (recvs : List Recv)

/-- From `continue_recv_tag` on. Where nothing more is sent, `select` runs into its timeout. -/
def recvLoop (m : Machine) (s : Call) (recvBuf : List Char) : List Recv → Outcome Attempt
  | [] => .done (.returned s.client { ret := .socketTimeout })
  | ev :: recvs =>
    (recvRaw httpSoapMaxRecvLength httpSoapMaxRecvLength ev).bind fun r =>
      match r with
      | .error ret => .done (.returned s.client { ret })
      | .ok piece =>
        if piece = [] then .done (.returned s.client { ret := .tcmagentOk })
        else if httpSoapMaxRecvLength ≤ recvBuf.length + piece.length then
          .done (.returned s.client { ret := .httpFormatError })
        else
          (s.parse m (recvBuf ++ piece)).bind fun p =>
            match p with
            | (.statusOk, gChunkFlag, s) =>
              (okPacket m s.contentLength gChunkFlag (recvBuf ++ piece)).bind fun reply =>
                match reply with
                | some reply => .done (.returned s.client reply)
                | none => recvLoop m s (recvBuf ++ piece) recvs
            | (.statusNoContent, _, s) => .done (.returned s.client ⟨.tcmagentOk, some 0, none⟩)
            | (.statusNeedAuth, _, s) =>
              match headerEnd (recvBuf ++ piece) with
              | none => .done (.returned s.client { ret := .httpFormatError })
              | some body =>
                if (recvBuf ++ piece).length < body then .done (.returned s.client { ret := .socketRwError })
                else
                  (drain .httpAuthError ((recvBuf ++ piece).length - body) s.contentLength recvs).map fun d =>
                    .again d.1 { s with recvLen := d.2.1, contentLength := d.2.2.1 } d.2.2.2
            | (_, _, s) => .done (.again .socketRwError s recvs)

/-- What a call of `send_packet_to_acs_server` leaves: how many requests were sent, the globals, and what it returns. -/
structure Finished where
  asked : Nat
  client : Client
  reply : Reply
  deriving DecidableEq, Repr

/-- The loop over the tries. The request is built without an error, as `gen_auth_info` returns none; `sends` is what `send_raw`
gives, and `TCMAGENT_OK` behind its end. -/
def tryLoop (m : Machine) : Nat → Result → Call → List Result → List Recv → Nat → Outcome Finished
  | 0, ret, s, _, _, asked => .done ⟨asked, s.client, { ret }⟩
  | tries + 1, _, s, sends, recvs, asked =>
    if sends.headD .tcmagentOk ≠ .tcmagentOk then tryLoop m tries (sends.headD .tcmagentOk) s sends.tail recvs asked
    else
      (recvLoop m s (List.replicate s.recvLen '\x00') recvs).bind fun a =>
        match a with
        | .returned client reply => .done ⟨asked + 1, client, reply⟩
        | .again ret s recvs => tryLoop m tries ret s sends.tail recvs (asked + 1)

def sendPacketToAcsServer (m : Machine) (client : Client) (sends : List Result) (recvs : List Recv) : Outcome Finished :=
  tryLoop m httpMaxTryTimes .tcmagentOk ⟨client, -1, 0⟩ sends recvs 0

/-! ## One piece -/

section Piece

variable {m : Machine} {s s' : Call} {recvBuf p : List Char} {recvs : List Recv} {gChunkFlag : Bool}

/-- The piece fits behind what has come, with a character to spare. -/
def FitsBehind (recvBuf p : List Char) : Prop := p ≠ [] ∧ recvBuf.length + p.length < httpSoapMaxRecvLength

/-- A piece that does not fit gives nothing. -/
theorem recvLoop_long {a : Attempt} (hp : p ≠ []) (hlong : ¬FitsBehind recvBuf p)
    (h : recvLoop m s recvBuf (.data p :: recvs) = .done a) :
    ∃ client reply, a = .returned client reply ∧ reply.rBufferLen = none := by
  obtain ⟨r, hraw, h⟩ := Outcome.bind_eq_done.1 h
  cases r with
  | error ret =>
    cases h
    exact ⟨_, _, rfl, rfl⟩
  | ok piece =>
    dsimp only at h
    split at h
    · cases h
      exact ⟨_, _, rfl, rfl⟩
    split at h
    · cases h
      exact ⟨_, _, rfl, rfl⟩
    next hlen =>
    obtain rfl : p = piece := by
      simp only [recvRaw] at hraw
      split at hraw
      · cases hraw
      split at hraw
      · cases hraw
        rfl
      · cases hraw
    exact absurd ⟨hp, Nat.lt_of_not_le hlen⟩ hlong

theorem recvLoop_closed : recvLoop m s recvBuf (.data [] :: recvs) = .done (.returned s.client { ret := .tcmagentOk }) := rfl

/-- What is made of a piece that fits depends on the status. -/
theorem recvLoop_data (hp : FitsBehind recvBuf p) : recvLoop m s recvBuf (.data p :: recvs) =
    (s.parse m (recvBuf ++ p)).bind fun r =>
      match r with
      | (.statusOk, gChunkFlag, s) =>
        (okPacket m s.contentLength gChunkFlag (recvBuf ++ p)).bind fun reply =>
          match reply with
          | some reply => .done (.returned s.client reply)
          | none => recvLoop m s (recvBuf ++ p) recvs
      | (.statusNoContent, _, s) => .done (.returned s.client ⟨.tcmagentOk, some 0, none⟩)
      | (.statusNeedAuth, _, s) =>
        match headerEnd (recvBuf ++ p) with
        | none => .done (.returned s.client { ret := .httpFormatError })
        | some body =>
          if (recvBuf ++ p).length < body then .done (.returned s.client { ret := .socketRwError })
          else
            (drain .httpAuthError ((recvBuf ++ p).length - body) s.contentLength recvs).map fun d =>
              .again d.1 { s with recvLen := d.2.1, contentLength := d.2.2.1 } d.2.2.2
      | (_, _, s) => .done (.again .socketRwError s recvs) := by
  obtain ⟨hne, hlen⟩ := hp
  have hraw : recvRaw httpSoapMaxRecvLength httpSoapMaxRecvLength (.data p) = .done (.ok p) := by
    simp only [recvRaw]
    rw [if_neg (by omega), if_pos (by omega)]
  rw [recvLoop, hraw, Outcome.bind_done]
  dsimp only
  rw [if_neg hne, if_neg (by omega)]

theorem recvLoop_ok (hp : FitsBehind recvBuf p) (h : s.parse m (recvBuf ++ p) = .done (.statusOk, gChunkFlag, s')) :
    recvLoop m s recvBuf (.data p :: recvs) =
      (okPacket m s'.contentLength gChunkFlag (recvBuf ++ p)).bind fun reply =>
        match reply with
        | some reply => .done (.returned s'.client reply)
        | none => recvLoop m s' (recvBuf ++ p) recvs := by
  rw [recvLoop_data hp, h]
  rfl

theorem recvLoop_noContent (hp : FitsBehind recvBuf p)
    (h : s.parse m (recvBuf ++ p) = .done (.statusNoContent, gChunkFlag, s')) :
    recvLoop m s recvBuf (.data p :: recvs) = .done (.returned s'.client ⟨.tcmagentOk, some 0, none⟩) := by
  rw [recvLoop_data hp, h]
  rfl

theorem recvLoop_failed {status : HttpStatus} (hp : FitsBehind recvBuf p)
    (hstatus : status = .parserError ∨ status = .unknowStatusCode ∨ status = .contentNotSupport ∨ status = .formatError)
    (h : s.parse m (recvBuf ++ p) = .done (status, gChunkFlag, s')) :
    recvLoop m s recvBuf (.data p :: recvs) = .done (.again .socketRwError s' recvs) := by
  rw [recvLoop_data hp, h]
  obtain rfl | rfl | rfl | rfl := hstatus
  all_goals rfl

/-- Where a piece is made something of, it was parsed. -/
theorem parse_of_recvLoop {a : Attempt} (hp : FitsBehind recvBuf p) (h : recvLoop m s recvBuf (.data p :: recvs) = .done a) :
    ∃ status gChunkFlag s', s.parse m (recvBuf ++ p) = .done (status, gChunkFlag, s') ∧ s'.recvLen = (recvBuf ++ p).length := by
  rw [recvLoop_data hp] at h
  obtain ⟨⟨status, gChunkFlag, s'⟩, hparse, -⟩ := Outcome.bind_eq_done.1 h
  refine ⟨status, gChunkFlag, s', hparse, ?_⟩
  obtain ⟨r, -, heq⟩ := Outcome.map_eq_done.1 hparse
  cases heq
  rfl

/-- It goes on receiving only after the header has ended. -/
theorem headerEnd_of_okPacket {contentLength : Int} (h : okPacket m contentLength gChunkFlag recvBuf = .done none) :
    ∃ n, headerEnd recvBuf = some n := by
  cases hend : headerEnd recvBuf with
  | some n => exact ⟨n, rfl⟩
  | none =>
    unfold okPacket at h
    rw [hend] at h
    split at h
    · cases h
    split at h
    · cases h
    · cases h

end Piece

/-! ## A try that begins behind old lengths -/

/-- A header is not found in a buffer that begins with a zero. -/
theorem Call.parse_nul {m : Machine} {s : Call} {tail : List Char} {r : HttpStatus × Bool × Call}
    (h : s.parse m ('\x00' :: tail) = .done r) : r.1 = .parserError ∧ r.2.2.recvLen = tail.length + 1 := by
  obtain ⟨p, hp, rfl⟩ := Outcome.map_eq_done.1 h
  obtain ⟨line, hline, hp⟩ := Outcome.bind_eq_done.1 hp
  have htext : cString line = [] := getLine_nul hline
  rw [if_pos (by exact htext)] at hp
  cases hp
  exact ⟨rfl, rfl⟩

/-- Where the buffer begins with a zero, the try gives nothing, and leaves a length behind. -/
theorem recvLoop_nul {m : Machine} {s : Call} {tail : List Char} {recvs : List Recv} {a : Attempt}
    (h : recvLoop m s ('\x00' :: tail) recvs = .done a) :
    (∃ client reply, a = .returned client reply ∧ reply.rBufferLen = none) ∨
      ∃ ret s' recvs', a = .again ret s' recvs' ∧ 0 < s'.recvLen := by
  cases recvs with
  | nil =>
    cases h
    exact .inl ⟨_, _, rfl, rfl⟩
  | cons ev recvs =>
    obtain ⟨r, -, h⟩ := Outcome.bind_eq_done.1 h
    cases r with
    | error ret =>
      cases h
      exact .inl ⟨_, _, rfl, rfl⟩
    | ok piece =>
      dsimp only at h
      split at h
      · cases h
        exact .inl ⟨_, _, rfl, rfl⟩
      split at h
      · cases h
        exact .inl ⟨_, _, rfl, rfl⟩
      obtain ⟨⟨status, gChunkFlag, s'⟩, hp, h⟩ := Outcome.bind_eq_done.1 h
      obtain ⟨hstatus, hlen⟩ := Call.parse_nul hp
      obtain rfl : status = .parserError := hstatus
      cases h
      exact .inr ⟨_, _, _, rfl, by rw [show s'.recvLen = _ from hlen]; omega⟩

/-- A length that an earlier try has left keeps every later one from giving anything. -/
theorem tryLoop_recvLen {m : Machine} {tries : Nat} {ret : Result} {s : Call} {sends : List Result} {recvs : List Recv}
    {asked : Nat} {f : Finished} (hs : 0 < s.recvLen) (h : tryLoop m tries ret s sends recvs asked = .done f) :
    f.reply.rBufferLen = none := by
  induction tries generalizing ret s sends recvs asked with
  | zero =>
    cases h
    rfl
  | succ tries ih =>
    rw [tryLoop] at h
    split at h
    · exact ih hs h
    · obtain ⟨n, hn⟩ : ∃ n, s.recvLen = n + 1 := ⟨s.recvLen - 1, by omega⟩
      rw [hn, List.replicate_succ] at h
      obtain ⟨a, ha, h⟩ := Outcome.bind_eq_done.1 h
      obtain ⟨client, reply, rfl, hreply⟩ | ⟨ret', s', recvs', rfl, hs'⟩ := recvLoop_nul ha
      · cases h
        exact hreply
      · exact ih hs' h

end CodeFactory.Http
