import CodeFactory.Http.Retry

/-!
# Downloading a file

`http_download_file`. What the server sends is given as the answers to the calls of `recv`, one after the other and without an end.
-/

namespace CodeFactory.Http

open Conf (cString intMax)

/-! ## The code -/

/-- What goes from one try to the next: `*fileSize`, `contentLength`, the status of the authentication and the cookies. -/
structure Transfer where
  fileSize : Int
  contentLength : Int
  authStatus : AuthStatus
  digestAuth : DigestAuth
  sessionCookie : List SessionCookie
  deriving DecidableEq, Repr

/-- What a call of `http_download_file` leaves: how many requests were sent, what it returns, and `*fileContent`. -/
structure Downloaded where
  asked : Nat
  ret : Result
  fileContent : Option (List Char)
  deriving DecidableEq, Repr

def httpDownloadRecvLength : Nat := 32000

/-- `recv_raw` into `recvBuf`, which is a character longer than `HTTP_DOWNLOAD_RECV_LENGTH`. -/
def recvFile (ev : Recv) : Outcome (Except Result (List Char)) := recvRaw (httpDownloadRecvLength + 1) httpSoapMaxRecvLength ev

/-- The loop, once the header was accepted: `content` is what has been copied to `*fileContent`, and the next call of `recv` is the
one of number `i`. -/
def copyLoop (recvs : Nat → Recv) (fileSize : Int) (asked : Nat) : Nat → Nat → List Char → Outcome Downloaded
  | fuel, i, content =>
    if (content.length : Int) < fileSize then
      match fuel with
      | 0 => .outOfFuel
      | fuel + 1 =>
        (recvFile (recvs i)).bind fun r =>
          match r with
          | .error ret => .done ⟨asked, ret, none⟩
          | .ok piece => copyLoop recvs fileSize asked fuel (i + 1) (content ++ piece.take (fileSize - content.length).toNat)
    else .done ⟨asked, .tcmagentOk, some content⟩

/-- `parse_http_header` on what one call of `recv` gave. -/
def Transfer.parse (m : Machine) (httpPath : List Char) (s : Transfer) (recvBuf : List Char) : Outcome (HttpStatus × Transfer) :=
  (parseHttpHeader m httpPath .downloadHead s.sessionCookie s.authStatus s.digestAuth recvBuf).map fun r =>
    (r.1, ⟨s.fileSize, r.2.contentLength.getD s.contentLength, r.2.authStatus, r.2.digestAuth, r.2.sessionCookie⟩)

/-- A `*fileSize` of zero stands for one that is not known. -/
def Transfer.begin (s : Transfer) : Transfer := { s with fileSize := if s.fileSize = 0 then -1 else s.fileSize }

/-- The `*fileSize` behind an accepted header. -/
def Transfer.size (s : Transfer) : Int := if s.fileSize = -1 ∧ s.contentLength ≠ 0 then s.contentLength else s.fileSize

/-- The case `STATUS_OK`, and the loop behind it. -/
def acceptFile (m : Machine) (recvs : Nat → Recv) (s : Transfer) (asked fuel i : Nat) (recvBuf : List Char) : Outcome Downloaded :=
  match headerEnd recvBuf with
  | none => .done ⟨asked, .httpFormatError, none⟩
  | some body =>
    if recvBuf.length < body then .done ⟨asked, .socketRwError, none⟩
    else if s.size ≤ 0 ∨ m.malloc s.size.toNat = false then .done ⟨asked, .mallocFailure, none⟩
    else if s.size < (recvBuf.drop body).length then .undefined
    else copyLoop recvs s.size asked fuel i (recvBuf.drop body)

/-- The loop over the tries. Each call of `recv` before a header is accepted belongs to a try of its own, and `sends` is what
`send_raw` gives, with `TCMAGENT_OK` behind its end. -/
def downloadLoop (m : Machine) (httpPath : List Char) (recvs : Nat → Recv) (fuel : Nat) :
    Nat → Result → Transfer → List Result → Nat → Outcome Downloaded
  | 0, ret, _, _, asked => .done ⟨asked, ret, none⟩
  | tries + 1, _, s, sends, asked =>
    if sends.headD .tcmagentOk ≠ .tcmagentOk then .done ⟨asked, sends.headD .tcmagentOk, none⟩
    else
      (recvFile (recvs asked)).bind fun r =>
        match r with
        | .error ret => .done ⟨asked + 1, ret, none⟩
        | .ok recvBuf =>
          (s.begin.parse m httpPath recvBuf).bind fun p =>
            if p.1 = .statusOk then acceptFile m recvs p.2 (asked + 1) fuel (asked + 1) recvBuf
            else if p.2.fileSize = intMax then .undefined
            else
              downloadLoop m httpPath recvs fuel tries (if p.1 = .statusNeedAuth then .httpAuthError else .socketRwError) p.2
                sends.tail (asked + 1)

/-- `http_download_file`, after the connection was made; `*fileContent` is `NULL` when it is called. -/
def httpDownloadFile (m : Machine) (httpPath : List Char) (authStatus : AuthStatus) (digestAuth : DigestAuth)
    (sessionCookie : List SessionCookie) (fileSize : Int) (sends : List Result) (recvs : Nat → Recv) (fuel : Nat) :
    Outcome Downloaded :=
  downloadLoop m httpPath recvs fuel httpMaxTryTimes .tcmagentOk ⟨fileSize, -1, authStatus, digestAuth, sessionCookie⟩ sends 0

/-! ## What is received -/

/-- What comes with a call of `recv`. -/
def Recv.text : Recv → List Char
  | .data piece => piece
  | .failed _ _ => []

/-- What comes with `n` calls of `recv` from the one of number `i` on. -/
def arrived (recvs : Nat → Recv) (i : Nat) : Nat → List Char
  | 0 => []
  | n + 1 => (recvs i).text ++ arrived recvs (i + 1) n

/-- `recv` gives characters or none, and no more than it is asked for. -/
def Recv.Gives (ev : Recv) : Prop := ∃ piece, ev = .data piece ∧ piece.length ≤ httpSoapMaxRecvLength

/-- A call of `recv` fails, or what is missing has come before. -/
def Ends (recvs : Nat → Recv) (i : Nat) (missing : Int) : Prop :=
  ∃ n, missing ≤ (arrived recvs i n).length ∨ ¬(recvs (i + n)).Gives

/-- Before any call of `recv` fails, what is missing comes. -/
def Arrives (recvs : Nat → Recv) (i : Nat) (missing : Int) : Prop :=
  ∃ n, missing ≤ (arrived recvs i n).length ∧ ∀ k < n, (recvs (i + k)).Gives

/-- A header gives a length for the body behind it. -/
def Announces (m : Machine) (httpPath recvBuf : List Char) (n : Int) : Prop :=
  ∃ sessionCookie authStatus digestAuth st,
    parseHttpHeader m httpPath .downloadHead sessionCookie authStatus digestAuth recvBuf = .done (.statusOk, st) ∧
      st.contentLength = some n

/-- Where success is returned, the content is what comes behind the header of the last answer, as long as this header says. -/
def Exact (m : Machine) (httpPath : List Char) (recvs : Nat → Recv) (d : Downloaded) : Prop :=
  d.ret = .tcmagentOk → ∃ recvBuf body length n, recvs (d.asked - 1) = .data recvBuf ∧ headerEnd recvBuf = some body ∧
    Announces m httpPath recvBuf length ∧ length ≤ (recvBuf.drop body ++ arrived recvs d.asked n).length ∧
    d.fileContent = some ((recvBuf.drop body ++ arrived recvs d.asked n).take length.toNat)

/-- What is right behind an accepted header: the characters that come with it fit the block, the rest comes or a call of `recv`
fails, and the block is as long as the header says if the rest comes. -/
def Agrees (m : Machine) (httpPath : List Char) (recvs : Nat → Recv) (s : Transfer) (i : Nat) (recvBuf : List Char) : Prop :=
  ∀ body, headerEnd recvBuf = some body → 0 < s.size → m.malloc s.size.toNat = true →
    ((recvBuf.drop body).length : Int) ≤ s.size ∧ Ends recvs i (s.size - (recvBuf.drop body).length) ∧
      (Arrives recvs i (s.size - (recvBuf.drop body).length) → Announces m httpPath recvBuf s.size)

/-- What is right in every try: the header is parsed without running over an array, and then it agrees with the block, or the next
try goes on. -/
def Behaves (m : Machine) (httpPath : List Char) (recvs : Nat → Recv) : Nat → Transfer → List Result → Nat → Prop
  | 0, _, _, _ => True
  | tries + 1, s, sends, asked =>
    sends.headD .tcmagentOk = .tcmagentOk → ∀ recvBuf, recvs asked = .data recvBuf → recvBuf.length ≤ httpSoapMaxRecvLength →
      ∃ status s', s.begin.parse m httpPath recvBuf = .done (status, s') ∧
        if status = .statusOk then Agrees m httpPath recvs s' (asked + 1) recvBuf
        else s'.fileSize ≠ intMax ∧ Behaves m httpPath recvs tries s' sends.tail (asked + 1)

/-! ## The rest of a file -/

section Copy

variable {recvs : Nat → Recv} {fileSize : Int} {asked i fuel : Nat} {content : List Char} {d : Downloaded}

theorem recvFile_gives {piece : List Char} (h : piece.length ≤ httpSoapMaxRecvLength) :
    recvFile (.data piece) = .done (.ok piece) := by
  have hlength : httpDownloadRecvLength = httpSoapMaxRecvLength := rfl
  simp only [recvFile, recvRaw]
  rw [if_neg (by omega), if_pos (by omega)]

theorem recvFile_refused {ev : Recv} (h : ¬ev.Gives) : ∃ ret, ret ≠ .tcmagentOk ∧ recvFile ev = .done (.error ret) := by
  cases ev with
  | failed ret hret => exact ⟨ret, hret, rfl⟩
  | data piece =>
    have hlong : httpSoapMaxRecvLength < piece.length := Nat.lt_of_not_le fun hle => h ⟨piece, rfl, hle⟩
    refine ⟨.socketRwError, by decide, ?_⟩
    simp only [recvFile, recvRaw]
    rw [if_pos hlong]

theorem copyLoop_full (h : fileSize ≤ content.length) :
    copyLoop recvs fileSize asked fuel i content = .done ⟨asked, .tcmagentOk, some content⟩ := by
  cases fuel with
  | zero => exact if_neg (Int.not_lt.2 h)
  | succ fuel => exact if_neg (Int.not_lt.2 h)

theorem copyLoop_zero (h : (content.length : Int) < fileSize) : copyLoop recvs fileSize asked 0 i content = .outOfFuel :=
  if_pos h

theorem copyLoop_succ (h : (content.length : Int) < fileSize) : copyLoop recvs fileSize asked (fuel + 1) i content =
    (recvFile (recvs i)).bind fun r =>
      match r with
      | .error ret => .done ⟨asked, ret, none⟩
      | .ok piece => copyLoop recvs fileSize asked fuel (i + 1) (content ++ piece.take (fileSize - content.length).toNat) :=
  if_pos h

theorem copyLoop_refused (asked fuel : Nat) (h : (content.length : Int) < fileSize) (hrefused : ¬(recvs i).Gives) :
    ∃ ret, ret ≠ .tcmagentOk ∧ copyLoop recvs fileSize asked (fuel + 1) i content = .done ⟨asked, ret, none⟩ := by
  obtain ⟨ret, hret, hrecv⟩ := recvFile_refused hrefused
  refine ⟨ret, hret, ?_⟩
  rw [copyLoop_succ h, hrecv]
  rfl

theorem copyLoop_gives {piece : List Char} (h : (content.length : Int) < fileSize) (hpiece : recvs i = .data piece)
    (hlen : piece.length ≤ httpSoapMaxRecvLength) : copyLoop recvs fileSize asked (fuel + 1) i content =
      copyLoop recvs fileSize asked fuel (i + 1) (content ++ piece.take (fileSize - content.length).toNat) := by
  rw [copyLoop_succ h, hpiece, recvFile_gives hlen]
  rfl

theorem arrived_add (recvs : Nat → Recv) (i n k : Nat) :
    arrived recvs i (n + k) = arrived recvs i n ++ arrived recvs (i + n) k := by
  induction n generalizing i with
  | zero => rw [Nat.zero_add, Nat.add_zero, arrived, List.nil_append]
  | succ n ih =>
    have hnext : i + 1 + n = i + (n + 1) := by omega
    rw [Nat.add_right_comm, arrived, ih, arrived, List.append_assoc, hnext]

/-- The loop ends if the rest comes or a call of `recv` fails. -/
theorem copyLoop_ends (asked : Nat) (h : Ends recvs i (fileSize - content.length)) :
    ∃ fuel d, copyLoop recvs fileSize asked fuel i content = .done d := by
  obtain ⟨n, hn⟩ := h
  induction n generalizing i content with
  | zero =>
    by_cases hfull : fileSize ≤ content.length
    · exact ⟨0, _, copyLoop_full hfull⟩
    · obtain hlen | hrefused := hn
      · rw [arrived, List.length_nil] at hlen
        omega
      · obtain ⟨ret, -, hloop⟩ := copyLoop_refused asked 0 (Int.not_le.1 hfull) hrefused
        exact ⟨1, _, hloop⟩
  | succ n ih =>
    by_cases hfull : fileSize ≤ content.length
    · exact ⟨0, _, copyLoop_full hfull⟩
    by_cases hgives : (recvs i).Gives
    · obtain ⟨piece, hpiece, hlen⟩ := hgives
      have hnext : i + 1 + n = i + (n + 1) := by omega
      have hrest : fileSize - (content ++ piece.take (fileSize - content.length).toNat).length ≤ (arrived recvs (i + 1) n).length ∨
          ¬(recvs (i + 1 + n)).Gives := by
        refine hn.imp (fun hsum => ?_) fun hrefused => by rwa [hnext]
        rw [arrived, hpiece, List.length_append, Recv.text] at hsum
        rw [List.length_append, List.length_take]
        omega
      obtain ⟨fuel, d, hloop⟩ := ih hrest
      exact ⟨fuel + 1, d, by rw [copyLoop_gives (Int.not_le.1 hfull) hpiece hlen, hloop]⟩
    · obtain ⟨ret, -, hloop⟩ := copyLoop_refused asked 0 (Int.not_le.1 hfull) hgives
      exact ⟨1, _, hloop⟩

/-- How the loop ends: with the rest, or with a call of `recv` that fails before the rest has come. -/
theorem copyLoop_cases (hle : (content.length : Int) ≤ fileSize) (h : copyLoop recvs fileSize asked fuel i content = .done d) :
    d.asked = asked ∧ ∃ n, (∀ k < n, (recvs (i + k)).Gives) ∧
      (d.ret = .tcmagentOk ∧ fileSize ≤ (content ++ arrived recvs i n).length ∧
          d.fileContent = some ((content ++ arrived recvs i n).take fileSize.toNat) ∨
        d.ret ≠ .tcmagentOk ∧ ((content ++ arrived recvs i n).length : Int) < fileSize ∧ ¬(recvs (i + n)).Gives) := by
  induction fuel generalizing i content with
  | zero =>
    by_cases hfull : fileSize ≤ content.length
    · rw [copyLoop_full hfull] at h
      cases h
      refine ⟨rfl, 0, fun k hk => absurd hk (Nat.not_lt_zero k), .inl ⟨rfl, ?_, ?_⟩⟩
      · rwa [arrived, List.append_nil]
      · rw [arrived, List.append_nil, List.take_of_length_le (by omega)]
    · rw [copyLoop_zero (Int.not_le.1 hfull)] at h
      cases h
  | succ fuel ih =>
    by_cases hfull : fileSize ≤ content.length
    · rw [copyLoop_full hfull] at h
      cases h
      refine ⟨rfl, 0, fun k hk => absurd hk (Nat.not_lt_zero k), .inl ⟨rfl, ?_, ?_⟩⟩
      · rwa [arrived, List.append_nil]
      · rw [arrived, List.append_nil, List.take_of_length_le (by omega)]
    have hlt := Int.not_le.1 hfull
    by_cases hgives : (recvs i).Gives
    · obtain ⟨piece, hpiece, hlen⟩ := id hgives
      rw [copyLoop_gives hlt hpiece hlen] at h
      obtain ⟨hasked, n, hall, hcase⟩ := ih (by rw [List.length_append, List.length_take]; omega) h
      have hstep : ∀ k < n + 1, (recvs (i + k)).Gives := by
        intro k hk
        cases k with
        | zero => exact hgives
        | succ k =>
          have hnext : i + (k + 1) = i + 1 + k := by omega
          rw [hnext]
          exact hall k (by omega)
      have harrived : arrived recvs i (n + 1) = piece ++ arrived recvs (i + 1) n := by rw [arrived, hpiece, Recv.text]
      refine ⟨hasked, n + 1, hstep, hcase.imp ?_ ?_⟩
      · rintro ⟨hret, hsum, hcontent⟩
        simp only [List.length_append, List.length_take] at hsum
        refine ⟨hret, ?_, ?_⟩
        · rw [harrived]
          simp only [List.length_append]
          omega
        · rw [hcontent, harrived]
          refine congrArg some ?_
          by_cases hclip : (fileSize - content.length).toNat ≤ piece.length
          · -- the piece is clipped, and nothing behind it is kept
            have hsize : fileSize.toNat = content.length + (fileSize - content.length).toNat := by omega
            rw [hsize, List.append_assoc, List.take_length_add_append, List.take_length_add_append,
              List.take_append_of_le_length (by rw [List.length_take]; omega), List.take_take, Nat.min_self,
              List.take_append_of_le_length hclip]
          · rw [List.take_of_length_le (Nat.le_of_not_le hclip), List.append_assoc]
      · rintro ⟨hret, hsum, hrefused⟩
        simp only [List.length_append, List.length_take] at hsum
        have hnext : i + (n + 1) = i + 1 + n := by omega
        refine ⟨hret, ?_, by rwa [hnext]⟩
        rw [harrived]
        simp only [List.length_append]
        omega
    · obtain ⟨ret, hret, hloop⟩ := copyLoop_refused asked fuel hlt hgives
      rw [hloop] at h
      cases h
      refine ⟨rfl, 0, fun k hk => absurd hk (Nat.not_lt_zero k), .inr ⟨hret, ?_, hgives⟩⟩
      rwa [arrived, List.append_nil]

theorem ends_of_copyLoop (hle : (content.length : Int) ≤ fileSize)
    (h : copyLoop recvs fileSize asked fuel i content = .done d) : Ends recvs i (fileSize - content.length) := by
  obtain ⟨-, n, -, ⟨-, hsum, -⟩ | ⟨-, -, hrefused⟩⟩ := copyLoop_cases hle h
  · rw [List.length_append] at hsum
    exact ⟨n, .inl (by omega)⟩
  · exact ⟨n, .inr hrefused⟩

/-- Success is returned just if the rest has come. -/
theorem copyLoop_ok_iff (hle : (content.length : Int) ≤ fileSize)
    (h : copyLoop recvs fileSize asked fuel i content = .done d) :
    d.ret = .tcmagentOk ↔ Arrives recvs i (fileSize - content.length) := by
  obtain ⟨-, n, hall, ⟨hret, hsum, -⟩ | ⟨hret, hsum, hrefused⟩⟩ := copyLoop_cases hle h
  · rw [List.length_append] at hsum
    exact iff_of_true hret ⟨n, by omega, hall⟩
  · refine iff_of_false hret ?_
    rintro ⟨n', hsum', hall'⟩
    rw [List.length_append] at hsum
    by_cases hn : n < n'
    · exact hrefused (hall' n hn)
    · obtain ⟨k, rfl⟩ := Nat.exists_eq_add_of_le (Nat.le_of_not_lt hn)
      rw [arrived_add, List.length_append] at hsum
      omega

end Copy

/-! ## The tries -/

theorem headerEnd_le {buf : List Char} {n : Nat} (h : headerEnd buf = some n) : n ≤ buf.length := by
  obtain ⟨⟨p, s⟩, hfind, rfl⟩ := Option.map_eq_some_iff.1 h
  have hlen := congrArg List.length (dropInfix?_eq_some.1 hfind).1
  have hle : (cString buf).length ≤ buf.length := (List.takeWhile_prefix _).length_le
  simp only [List.length_append, crlf, List.length_cons, List.length_nil] at hlen
  change p.length + 4 ≤ buf.length
  omega

section Tries

variable {m : Machine} {httpPath : List Char} {recvs : Nat → Recv} {s : Transfer}

theorem exact_of_ret {d : Downloaded} (h : d.ret ≠ .tcmagentOk) : Exact m httpPath recvs d := fun hok => absurd hok h

theorem acceptFile_of_headerEnd {asked i body : Nat} {recvBuf : List Char} (hend : headerEnd recvBuf = some body) (fuel : Nat) :
    acceptFile m recvs s asked fuel i recvBuf =
      if s.size ≤ 0 ∨ m.malloc s.size.toNat = false then .done ⟨asked, .mallocFailure, none⟩
      else if s.size < (recvBuf.drop body).length then .undefined
      else copyLoop recvs s.size asked fuel i (recvBuf.drop body) := by
  unfold acceptFile
  rw [hend]
  dsimp only
  rw [if_neg (Nat.not_lt.2 (headerEnd_le hend))]

/-- A try that receives something. -/
theorem downloadLoop_gives {tries asked : Nat} {ret : Result} {sends : List Result} {recvBuf : List Char}
    (hsend : sends.headD .tcmagentOk = .tcmagentOk) (hrecv : recvs asked = .data recvBuf)
    (hlen : recvBuf.length ≤ httpSoapMaxRecvLength) (fuel : Nat) :
    downloadLoop m httpPath recvs fuel (tries + 1) ret s sends asked = (s.begin.parse m httpPath recvBuf).bind fun p =>
      if p.1 = .statusOk then acceptFile m recvs p.2 (asked + 1) fuel (asked + 1) recvBuf
      else if p.2.fileSize = intMax then .undefined
      else
        downloadLoop m httpPath recvs fuel tries (if p.1 = .statusNeedAuth then .httpAuthError else .socketRwError) p.2
          sends.tail (asked + 1) := by
  rw [downloadLoop, if_neg (not_not.2 hsend), hrecv, recvFile_gives hlen]
  rfl

/-- Behind an accepted header, what is claimed holds just if the header agrees with the block. -/
theorem acceptFile_exact_iff {asked : Nat} {recvBuf : List Char} (hrecv : recvs (asked - 1) = .data recvBuf) :
    (∃ fuel d, acceptFile m recvs s asked fuel asked recvBuf = .done d ∧ Exact m httpPath recvs d) ↔
      Agrees m httpPath recvs s asked recvBuf := by
  unfold Agrees
  cases hend : headerEnd recvBuf with
  | none =>
    refine iff_of_true ⟨0, ⟨asked, .httpFormatError, none⟩, ?_, ?_⟩ fun body h => nomatch h
    · unfold acceptFile
      rw [hend]
    · exact exact_of_ret (fun h => nomatch h)
  | some body =>
    simp only [acceptFile_of_headerEnd hend]
    by_cases hsize : s.size ≤ 0 ∨ m.malloc s.size.toNat = false
    · refine iff_of_true ⟨0, ⟨asked, .mallocFailure, none⟩, if_pos hsize, exact_of_ret (fun h => nomatch h)⟩ fun _ _ hpos hmalloc => ?_
      obtain hle | hnone := hsize
      · omega
      · rw [hmalloc] at hnone
        cases hnone
    simp only [if_neg hsize]
    obtain ⟨hpos, hmalloc⟩ := not_or.1 hsize
    have hpos' : 0 < s.size := Int.not_le.1 hpos
    have hmalloc' : m.malloc s.size.toNat = true := Bool.not_eq_false _ ▸ hmalloc
    by_cases hlong : s.size < (recvBuf.drop body).length
    · simp only [if_pos hlong]
      refine iff_of_false (fun ⟨_, _, h, _⟩ => nomatch h) fun h => ?_
      have := (h body rfl hpos' hmalloc').1
      omega
    simp only [if_neg hlong]
    have hle : ((recvBuf.drop body).length : Int) ≤ s.size := Int.not_lt.1 hlong
    constructor
    · rintro ⟨fuel, d, h, hexact⟩ body' hbody' - -
      cases hbody'
      refine ⟨hle, ends_of_copyLoop hle h, fun harrives => ?_⟩
      have hret := (copyLoop_ok_iff hle h).2 harrives
      obtain ⟨recvBuf', body'', length, n, hrecv', hend', hannounces, hlen, hcontent⟩ := hexact hret
      obtain ⟨hasked, n', -, ⟨-, hsum, hcontent'⟩ | ⟨hnot, -, -⟩⟩ := copyLoop_cases hle h
      · rw [hasked, hrecv] at hrecv'
        cases hrecv'
        rw [hcontent, Option.some.injEq] at hcontent'
        have hcount := congrArg List.length hcontent'
        rw [List.length_take, List.length_take] at hcount
        have hsame : length = s.size := by omega
        rwa [hsame] at hannounces
      · exact absurd hret hnot
    · intro h
      obtain ⟨-, hends, hannounces⟩ := h body rfl hpos' hmalloc'
      obtain ⟨fuel, d, hloop⟩ := copyLoop_ends asked hends
      refine ⟨fuel, d, hloop, fun hret => ?_⟩
      obtain ⟨hasked, n, -, ⟨-, hsum, hcontent⟩ | ⟨hnot, -, -⟩⟩ := copyLoop_cases hle hloop
      · refine ⟨recvBuf, body, s.size, n, by rwa [hasked], hend, hannounces ((copyLoop_ok_iff hle hloop).1 hret), ?_, ?_⟩
        · rwa [hasked]
        · rwa [hasked]
      · exact absurd hret hnot

/-- Over all the tries, what is claimed holds just if every try is right. -/
theorem downloadLoop_exact_iff {tries : Nat} {ret : Result} {sends : List Result} {asked : Nat}
    (hret : tries = 0 → ret ≠ .tcmagentOk) :
    (∃ fuel d, downloadLoop m httpPath recvs fuel tries ret s sends asked = .done d ∧ Exact m httpPath recvs d) ↔
      Behaves m httpPath recvs tries s sends asked := by
  induction tries generalizing ret s sends asked with
  | zero => exact iff_of_true ⟨0, _, rfl, exact_of_ret (hret rfl)⟩ trivial
  | succ tries ih =>
    unfold Behaves
    by_cases hsend : sends.headD .tcmagentOk = .tcmagentOk
    · by_cases hgives : (recvs asked).Gives
      · obtain ⟨recvBuf, hrecv, hlen⟩ := hgives
        simp only [downloadLoop_gives hsend hrecv hlen]
        cases hparse : s.begin.parse m httpPath recvBuf with
        | done p =>
          obtain ⟨status, s'⟩ := p
          have hcondition : (sends.headD .tcmagentOk = .tcmagentOk → ∀ recvBuf, recvs asked = .data recvBuf →
              recvBuf.length ≤ httpSoapMaxRecvLength → ∃ status s', s.begin.parse m httpPath recvBuf = .done (status, s') ∧
                if status = .statusOk then Agrees m httpPath recvs s' (asked + 1) recvBuf
                else s'.fileSize ≠ intMax ∧ Behaves m httpPath recvs tries s' sends.tail (asked + 1)) ↔
              if status = .statusOk then Agrees m httpPath recvs s' (asked + 1) recvBuf
              else s'.fileSize ≠ intMax ∧ Behaves m httpPath recvs tries s' sends.tail (asked + 1) := by
            constructor
            · intro h
              obtain ⟨status₁, s₁, hparse₁, h⟩ := h hsend recvBuf hrecv hlen
              rw [hparse] at hparse₁
              cases hparse₁
              exact h
            · intro h _ recvBuf₁ hrecv₁ _
              rw [hrecv] at hrecv₁
              cases hrecv₁
              exact ⟨status, s', hparse, h⟩
          rw [hcondition]
          simp only [Outcome.bind_done]
          by_cases hstatus : status = .statusOk
          · simp only [if_pos hstatus]
            exact acceptFile_exact_iff hrecv
          simp only [if_neg hstatus]
          by_cases hsize : s'.fileSize = intMax
          · simp only [if_pos hsize]
            exact iff_of_false (fun ⟨_, _, h, _⟩ => nomatch h) fun h => h.1 hsize
          simp only [if_neg hsize]
          rw [and_iff_right hsize]
          refine ih fun _ => ?_
          split
          all_goals decide
        | undefined =>
          refine iff_of_false (fun ⟨_, _, h, _⟩ => nomatch h) fun h => ?_
          obtain ⟨_, _, h, -⟩ := h hsend recvBuf hrecv hlen
          rw [hparse] at h
          cases h
        | outOfFuel =>
          refine iff_of_false (fun ⟨_, _, h, _⟩ => nomatch h) fun h => ?_
          obtain ⟨_, _, h, -⟩ := h hsend recvBuf hrecv hlen
          rw [hparse] at h
          cases h
      · obtain ⟨ret', hret', hrefused⟩ := recvFile_refused hgives
        refine iff_of_true ⟨0, ⟨asked + 1, ret', none⟩, ?_, exact_of_ret hret'⟩ fun _ recvBuf hrecv hlen => ?_
        · rw [downloadLoop, if_neg (not_not.2 hsend), hrefused]
          rfl
        · exact absurd ⟨recvBuf, hrecv, hlen⟩ hgives
    · refine iff_of_true ⟨0, ⟨asked, sends.headD .tcmagentOk, none⟩, ?_, exact_of_ret hsend⟩ fun h => absurd h hsend
      rw [downloadLoop, if_pos hsend]

end Tries

/-- `http_download_file` ends, stays within the block and stores what the server has announced just if every try is right. -/
theorem httpDownloadFile_exact_iff (m : Machine) (httpPath : List Char) (authStatus : AuthStatus) (digestAuth : DigestAuth)
    (sessionCookie : List SessionCookie) (fileSize : Int) (sends : List Result) (recvs : Nat → Recv) :
    (∃ fuel d, httpDownloadFile m httpPath authStatus digestAuth sessionCookie fileSize sends recvs fuel = .done d ∧
      Exact m httpPath recvs d) ↔
      Behaves m httpPath recvs httpMaxTryTimes ⟨fileSize, -1, authStatus, digestAuth, sessionCookie⟩ sends 0 :=
  downloadLoop_exact_iff fun h => nomatch h

/-! ## A file of three characters -/

/-- The header of a file of three characters. -/
def threeHeader : List Char := "HTTP/1.1 200 OK\r\nContent-Length: 3\r\n\r\n".toList

/-- The server sends the header with something behind it, and closes the connection. -/
def threeFile (text : List Char) : Nat → Recv
  | 0 => .data (threeHeader ++ text)
  | _ + 1 => .data []

/-- A transfer whose size is not known. -/
def newTransfer : Transfer := ⟨-1, -1, .noAuth, {}, newClient.sessionCookie⟩

theorem threeHeader_overrun : newTransfer.parse roomy ['/'] (threeHeader ++ "abcd".toList) =
    .done (.statusOk, { newTransfer with contentLength := 3 }) := by decide +kernel

theorem threeHeader_short : newTransfer.parse roomy ['/'] (threeHeader ++ "ab".toList) =
    .done (.statusOk, { newTransfer with contentLength := 3 }) := by decide +kernel

/-- Where the connection is closed too early, the loop does not end. -/
theorem copyLoop_closed {recvs : Nat → Recv} {fileSize : Int} {asked i : Nat} {content : List Char}
    (h : (content.length : Int) < fileSize) (hclosed : ∀ k, recvs (i + k) = .data []) (fuel : Nat) :
    copyLoop recvs fileSize asked fuel i content = .outOfFuel := by
  induction fuel generalizing i with
  | zero => exact copyLoop_zero h
  | succ fuel ih =>
    have hnow : recvs i = .data [] := hclosed 0
    rw [copyLoop_gives h hnow (Nat.zero_le _), List.take_nil, List.append_nil]
    refine ih fun k => ?_
    have hnext : i + 1 + k = i + (k + 1) := by omega
    rw [hnext]
    exact hclosed (k + 1)

/-- A character more than was announced is written behind the block, and with one less the call does not end. -/
theorem not_exact_three :
    (∀ fuel, httpDownloadFile roomy ['/'] .noAuth {} newClient.sessionCookie 0 [] (threeFile "abcd".toList) fuel = .undefined) ∧
      ∀ fuel, httpDownloadFile roomy ['/'] .noAuth {} newClient.sessionCookie 0 [] (threeFile "ab".toList) fuel = .outOfFuel := by
  have hbegin : Transfer.begin ⟨0, -1, .noAuth, {}, newClient.sessionCookie⟩ = newTransfer := rfl
  have hmore : headerEnd (threeHeader ++ "abcd".toList) = some 38 := by decide
  have hless : headerEnd (threeHeader ++ "ab".toList) = some 38 := by decide
  refine ⟨fun fuel => ?_, fun fuel => ?_⟩
  · refine (downloadLoop_gives rfl rfl (by decide) fuel).trans ?_
    rw [hbegin, threeHeader_overrun, Outcome.bind_done, if_pos rfl, acceptFile_of_headerEnd hmore, if_neg (by decide),
      if_pos (by decide)]
  · refine (downloadLoop_gives rfl rfl (by decide) fuel).trans ?_
    rw [hbegin, threeHeader_short, Outcome.bind_done, if_pos rfl, acceptFile_of_headerEnd hless, if_neg (by decide),
      if_neg (by decide)]
    refine copyLoop_closed (by decide) (fun k => ?_) fuel
    have hnext : 0 + 1 + k = k + 1 := by omega
    rw [hnext]
    rfl

end CodeFactory.Http
