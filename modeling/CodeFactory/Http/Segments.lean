import CodeFactory.Http.Arrival
import CodeFactory.Http.Chunks

/-!
# Responses in pieces

When `send_packet_to_acs_server` gives the body of a response that is received in pieces. The header must come in the first piece,
and from then on the loop decides after each piece whether the response is complete: for a body in chunks, whether an empty line
stands anywhere before the first zero.
-/

namespace CodeFactory.Http

open Conf (cString intMax digitsNum)

/-! ## What is received and what is given -/

/-- A text, cut into the pieces in which it is received. -/
structure Cut (text : List Char) where
  pieces : List (List Char)
  pieces_ne : ∀ p ∈ pieces, p ≠ []
  flatten_eq : pieces.flatten = text

/-- The pieces are received, and then the rest. -/
def received (pieces : List (List Char)) (rest : List Recv) : List Recv := pieces.map .data ++ rest

/-- The caller is given a body with its exact length. -/
def Reply.Gives (reply : Reply) (body : List Char) : Prop :=
  reply.ret = .tcmagentOk ∧ reply.rBufferLen = some body.length ∧ (body ≠ [] → reply.rBuffer = some (body ++ ['\x00']))

instance (reply : Reply) (body : List Char) : Decidable (reply.Gives body) := inferInstanceAs (Decidable (_ ∧ _))

/-- A request gets out within the tries. -/
def GetsOut (sends : List Result) : Prop := (sends.takeWhile (· ≠ .tcmagentOk)).length < httpMaxTryTimes

instance (sends : List Result) : Decidable (GetsOut sends) := inferInstanceAs (Decidable (_ < _))

namespace Response

variable (r : Response)

/-- What has come is taken for the whole response. -/
def Complete (buf : List Char) : Prop :=
  match r.framing with
  | .counted c => r.header.length + c.body.length ≤ buf.length
  | .chunked _ => mentions (cString (buf.drop r.header.length)) (crlf ++ crlf) = true

instance (buf : List Char) : Decidable (r.Complete buf) := by
  unfold Complete
  cases r.framing
  all_goals infer_instance

/-- The body can be read from what has come. -/
def Enough (buf : List Char) : Prop :=
  match r.framing with
  | .counted _ => True
  | .chunked d => r.header.length + d.toLast.length ≤ buf.length ∧ SizesFit d.chunks d.last ∧ d.chunks ≠ []

/-- Behind `buf`, the pieces are read up to the first after which the response is taken for complete; until then there is room,
the lines of the header are taken each time, and then the body can be read. -/
def Reads (sessionCookie : List SessionCookie) (buf : List Char) (pieces : List (List Char)) : Prop :=
  ∃ k, 0 < k ∧ k ≤ pieces.length ∧ r.Complete (buf ++ (pieces.take k).flatten) ∧
    (∀ j, 0 < j → j < k → ¬r.Complete (buf ++ (pieces.take j).flatten)) ∧ r.Enough (buf ++ (pieces.take k).flatten) ∧
    (buf ++ (pieces.take k).flatten).length < httpSoapMaxRecvLength ∧ r.status.Takes r.lines k sessionCookie

/-- When the body of a response that comes in pieces is given. -/
def Deliverable (m : Machine) (sessionCookie : List SessionCookie) (pieces : List (List Char)) : Prop :=
  r.status.Fits m ∧ ∃ p ∈ pieces.head?, p.length < httpSoapMaxRecvLength ∧
    (r.status.code = 204 ∧ r.body = [] ∧ r.status.text ++ crlf <+: p ∨
      r.status.code = 200 ∧ r.SaysNothing sessionCookie ∧ r.early <+: p ∨
      r.status.code = 200 ∧ r.body ≠ [] ∧ m.malloc (r.body.length + 1) = true ∧ r.header <+: p ∧
        r.Reads sessionCookie [] pieces)

variable {r}

/-- The first piece completes the response, or the next ones do. -/
theorem reads_cons {sessionCookie : List SessionCookie} {buf p : List Char} {ps : List (List Char)} :
    r.Reads sessionCookie buf (p :: ps) ↔
      (buf ++ p).length < httpSoapMaxRecvLength ∧ ∃ sessionCookie', r.status.takes sessionCookie r.lines = some sessionCookie' ∧
        (r.Complete (buf ++ p) ∧ r.Enough (buf ++ p) ∨ ¬r.Complete (buf ++ p) ∧ r.Reads sessionCookie' (buf ++ p) ps) := by
  have hone : buf ++ ((p :: ps).take 1).flatten = buf ++ p := by simp
  have hmore : ∀ k, buf ++ ((p :: ps).take (k + 1)).flatten = buf ++ p ++ (ps.take k).flatten := fun k => by simp
  constructor
  · rintro ⟨k, hpos, hle, hcomplete, hfirst, henough, hlen, htakes⟩
    obtain ⟨k, rfl⟩ : ∃ i, k = i + 1 := ⟨k - 1, by omega⟩
    obtain ⟨sessionCookie', hline, hlater⟩ := htakes
    rw [hmore] at hcomplete henough hlen
    refine ⟨?_, sessionCookie', hline, ?_⟩
    · rw [List.length_append] at hlen
      omega
    cases k with
    | zero =>
      rw [List.take_zero, List.flatten_nil, List.append_nil] at hcomplete henough
      exact .inl ⟨hcomplete, henough⟩
    | succ k =>
      have hnot := hfirst 1 (by omega) (by omega)
      rw [hone] at hnot
      refine .inr ⟨hnot, k + 1, by omega, by rw [List.length_cons] at hle; omega, hcomplete, fun j hj hjk => ?_, henough, hlen,
        hlater⟩
      rw [← hmore]
      exact hfirst (j + 1) (by omega) (by omega)
  · rintro ⟨hlen, sessionCookie', hline, ⟨hcomplete, henough⟩ | ⟨hnot, k, hpos, hle, hcomplete, hfirst, henough, hlen', htakes⟩⟩
    · refine ⟨1, by omega, by simp, ?_, fun j hj hj1 => by omega, ?_, ?_, sessionCookie', hline, trivial⟩
      · rwa [hone]
      · rwa [hone]
      · rwa [hone]
    · refine ⟨k + 1, by omega, by rw [List.length_cons]; omega, ?_, fun j hj hjk => ?_, ?_, ?_, sessionCookie', hline, htakes⟩
      · rwa [hmore]
      · obtain ⟨j, rfl⟩ : ∃ i, j = i + 1 := ⟨j - 1, by omega⟩
        rw [hmore]
        cases j with
        | zero => rwa [List.take_zero, List.flatten_nil, List.append_nil]
        | succ j => exact hfirst (j + 1) (by omega) (by omega)
      · rwa [hmore]
      · rwa [hmore]

/-! ## One packet -/

theorem giveBody_gives {m : Machine} {body : List Char} : (giveBody m body).Gives body ↔ m.malloc (body.length + 1) = true := by
  unfold giveBody
  split
  · next h => exact iff_of_true ⟨rfl, rfl, fun _ => rfl⟩ h
  · next h => exact iff_of_false (fun hg => nomatch hg.1) h

theorem toLast_eq (d : Chunked) : d.toLast = Chunked.chunksText d.chunks ++ (d.last.text ++ crlf) := by
  simp [Chunked.toLast, List.append_assoc]

theorem wire_eq (d : Chunked) : d.wire =
    Chunked.chunksText d.chunks ++ (d.last.text ++ (crlf ++ (linesText d.trailers ++ crlf))) := by
  simp [Chunked.wire, Chunked.toLast, List.append_assoc]

variable {m : Machine} {s s' : Call} {gChunkFlag : Bool} {x : List Char}

theorem headerEnd_header (x : List Char) : headerEnd (r.header ++ x) = some r.header.length :=
  headerEnd_eq r.status.line r.lines x

/-- Before the response is taken for complete, it goes on receiving. -/
theorem okPacket_incomplete (hsaid : r.Says s gChunkFlag s') (hcounted : ∀ c, r.framing = .counted c → c.body ≠ [])
    (hchunked : ∀ d, r.framing = .chunked d → s.contentLength ≤ 0) (hnot : ¬r.Complete (r.header ++ x)) :
    okPacket m s'.contentLength gChunkFlag (r.header ++ x) = .done none := by
  unfold Says at hsaid
  unfold Complete at hnot
  unfold okPacket
  rw [headerEnd_header]
  cases hf : r.framing with
  | counted c =>
    rw [hf] at hsaid hnot
    have hpos := List.length_pos_iff.2 (hcounted c hf)
    simp only at hsaid hnot
    rw [hsaid, if_pos (by omega)]
    simp only [Int.toNat_natCast]
    rw [if_pos (by omega)]
  | chunked d =>
    rw [hf] at hsaid hnot
    have hle := hchunked d hf
    obtain ⟨hlen, rfl⟩ := hsaid
    rw [if_neg (by omega), if_pos rfl]
    simp only
    rw [if_pos (Bool.eq_false_iff.2 hnot)]

/-- Then the body is given if it can be read, and there is memory. -/
theorem okPacket_complete (hsaid : r.Says s gChunkFlag s') (hcounted : ∀ c, r.framing = .counted c → c.body ≠ [])
    (hchunked : ∀ d, r.framing = .chunked d → s.contentLength ≤ 0) (hx : x <+: r.framing.wire)
    (hlen : (r.header ++ x).length < httpSoapMaxRecvLength) (hcomplete : r.Complete (r.header ++ x)) :
    (∃ reply, okPacket m s'.contentLength gChunkFlag (r.header ++ x) = .done (some reply) ∧ reply.Gives r.body) ↔
      m.malloc (r.body.length + 1) = true ∧ r.Enough (r.header ++ x) := by
  unfold Says at hsaid
  unfold Complete at hcomplete
  unfold Enough okPacket body
  rw [headerEnd_header]
  cases hf : r.framing with
  | counted c =>
    rw [hf] at hsaid hcomplete hx
    have hpos := List.length_pos_iff.2 (hcounted c hf)
    simp only [Framing.wire] at hsaid hcomplete hx
    rw [List.length_append] at hcomplete
    obtain rfl : x = c.body := hx.eq_of_length_le (by omega)
    rw [hsaid, if_pos (by omega)]
    simp only [Int.toNat_natCast, List.drop_left]
    rw [if_neg (by rw [List.length_append]; omega), List.take_length]
    simp only [Outcome.done.injEq, Option.some.injEq, exists_eq_left', Framing.body, and_true]
    exact giveBody_gives
  | chunked d =>
    rw [hf] at hsaid hcomplete hx
    have hle := hchunked d hf
    obtain ⟨hcl, rfl⟩ := hsaid
    simp only [Framing.wire] at hx
    rw [wire_eq] at hx
    rw [if_neg (by omega), if_pos rfl]
    simp only [List.drop_left, Framing.body]
    rw [if_neg (by simpa using hcomplete)]
    constructor
    · rintro ⟨reply, hreply, hgives⟩
      obtain ⟨res, hloop, heq⟩ := Outcome.map_eq_done.1 hreply
      cases res with
      | error ret =>
        cases heq
        cases hgives.2.1
      | ok b =>
        obtain ⟨hfit, hcome⟩ := chunkLoop_prefix hlen hx hloop
        obtain ⟨y, hy⟩ := id hcome
        have hroom : r.header.length + (Chunked.chunksText d.chunks ++ (d.last.text ++ crlf)).length ≤ (r.header ++ x).length := by
          rw [show (r.header ++ x).length = r.header.length + x.length from List.length_append]
          exact Nat.add_le_add_left hcome.length_le _
        have hdone := chunkLoop_done d.last_eq hfit y (show ([] : List Char).length ≤ r.header.length from Nat.zero_le _) hroom hlen
        have hxy : Chunked.chunksText d.chunks ++ (d.last.text ++ (crlf ++ y)) = x := by
          rw [← hy]
          simp [List.append_assoc]
        rw [hxy, hloop, List.nil_append] at hdone
        cases hdone
        have hne : d.chunks.flatMap (·.data) ≠ [] := by
          intro hnil
          rw [hnil] at heq
          cases heq
          cases hgives.2.1
        have hreply : reply = giveBody m d.body := by
          unfold Chunked.body
          cases hb : d.chunks.flatMap (·.data) with
          | nil => exact absurd hb hne
          | cons ch b =>
            rw [hb] at heq
            cases heq
            rfl
        rw [hreply] at hgives
        refine ⟨giveBody_gives.1 hgives, ?_, hfit, ?_⟩
        · rw [toLast_eq]
          exact hroom
        · rintro hnil
          rw [hnil] at hne
          exact hne rfl
    · rintro ⟨hmalloc, hcome, hfit, hne⟩
      rw [List.length_append, toLast_eq] at hcome
      obtain ⟨y, hy⟩ : Chunked.chunksText d.chunks ++ (d.last.text ++ crlf) <+: x := by
        refine List.prefix_of_prefix_length_le ?_ hx (by omega)
        exact ⟨linesText d.trailers ++ crlf, by simp [List.append_assoc]⟩
      have hroom : r.header.length + (Chunked.chunksText d.chunks ++ (d.last.text ++ crlf)).length ≤ (r.header ++ x).length := by
        rw [show (r.header ++ x).length = r.header.length + x.length from List.length_append]
        omega
      have hdone := chunkLoop_done d.last_eq hfit y (show ([] : List Char).length ≤ r.header.length from Nat.zero_le _) hroom hlen
      have hxy : Chunked.chunksText d.chunks ++ (d.last.text ++ (crlf ++ y)) = x := by
        rw [← hy]
        simp [List.append_assoc]
      rw [hxy, List.nil_append] at hdone
      refine ⟨giveBody m d.body, ?_, giveBody_gives.2 hmalloc⟩
      rw [hdone]
      unfold Chunked.body
      cases hb : d.chunks.flatMap (·.data) with
      | nil =>
        obtain ⟨c, cs, hcs⟩ := List.exists_cons_of_ne_nil hne
        have hdata : c.data = [] := List.flatMap_eq_nil_iff.1 hb c (by rw [hcs]; exact List.mem_cons_self)
        exact absurd hdata c.data_ne
      | cons ch b => rfl

/-- Once the response is taken for complete, it does not go on receiving. -/
theorem okPacket_ne_none (hsaid : r.Says s gChunkFlag s') (hcounted : ∀ c, r.framing = .counted c → c.body ≠ [])
    (hchunked : ∀ d, r.framing = .chunked d → s.contentLength ≤ 0) (hcomplete : r.Complete (r.header ++ x)) :
    okPacket m s'.contentLength gChunkFlag (r.header ++ x) ≠ .done none := by
  unfold Says at hsaid
  unfold Complete at hcomplete
  unfold okPacket
  rw [headerEnd_header]
  intro h
  cases hf : r.framing with
  | counted c =>
    rw [hf] at hsaid hcomplete
    have hpos := List.length_pos_iff.2 (hcounted c hf)
    simp only at hsaid hcomplete
    rw [hsaid, if_pos (by omega)] at h
    simp only [Int.toNat_natCast] at h
    rw [if_neg (by omega)] at h
    cases h
  | chunked d =>
    rw [hf] at hsaid hcomplete
    have hle := hchunked d hf
    obtain ⟨hcl, rfl⟩ := hsaid
    simp only at hcomplete
    rw [if_neg (by omega), if_pos rfl] at h
    simp only at h
    rw [if_neg (by rw [hcomplete]; decide)] at h
    obtain ⟨res, -, hres⟩ := Outcome.map_eq_done.1 h
    rcases res with ret | (_ | ⟨ch, b⟩)
    all_goals cases hres

/-- A body that is read is not so long that its length is no `int`. -/
theorem passes_of_reads (hcounted : ∀ c, r.framing = .counted c → c.body ≠ []) {sessionCookie : List SessionCookie} {buf : List Char}
    {ps : List (List Char)} (h : r.Reads sessionCookie buf ps) : r.framing.Passes := by
  obtain ⟨k, -, -, hcomplete, -, -, hlen, -⟩ := h
  unfold Complete at hcomplete
  unfold Framing.Passes
  cases hf : r.framing with
  | counted c =>
    rw [hf] at hcomplete
    have hmax : (httpSoapMaxRecvLength : Int) ≤ intMax := by decide
    simp only at hcomplete
    exact ⟨hcounted c hf, by omega⟩
  | chunked d => trivial

/-! ## A response that is never complete -/

theorem cString_of_mem {l : List Char} (h : '\x00' ∈ l) (x : List Char) : cString (l ++ x) = cString l := by
  unfold cString
  rw [List.takeWhile_append, if_neg]
  intro hlen
  have hall := List.takeWhile_eq_self_iff.1 ((List.takeWhile_prefix (l := l) (· != '\x00')).eq_of_length hlen)
  exact absurd (hall _ h) (by decide)

/-- A body in chunks without a zero ends with an empty line. -/
theorem mem_of_not_complete {d : Chunked} (hf : r.framing = .chunked d) (h : ¬r.Complete r.wire) : '\x00' ∈ d.wire := by
  by_contra hnul
  refine h ?_
  unfold Complete wire
  rw [hf]
  simp only [Framing.wire, List.drop_left]
  rw [Conf.cString_of_notMem hnul, mentions, Option.isSome_iff_ne_none, Ne, dropInfix?_eq_none, not_not]
  refine List.IsSuffix.isInfix ?_
  unfold Chunked.wire Chunked.toLast
  obtain hnil | ⟨ls, l, hl⟩ := List.eq_nil_or_concat d.trailers
  · rw [hnil]
    exact ⟨Chunked.chunksText d.chunks ++ d.last.text, by simp [linesText, List.append_assoc]⟩
  · rw [hl, List.concat_eq_append, linesText_append]
    exact ⟨Chunked.chunksText d.chunks ++ d.last.text ++ crlf ++ linesText ls ++ l.text, by simp [linesText, List.append_assoc]⟩

/-- A body in chunks with a zero before the first empty line is never complete, whatever comes. -/
theorem recvLoop_stuck {d : Chunked} (hf : r.framing = .chunked d) (hcode : r.status.code = 200) (hnul : '\x00' ∈ x)
    (hnot : ¬r.Complete (r.header ++ x)) (hs : s.contentLength ≤ 0) {evs : List Recv} {client : Client} {reply : Reply}
    (h : recvLoop m s (r.header ++ x) evs = .done (.returned client reply)) : reply.rBufferLen = none := by
  induction evs generalizing x s with
  | nil =>
    cases h
    rfl
  | cons ev evs ih =>
    cases ev with
    | failed ret hret =>
      cases h
      rfl
    | data p =>
      by_cases hne : p = []
      · rw [hne, recvLoop_closed] at h
        cases h
        rfl
      by_cases hp : FitsBehind (r.header ++ x) p
      · obtain ⟨status, gChunkFlag, s', hparse, -⟩ := parse_of_recvLoop hp h
        have hbuf : r.header ++ x ++ p = r.header ++ (x ++ p) := List.append_assoc ..
        cases parsed_of_parse ⟨[], (List.append_nil _).trans hbuf⟩ hparse with
        | failed hstatus =>
          rw [recvLoop_failed hp hstatus hparse] at h
          cases h
        | empty _ hcode' => omega
        | early _ _ hnothing =>
          obtain ⟨⟨c, hc, -⟩, -⟩ := hnothing
          rw [hf] at hc
          cases hc
        | accepted _ _ _ _ hsaid =>
          have hnot' : ¬r.Complete (r.header ++ (x ++ p)) := by
            unfold Complete at hnot ⊢
            rw [hf] at hnot ⊢
            simp only [List.drop_left] at hnot ⊢
            rwa [cString_of_mem hnul]
          rw [recvLoop_ok hp hparse, hbuf, okPacket_incomplete hsaid (fun c hc => by rw [hf] at hc; cases hc) (fun _ _ => hs) hnot',
            Outcome.bind_done] at h
          refine ih (List.mem_append_left p hnul) hnot' ?_ h
          unfold Says at hsaid
          rw [hf] at hsaid
          exact hsaid.1.trans_le hs
        | challenge hcode' => omega
      · obtain ⟨_, _, heq, hnone⟩ := recvLoop_long hne hp h
        cases heq
        exact hnone

/-! ## The pieces of a response -/

/-- An answer that is no challenge. -/
def NoChallenge (r : Response) : Prop := r.status.code ≠ 401 ∧ r.status.code ≠ 400

instance (r : Response) : Decidable r.NoChallenge := inferInstanceAs (Decidable (_ ∧ _))

/-- Another try begins behind a length that is left. -/
theorem recvLoop_again (hcode : r.NoChallenge) {evs evs' : List Recv} {ret : Result}
    (h : recvLoop m s (r.header ++ x) evs = .done (.again ret s' evs')) : 0 < s'.recvLen := by
  induction evs generalizing x s with
  | nil => cases h
  | cons ev evs ih =>
    cases ev with
    | failed ret hret => cases h
    | data p =>
      by_cases hne : p = []
      · rw [hne, recvLoop_closed] at h
        cases h
      by_cases hp : FitsBehind (r.header ++ x) p
      · obtain ⟨status, gChunkFlag, s₁, hparse, hlen⟩ := parse_of_recvLoop hp h
        have hbuf : r.header ++ x ++ p = r.header ++ (x ++ p) := List.append_assoc ..
        cases parsed_of_parse ⟨[], (List.append_nil _).trans hbuf⟩ hparse with
        | failed hstatus =>
          rw [recvLoop_failed hp hstatus hparse] at h
          cases h
          rw [hlen, List.length_append]
          exact Nat.add_pos_right _ (List.length_pos_iff.2 hne)
        | empty =>
          rw [recvLoop_noContent hp hparse] at h
          cases h
        | early =>
          rw [recvLoop_noContent hp hparse] at h
          cases h
        | accepted =>
          rw [recvLoop_ok hp hparse] at h
          obtain ⟨reply, -, h⟩ := Outcome.bind_eq_done.1 h
          cases reply with
          | some reply => cases h
          | none =>
            dsimp only at h
            rw [hbuf] at h
            exact ih h
        | challenge hcode' => exact absurd hcode' (not_or.2 hcode)
      · obtain ⟨_, _, heq, -⟩ := recvLoop_long hne hp h
        cases heq

/-- From the piece on with which the header is complete, the body is given just if the pieces are read. -/
theorem recvLoop_reads (hfits : r.status.Fits m) (hcode : r.status.code = 200)
    (hcounted : ∀ c, r.framing = .counted c → c.body ≠ []) {ps : List (List Char)} {rest : List Recv} {buf : List Char}
    (hps : ∀ p ∈ ps, p ≠ []) (hwire : buf ++ ps.flatten = r.wire) (hbuf : ∀ p ∈ ps.head?, r.header <+: buf ++ p)
    (hnot : ¬r.Complete buf) (hs : ∀ d, r.framing = .chunked d → s.contentLength ≤ 0) :
    (∃ client reply, recvLoop m s buf (received ps rest) = .done (.returned client reply) ∧ reply.Gives r.body) ↔
      m.malloc (r.body.length + 1) = true ∧ r.Reads s.client.sessionCookie buf ps := by
  induction ps generalizing buf s with
  | nil =>
    refine iff_of_false ?_ ?_
    · rintro ⟨client, reply, h, hgives⟩
      rw [List.flatten_nil, List.append_nil] at hwire
      subst hwire
      cases hf : r.framing with
      | counted c =>
        refine hnot ?_
        unfold Complete wire
        rw [hf, List.length_append]
        rfl
      | chunked d =>
        have hnul := mem_of_not_complete hf hnot
        unfold wire at h hnot
        rw [hf] at h hnot
        have hnone := recvLoop_stuck hf hcode hnul hnot (hs d hf) h
        rw [hgives.2.1] at hnone
        cases hnone
    · rintro ⟨-, k, hpos, hle, -⟩
      rw [List.length_nil] at hle
      omega
  | cons p ps ih =>
    have hne : p ≠ [] := hps p List.mem_cons_self
    obtain ⟨x, hx⟩ := hbuf p rfl
    have hwire' : (buf ++ p) ++ ps.flatten = r.wire := by
      rw [← hwire, List.flatten_cons, List.append_assoc]
    have hxwire : x <+: r.framing.wire := by
      refine ⟨ps.flatten, ?_⟩
      rw [← hx] at hwire'
      unfold wire at hwire'
      rw [List.append_assoc] at hwire'
      exact List.append_cancel_left hwire'
    have hps' : ∀ q ∈ ps, q ≠ [] := fun q hq => hps q (List.mem_cons_of_mem p hq)
    have hbuf' : ∀ q ∈ ps.head?, r.header <+: (buf ++ p) ++ q := fun q _ =>
      (show r.header <+: buf ++ p from ⟨x, hx⟩).trans (List.prefix_append _ _)
    have hs' : ∀ {gChunkFlag s'}, r.Says s gChunkFlag s' → ∀ d, r.framing = .chunked d → s'.contentLength ≤ 0 := by
      intro gChunkFlag s' hsaid d hf
      unfold Says at hsaid
      rw [hf] at hsaid
      exact hsaid.1.trans_le (hs d hf)
    rw [reads_cons]
    change (∃ client reply, recvLoop m s buf (.data p :: received ps rest) = _ ∧ _) ↔ _
    by_cases hlen : (buf ++ p).length < httpSoapMaxRecvLength
    · have hp : FitsBehind buf p := ⟨hne, by rwa [← List.length_append]⟩
      constructor
      · rintro ⟨client, reply, h, hgives⟩
        obtain ⟨status, gChunkFlag, s', hparse, -⟩ := parse_of_recvLoop hp h
        cases parsed_of_parse ⟨[], (List.append_nil _).trans hx.symm⟩ hparse with
        | failed hstatus =>
          rw [recvLoop_failed hp hstatus hparse] at h
          cases h
        | empty _ hcode' => omega
        | early _ _ hnothing =>
          obtain ⟨⟨c, hc, hbody⟩, -⟩ := hnothing
          exact absurd hbody (hcounted c hc)
        | accepted _ _ _ htakes hsaid =>
          rw [recvLoop_ok hp hparse] at h
          by_cases hcomplete : r.Complete (buf ++ p)
          · rw [← hx] at h hcomplete hlen ⊢
            obtain ⟨o, hpacket, h⟩ := Outcome.bind_eq_done.1 h
            cases o with
            | none => exact absurd hpacket (okPacket_ne_none hsaid hcounted hs hcomplete)
            | some reply' =>
            cases h
            obtain ⟨hmalloc, henough⟩ := (okPacket_complete hsaid hcounted hs hxwire hlen hcomplete).1 ⟨reply, hpacket, hgives⟩
            exact ⟨hmalloc, hlen, _, htakes, .inl ⟨hcomplete, henough⟩⟩
          · rw [← hx] at h hcomplete hlen ⊢
            rw [okPacket_incomplete hsaid hcounted hs hcomplete, Outcome.bind_done, hx] at h
            rw [hx] at hcomplete
            obtain ⟨hmalloc, hreads⟩ := (ih hps' hwire' hbuf' hcomplete (hs' hsaid)).1 ⟨client, reply, h, hgives⟩
            exact ⟨hmalloc, hlen, _, htakes, .inr ⟨hx ▸ hcomplete, hx ▸ hreads⟩⟩
        | challenge hcode' => omega
      · rintro ⟨hmalloc, -, sessionCookie', htakes, hcase⟩
        have hpasses : r.framing.Passes := passes_of_reads hcounted (reads_cons.2 ⟨hlen, _, htakes, hcase⟩)
        obtain ⟨gChunkFlag, s', hparse, rfl, hsaid⟩ := parse_accepted (s := s) hfits hcode hpasses htakes x
        rw [hx] at hparse
        rw [recvLoop_ok hp hparse]
        obtain ⟨hcomplete, henough⟩ | ⟨hcomplete, hreads⟩ := hcase
        · rw [← hx] at hcomplete henough hlen ⊢
          obtain ⟨reply, hpacket, hgives⟩ := (okPacket_complete hsaid hcounted hs hxwire hlen hcomplete).2 ⟨hmalloc, henough⟩
          rw [hpacket]
          exact ⟨_, reply, rfl, hgives⟩
        · have hpacket := okPacket_incomplete (m := m) (x := x) hsaid hcounted hs (by rwa [hx])
          rw [hx] at hpacket
          rw [hpacket]
          exact (ih hps' hwire' hbuf' hcomplete (hs' hsaid)).2 ⟨hmalloc, hreads⟩
    · refine iff_of_false ?_ fun h => hlen h.2.1
      rintro ⟨client, reply, h, hgives⟩
      obtain ⟨_, _, heq, hnone⟩ := recvLoop_long hne (fun hp => hlen (by rw [List.length_append]; exact hp.2)) h
      cases heq
      rw [hgives.2.1] at hnone
      cases hnone

/-! ## A whole response -/

theorem header_pos (r : Response) : 0 < r.header.length := by
  rw [header_eq, List.length_append, List.length_cons]
  omega

/-- Nothing is given before the header has ended. -/
theorem okPacket_noHeader {contentLength : Int} {buf : List Char} {reply : Reply} (hend : headerEnd buf = none)
    (h : okPacket m contentLength gChunkFlag buf = .done (some reply)) : reply.ret = .httpFormatError := by
  unfold okPacket at h
  rw [hend] at h
  split at h
  · cases h
    rfl
  split at h
  · cases h
    rfl
  · cases h
    rfl

/-- A body in chunks that is read is not empty. -/
theorem body_ne_of_reads (hcounted : ∀ c, r.framing = .counted c → c.body ≠ []) {sessionCookie : List SessionCookie} {buf : List Char}
    {ps : List (List Char)} (h : r.Reads sessionCookie buf ps) : r.body ≠ [] := by
  obtain ⟨k, -, -, -, -, henough, -⟩ := h
  unfold Enough at henough
  unfold body Framing.body
  cases hf : r.framing with
  | counted c => exact hcounted c hf
  | chunked d =>
    rw [hf] at henough
    obtain ⟨c, cs, hcs⟩ := List.exists_cons_of_ne_nil henough.2.2
    simp only [Chunked.body, hcs, List.flatMap_cons]
    exact List.append_ne_nil_of_left_ne_nil c.data_ne _

theorem body_of_saysNothing {sessionCookie : List SessionCookie} (h : r.SaysNothing sessionCookie) : r.body = [] := by
  obtain ⟨⟨c, hf, hbody⟩, -⟩ := h
  unfold body
  rw [hf]
  exact hbody

theorem gives_nothing {body : List Char} : (⟨.tcmagentOk, some 0, none⟩ : Reply).Gives body ↔ body = [] := by
  constructor
  · rintro ⟨-, hlen, -⟩
    exact List.length_eq_zero_iff.1 (Option.some.inj hlen).symm
  · rintro rfl
    exact ⟨rfl, rfl, fun h => absurd rfl h⟩

/-- A try gives the body of a response that comes in pieces just if it is deliverable. -/
theorem recvLoop_delivers (hcode : r.NoChallenge) (cut : Cut r.wire) (rest : List Recv) (hs : s.contentLength ≤ 0) :
    (∃ client reply, recvLoop m s [] (received cut.pieces rest) = .done (.returned client reply) ∧ reply.Gives r.body) ↔
      r.Deliverable m s.client.sessionCookie cut.pieces := by
  obtain ⟨pieces, hne, hwire⟩ := cut
  cases pieces with
  | nil =>
    have hpos := r.header_pos
    have hlen := congrArg List.length hwire
    unfold wire at hlen
    rw [List.flatten_nil, List.length_append, List.length_nil] at hlen
    omega
  | cons p ps =>
    have hp : p <+: r.header ++ r.framing.wire := ⟨ps.flatten, hwire⟩
    have hnot : ¬r.Complete [] := by
      unfold Complete
      cases r.framing with
      | counted c =>
        have hpos := r.header_pos
        simp only [List.length_nil]
        omega
      | chunked d =>
        simp only [List.drop_nil]
        decide
    change (∃ client reply, recvLoop m s [] (.data p :: received ps rest) = _ ∧ _) ↔ _
    constructor
    · rintro ⟨client, reply, h, hgives⟩
      by_cases hfits : FitsBehind [] p
      · obtain ⟨status, gChunkFlag, s', hparse, -⟩ := parse_of_recvLoop hfits h
        have hlen : p.length < httpSoapMaxRecvLength := by
          have := hfits.2
          rwa [List.length_nil, Nat.zero_add] at this
        cases parsed_of_parse hp hparse with
        | failed hstatus =>
          rw [recvLoop_failed hfits hstatus hparse] at h
          cases h
        | empty hstatus h204 hcome =>
          rw [recvLoop_noContent hfits hparse] at h
          cases h
          exact ⟨hstatus, p, rfl, hlen, .inl ⟨h204, gives_nothing.1 hgives, hcome⟩⟩
        | early hstatus h200 hnothing hcome => exact ⟨hstatus, p, rfl, hlen, .inr (.inl ⟨h200, hnothing, hcome⟩)⟩
        | accepted hstatus h200 hpasses htakes hsaid =>
          have hcounted : ∀ c, r.framing = .counted c → c.body ≠ [] := by
            intro c hf
            rw [hf] at hpasses
            exact hpasses.1
          cases hend : headerEnd p with
          | none =>
            rw [recvLoop_ok hfits hparse] at h
            obtain ⟨o, hpacket, h⟩ := Outcome.bind_eq_done.1 h
            cases o with
            | none =>
              obtain ⟨n, hn⟩ := headerEnd_of_okPacket hpacket
              rw [List.nil_append, hend] at hn
              cases hn
            | some reply' =>
              cases h
              have hret := okPacket_noHeader hend hpacket
              rw [hgives.1] at hret
              cases hret
          | some n =>
            obtain ⟨-, y, rfl, -⟩ := headerEnd_of_prefix hp hend
            obtain ⟨hmalloc, hreads⟩ := (recvLoop_reads hstatus h200 hcounted hne hwire
              (fun q hq => by cases hq; exact List.prefix_append _ _) hnot (fun _ _ => hs)).1 ⟨client, reply, h, hgives⟩
            exact ⟨hstatus, _, rfl, hlen, .inr (.inr ⟨h200, body_ne_of_reads hcounted hreads, hmalloc, List.prefix_append _ _, hreads⟩)⟩
        | challenge hcode' => exact absurd hcode' (not_or.2 hcode)
      · obtain ⟨_, _, heq, hnone⟩ := recvLoop_long (hne p List.mem_cons_self) hfits h
        cases heq
        rw [hgives.2.1] at hnone
        cases hnone
    · rintro ⟨hstatus, q, hq, hlen, hcase⟩
      obtain rfl : p = q := Option.some.inj hq
      have hfits : FitsBehind [] p := ⟨hne p List.mem_cons_self, by rwa [List.length_nil, Nat.zero_add]⟩
      obtain ⟨h204, hbody, hcome⟩ | ⟨h200, hnothing, hcome⟩ | ⟨h200, hbody, hmalloc, hcome, hreads⟩ := hcase
      · obtain ⟨gChunkFlag, s', hparse⟩ := parse_empty (s := s) hstatus h204 hcome
        exact ⟨_, _, recvLoop_noContent hfits hparse, gives_nothing.2 hbody⟩
      · obtain ⟨gChunkFlag, s', hparse⟩ := parse_early (s := s) hstatus h200 hnothing hcome
        exact ⟨_, _, recvLoop_noContent hfits hparse, gives_nothing.2 (body_of_saysNothing hnothing)⟩
      · have hcounted : ∀ c, r.framing = .counted c → c.body ≠ [] := by
          intro c hf
          unfold body at hbody
          rw [hf] at hbody
          exact hbody
        exact (recvLoop_reads hstatus h200 hcounted hne hwire (fun q hq => by cases hq; exact hcome) hnot (fun _ _ => hs)).2
          ⟨hmalloc, hreads⟩

/-- Where the response is no challenge, another try begins behind a length that is left. -/
theorem recvLoop_delivers_again (hcode : r.NoChallenge) (cut : Cut r.wire) {rest evs : List Recv} {ret : Result}
    (h : recvLoop m s [] (received cut.pieces rest) = .done (.again ret s' evs)) : 0 < s'.recvLen := by
  obtain ⟨pieces, hne, hwire⟩ := cut
  cases pieces with
  | nil =>
    have hpos := r.header_pos
    have hlen := congrArg List.length hwire
    unfold wire at hlen
    rw [List.flatten_nil, List.length_append, List.length_nil] at hlen
    omega
  | cons p ps =>
    have hp : p <+: r.header ++ r.framing.wire := ⟨ps.flatten, hwire⟩
    change recvLoop m s [] (.data p :: received ps rest) = _ at h
    by_cases hfits : FitsBehind [] p
    · obtain ⟨status, gChunkFlag, s₁, hparse, hlen⟩ := parse_of_recvLoop hfits h
      cases parsed_of_parse hp hparse with
      | failed hstatus =>
        rw [recvLoop_failed hfits hstatus hparse] at h
        cases h
        rw [hlen]
        exact List.length_pos_iff.2 (hne p List.mem_cons_self)
      | empty =>
        rw [recvLoop_noContent hfits hparse] at h
        cases h
      | early =>
        rw [recvLoop_noContent hfits hparse] at h
        cases h
      | accepted =>
        rw [recvLoop_ok hfits hparse] at h
        obtain ⟨o, hpacket, h⟩ := Outcome.bind_eq_done.1 h
        cases o with
        | some reply => cases h
        | none =>
          obtain ⟨n, hn⟩ := headerEnd_of_okPacket hpacket
          obtain ⟨-, y, rfl, -⟩ := headerEnd_of_prefix hp hn
          exact recvLoop_again hcode h
      | challenge hcode' => exact absurd hcode' (not_or.2 hcode)
    · obtain ⟨_, _, heq, -⟩ := recvLoop_long (hne p List.mem_cons_self) hfits h
      cases heq

end Response

/-! ## The tries -/

/-- A try whose request does not get out leaves everything to the next. -/
theorem tryLoop_refused (m : Machine) (s : Call) (recvs : List Recv) (asked tries : Nat) (ret : Result) {refused : List Result}
    (sends : List Result) (hrefused : ∀ x ∈ refused, x ≠ .tcmagentOk) :
    ∃ ret', tryLoop m (refused.length + tries) ret s (refused ++ sends) recvs asked = tryLoop m tries ret' s sends recvs asked := by
  induction refused generalizing ret with
  | nil => exact ⟨ret, by rw [List.length_nil, Nat.zero_add]; rfl⟩
  | cons x refused ih =>
    obtain ⟨ret', hret'⟩ := ih x fun y hy => hrefused y (List.mem_cons_of_mem x hy)
    refine ⟨ret', ?_⟩
    rw [List.length_cons, Nat.add_right_comm, tryLoop]
    rw [if_pos (by simpa using hrefused x List.mem_cons_self)]
    exact hret'

/-- A request that gets out is followed by a try that receives. -/
theorem tryLoop_getsOut (m : Machine) (s : Call) (recvs : List Recv) (ret : Result) {sends : List Result} (hout : GetsOut sends) :
    ∃ tries ret' sends', sends'.headD .tcmagentOk = .tcmagentOk ∧
      tryLoop m httpMaxTryTimes ret s sends recvs 0 = tryLoop m (tries + 1) ret' s sends' recvs 0 := by
  have hrefused : ∀ x ∈ sends.takeWhile (· ≠ .tcmagentOk), x ≠ .tcmagentOk := fun x hx => by
    simpa using List.mem_takeWhile_imp hx
  obtain ⟨tries, htries⟩ : ∃ tries, httpMaxTryTimes = (sends.takeWhile (· ≠ .tcmagentOk)).length + (tries + 1) :=
    ⟨httpMaxTryTimes - (sends.takeWhile (· ≠ .tcmagentOk)).length - 1, by unfold GetsOut at hout; omega⟩
  obtain ⟨ret', hret'⟩ := tryLoop_refused m s recvs 0 (tries + 1) ret (sends.dropWhile (· ≠ .tcmagentOk)) hrefused
  refine ⟨tries, ret', sends.dropWhile (· ≠ .tcmagentOk), ?_, ?_⟩
  · cases hd : sends.dropWhile (· ≠ .tcmagentOk) with
    | nil => rfl
    | cons x later =>
      have hhead := List.head_dropWhile_not (· ≠ .tcmagentOk) (l := sends) (by rw [hd]; exact List.cons_ne_nil _ _)
      simp only [hd] at hhead
      exact not_not.1 (of_decide_eq_false hhead)
  · rw [← hret', ← htries, List.takeWhile_append_dropWhile]

/-- `send_packet_to_acs_server` gives the body of a response that is received in pieces just if the response is deliverable in these
pieces. -/
theorem sendPacket_gives_iff (m : Machine) (client : Client) (r : Response) (hcode : r.NoChallenge) (cut : Cut r.wire)
    (sends : List Result) (hout : GetsOut sends) (rest : List Recv) :
    (∃ f, sendPacketToAcsServer m client sends (received cut.pieces rest) = .done f ∧ f.reply.Gives r.body) ↔
      r.Deliverable m client.sessionCookie cut.pieces := by
  obtain ⟨tries, ret, sends', hhead, htry⟩ := tryLoop_getsOut m ⟨client, -1, 0⟩ (received cut.pieces rest) .tcmagentOk hout
  rw [← Response.recvLoop_delivers (s := ⟨client, -1, 0⟩) hcode cut rest (show (-1 : Int) ≤ 0 by decide)]
  unfold sendPacketToAcsServer
  rw [htry, tryLoop, if_neg (not_not.2 hhead)]
  change (∃ f, (recvLoop m ⟨client, -1, 0⟩ [] (received cut.pieces rest)).bind _ = _ ∧ _) ↔ _
  constructor
  · rintro ⟨f, h, hgives⟩
    obtain ⟨a, ha, h⟩ := Outcome.bind_eq_done.1 h
    cases a with
    | returned client' reply =>
      cases h
      exact ⟨_, _, ha, hgives⟩
    | again ret' s' evs =>
      have hnone := tryLoop_recvLen (Response.recvLoop_delivers_again hcode cut ha) h
      rw [hgives.2.1] at hnone
      cases hnone
  · rintro ⟨client', reply, h, hgives⟩
    rw [h]
    exact ⟨_, rfl, hgives⟩

/-! ## A response whose header is cut -/

/-- A machine on which no word of a status line runs over anything that is read, with memory for everything. -/
def roomy : Machine := ⟨20, 20, fun _ => true⟩

/-- A client before its first request; there are `MAX_COOKIE_NUM` slots for cookies. -/
def newClient : Client := ⟨['/'], .noAuth, {}, List.replicate 4 {}⟩

theorem one_isDigit : '1'.isDigit = true := rfl

theorem okReason_clean : Clean ['O', 'K'] := by decide

/-- `HTTP/1.1 200 OK`. -/
def okStatus : StatusLine := ⟨'1', '1', 200, ['O', 'K'], one_isDigit, one_isDigit, okReason_clean⟩

theorem xmlText_ne : "Content-Type: text/xml".toList ≠ [] := by decide

theorem xmlText_clean : Clean "Content-Type: text/xml".toList := by decide

/-- The content type of a SOAP packet. -/
def xmlType : Line := ⟨"Content-Type: text/xml".toList, xmlText_ne, xmlText_clean⟩

theorem xmlType_plain : ∀ l ∈ [xmlType], Plain l := by decide

theorem no_plain : ∀ l ∈ ([] : List Line), Plain l := fun _ h => nomatch h

theorem lengthName_eq : "Content-Length:".toList.map Char.toLower = "content-length:".toList := by decide

theorem blank_blank : Blank [' '] := by decide

theorem blank_nil : Blank [] := by decide

theorem three_digit : ∀ ch ∈ ['3'], ch.isDigit = true := List.all_eq_true.1 rfl

theorem three_ne : ['3'] ≠ [] := List.cons_ne_nil _ _

theorem three_eq : digitsNum ['3'] = ['a', 'b', 'c'].length := by decide

/-- A body of three characters. -/
def abc : Counted :=
  ⟨"Content-Length:".toList, [' '], ['3'], [], ['a', 'b', 'c'], lengthName_eq, blank_blank, three_digit, three_ne, blank_nil, three_eq⟩

/-- A response with a body of three characters. -/
def greeting : Response := ⟨okStatus, [xmlType], .counted abc, [], xmlType_plain, no_plain⟩

/-- The response comes in two pieces, of which the first is `n` characters long. -/
def greetingAt (n : Nat) : List (List Char) := [greeting.wire.take n, greeting.wire.drop n]

theorem greetingAt_ne {n : Nat} (hpos : 0 < n) (hlt : n < greeting.wire.length) : ∀ p ∈ greetingAt n, p ≠ [] := by
  intro p hp
  simp only [greetingAt, List.mem_cons, List.not_mem_nil, or_false] at hp
  obtain rfl | rfl := hp
  · exact List.ne_nil_of_length_pos (by rw [List.length_take]; omega)
  · exact List.ne_nil_of_length_pos (by rw [List.length_drop]; omega)

theorem greetingAt_flatten (n : Nat) : (greetingAt n).flatten = greeting.wire := by
  simp [greetingAt]

theorem inBody_ne : ∀ p ∈ greetingAt 63, p ≠ [] := greetingAt_ne (by decide) (by decide)

/-- The cut is within the body. -/
def inBody : Cut greeting.wire := ⟨greetingAt 63, inBody_ne, greetingAt_flatten 63⟩

/-- The theorem, for a cut within the body. -/
theorem sendPacket_gives_iff_inBody :
    (∃ f, sendPacketToAcsServer roomy newClient [] (received inBody.pieces []) = .done f ∧ f.reply.Gives greeting.body) ↔
      greeting.Deliverable roomy newClient.sessionCookie inBody.pieces :=
  sendPacket_gives_iff roomy newClient greeting (by decide) inBody [] (by decide) []

/-- Where the cut is between the two characters that end a line of the header, the client sends its request again and again, and
gives nothing. -/
theorem not_gives_inHeader : ∃ n f, (∀ p ∈ greetingAt n, p ≠ []) ∧ (greetingAt n).flatten = greeting.wire ∧
    sendPacketToAcsServer roomy newClient [] (received (greetingAt n) []) = .done f ∧ f.asked = 3 ∧
    f.reply.ret = .socketTimeout ∧ ¬f.reply.Gives greeting.body := by
  refine ⟨40, ⟨3, newClient, { ret := .socketTimeout }⟩, greetingAt_ne (by decide) (by decide), greetingAt_flatten 60, ?_, rfl, rfl, ?_⟩
  · decide +kernel
  · decide

end CodeFactory.Http
