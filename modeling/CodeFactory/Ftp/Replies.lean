import CodeFactory.Ftp.Control

/-!
# Commands and their replies

A server answers each command with a reply, and may send others before and after it: its greeting, or the reply behind the data of
a transfer. A call takes the reply to its command if it reads over all that comes before the last line of this reply, and stops
there.
-/

namespace CodeFactory.Ftp

open Http (Clean crlf)

/-! ## Replies -/

/-- A reply: lines up to the last, if it has more than one, and the text of the last line, which has the code and a space in front of
it. The first of several lines has the code and a hyphen in front. -/
structure Reply where
  code : Text
  head : List Text
  text : Text
  digits : code.length = 3 ∧ code.head? ∈ ['1', '2', '3', '4', '5'].map some ∧ ∀ d ∈ code, d.isDigit = true
  begins : ∀ first ∈ head.head?, code ++ ['-'] <+: first
  inside : ∀ l ∈ head, ¬ code ++ [' '] <+: l
  clean : (∀ l ∈ head, Clean l) ∧ Clean text

/-- The last line of a reply. -/
def Reply.last (r : Reply) : Text := r.code ++ ' ' :: r.text

def Reply.lines (r : Reply) : List Text := r.head ++ [r.last]

/-- The first digit of the code. -/
def Reply.digit (r : Reply) : Char := charAt r.code 0

/-- Lines, as they are sent. -/
def wire (lines : List Text) : Text := lines.flatMap (· ++ crlf)

/-- A command, and what the server sends until the next one: the reply to it, and others before and after that. Where nothing can be
read in the time that is waited, it comes too late for this call. -/
structure Exchange where
  late : Bool
  before : List Reply
  reply : Reply
  after : List Reply

/-- The lines up to the last one of the reply. -/
def Exchange.ahead (x : Exchange) : List Text := x.before.flatMap Reply.lines ++ x.reply.head

/-- The lines behind the reply. -/
def Exchange.behind (x : Exchange) : List Text := x.after.flatMap Reply.lines

/-- All the lines. -/
def Exchange.lines (x : Exchange) : List Text := x.ahead ++ x.reply.last :: x.behind

/-! ## Transfers -/

/-- A transfer: the command that is next, the size of the file as it is known, what has arrived and has not been read, and what the
last call has done. -/
structure Session where
  place : Option Place
  filesize : Int
  control : Text
  last : Option Handled
  deriving DecidableEq

/-- A transfer that has been connected. What `filesize` holds then is not known. -/
def connected (filesize : Int) : Session := ⟨some .user, filesize, [], none⟩

/-- A command is sent, and `ftp_handle_cmd_resp` is called. Where there is something to read, it is not waited. -/
def exchange (kind : Transfer) (s : Session) (x : Exchange) : Option Session :=
  s.place.bind fun place =>
    if x.late then
      if s.control = [] then
        some ⟨kind.next place .timeout s.filesize, s.filesize, wire x.lines, some (.returned .timeout)⟩
      else none
    else
      let (handled, filesize, rest) := ftpHandleCmdResp place.cmd s.filesize (s.control ++ wire x.lines)
      match handled with
      | .returned ret => some ⟨kind.next place ret filesize, filesize, rest, some handled⟩
      | _ => some ⟨none, filesize, rest, some handled⟩

/-- A transfer, one command after the other. -/
def Session.step (kind : Transfer) : Step Session Exchange := Step.ofOption (exchange kind)

/-- What the reply says, by the code of its last line. -/
def Reply.ret (r : Reply) : Ret := if r.digit = '4' ∨ r.digit = '5' then .errorResp else .ok

/-- The call takes the reply to its command: all of it is read and nothing behind it, and its code is what the call returns. A call
that does not come to reading takes nothing. -/
def TakesReply (_ : Session) (x : Exchange) (t : Session) : Prop :=
  x.late = true ∨ (t.control = wire x.behind ∧ t.last = some (.returned x.reply.ret))

instance (s : Session) (x : Exchange) (t : Session) : Decidable (TakesReply s x t) := inferInstanceAs (Decidable (_ ∨ _))

/-- A line that is read over. -/
def Passed (c : Char) (l : Text) : Prop := l.length + 1 < ftpRespBufLen ∧ readOver c l = true

/-- What is still to be read, what comes before the reply and the reply up to its last line is read over; the last line can be read,
is an error or what is expected, and what is fetched from it can be fetched. -/
def Answered (s : Session) (x : Exchange) : Prop :=
  x.late = true ∨ ∀ place ∈ s.place, ∃ unread : List Text, (∀ l ∈ unread, Clean l) ∧ s.control = wire unread ∧
    (∀ l ∈ unread ++ x.ahead, Passed place.cmd.expects l) ∧
    x.reply.last.length + 1 < ftpRespBufLen ∧ x.reply.digit ∈ ['4', '5', place.cmd.expects] ∧
    (x.reply.ret = .ok → ∃ filesize, fetch place.cmd x.reply.last s.filesize = .done filesize)

/-! ## Reading lines -/

theorem wire_cons (l : Text) (lines : List Text) : wire (l :: lines) = l ++ '\r' :: '\n' :: wire lines := by
  rw [wire, List.flatMap_cons, List.append_assoc]
  rfl

theorem wire_append (lines lines' : List Text) : wire (lines ++ lines') = wire lines ++ wire lines' := List.flatMap_append

theorem ftpReadline_cons {p : Char} (hp : p ≠ '\r') (i : Nat) (sofar control : Text) :
    ftpReadline i sofar (p :: control) =
      if ftpRespBufLen ≤ i + 1 then .failed control else ftpReadline (i + 1) (sofar ++ [p]) control := by
  rw [ftpReadline.eq_def]
  exact if_congr Iff.rfl rfl (if_neg hp)

/-- A line is read, if the buffer can hold it. -/
theorem ftpReadline_short {l : Text} (hcr : '\r' ∉ l) {i : Nat} (h : i + l.length + 1 < ftpRespBufLen) (sofar rest : Text) :
    ftpReadline i sofar (l ++ '\r' :: '\n' :: rest) = .line (sofar ++ l) rest := by
  induction l generalizing i sofar with
  | nil =>
    rw [List.nil_append, ftpReadline, if_neg (by simpa using h), if_pos rfl, List.append_nil]
    rfl
  | cons ch l ih =>
    rw [List.length_cons] at h
    have hch : ch ≠ '\r' := fun hch => hcr (hch ▸ List.mem_cons_self)
    rw [List.cons_append, ftpReadline_cons hch, if_neg (by omega), ih (fun hm => hcr (List.mem_cons_of_mem _ hm)) (by omega),
      List.append_assoc]
    rfl

theorem ftpReadline_long {l : Text} (hcr : '\r' ∉ l) {i : Nat} (h : ftpRespBufLen ≤ i + l.length + 1) (sofar rest : Text) :
    ∃ rest', ftpReadline i sofar (l ++ '\r' :: '\n' :: rest) = .failed rest' := by
  induction l generalizing i sofar with
  | nil => exact ⟨_, by rw [List.nil_append, ftpReadline, if_pos (by simpa using h)]⟩
  | cons ch l ih =>
    rw [List.length_cons] at h
    have hch : ch ≠ '\r' := fun hch => hcr (hch ▸ List.mem_cons_self)
    rw [List.cons_append, ftpReadline_cons hch]
    split
    · exact ⟨_, rfl⟩
    · exact ih (fun hm => hcr (List.mem_cons_of_mem _ hm)) (by omega) _

/-- What the loop does with a line. -/
theorem scan_line {l : Text} (hcr : '\r' ∉ l) (h : l.length + 1 < ftpRespBufLen) (c : Char) (rest : Text) :
    scan c (l ++ '\r' :: '\n' :: rest) = if readOver c l then scan c rest else .stopped l rest := by
  have hread := ftpReadline_short hcr (i := 0) (by omega) [] rest
  rw [List.nil_append] at hread
  rw [scan]
  split
  next hwaits => cases hread.symm.trans hwaits
  next hfailed => cases hread.symm.trans hfailed
  next hline =>
    cases hread.symm.trans hline
    rfl

theorem scan_long {l : Text} (hcr : '\r' ∉ l) (h : ftpRespBufLen ≤ l.length + 1) (c : Char) (rest : Text) :
    ∃ rest', scan c (l ++ '\r' :: '\n' :: rest) = .failed rest' := by
  obtain ⟨rest', hread⟩ := ftpReadline_long hcr (i := 0) (by omega) [] rest
  refine ⟨rest', ?_⟩
  rw [scan]
  split
  next hwaits => cases hread.symm.trans hwaits
  next hfailed =>
    cases hread.symm.trans hfailed
    rfl
  next hline => cases hread.symm.trans hline

/-- Less is left than there was. -/
theorem scan_length {c : Char} {control l rest : Text} (h : scan c control = .stopped l rest) : rest.length < control.length := by
  induction control using scan.induct c generalizing l rest with
  | case1 control hread =>
    rw [scan] at h
    split at h
    · cases h
    · cases h
    next hline => cases hread.symm.trans hline
  | case2 control rest' hread =>
    rw [scan] at h
    split at h
    · cases h
    · cases h
    next hline => cases hread.symm.trans hline
  | case3 control l' rest' hread hlt hover ih =>
    rw [scan] at h
    split at h
    · cases h
    · cases h
    next hline =>
      cases hread.symm.trans hline
      rw [if_pos hover] at h
      exact (ih h).trans hlt
  | case4 control l' rest' hread hlt hover =>
    rw [scan] at h
    split at h
    · cases h
    · cases h
    next hline =>
      cases hread.symm.trans hline
      rw [if_neg hover] at h
      cases h
      exact hlt

/-- The loop stops at the last of the lines, with what is behind them left, if and only if it reads over the others. -/
theorem scan_lines_iff {c : Char} {lines : List Text} {last : Text} (hlines : ∀ l ∈ lines, Clean l) (hlast : Clean last)
    (rest l' : Text) :
    scan c (wire lines ++ (last ++ '\r' :: '\n' :: rest)) = .stopped l' rest ↔
      ((∀ l ∈ lines, Passed c l) ∧ last.length + 1 < ftpRespBufLen ∧ readOver c last = false) ∧ l' = last := by
  induction lines with
  | nil =>
    rw [wire, List.flatMap_nil, List.nil_append]
    by_cases hlen : last.length + 1 < ftpRespBufLen
    · rw [scan_line hlast.notMem_cr hlen]
      cases hover : readOver c last with
      | true =>
        rw [if_pos rfl]
        exact iff_of_false (fun h => Nat.lt_irrefl _ (scan_length h)) fun h => Bool.noConfusion h.1.2.2
      | false =>
        rw [if_neg Bool.false_ne_true]
        refine ⟨fun h => ?_, fun h => by rw [h.2]⟩
        cases h
        exact ⟨⟨fun _ h => absurd h List.not_mem_nil, hlen, rfl⟩, rfl⟩
    · obtain ⟨rest', hfailed⟩ := scan_long hlast.notMem_cr (Nat.le_of_not_lt hlen) c rest
      rw [hfailed]
      exact iff_of_false (fun h => nomatch h) fun h => hlen h.1.2.1
  | cons l lines ih =>
    have ih := ih fun l hl => hlines l (List.mem_cons_of_mem _ hl)
    have hcr := (hlines l List.mem_cons_self).notMem_cr
    rw [wire_cons, List.append_assoc, List.cons_append, List.cons_append, List.forall_mem_cons, Passed]
    by_cases hlen : l.length + 1 < ftpRespBufLen
    · rw [scan_line hcr hlen]
      cases hover : readOver c l with
      | true =>
        rw [if_pos rfl, ih]
        simp only [hlen, true_and]
      | false =>
        rw [if_neg Bool.false_ne_true]
        refine iff_of_false (fun h => ?_) fun h => Bool.noConfusion h.1.1.1.2
        injection h with _ h
        have hlength := congrArg List.length h
        simp only [List.length_append, List.length_cons] at hlength
        omega
    · obtain ⟨rest', hfailed⟩ := scan_long hcr (Nat.le_of_not_lt hlen) c (wire lines ++ (last ++ '\r' :: '\n' :: rest))
      rw [hfailed]
      exact iff_of_false (fun h => nomatch h) fun h => hlen h.1.1.1.1

/-! ## Replies are lines -/

variable {r : Reply}

theorem Reply.clean_last (r : Reply) : Clean r.last := by
  intro ch hch
  rw [Reply.last, List.mem_append, List.mem_cons] at hch
  obtain hcode | rfl | htext := hch
  · have hdigit := r.digits.2.2 ch hcode
    refine ⟨?_, ?_, ?_⟩ <;>
    · rintro rfl
      exact absurd hdigit (by decide)
  · decide
  · exact r.clean.2 ch htext

theorem Reply.clean_lines (r : Reply) : ∀ l ∈ r.lines, Clean l := by
  rw [Reply.lines, List.forall_mem_append, List.forall_mem_singleton]
  exact ⟨r.clean.1, r.clean_last⟩

theorem Exchange.clean_ahead (x : Exchange) : ∀ l ∈ x.ahead, Clean l := by
  rw [Exchange.ahead, List.forall_mem_append]
  refine ⟨fun l hl => ?_, x.reply.clean.1⟩
  obtain ⟨r, -, hl⟩ := List.mem_flatMap.1 hl
  exact r.clean_lines l hl

theorem Exchange.clean_behind (x : Exchange) : ∀ l ∈ x.behind, Clean l := by
  intro l hl
  obtain ⟨r, -, hl⟩ := List.mem_flatMap.1 hl
  exact r.clean_lines l hl

theorem Reply.readOver_last (r : Reply) (c : Char) : readOver c r.last = false ↔ r.digit ∈ ['4', '5', c] := by
  obtain ⟨d₀, d₁, d₂, hcode⟩ := List.length_eq_three.1 r.digits.1
  have hlast : r.last = d₀ :: d₁ :: d₂ :: ' ' :: r.text := by rw [Reply.last, hcode]; rfl
  have hdigit : r.digit = d₀ := by rw [Reply.digit, hcode]; rfl
  rw [hdigit, hlast, readOver]
  simp only [charAt, List.getD_cons_succ, List.getD_cons_zero, List.mem_cons, List.not_mem_nil, or_false]
  simp
  tauto

theorem Reply.charAt_last (r : Reply) : charAt r.last 0 = r.digit := by
  obtain ⟨d₀, d₁, d₂, hcode⟩ := List.length_eq_three.1 r.digits.1
  rw [Reply.last, Reply.digit, hcode]
  rfl

/-- What the call returns is what the reply says, if what is fetched can be fetched. -/
theorem Reply.classify_last (r : Reply) (cmd : Cmd) (filesize : Int) :
    (classify cmd r.last filesize).1 = .returned r.ret ↔ (r.ret = .ok → ∃ size, fetch cmd r.last filesize = .done size) := by
  rw [classify, r.charAt_last]
  by_cases h : r.digit = '4' ∨ r.digit = '5'
  · have hret : r.ret = .errorResp := if_pos h
    rw [if_pos h, hret]
    exact iff_of_true rfl fun h => nomatch h
  · have hret : r.ret = .ok := if_neg h
    rw [if_neg h, hret]
    cases fetch cmd r.last filesize with
    | done size => exact iff_of_true rfl fun _ => ⟨size, rfl⟩
    | undefined => exact iff_of_false (fun h => nomatch h) fun h => nomatch (h rfl)
    | outOfFuel => exact iff_of_false (fun h => nomatch h) fun h => nomatch (h rfl)

/-! ## Runs -/

/-- What has not been read yet is whole lines. -/
def WholeLines (s : Session) : Prop := ∃ unread : List Text, (∀ l ∈ unread, Clean l) ∧ s.control = wire unread

variable {kind : Transfer} {s t : Session} {x : Exchange}

/-- A call that reads takes the reply if and only if it is answered so that it can. -/
theorem takesReply_iff_of_unread {place : Place} {unread : List Text} (hclean : ∀ l ∈ unread, Clean l)
    (hcontrol : s.control = wire unread) (hplace : s.place = some place) (hlate : x.late = false)
    (h : exchange kind s x = some t) :
    TakesReply s x t ↔ (∀ l ∈ unread ++ x.ahead, Passed place.cmd.expects l) ∧
      x.reply.last.length + 1 < ftpRespBufLen ∧ x.reply.digit ∈ ['4', '5', place.cmd.expects] ∧
      (x.reply.ret = .ok → ∃ filesize, fetch place.cmd x.reply.last s.filesize = .done filesize) := by
  have hlines : ∀ l ∈ unread ++ x.ahead, Clean l := List.forall_mem_append.2 ⟨hclean, x.clean_ahead⟩
  have hstream : s.control ++ wire x.lines =
      wire (unread ++ x.ahead) ++ (x.reply.last ++ '\r' :: '\n' :: wire x.behind) := by
    rw [hcontrol, Exchange.lines, ← wire_append, ← List.append_assoc, wire_append, wire_cons]
  have hscan := scan_lines_iff hlines x.reply.clean_last (c := place.cmd.expects) (wire x.behind)
  rw [← hstream] at hscan
  simp only [exchange, hplace, Option.bind_some, hlate, Bool.false_eq_true, if_false, ftpHandleCmdResp] at h
  rw [TakesReply, hlate, Bool.false_eq_true, false_or, ← Reply.readOver_last]
  cases hread : scan place.cmd.expects (s.control ++ wire x.lines) with
  | waits =>
    rw [hread] at h hscan
    cases h
    exact iff_of_false (fun h => nomatch h.2) fun hc => nomatch (hscan x.reply.last).2 ⟨⟨hc.1, hc.2.1, hc.2.2.1⟩, rfl⟩
  | failed rest =>
    rw [hread] at h hscan
    cases h
    refine iff_of_false (fun h => ?_) fun hc => nomatch (hscan x.reply.last).2 ⟨⟨hc.1, hc.2.1, hc.2.2.1⟩, rfl⟩
    have hret : x.reply.ret = .internalError := (Handled.returned.inj (Option.some.inj h.2)).symm
    rw [Reply.ret] at hret
    split at hret <;> cases hret
  | stopped l rest =>
    rw [hread] at h hscan
    have hlast : t.last = some (classify place.cmd l s.filesize).1 := by
      split at h <;> cases h <;> rfl
    have hrest : t.control = rest := by
      split at h <;> cases h <;> rfl
    rw [hlast, hrest]
    constructor
    · rintro ⟨rfl, hsays⟩
      obtain ⟨⟨hpassed, hlen, hover⟩, rfl⟩ := (hscan l).1 rfl
      exact ⟨hpassed, hlen, hover, (x.reply.classify_last _ _).1 (Option.some.inj hsays)⟩
    · rintro ⟨hpassed, hlen, hover, hfetch⟩
      have hstop := (hscan x.reply.last).2 ⟨⟨hpassed, hlen, hover⟩, rfl⟩
      injection hstop with hl hrest
      rw [hl, hrest]
      exact ⟨rfl, congrArg some ((x.reply.classify_last _ _).2 hfetch)⟩

theorem takesReply_iff (hwhole : WholeLines s) (h : exchange kind s x = some t) : TakesReply s x t ↔ Answered s x := by
  cases hlate : x.late with
  | true => exact iff_of_true (.inl hlate) (.inl hlate)
  | false =>
    obtain ⟨place, hplace, -⟩ := Option.bind_eq_some_iff.1 h
    rw [Answered, hlate, Bool.false_eq_true, false_or]
    constructor
    · intro htakes place' hplace'
      obtain rfl := Option.some.inj (hplace.symm.trans hplace')
      obtain ⟨unread, hclean, hcontrol⟩ := hwhole
      exact ⟨unread, hclean, hcontrol, (takesReply_iff_of_unread hclean hcontrol hplace hlate h).1 htakes⟩
    · intro hanswered
      obtain ⟨unread, hclean, hcontrol, hc⟩ := hanswered place hplace
      exact (takesReply_iff_of_unread hclean hcontrol hplace hlate h).2 hc

/-- Where a call takes the reply, or comes too late for it, whole lines are left. -/
theorem TakesReply.wholeLines (htakes : TakesReply s x t) (h : exchange kind s x = some t) : WholeLines t := by
  obtain hlate | ⟨hcontrol, -⟩ := htakes
  · obtain ⟨place, -, h⟩ := Option.bind_eq_some_iff.1 h
    rw [if_pos hlate] at h
    split at h
    · cases h
      refine ⟨x.lines, ?_, rfl⟩
      rw [Exchange.lines, List.forall_mem_append, List.forall_mem_cons]
      exact ⟨x.clean_ahead, x.reply.clean_last, x.clean_behind⟩
    · cases h
  · exact ⟨x.behind, x.clean_behind, hcontrol⟩

/-- In a download or an upload each call takes the reply to its command if and only if each is answered so that it can. -/
theorem replies_taken_iff {filesize : Int} {tr : List (Transition Session Exchange)}
    (hr : Run (Session.step kind) (connected filesize) tr s) : Always TakesReply tr ↔ Meets Answered tr := by
  refine hr.all_iff (I := WholeLines) ⟨[], fun _ h => absurd h List.not_mem_nil, rfl⟩ (fun s x t hwhole hanswered h => ?_)
    fun s x t hwhole hnot h htakes => hnot ((takesReply_iff hwhole h).1 htakes)
  have htakes := (takesReply_iff hwhole h).2 hanswered
  exact ⟨htakes.wholeLines h, htakes⟩

/-- The greeting of a server. -/
def greeting : Reply := ⟨['2', '2', '0'], [], ['H', 'i'], ⟨rfl, by decide, List.all_eq_true.1 rfl⟩, by decide, by decide, by decide⟩

/-- A name is good, and a password is asked for. -/
def nameGood : Reply := ⟨['3', '3', '1'], [], ['O', 'K'], ⟨rfl, by decide, List.all_eq_true.1 rfl⟩, by decide, by decide, by decide⟩

/-- The same in three lines, of which the second says how many are there. -/
def nameGoodInLines : Reply :=
  ⟨['3', '3', '1'], [['3', '3', '1', '-', 'H', 'i'], ['5', ' ', 'u', 's', 'e', 'r', 's']], ['O', 'K'],
    ⟨rfl, by decide, List.all_eq_true.1 rfl⟩, by decide, by decide, by decide⟩

/-- The first command of a download, behind the greeting. -/
theorem replies_taken_iff_greeting :
    Always TakesReply (play (exchange .download) (connected 0) [⟨false, [greeting], nameGood, []⟩]).1 ↔
      Meets Answered (play (exchange .download) (connected 0) [⟨false, [greeting], nameGood, []⟩]).1 :=
  replies_taken_iff (Run.ofPlay (exchange .download) (connected 0) [⟨false, [greeting], nameGood, []⟩])

/-- A line inside a reply that begins with a `5` is taken for the reply, and for an error. -/
theorem reply_not_taken : ∃ tr s, Run (Session.step .download) (connected 0) tr s ∧ ¬ Always TakesReply tr := by
  refine ⟨_, _, Run.ofPlay (exchange .download) (connected 0) [⟨false, [greeting], nameGoodInLines, []⟩], ?_⟩
  decide +kernel

end CodeFactory.Ftp
