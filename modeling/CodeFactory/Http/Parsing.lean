import CodeFactory.Http.Response

/-!
# Parsing the header of a response

What `parse_http_header` makes of the text of a response, or of as much of it as has come.
-/

namespace CodeFactory.Http

open Conf (cString isspace digitsNum atoi intMax)

/-! ## The loop over the lines -/

section Loop

variable (onLine : HeaderState → Outcome (Option HttpStatus × HeaderState))

/-- The state after a line was read into the array. -/
def HeaderState.enter (st : HeaderState) (l : List Char) : HeaderState := { st with line := fill st.line l }

theorem HeaderState.text_enter (st : HeaderState) {l : List Char} (hl : Clean l) : (st.enter l).text = l := hl.cString_fill st.line

/-- The state behind a line that the loop goes on after. -/
def passLine (st : HeaderState) (l : Line) : Option HeaderState :=
  if l.text.length < httpHeadLineLen then
    match onLine (st.enter l.text) with
    | .done (none, st') => some st'
    | _ => none
  else none

/-- The state behind lines that the loop goes on after. -/
def passLines (st : HeaderState) (ls : List Line) : Option HeaderState := ls.foldlM (passLine onLine) st

/-- The loop passes some lines and is left at the next. -/
def LeftAt (st : HeaderState) (passed : List Line) (l : Line) (status : HttpStatus) (st' : HeaderState) : Prop :=
  ∃ st₁, passLines onLine st passed = some st₁ ∧ l.text.length < httpHeadLineLen ∧
    onLine (st₁.enter l.text) = .done (some status, st')

variable {onLine} {ret : HttpStatus}

theorem passLine_eq_some {st st' : HeaderState} {l : Line} :
    passLine onLine st l = some st' ↔ l.text.length < httpHeadLineLen ∧ onLine (st.enter l.text) = .done (none, st') := by
  unfold passLine
  split
  · next hlen =>
    split
    · next st₁ hst => simp [hst, hlen]
    · next hst =>
      refine iff_of_false (by simp) fun h => ?_
      exact hst _ h.2
  · next hlen => simp [hlen]

theorem passLines_cons (st : HeaderState) (l : Line) (ls : List Line) :
    passLines onLine st (l :: ls) = (passLine onLine st l).bind fun st => passLines onLine st ls := List.foldlM_cons

theorem passLines_append (st : HeaderState) (ls ls' : List Line) :
    passLines onLine st (ls ++ ls') = (passLines onLine st ls).bind fun st => passLines onLine st ls' := List.foldlM_append

theorem linesText_cons (l : Line) (ls : List Line) : linesText (l :: ls) = l.text ++ crlf ++ linesText ls := rfl

theorem linesText_append (ls ls' : List Line) : linesText (ls ++ ls') = linesText ls ++ linesText ls' := List.flatMap_append

/-- One round of the loop, on a line that fits the array. -/
theorem headerLoop_line {st : HeaderState} {l : Line} (hlen : l.text.length < httpHeadLineLen) (x : List Char) :
    headerLoop onLine ret st (l.text ++ '\r' :: x) = (onLine (st.enter l.text)).bind fun r =>
      match r.1 with
      | some ret => .done (ret, r.2)
      | none =>
        match nextLine (l.text ++ '\r' :: x) with
        | none => .done (.parserError, r.2)
        | some recvBuf => headerLoop onLine ret r.2 recvBuf := by
  rw [headerLoop, l.clean.getLine_eq hlen, Outcome.bind_done, if_neg (by rw [l.clean.cString_fill]; exact l.nonempty)]
  refine congrArg (onLine (st.enter l.text)).bind (funext fun r => ?_)
  cases r.1 with
  | some ret => rfl
  | none =>
    dsimp only
    split
    · next hnext => rw [hnext]
    · next recvBuf hnext => rw [hnext]

theorem headerLoop_blank (st : HeaderState) (x : List Char) :
    headerLoop onLine ret st ('\r' :: x) = .done (ret, st.enter []) := by
  have hclean : Clean [] := fun _ h => nomatch h
  have hline : getLine st.line ('\r' :: x) = .done (fill st.line []) := hclean.getLine_eq (by decide) st.line x
  rw [headerLoop, hline, Outcome.bind_done, if_pos (hclean.cString_fill st.line)]
  rfl

/-- The loop goes on behind the lines that it passes. -/
theorem headerLoop_passes {st st' : HeaderState} {ls : List Line} (h : passLines onLine st ls = some st') (x : List Char) :
    headerLoop onLine ret st (linesText ls ++ x) = headerLoop onLine ret st' x := by
  induction ls generalizing st with
  | nil =>
    cases h
    rfl
  | cons l ls ih =>
    rw [passLines_cons, Option.bind_eq_some_iff] at h
    obtain ⟨st₁, hl, h⟩ := h
    obtain ⟨hlen, hline⟩ := passLine_eq_some.1 hl
    have htext : linesText (l :: ls) ++ x = l.text ++ '\r' :: '\n' :: (linesText ls ++ x) := by
      simp [linesText_cons, crlf, List.append_assoc]
    rw [htext, headerLoop_line hlen, hline, Outcome.bind_done]
    simp only [l.clean.nextLine_eq]
    exact ih h

theorem headerLoop_left {st st' : HeaderState} {passed : List Line} {l : Line} {status : HttpStatus}
    (h : LeftAt onLine st passed l status st') (x : List Char) :
    headerLoop onLine ret st (linesText passed ++ (l.text ++ '\r' :: x)) = .done (status, st') := by
  obtain ⟨st₁, hpassed, hlen, hline⟩ := h
  rw [headerLoop_passes hpassed, headerLoop_line hlen, hline]
  rfl

theorem Clean.of_prefix {l q : List Char} (h : Clean l) (hq : q <+: l) : Clean q := fun ch hch => h ch (hq.subset hch)

/-- Of a header that comes from the front, the loop makes nothing, or it is left at a line whose end has come, or the empty line
has come. -/
theorem headerLoop_prefix {st st' : HeaderState} {ls : List Line} {q z : List Char} {status : HttpStatus}
    (hq : q <+: linesText ls ++ '\r' :: z) (h : headerLoop onLine ret st q = .done (status, st')) :
    status = .parserError ∨
    (∃ passed l behind, ls = passed ++ l :: behind ∧ LeftAt onLine st passed l status st' ∧
      linesText passed ++ (l.text ++ ['\r']) <+: q) ∨
    ∃ st₁, passLines onLine st ls = some st₁ ∧ status = ret ∧ st' = st₁.enter [] ∧ linesText ls ++ ['\r'] <+: q := by
  induction ls generalizing st q with
  | nil =>
    cases q with
    | nil =>
      rw [headerLoop, (show Clean [] from fun _ h => nomatch h).getLine_unfinished] at h
      cases h
    | cons ch q =>
      obtain ⟨rfl, -⟩ := List.cons_prefix_cons.1 hq
      rw [headerLoop_blank] at h
      cases h
      exact .inr (.inr ⟨st, rfl, rfl, rfl, by simp [linesText]⟩)
  | cons l ls ih =>
    have htext : linesText (l :: ls) ++ '\r' :: z = l.text ++ '\r' :: '\n' :: (linesText ls ++ '\r' :: z) := by
      simp [linesText_cons, crlf, List.append_assoc]
    rw [htext] at hq
    obtain hcut | ⟨q₁, rfl, hq₁⟩ := prefix_append_cases hq
    · -- the end of the line has not come
      rw [headerLoop, (l.clean.of_prefix hcut).getLine_unfinished] at h
      cases h
    by_cases hlen : l.text.length < httpHeadLineLen
    · cases q₁ with
      | nil =>
        rw [List.append_nil, headerLoop, l.clean.getLine_unfinished] at h
        cases h
      | cons ch q₁ =>
        obtain ⟨rfl, hq₂⟩ := List.cons_prefix_cons.1 hq₁
        rw [headerLoop_line hlen] at h
        obtain ⟨⟨left, st₁⟩, hline, h⟩ := Outcome.bind_eq_done.1 h
        cases left with
        | some left =>
          cases h
          refine .inr (.inl ⟨[], l, ls, rfl, ⟨st, rfl, hlen, hline⟩, ?_⟩)
          exact (List.prefix_append_right_inj l.text).2 (List.prefix_append ['\r'] q₁)
        | none =>
          have hpass : passLine onLine st l = some st₁ := passLine_eq_some.2 ⟨hlen, hline⟩
          cases q₁ with
          | nil =>
            simp only [l.clean.nextLine_cr] at h
            cases h
            exact .inl rfl
          | cons ch q₁ =>
            obtain ⟨rfl, hq₃⟩ := List.cons_prefix_cons.1 hq₂
            simp only [l.clean.nextLine_eq] at h
            have hfront : ∀ t, t <+: q₁ → linesText [l] ++ t <+: l.text ++ '\r' :: '\n' :: q₁ := by
              intro t ht
              obtain ⟨t', rfl⟩ := ht
              exact ⟨t', by simp [linesText, crlf]⟩
            obtain herr | ⟨passed, l', behind, rfl, ⟨st₂, hpassed, hleft⟩, hcome⟩ | ⟨st₂, hpassed, rfl, rfl, hcome⟩ := ih hq₃ h
            · exact .inl herr
            · refine .inr (.inl ⟨l :: passed, l', behind, rfl, ⟨st₂, ?_, hleft⟩, ?_⟩)
              · rw [passLines_cons, hpass, Option.bind_some, hpassed]
              · simpa [linesText_cons, linesText, List.append_assoc] using hfront _ hcome
            · refine .inr (.inr ⟨st₂, ?_, rfl, rfl, ?_⟩)
              · rw [passLines_cons, hpass, Option.bind_some, hpassed]
              · simpa [linesText_cons, linesText, List.append_assoc] using hfront _ hcome
    · rw [headerLoop, l.clean.getLine_long (Nat.le_of_not_lt hlen)] at h
      cases h

end Loop

/-! ## Numbers and words in a line -/

theorem isspace_of_isDigit {ch : Char} (h : ch.isDigit = true) : isspace ch = false := by
  by_contra hsp
  unfold isspace at hsp
  simp only [List.contains_eq_mem, Bool.not_eq_false, decide_eq_true_eq] at hsp
  simp only [List.mem_cons, List.not_mem_nil, or_false] at hsp
  rcases hsp with rfl | rfl | rfl | rfl | rfl | rfl
  all_goals exact absurd h (by decide)

section Digits

variable {before digits behind : List Char} (hbefore : ∀ ch ∈ before, isspace ch = true)
  (hdigits : ∀ ch ∈ digits, ch.isDigit = true) (hne : digits ≠ [])

include hbefore hdigits hne

theorem dropWhile_digits : (before ++ (digits ++ behind)).dropWhile isspace = digits ++ behind := by
  rw [List.dropWhile_append_of_pos hbefore]
  obtain ⟨ch, digits, rfl⟩ := List.exists_cons_of_ne_nil hne
  rw [List.cons_append, List.dropWhile_cons_of_neg]
  rw [isspace_of_isDigit (hdigits ch List.mem_cons_self)]
  exact Bool.false_ne_true

/-- A number is read to the end of its digits. -/
theorem atoi_digits (hbehind : ∀ ch ∈ behind.head?, ch.isDigit = false) :
    atoi (before ++ (digits ++ behind)) = digitsNum digits := by
  have htake : digitsNum (digits ++ behind) = digitsNum digits := by
    unfold digitsNum
    rw [List.takeWhile_append_of_pos hdigits, List.takeWhile_eq_self_iff.2 hdigits]
    cases behind with
    | nil => simp
    | cons ch behind => simp [hbehind ch rfl]
  unfold atoi
  rw [dropWhile_digits hbefore hdigits hne]
  obtain ⟨ch, digits, rfl⟩ := List.exists_cons_of_ne_nil hne
  have hch := hdigits ch List.mem_cons_self
  rw [List.cons_append] at htake ⊢
  split
  · next heq =>
    cases heq
    exact absurd hch (by decide)
  · next heq =>
    cases heq
    exact absurd hch (by decide)
  · rw [htake]

theorem scanInt_digits (hbehind : ∀ ch ∈ behind.head?, ch.isDigit = false) :
    scanInt (before ++ (digits ++ behind)) = some ((digitsNum digits : Int), behind) := by
  have htake : (digits ++ behind).takeWhile Char.isDigit = digits := by
    rw [List.takeWhile_append_of_pos hdigits]
    cases behind with
    | nil => simp
    | cons ch behind => simp [hbehind ch rfl]
  have hdrop : (digits ++ behind).dropWhile Char.isDigit = behind := by
    rw [List.dropWhile_append_of_pos hdigits]
    cases behind with
    | nil => rfl
    | cons ch behind => simp [hbehind ch rfl]
  unfold scanInt
  rw [dropWhile_digits hbefore hdigits hne, atoi_digits hbefore hdigits hne hbehind]
  obtain ⟨ch, digits, rfl⟩ := List.exists_cons_of_ne_nil hne
  have hch := hdigits ch List.mem_cons_self
  rw [List.cons_append] at htake hdrop ⊢
  dsimp only
  split
  · next heq =>
    cases heq
    exact absurd hch (by decide)
  · next heq =>
    cases heq
    exact absurd hch (by decide)
  · rw [htake, hdrop, if_neg (List.cons_ne_nil _ _)]

end Digits

/-- A word is read to the blank behind it. -/
theorem scanWord_word {w x : List Char} (hne : w ≠ []) (hw : ∀ ch ∈ w, isspace ch = false) : scanWord (w ++ ' ' :: x) = (w, ' ' :: x) := by
  have hdrop : (w ++ ' ' :: x).dropWhile isspace = w ++ ' ' :: x := by
    obtain ⟨ch, w, rfl⟩ := List.exists_cons_of_ne_nil hne
    rw [List.cons_append, List.dropWhile_cons_of_neg]
    rw [hw ch List.mem_cons_self]
    exact Bool.false_ne_true
  have hpos : ∀ ch ∈ w, (!isspace ch) = true := fun ch hch => by rw [hw ch hch]; rfl
  unfold scanWord
  rw [hdrop, List.span_eq_takeWhile_dropWhile, List.takeWhile_append_of_pos hpos, List.dropWhile_append_of_pos hpos]
  simp [isspace]

/-! ## The status line -/

section Status

variable {m : Machine} {s : StatusLine}

theorem scanStatus_eq : scanStatus m s.text =
    if m.protocolRoom ≤ 8 then .undefined
    else if (s.code : Int) ≤ intMax then
      if s.title = [] then .done none
      else if m.titleRoom ≤ s.title.length then .undefined else .done (some s.code)
    else .undefined := by
  have hdigit : ∀ ch ∈ Nat.toDigits 10 s.code, ch.isDigit = true := fun ch hch =>
    Nat.isDigit_of_mem_toDigits (by decide) (by decide) hch
  have hword : scanWord s.text = (['H', 'T', 'T', 'P', '/', s.major, '.', s.minor], ' ' :: (Nat.toDigits 10 s.code ++ ' ' :: s.reason)) := by
    refine scanWord_word (by simp) fun ch hch => ?_
    simp only [List.mem_cons, List.not_mem_nil, or_false] at hch
    rcases hch with rfl | rfl | rfl | rfl | rfl | rfl | rfl | rfl
    · rfl
    · rfl
    · rfl
    · rfl
    · rfl
    · exact isspace_of_isDigit s.majorDigit
    · rfl
    · exact isspace_of_isDigit s.minorDigit
  have hnum : digitsNum (Nat.toDigits 10 s.code) = s.code := by
    unfold digitsNum
    rw [List.takeWhile_eq_self_iff.2 hdigit]
    exact Nat.ofDigitChars_eq_foldl.symm.trans Nat.ofDigitChars_ten_toDigits
  have hint : scanInt (' ' :: (Nat.toDigits 10 s.code ++ ' ' :: s.reason)) = some ((s.code : Int), ' ' :: s.reason) := by
    have h : scanInt ([' '] ++ (Nat.toDigits 10 s.code ++ ' ' :: s.reason)) = _ :=
      scanInt_digits (List.all_eq_true.1 rfl) hdigit Nat.toDigits_ne_nil (by simp)
    rw [hnum] at h
    exact h
  have hlow : -intMax - 1 ≤ (s.code : Int) := by unfold intMax; omega
  have htitle : (scanWord (' ' :: s.reason)).1 = s.title := rfl
  unfold scanStatus
  rw [hword]
  simp only [hint, htitle, hlow, true_and]
  rfl

theorem StatusLine.Fits.scanStatus (h : s.Fits m) : scanStatus m s.text = .done (some (s.code : Int)) := by
  obtain ⟨-, hcode, hprotocol, hne, htitle⟩ := h
  rw [scanStatus_eq, if_neg (by omega), if_pos hcode, if_neg hne, if_neg (by omega)]

theorem StatusLine.fits_of_scanStatus {statusCode : Int} (hlen : s.text.length < httpHeadLineLen)
    (h : Http.scanStatus m s.text = .done (some statusCode)) : s.Fits m := by
  rw [scanStatus_eq] at h
  split at h
  · cases h
  split at h
  · split at h
    · cases h
    split at h
    · cases h
    refine ⟨hlen, ‹_›, ?_, ‹_›, ?_⟩
    all_goals omega
  · cases h

variable {path : List Char} {headType : HeadType} {sessionCookie : List SessionCookie} {authStatus : AuthStatus}
  {digestAuth : DigestAuth}

/-- The state of `parse_http_header` after the status line. -/
def HeaderState.start (s : StatusLine) (sessionCookie : List SessionCookie) (authStatus : AuthStatus) (digestAuth : DigestAuth) :
    HeaderState := ⟨fill (List.replicate httpHeadLineLen '\x00') s.text, none, false, sessionCookie, authStatus, digestAuth⟩

/-- Behind a status line that is read, the code decides. -/
theorem parseHttpHeader_status (h : s.Fits m) (x : List Char) :
    parseHttpHeader m path headType sessionCookie authStatus digestAuth (s.text ++ '\r' :: '\n' :: x) =
      let st := HeaderState.start s sessionCookie authStatus digestAuth
      if s.code = 200 then headerLoop (·.okLine headType) .statusOk st x
      else if s.code = 204 then .done (.statusNoContent, st)
      else if s.code = 401 ∨ s.code = 400 then headerLoop (·.authLine path) .parserError st x
      else .done (.unknowStatusCode, st) := by
  have htext : (HeaderState.start s sessionCookie authStatus digestAuth).text = s.text := s.line.clean.cString_fill _
  have hhttp : "HTTP".toList.isPrefixOf s.text = true := rfl
  have hclean : Clean s.text := s.line.clean
  have hne : s.text ≠ [] := s.line.nonempty
  unfold parseHttpHeader
  rw [hclean.getLine_eq h.1, Outcome.bind_done]
  change (if (HeaderState.start s sessionCookie authStatus digestAuth).text = [] then _ else _) = _
  rw [if_neg (by rw [htext]; exact hne)]
  change (if "HTTP".toList.isPrefixOf (HeaderState.start s sessionCookie authStatus digestAuth).text = false then _ else
    (Http.scanStatus m (HeaderState.start s sessionCookie authStatus digestAuth).text).bind _) = _
  rw [htext, if_neg (by rw [hhttp]; decide), h.scanStatus, Outcome.bind_done]
  simp only [hclean.nextLine_eq]
  norm_cast

/-- Of a response that comes from the front, nothing is made before the end of the status line has come. -/
theorem parseHttpHeader_prefix {q x : List Char} {status : HttpStatus} {st : HeaderState}
    (hq : q <+: s.text ++ '\r' :: '\n' :: x)
    (h : parseHttpHeader m path headType sessionCookie authStatus digestAuth q = .done (status, st)) :
    status = .parserError ∨ s.Fits m ∧ ∃ q', q = s.text ++ '\r' :: '\n' :: q' ∧ q' <+: x := by
  have hclean : Clean s.text := s.line.clean
  have hne : s.text ≠ [] := s.line.nonempty
  have hundef : ∀ q, (getLine (List.replicate httpHeadLineLen '\x00') q = .undefined) →
      parseHttpHeader m path headType sessionCookie authStatus digestAuth q = .undefined := by
    intro q hq
    unfold parseHttpHeader
    rw [hq]
    rfl
  obtain hcut | ⟨q₁, rfl, hq₁⟩ := prefix_append_cases hq
  · rw [hundef q ((hclean.of_prefix hcut).getLine_unfinished _)] at h
    cases h
  by_cases hlen : s.text.length < httpHeadLineLen
  · cases q₁ with
    | nil =>
      rw [List.append_nil, hundef _ (hclean.getLine_unfinished _)] at h
      cases h
    | cons ch q₁ =>
      obtain ⟨rfl, hq₂⟩ := List.cons_prefix_cons.1 hq₁
      have htext : (HeaderState.start s sessionCookie authStatus digestAuth).text = s.text := hclean.cString_fill _
      unfold parseHttpHeader at h
      rw [hclean.getLine_eq hlen, Outcome.bind_done] at h
      change (if (HeaderState.start s sessionCookie authStatus digestAuth).text = [] then _ else
        if "HTTP".toList.isPrefixOf (HeaderState.start s sessionCookie authStatus digestAuth).text = false then _ else
        (Http.scanStatus m (HeaderState.start s sessionCookie authStatus digestAuth).text).bind _) = _ at h
      rw [htext, if_neg hne, if_neg (by rw [show "HTTP".toList.isPrefixOf s.text = true from rfl]; decide)] at h
      obtain ⟨statusCode, hscan, h⟩ := Outcome.bind_eq_done.1 h
      cases statusCode with
      | none =>
        cases h
        exact .inl rfl
      | some statusCode =>
        cases q₁ with
        | nil =>
          simp only [hclean.nextLine_cr] at h
          cases h
          exact .inl rfl
        | cons ch q₁ =>
          obtain ⟨rfl, hq₃⟩ := List.cons_prefix_cons.1 hq₂
          exact .inr ⟨StatusLine.fits_of_scanStatus hlen hscan, q₁, rfl, hq₃⟩
  · rw [hundef _ (hclean.getLine_long (Nat.le_of_not_lt hlen) _ _)] at h
    cases h

end Status

/-! ## The end of the header -/

theorem dropInfix?_crlf {q : List Char} (h : '\r' ∉ q) (l : List Char) :
    (q ++ l).dropInfix? (crlf ++ crlf) = (l.dropInfix? (crlf ++ crlf)).map fun r => (q ++ r.1, r.2) :=
  dropInfix?_append_of_notMem h l

/-- Lines with an empty line behind them: it ends the header. -/
theorem dropInfix?_linesText (l : Line) (ls : List Line) :
    ∃ p, (linesText (l :: ls) ++ crlf).dropInfix? (crlf ++ crlf) = some (p, []) := by
  induction ls generalizing l with
  | nil =>
    have htext : linesText [l] ++ crlf = l.text ++ (crlf ++ crlf ++ []) := by simp [linesText]
    rw [htext, dropInfix?_crlf l.clean.notMem_cr, dropInfix?_append_left]
    exact ⟨_, rfl⟩
  | cons l' ls ih =>
    obtain ⟨p, hp⟩ := ih l'
    obtain ⟨ch, t, ht⟩ := List.exists_cons_of_ne_nil l'.nonempty
    have hch : ch ≠ '\r' := (l'.clean ch (ht ▸ List.mem_cons_self)).1
    have htext : linesText (l :: l' :: ls) ++ crlf = l.text ++ '\r' :: '\n' :: (linesText (l' :: ls) ++ crlf) := by
      simp [linesText, crlf]
    have hnot : ¬(crlf ++ crlf <+: '\r' :: '\n' :: (linesText (l' :: ls) ++ crlf)) := by
      rw [linesText_cons, ht]
      intro hpre
      simp only [crlf, List.cons_append, List.nil_append, List.cons_prefix_cons] at hpre
      exact hch hpre.2.2.1.symm
    have hnot' : ¬(crlf ++ crlf <+: '\n' :: (linesText (l' :: ls) ++ crlf)) := by
      intro hpre
      simp only [crlf, List.cons_append, List.cons_prefix_cons] at hpre
      exact absurd hpre.1 (by decide)
    rw [htext, dropInfix?_crlf l.clean.notMem_cr, dropInfix?_cons hnot, dropInfix?_cons hnot', hp]
    exact ⟨_, rfl⟩

theorem notMem_linesText (ls : List Line) : '\x00' ∉ linesText ls ++ crlf := by
  intro hm
  obtain hm | hm := List.mem_append.1 hm
  · obtain ⟨l, -, hl⟩ := List.mem_flatMap.1 hm
    obtain hl | hl := List.mem_append.1 hl
    · exact l.clean.notMem_nul hl
    · revert hl
      decide
  · revert hm
    decide

theorem cString_append {l : List Char} (h : '\x00' ∉ l) (x : List Char) : cString (l ++ x) = l ++ cString x := by
  unfold cString
  rw [List.takeWhile_append_of_pos]
  intro ch hch
  rw [bne_iff_ne]
  rintro rfl
  exact h hch

theorem headerEnd_eq (l : Line) (ls : List Line) (x : List Char) :
    headerEnd (linesText (l :: ls) ++ crlf ++ x) = some (linesText (l :: ls) ++ crlf).length := by
  obtain ⟨p, hp⟩ := dropInfix?_linesText l ls
  have hlen := congrArg List.length (dropInfix?_eq_some.1 hp).1
  unfold headerEnd
  rw [cString_append (notMem_linesText _), dropInfix?_append hp, Option.map_some, hlen]
  simp [crlf]

/-- Before all of the header has come, its end is not found. -/
theorem headerEnd_prefix {l : Line} {ls : List Line} {q : List Char} {n : Nat} (hq : q <+: linesText (l :: ls) ++ crlf)
    (h : headerEnd q = some n) : q = linesText (l :: ls) ++ crlf := by
  obtain ⟨⟨p, s⟩, hfind, -⟩ := Option.map_eq_some_iff.1 h
  rw [Conf.cString_of_notMem fun hm => notMem_linesText _ (hq.subset hm)] at hfind
  obtain ⟨t, ht⟩ := hq
  obtain ⟨p', hp'⟩ := dropInfix?_linesText l ls
  have hall := dropInfix?_append hfind t
  rw [ht, hp', Option.some.injEq, Prod.mk.injEq] at hall
  obtain ⟨-, rfl⟩ := List.append_eq_nil_iff.1 hall.2.symm
  rw [← ht, List.append_nil]

end CodeFactory.Http
