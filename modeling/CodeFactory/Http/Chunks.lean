import CodeFactory.Http.Parsing

/-!
# Decoding chunks

What the loop over the chunks makes of a body that comes from the front: it gives the data just if the line of the last size has
come, and every size fits into `tmp_buf`.
-/

namespace CodeFactory.Http

open Conf (cString isspace intMax)

/-! ## Sizes -/

theorem isspace_of_isxdigit {ch : Char} (h : isxdigit ch = true) : isspace ch = false := by
  by_contra hsp
  unfold isspace at hsp
  simp only [List.contains_eq_mem, Bool.not_eq_false, decide_eq_true_eq] at hsp
  simp only [List.mem_cons, List.not_mem_nil, or_false] at hsp
  rcases hsp with rfl | rfl | rfl | rfl | rfl | rfl
  all_goals exact absurd h (by decide)

namespace SizeLine

variable (s : SizeLine)

/-- The size ends within `tmp_buf`. -/
def Fits : Prop := s.text.length ≤ tmpBufLen ∧ (s.text.length = tmpBufLen → s.extension ≠ [])

instance : Decidable s.Fits := inferInstanceAs (Decidable (_ ∧ _))

theorem text_clean : Clean s.text := (Clean.of_isxdigit s.digits_hex).append s.clean

theorem takeWhile_text : s.text.takeWhile isxdigit = s.digits := by
  unfold text
  rw [List.takeWhile_append_of_pos s.digits_hex]
  cases hext : s.extension with
  | nil => simp
  | cons ch extension =>
    have hhead := s.extension_head ch (by rw [hext]; rfl)
    have hnot : isxdigit ch = false := by
      obtain rfl | rfl | rfl := hhead
      all_goals rfl
    simp [hnot]

theorem dropWhile_text : s.text.dropWhile isxdigit = s.extension := by
  unfold text
  rw [List.dropWhile_append_of_pos s.digits_hex]
  cases hext : s.extension with
  | nil => rfl
  | cons ch extension =>
    have hhead := s.extension_head ch (by rw [hext]; rfl)
    have hnot : isxdigit ch = false := by
      obtain rfl | rfl | rfl := hhead
      all_goals rfl
    simp [hnot]

/-- Behind a `0` that begins a size there is no `x`. -/
theorem skipHexSign_text : skipHexSign s.text = s.text := by
  unfold skipHexSign
  split
  · next x ch t heq =>
    refine (if_neg fun h => ?_).trans heq.symm
    have hnot : ¬isxdigit x = true := by
      intro hhex
      unfold isxdigit at hhex
      rw [h.1] at hhex
      have hdigit : x.isDigit = true := by simpa using hhex
      have hlow : x.toLower = x := by
        have hle := hdigit
        simp only [Char.isDigit, Bool.and_eq_true, decide_eq_true_eq] at hle
        unfold Char.toLower
        rw [dif_neg]
        intro hup
        exact absurd (UInt32.le_trans hup.1 hle.2) (by decide)
      rw [hlow] at h
      rw [h.1] at hdigit
      exact absurd hdigit (by decide)
    -- the second character is a digit or begins the extension
    unfold text at heq
    cases hd : s.digits with
    | nil => exact s.digits_ne hd
    | cons a digits =>
      rw [hd, List.cons_append] at heq
      obtain ⟨-, heq⟩ := List.cons_eq_cons.1 heq
      cases digits with
      | nil =>
        have hhead := s.extension_head x (by rw [show s.extension = x :: ch :: t from heq]; rfl)
        obtain rfl | rfl | rfl := hhead
        all_goals exact absurd h.1 (by decide)
      | cons b digits =>
        obtain ⟨rfl, -⟩ := List.cons_eq_cons.1 heq
        exact hnot (s.digits_hex b (by rw [hd]; simp))
  · rfl

theorem strtol16_text : strtol16 s.text = (toLong (hexNum s.digits), s.extension) := by
  obtain ⟨ch, digits, hdigits⟩ := List.exists_cons_of_ne_nil s.digits_ne
  have hch : isxdigit ch = true := s.digits_hex ch (by rw [hdigits]; exact List.mem_cons_self)
  have hdrop : s.text.dropWhile isspace = s.text := by
    unfold text
    rw [hdigits, List.cons_append, List.dropWhile_cons_of_neg]
    rw [isspace_of_isxdigit hch]
    exact Bool.false_ne_true
  have hhead : s.text.head? = some ch := by
    unfold text
    rw [hdigits]
    rfl
  unfold strtol16
  rw [hdrop]
  split
  · next heq =>
    rw [heq] at hhead
    cases hhead
    exact absurd hch (by decide)
  · next heq =>
    rw [heq] at hhead
    cases hhead
    exact absurd hch (by decide)
  · rw [skipHexSign_text, takeWhile_text, dropWhile_text]

theorem chunkSize_text : chunkSize s.text = if s.Fits then .done (toLong (hexNum s.digits)) else .undefined := by
  unfold chunkSize
  rw [strtol16_text]
  by_cases hlen : s.text.length ≤ tmpBufLen
  · rw [if_neg (Nat.not_lt.2 hlen)]
    by_cases hfull : s.text.length = tmpBufLen ∧ s.extension = []
    · rw [if_pos hfull, if_neg fun h => h.2 hfull.1 hfull.2]
    · rw [if_neg hfull, if_pos ⟨hlen, fun h he => hfull ⟨h, he⟩⟩]
  · rw [if_pos (Nat.lt_of_not_le hlen), if_neg fun h => hlen h.1]

/-- The line of a size is found at its end. -/
theorem dropInfix?_text (x : List Char) : (cString (s.text ++ (crlf ++ x))).dropInfix? crlf = some (s.text, cString x) := by
  have hcut : cString (crlf ++ x) = crlf ++ cString x := rfl
  have hskip : (s.text ++ (crlf ++ cString x)).dropInfix? crlf =
      ((crlf ++ cString x).dropInfix? crlf).map fun r => (s.text ++ r.1, r.2) :=
    dropInfix?_append_of_notMem s.text_clean.notMem_cr _
  rw [cString_append s.text_clean.notMem_nul, hcut, hskip, dropInfix?_append_left]
  simp

end SizeLine

/-! ## The loop over the chunks -/

/-- The sizes of all chunks, and the last one, end within `tmp_buf`. -/
def SizesFit (cs : List Chunk) (last : SizeLine) : Prop := (∀ c ∈ cs, c.size.Fits) ∧ last.Fits

instance (cs : List Chunk) (last : SizeLine) : Decidable (SizesFit cs last) := inferInstanceAs (Decidable (_ ∧ _))

theorem chunksText_cons (c : Chunk) (cs : List Chunk) :
    Chunked.chunksText (c :: cs) = c.size.text ++ crlf ++ c.data ++ crlf ++ Chunked.chunksText cs := rfl

theorem toLong_of_le {n : Nat} (h : (n : Int) ≤ intMax) : toLong n = n := by
  unfold toLong
  unfold intMax at h ⊢
  omega

theorem block_append (data x : List Char) : block data.length (data ++ x) = data := by
  unfold block
  rw [List.append_assoc, List.take_left]

/-- One round, at the line of a size. -/
theorem chunkLoop_size (s : SizeLine) (recvLen pos : Nat) (out x : List Char) :
    chunkLoop recvLen pos out (s.text ++ (crlf ++ x)) =
      if httpSoapMaxRecvLength ≤ pos then .undefined
      else if s.Fits then
        if intMax < out.length + toLong (hexNum s.digits) then .undefined
        else if (recvLen : Int) < out.length + toLong (hexNum s.digits) then .done (.error .httpFormatError)
        else if httpSoapMaxRecvLength < pos + s.text.length + 2 + (toLong (hexNum s.digits)).toNat then .undefined
        else if toLong (hexNum s.digits) = 0 then .done (.ok out)
        else
          chunkLoop recvLen (pos + s.text.length + 2 + (toLong (hexNum s.digits)).toNat + 2)
            (out ++ block (toLong (hexNum s.digits)).toNat x) (x.drop ((toLong (hexNum s.digits)).toNat + 2))
      else .undefined := by
  have hbody : (s.text ++ (crlf ++ x)).drop (s.text.length + 2) = x := by
    rw [List.drop_length_add_append]
    rfl
  have hnonneg : ¬toLong (hexNum s.digits) < 0 := by
    unfold toLong intMax
    omega
  rw [chunkLoop]
  split
  · rfl
  split
  · next hnone =>
    rw [s.dropInfix?_text] at hnone
    cases hnone
  · next sizeLine rest hsome =>
    rw [s.dropInfix?_text] at hsome
    cases hsome
    rw [s.chunkSize_text]
    by_cases hfits : s.Fits
    · rw [if_pos hfits, if_pos hfits, Outcome.bind_done, if_neg hnonneg, hbody]
    · rw [if_neg hfits, if_neg hfits]
      rfl

/-- The loop gives the data once the line of the last size has come. -/
theorem chunkLoop_done {cs : List Chunk} {last : SizeLine} (hlast : hexNum last.digits = 0) (hfit : SizesFit cs last)
    {recvLen pos : Nat} {out : List Char} (y : List Char) (hout : out.length ≤ pos)
    (hpos : pos + (Chunked.chunksText cs ++ (last.text ++ crlf)).length ≤ recvLen) (hrecv : recvLen < httpSoapMaxRecvLength) :
    chunkLoop recvLen pos out (Chunked.chunksText cs ++ (last.text ++ (crlf ++ y))) =
      .done (.ok (out ++ cs.flatMap (·.data))) := by
  have hmax : (httpSoapMaxRecvLength : Int) ≤ intMax := by decide
  induction cs generalizing pos out with
  | nil =>
    have hzero : toLong (hexNum last.digits) = 0 := by
      rw [hlast]
      rfl
    have hlen : pos + (last.text.length + 2) ≤ recvLen := by
      simpa [Chunked.chunksText, crlf] using hpos
    change chunkLoop recvLen pos out (last.text ++ (crlf ++ y)) = .done (.ok (out ++ []))
    rw [chunkLoop_size, if_neg (by omega), if_pos hfit.2, hzero, if_neg (by omega), if_neg (by omega),
      if_neg (by simp only [Int.toNat_zero]; omega), if_pos rfl, List.append_nil]
  | cons c cs ih =>
    have hlen : pos + (c.size.text.length + 2 + (c.data.length + 2) +
        (Chunked.chunksText cs ++ (last.text ++ crlf)).length) ≤ recvLen := by
      rw [chunksText_cons] at hpos
      simp only [List.length_append, crlf, List.length_cons, List.length_nil] at hpos ⊢
      omega
    have hsize : toLong (hexNum c.size.digits) = c.data.length := by
      rw [c.size_eq]
      exact toLong_of_le (by omega)
    have hdata : 0 < c.data.length := List.length_pos_iff.2 c.data_ne
    have htext : Chunked.chunksText (c :: cs) ++ (last.text ++ (crlf ++ y)) =
        c.size.text ++ (crlf ++ (c.data ++ (crlf ++ (Chunked.chunksText cs ++ (last.text ++ (crlf ++ y)))))) := by
      rw [chunksText_cons]
      simp only [List.append_assoc]
    have hrest : (c.data ++ (crlf ++ (Chunked.chunksText cs ++ (last.text ++ (crlf ++ y))))).drop (c.data.length + 2) =
        Chunked.chunksText cs ++ (last.text ++ (crlf ++ y)) := by
      rw [List.drop_length_add_append]
      rfl
    rw [htext, chunkLoop_size, if_neg (by omega), if_pos (hfit.1 c List.mem_cons_self), hsize, if_neg (by omega),
      if_neg (by omega), Int.toNat_natCast, if_neg (by omega), if_neg (by omega), block_append, hrest]
    rw [ih ⟨fun x hx => hfit.1 x (List.mem_cons_of_mem c hx), hfit.2⟩ (by rw [List.length_append]; omega) (by omega)]
    simp

/-- A line of which the end has not come is not found. -/
theorem SizeLine.prefix_of_dropInfix? (s : SizeLine) {x T b r : List Char} (hx : x <+: s.text ++ (crlf ++ T))
    (h : (cString x).dropInfix? crlf = some (b, r)) : ∃ x', x = s.text ++ (crlf ++ x') ∧ x' <+: T := by
  have hclean := s.text_clean
  have hnone : ∀ q, q <+: s.text → (cString q).dropInfix? crlf = none := by
    intro q hq
    rw [Conf.cString_of_notMem (hclean.of_prefix hq).notMem_nul, dropInfix?_eq_none]
    exact fun hin => (hclean.of_prefix hq).notMem_cr (hin.subset (by decide))
  obtain hcut | ⟨x₁, rfl, hx₁⟩ := prefix_append_cases hx
  · rw [hnone x hcut] at h
    cases h
  cases x₁ with
  | nil =>
    rw [List.append_nil, hnone _ (List.prefix_refl _)] at h
    cases h
  | cons ch x₁ =>
    obtain ⟨rfl, hx₂⟩ := List.cons_prefix_cons.1 hx₁
    cases x₁ with
    | nil =>
      rw [Conf.cString_of_notMem (by simp [hclean.notMem_nul])] at h
      have hskip : (s.text ++ ['\r']).dropInfix? crlf = (['\r'].dropInfix? crlf).map fun r => (s.text ++ r.1, r.2) :=
        dropInfix?_append_of_notMem hclean.notMem_cr _
      rw [hskip] at h
      cases h
    | cons ch x₁ =>
      obtain ⟨rfl, hx₃⟩ := List.cons_prefix_cons.1 hx₂
      exact ⟨x₁, rfl, hx₃⟩

/-- The loop gives nothing before the line of the last size has come, and only if all sizes fit. -/
theorem chunkLoop_prefix {cs : List Chunk} {last : SizeLine} {recvLen pos : Nat} {out x T b : List Char}
    (hrecv : recvLen < httpSoapMaxRecvLength) (hx : x <+: Chunked.chunksText cs ++ (last.text ++ (crlf ++ T)))
    (h : chunkLoop recvLen pos out x = .done (.ok b)) :
    SizesFit cs last ∧ Chunked.chunksText cs ++ (last.text ++ crlf) <+: x := by
  have hmax : (httpSoapMaxRecvLength : Int) ≤ intMax := by decide
  have hfound : ∀ {pos out x}, chunkLoop recvLen pos out x = .done (.ok b) → ∃ r, (cString x).dropInfix? crlf = some r := by
    intro pos out x h
    rw [chunkLoop] at h
    split at h
    · cases h
    split at h
    · cases h
    · next hsome => exact ⟨_, hsome⟩
  induction cs generalizing pos out x with
  | nil =>
    obtain ⟨⟨b', r⟩, hsome⟩ := hfound h
    obtain ⟨x', rfl, -⟩ := last.prefix_of_dropInfix? hx hsome
    rw [chunkLoop_size] at h
    split at h
    · cases h
    split at h
    · next hfits =>
      refine ⟨⟨List.forall_mem_nil _, hfits⟩, ?_⟩
      rw [← List.append_assoc last.text]
      exact List.prefix_append _ _
    · cases h
  | cons c cs ih =>
    have htext : Chunked.chunksText (c :: cs) ++ (last.text ++ (crlf ++ T)) =
        c.size.text ++ (crlf ++ (c.data ++ (crlf ++ (Chunked.chunksText cs ++ (last.text ++ (crlf ++ T)))))) := by
      rw [chunksText_cons]
      simp only [List.append_assoc]
    rw [htext] at hx
    obtain ⟨⟨b', r⟩, hsome⟩ := hfound h
    obtain ⟨x', rfl, hx'⟩ := c.size.prefix_of_dropInfix? hx hsome
    rw [chunkLoop_size] at h
    split at h
    · cases h
    split at h
    · next hfits =>
      split at h
      · cases h
      split at h
      · cases h
      next hle =>
      split at h
      · cases h
      have hsize : toLong (hexNum c.size.digits) = c.data.length := by
        rw [c.size_eq] at hle ⊢
        refine toLong_of_le ?_
        unfold toLong at hle
        omega
      have hdata : 0 < c.data.length := List.length_pos_iff.2 c.data_ne
      rw [hsize, if_neg (by omega), Int.toNat_natCast] at h
      have hrest : (c.data ++ (crlf ++ (Chunked.chunksText cs ++ (last.text ++ (crlf ++ T))))).drop (c.data.length + 2) =
          Chunked.chunksText cs ++ (last.text ++ (crlf ++ T)) := by
        rw [List.drop_length_add_append]
        rfl
      obtain ⟨⟨hcs, hlast⟩, hcome⟩ := ih (hrest ▸ hx'.drop (c.data.length + 2)) h
      refine ⟨⟨fun y hy => (List.mem_cons.1 hy).elim (fun he => he ▸ hfits) (hcs y), hlast⟩, ?_⟩
      -- more has come than the chunk, so all of the chunk has
      obtain ⟨y, hy⟩ := hcome
      have hlen : c.data.length + 2 < x'.length := by
        have := congrArg List.length hy
        simp only [List.length_append, List.length_drop, crlf, List.length_cons, List.length_nil] at this
        omega
      have hchunk : x' = (c.data ++ crlf) ++ x'.drop (c.data.length + 2) := by
        obtain ⟨t, ht⟩ := hx'
        have hcrlf : (c.data ++ crlf).length = c.data.length + 2 := List.length_append
        have htake := congrArg (List.take (c.data.length + 2)) ht
        rw [List.take_append_of_le_length (by omega), ← List.append_assoc c.data, List.take_left' hcrlf] at htake
        rw [← htake, List.take_append_drop]
      refine ⟨y, ?_⟩
      rw [chunksText_cons]
      conv_rhs => rw [hchunk, ← hy]
      simp only [List.append_assoc]
    · cases h

/-! ## What a server can bring about -/

/-- A body that is given is shorter than the buffer, and its block has room for it and a zero. -/
def Reply.Bounded (reply : Reply) : Prop :=
  ∀ n, reply.rBufferLen = some n → n < httpSoapMaxRecvLength ∧ ∀ b, reply.rBuffer = some b → b.length = n + 1

theorem bounded_ret (ret : Result) : Reply.Bounded { ret } := fun _ h => by cases h

theorem bounded_zero (ret : Result) : Reply.Bounded ⟨ret, some 0, none⟩ := fun _ h => by
  cases h
  exact ⟨by decide, fun _ hb => by cases hb⟩

variable {m : Machine} {recvBuf body : List Char} {reply : Reply}

theorem giveBody_bounded (h : body.length < httpSoapMaxRecvLength) : (giveBody m body).Bounded := by
  unfold giveBody
  split
  all_goals
    intro n hn
    cases hn
    refine ⟨h, fun b hb => ?_⟩
    cases hb
  exact List.length_append

theorem length_block (n : Nat) (s : List Char) : (block n s).length = n := by simp [block]

theorem length_chunkLoop {recvLen pos : Nat} {out chunkStart : List Char} (hout : out.length ≤ recvLen)
    (h : chunkLoop recvLen pos out chunkStart = .done (.ok body)) : body.length ≤ recvLen := by
  induction pos, out, chunkStart using chunkLoop.induct recvLen with
  | case1 pos out chunkStart hpos =>
    rw [chunkLoop, if_pos hpos] at h
    cases h
  | case2 pos out chunkStart hpos hnone =>
    rw [chunkLoop, if_neg hpos] at h
    split at h
    · cases h
    · next hsome => cases hnone.symm.trans hsome
  | case3 pos out chunkStart hpos sizeLine rest hsome ih =>
    rw [chunkLoop, if_neg hpos] at h
    split at h
    · cases h
    next hsome' =>
    cases hsome.symm.trans hsome'
    obtain ⟨size, -, h⟩ := Outcome.bind_eq_done.1 h
    split at h
    · cases h
    next hneg =>
    split at h
    · cases h
    split at h
    · cases h
    next hle =>
    split at h
    · cases h
    dsimp only at h
    split at h
    · cases h
      exact hout
    next hzero =>
    refine ih size hneg hzero ?_ h
    rw [List.length_append, length_block]
    omega

theorem okPacket_bounded {contentLength : Int} {gChunkFlag : Bool} (hlen : recvBuf.length < httpSoapMaxRecvLength)
    (h : okPacket m contentLength gChunkFlag recvBuf = .done (some reply)) : reply.Bounded := by
  unfold okPacket at h
  split at h
  · split at h
    · cases h
      exact bounded_ret _
    split at h
    · cases h
    cases h
    refine giveBody_bounded ?_
    rw [List.length_take, List.length_drop]
    omega
  split at h
  · split at h
    · cases h
      exact bounded_ret _
    split at h
    · cases h
    obtain ⟨r, hr, h⟩ := Outcome.map_eq_done.1 h
    split at h
    · cases h
      exact bounded_ret _
    · cases h
      exact bounded_ret _
    · cases h
      exact giveBody_bounded (Nat.lt_of_le_of_lt (length_chunkLoop (Nat.zero_le _) hr) hlen)
  · cases h
    exact bounded_zero _

theorem recvLoop_bounded {s : Call} {recvs : List Recv} {client : Client}
    (h : recvLoop m s recvBuf recvs = .done (.returned client reply)) : reply.Bounded := by
  induction recvs generalizing s recvBuf with
  | nil =>
    cases h
    exact bounded_ret _
  | cons ev recvs ih =>
    obtain ⟨r, -, h⟩ := Outcome.bind_eq_done.1 h
    cases r with
    | error ret =>
      cases h
      exact bounded_ret _
    | ok piece =>
      dsimp only at h
      split at h
      · cases h
        exact bounded_ret _
      split at h
      · cases h
        exact bounded_ret _
      next hlen =>
      obtain ⟨p, -, h⟩ := Outcome.bind_eq_done.1 h
      split at h
      · obtain ⟨r, hr, h⟩ := Outcome.bind_eq_done.1 h
        split at h
        · cases h
          exact okPacket_bounded (by rw [List.length_append]; omega) hr
        · exact ih h
      · cases h
        exact bounded_zero _
      · split at h
        · cases h
          exact bounded_ret _
        split at h
        · cases h
          exact bounded_ret _
        · obtain ⟨d, -, hd⟩ := Outcome.map_eq_done.1 h
          cases hd
      · cases h

theorem tryLoop_bounded {tries : Nat} {ret : Result} {s : Call} {sends : List Result} {recvs : List Recv} {asked : Nat} {f : Finished}
    (h : tryLoop m tries ret s sends recvs asked = .done f) : f.asked ≤ asked + tries ∧ f.reply.Bounded := by
  induction tries generalizing ret s sends recvs asked with
  | zero =>
    cases h
    exact ⟨Nat.le_refl _, bounded_ret _⟩
  | succ tries ih =>
    rw [tryLoop] at h
    split at h
    · exact (ih h).imp_left fun hasked => by omega
    obtain ⟨a, ha, h⟩ := Outcome.bind_eq_done.1 h
    cases a with
    | returned client reply =>
      cases h
      exact ⟨by dsimp only; omega, recvLoop_bounded ha⟩
    | again ret s recvs => exact (ih h).imp_left fun hasked => by omega

/-- **Whatever a server sends**, and however the calls of `send` and `recv` go, the requests are few and what the caller gets is bounded. -/
theorem sendPacket_bounded {client : Client} {sends : List Result} {recvs : List Recv} {f : Finished}
    (h : sendPacketToAcsServer m client sends recvs = .done f) : f.asked ≤ httpMaxTryTimes ∧ f.reply.Bounded := by
  have hbounded := tryLoop_bounded h
  rwa [Nat.zero_add] at hbounded

/-- With the arrays as they are declared, and a status line that fits. -/
theorem sendPacket_bounded_abc : Reply.Bounded ⟨.tcmagentOk, some 3, some "abc\x00".toList⟩ := by
  have hsent : sendPacketToAcsServer ⟨6, 10, fun _ => true⟩ ⟨['/'], .noAuth, {}, []⟩ []
      [.data "HTTP 200 OK\r\nContent-Length: 3\r\n\r\nabc".toList] =
        .done ⟨1, ⟨['/'], .noAuth, {}, []⟩, ⟨.tcmagentOk, some 3, some "abc\x00".toList⟩⟩ := by
    decide +kernel
  exact (sendPacket_bounded hsent).2

end CodeFactory.Http
