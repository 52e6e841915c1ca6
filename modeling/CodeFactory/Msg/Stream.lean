import CodeFactory.Core.HostMessage
import CodeFactory.Msg.TcmMsg

/-!
# Messages on a stream

`oalMsg_send` and `oalMsg_receive` of `oal_msg.c` on the bytes of a stream socket, which the kernel hands over in pieces of its own,
with pauses between them that are long enough for `select` to time out. `malloc` and `realloc` are taken to succeed, and the other
side keeps the connection open.
-/

namespace CodeFactory.Msg.Stream

open CodeFactory.Core Oal

/-- `dataLength`, the last four bytes of a header. -/
def dataLength (c : Machine) (header : List Byte) : BitVec 32 := c.intOf (header.drop 24)

/-- A message in memory: its header, and the data that the header says follow. -/
structure WireMsg (c : Machine) where
  header : List Byte
  data : List Byte
  header_length : header.length = sizeofTcmMsgHeader
  data_length : data.length = (dataLength c header).toNat

namespace WireMsg

variable {c : Machine} (m : WireMsg c)

/-- The buffer of the message. -/
def bytes : List Byte := m.header ++ m.data

/-- The variable `totalLen` of `oalMsg_send`. -/
def totalLen : BitVec 32 := BitVec.ofNat 32 sizeofTcmMsgHeader + dataLength c m.header

/-- `oalMsg_send`, given what `write` returns: its result, and the bytes that have been written. -/
def oalMsgSend (rc : Int) (brokenPipe : Bool) : TcmRet × List Byte :=
  if rc < 0 then (if brokenPipe then .disconnected else .internalError, [])
  else if rc ≠ m.totalLen.toInt then (.internalError, m.bytes.take rc.toNat)
  else (.success, m.bytes.take rc.toNat)

/-- What is on the stream when `oalMsg_send` has said that the message was sent. -/
def sent : List Byte := m.bytes.take m.totalLen.toNat

end WireMsg

/-- The messages have been sent with success, and these are the bytes that have been written. -/
inductive Wrote {c : Machine} : List (WireMsg c) → List Byte → Prop where
  | nil : Wrote [] []
  | cons {m : WireMsg c} {ms : List (WireMsg c)} {bs : List Byte} {rc : Int} {brokenPipe : Bool} :
      (m.oalMsgSend rc brokenPipe).1 = .success → Wrote ms bs → Wrote (m :: ms) ((m.oalMsgSend rc brokenPipe).2 ++ bs)

/-- What the kernel does next: it hands over a piece of the stream, or lets a call of `select` time out. -/
inductive Arrival where
  | piece (b : Byte) (bs : List Byte)
  | pause
  deriving DecidableEq

/-- The bytes of a piece. -/
def Arrival.bytes : Arrival → List Byte
  | piece b bs => b :: bs
  | pause => []

/-- The stream, with the cuts and the pauses taken out. -/
def bytesOf (as : List Arrival) : List Byte := as.flatMap Arrival.bytes

/-- What is left of a piece. -/
def leftover : List Byte → List Arrival
  | [] => []
  | b :: bs => [.piece b bs]

/-- `waitForDataAvailable`: there is something to be read, or the time is out. -/
def waitForDataAvailable : List Arrival → Bool × List Arrival
  | [] => (false, [])
  | .pause :: as => (false, as)
  | .piece b bs :: as => (true, .piece b bs :: as)

/-- `read` of at most `n` bytes, which waits for a piece. No result: it goes on waiting. -/
def read (n : Nat) : List Arrival → Option (List Byte × List Arrival)
  | [] => none
  | .pause :: as => read n as
  | .piece b bs :: as => some ((b :: bs).take n, leftover ((b :: bs).drop n) ++ as)

/-- What a call has come to. -/
inductive CallResult where
  | waiting
  | returned (ret : TcmRet) (buf : Option (List Byte))
  deriving DecidableEq

/-- The loop of `oalMsg_receive` over the data of a message of which `n` bytes remain, one round for every piece: `msg` is what
has been read. -/
def receiveData (timed : Bool) (n : Nat) (msg : List Byte) : List Arrival → CallResult × List Arrival
  | [] =>
    if n = 0 then (.returned .success (some msg), [])
    else (if timed then .returned .timedOut none else .waiting, [])
  | .pause :: as =>
    if n = 0 then (.returned .success (some msg), .pause :: as)
    else if timed then (.returned .timedOut none, as)
    else receiveData timed n msg as
  | .piece b bs :: as =>
    if n = 0 then (.returned .success (some msg), .piece b bs :: as)
    -- a piece that is longer than what remains is read in part, and the loop ends
    else if n < (b :: bs).length then
      (.returned .success (some (msg ++ (b :: bs).take n)), leftover ((b :: bs).drop n) ++ as)
    else receiveData timed (n - (b :: bs).length) (msg ++ b :: bs) as

/-- The part of `oalMsg_receive` behind the header. `totalRemaining` is an `int`: a count that is negative there is refused by
`read`. -/
def receiveBody (c : Machine) (timed : Bool) (header : List Byte) (as : List Arrival) : CallResult × List Arrival :=
  if (dataLength c header).toInt < 0 then
    if timed && !(waitForDataAvailable as).1 then (.returned .timedOut none, (waitForDataAvailable as).2)
    else (.returned .internalError none, as)
  else receiveData timed (dataLength c header).toNat header as

/-- `oalMsg_receive`, with or without a timeout. -/
def oalMsgReceive (c : Machine) (timed : Bool) (as : List Arrival) : CallResult × List Arrival :=
  if timed && !(waitForDataAvailable as).1 then (.returned .timedOut none, (waitForDataAvailable as).2)
  else
    match read sizeofTcmMsgHeader as with
    | none => (.waiting, [])
    | some (header, as) =>
      if header.length ≠ sizeofTcmMsgHeader then (.returned .internalError none, as) else receiveBody c timed header as

/-- The reading side: what is to come, and what the last call has come to. The first field is the model's own: the messages that
have been sent and not yet been returned. -/
structure Conn (c : Machine) where
  pending : List (WireMsg c)
  arrivals : List Arrival
  last : Option CallResult

namespace Conn

variable {c : Machine}

/-- Before the first call. -/
def start (msgs : List (WireMsg c)) (arrivals : List Arrival) : Conn c := ⟨msgs, arrivals, none⟩

/-- One call, with or without a timeout; after a call that goes on waiting there is no other. -/
def step (s : Conn c) (timed : Bool) : Option (Conn c) :=
  if s.last = some .waiting then none
  else
    let (result, arrivals) := oalMsgReceive c timed s.arrivals
    some ⟨match result with
      | .returned .success _ => s.pending.tail
      | _ => s.pending, arrivals, some result⟩

/-- The stream stands at the start of the next message. -/
def AtBoundary (s : Conn c) : Prop := bytesOf s.arrivals = s.pending.flatMap WireMsg.sent

/-- **What a call has to do**: return the next message in full, or time out, and leave the stream at a message boundary; it may wait
only when there is no message. -/
def Framed (s : Conn c) (timed : Bool) (t : Conn c) : Prop :=
  match t.last with
  | some (.returned .success (some buf)) => ∃ m, s.pending = m :: t.pending ∧ buf = m.bytes ∧ t.AtBoundary
  | some (.returned .timedOut none) => timed = true ∧ t.pending = s.pending ∧ t.AtBoundary
  | some .waiting => s.pending = []
  | _ => False

/-- The next `n` bytes come without a pause. -/
def Steady : Nat → List Arrival → Prop
  | 0, _ => True
  | _ + 1, [] => False
  | _ + 1, .pause :: _ => False
  | n + 1, .piece b bs :: as => Steady (n + 1 - (b :: bs).length) as

/-- What stands before the next piece is taken away. -/
def dropPauses : List Arrival → List Arrival
  | .pause :: as => dropPauses as
  | as => as

/-- When the next message is of this kind and the stream comes like this, it is read: the whole length of the message fits an
unsigned `int`, the whole header comes in one piece, and for a call with a timeout the data comes without a pause. -/
def Readable (timed : Bool) (m : WireMsg c) : List Arrival → Prop
  | .piece b bs :: as =>
    sizeofTcmMsgHeader + m.data.length < 2 ^ 32 ∧ sizeofTcmMsgHeader ≤ (b :: bs).length ∧
      (timed = true → Steady (sizeofTcmMsgHeader + m.data.length) (.piece b bs :: as))
  | _ => False

/-- A call with a timeout comes upon a pause or upon nothing, a call without one comes when there is no message, or the next message
can be read; a call without a timeout waits for it. -/
def CallFits (s : Conn c) (timed : Bool) : Prop :=
  (timed = true ∧ (waitForDataAvailable s.arrivals).1 = false) ∨
    match s.pending with
    | [] => timed = false
    | m :: _ => Readable timed m (dropPauses s.arrivals)

end Conn

/-! ## Pieces -/

@[simp] theorem bytesOf_nil : bytesOf [] = [] := rfl

@[simp] theorem bytesOf_pause (as : List Arrival) : bytesOf (.pause :: as) = bytesOf as := rfl

@[simp] theorem bytesOf_piece (b : Byte) (bs : List Byte) (as : List Arrival) :
    bytesOf (.piece b bs :: as) = b :: bs ++ bytesOf as := rfl

@[simp] theorem bytesOf_leftover (bs : List Byte) (as : List Arrival) : bytesOf (leftover bs ++ as) = bs ++ bytesOf as := by
  cases bs <;> rfl

open Conn

@[simp] theorem steady_zero (as : List Arrival) : Steady 0 as := by
  unfold Steady
  trivial

theorem steady_piece (n : Nat) (b : Byte) (bs : List Byte) (as : List Arrival) :
    Steady n (.piece b bs :: as) ↔ Steady (n - (b :: bs).length) as := by
  cases n with
  | zero => simp
  | succ n => rw [Steady]

theorem steady_leftover (n : Nat) (bs : List Byte) (as : List Arrival) :
    Steady n (leftover bs ++ as) ↔ Steady (n - bs.length) as := by
  cases bs with
  | nil => exact Iff.rfl
  | cons b bs => exact steady_piece n b bs as

/-- Data of which enough comes, and without a pause where there is a timeout, is read. -/
theorem receiveData_of_steady {timed : Bool} {n : Nat} {as : List Arrival} (msg : List Byte) (hn : n ≤ (bytesOf as).length)
    (hsteady : timed = true → Steady n as) :
    ∃ as', receiveData timed n msg as = (.returned .success (some (msg ++ (bytesOf as).take n)), as') ∧
      bytesOf as' = (bytesOf as).drop n := by
  induction as generalizing n msg with
  | nil =>
    obtain rfl : n = 0 := Nat.le_zero.1 hn
    exact ⟨[], by simp [receiveData], rfl⟩
  | cons a as ih =>
    by_cases h0 : n = 0
    · subst h0
      exact ⟨a :: as, by cases a <;> simp [receiveData], rfl⟩
    cases a with
    | pause =>
      cases timed with
      | true =>
        obtain ⟨k, rfl⟩ : ∃ k, n = k + 1 := ⟨n - 1, by omega⟩
        exact (hsteady rfl).elim
      | false =>
        obtain ⟨as', hread, hbytes⟩ := ih (n := n) msg hn (by simp)
        exact ⟨as', by rw [receiveData, if_neg h0]; simpa using hread, by simpa using hbytes⟩
    | piece b bs =>
      rw [bytesOf_piece] at hn ⊢
      by_cases hlong : n < (b :: bs).length
      · refine ⟨leftover ((b :: bs).drop n) ++ as, ?_, ?_⟩
        · rw [receiveData, if_neg h0, if_pos hlong, List.take_append_of_le_length (Nat.le_of_lt hlong)]
        · rw [bytesOf_leftover, List.drop_append_of_le_length (Nat.le_of_lt hlong)]
      · have hle : (b :: bs).length ≤ n := Nat.le_of_not_lt hlong
        obtain ⟨as', hread, hbytes⟩ := ih (n := n - (b :: bs).length) (msg ++ b :: bs)
          (by rw [List.length_append] at hn; omega) fun ht => (steady_piece _ _ _ _).1 (hsteady ht)
        refine ⟨as', ?_, ?_⟩
        · rw [receiveData, if_neg h0, if_neg hlong, hread, List.append_assoc, List.take_append, List.take_of_length_le hle]
        · rw [hbytes, List.drop_append, List.drop_eq_nil_of_le hle, List.nil_append]

/-- Data that comes with a pause times out where there is a timeout. -/
theorem receiveData_of_not_steady {n : Nat} {as : List Arrival} (msg : List Byte) (hsteady : ¬Steady n as) :
    (receiveData true n msg as).1 = .returned .timedOut none := by
  induction as generalizing n msg with
  | nil =>
    have h0 : n ≠ 0 := fun h => hsteady (h ▸ steady_zero _)
    rw [receiveData, if_neg h0]
    rfl
  | cons a as ih =>
    have h0 : n ≠ 0 := fun h => hsteady (h ▸ steady_zero _)
    cases a with
    | pause =>
      rw [receiveData, if_neg h0]
      rfl
    | piece b bs =>
      rw [steady_piece] at hsteady
      have hle : ¬n < (b :: bs).length := fun hlt => hsteady (by
        rw [Nat.sub_eq_zero_of_le (Nat.le_of_lt hlt)]
        exact steady_zero _)
      rw [receiveData, if_neg h0, if_neg hle]
      exact ih _ hsteady

/-- Reading data never puts bytes back, and a message that is returned has the length that was asked for. -/
theorem receiveData_length (timed : Bool) (n : Nat) (msg : List Byte) (as : List Arrival) :
    (bytesOf (receiveData timed n msg as).2).length ≤ (bytesOf as).length ∧
      ∀ ret buf, (receiveData timed n msg as).1 = .returned ret (some buf) → buf.length = msg.length + n := by
  induction as generalizing n msg with
  | nil =>
    rw [receiveData]
    split_ifs with h0 ht
    · exact ⟨le_refl _, fun ret buf h => by cases h; omega⟩
    · exact ⟨le_refl _, fun ret buf h => by cases h⟩
    · exact ⟨le_refl _, fun ret buf h => by cases h⟩
  | cons a as ih =>
    cases a with
    | pause =>
      rw [receiveData]
      split_ifs with h0 ht
      · exact ⟨le_refl _, fun ret buf h => by cases h; omega⟩
      · exact ⟨le_refl _, fun ret buf h => by cases h⟩
      · exact ih n msg
    | piece b bs =>
      rw [receiveData]
      split_ifs with h0 hlong
      · exact ⟨le_refl _, fun ret buf h => by cases h; omega⟩
      · refine ⟨?_, fun ret buf h => ?_⟩
        · rw [bytesOf_leftover, bytesOf_piece, List.length_append, List.length_append, List.length_drop]
          omega
        · cases h
          rw [List.length_append, List.length_take]
          omega
      · obtain ⟨hle, hbuf⟩ := ih (n - (b :: bs).length) (msg ++ b :: bs)
        refine ⟨Nat.le_trans hle ?_, fun ret buf h => ?_⟩
        · rw [bytesOf_piece, List.length_append]
          omega
        · have hlen := hbuf ret buf h
          rw [List.length_append] at hlen
          omega

/-! ## One call -/

theorem bytesOf_dropPauses (as : List Arrival) : bytesOf (dropPauses as) = bytesOf as := by
  induction as with
  | nil => rfl
  | cons a as ih =>
    cases a with
    | pause => exact ih
    | piece b bs => rfl

theorem dropPauses_cases (as : List Arrival) : dropPauses as = [] ∨ ∃ b bs rest, dropPauses as = .piece b bs :: rest := by
  induction as with
  | nil => exact .inl rfl
  | cons a as ih =>
    cases a with
    | pause => exact ih
    | piece b bs => exact .inr ⟨b, bs, as, rfl⟩

theorem read_dropPauses (n : Nat) (as : List Arrival) : read n as = read n (dropPauses as) := by
  induction as with
  | nil => rfl
  | cons a as ih =>
    cases a with
    | pause => exact ih
    | piece b bs => rfl

/-- A time-out leaves what there is to be read. -/
theorem waitForDataAvailable_bytes (as : List Arrival) : bytesOf (waitForDataAvailable as).2 = bytesOf as := by
  unfold waitForDataAvailable
  split <;> rfl

variable {c : Machine}

/-- The call does not time out at its start. -/
def Begins (timed : Bool) (as : List Arrival) : Prop := ¬(timed = true ∧ (waitForDataAvailable as).1 = false)

theorem receive_timedOut {timed : Bool} {as : List Arrival} (h : ¬Begins timed as) :
    oalMsgReceive c timed as = (.returned .timedOut none, (waitForDataAvailable as).2) := by
  obtain ⟨rfl, hw⟩ := not_not.1 h
  rw [oalMsgReceive, hw]
  rfl

theorem receive_begins {timed : Bool} {as : List Arrival} (h : Begins timed as) :
    oalMsgReceive c timed as = match read sizeofTcmMsgHeader as with
      | none => (.waiting, [])
      | some (header, as) =>
        if header.length ≠ sizeofTcmMsgHeader then (.returned .internalError none, as) else receiveBody c timed header as := by
  rw [oalMsgReceive, if_neg]
  simpa [Begins] using h

theorem receive_nothing {timed : Bool} {as : List Arrival} (h : Begins timed as) (has : dropPauses as = []) :
    oalMsgReceive c timed as = (.waiting, []) := by
  rw [receive_begins h, read_dropPauses, has]
  rfl

/-- What a call makes of the piece it comes upon. -/
theorem receive_piece {timed : Bool} {as rest : List Arrival} {b : Byte} {bs : List Byte} (h : Begins timed as)
    (has : dropPauses as = .piece b bs :: rest) :
    oalMsgReceive c timed as =
      if (b :: bs).length < sizeofTcmMsgHeader then
        (.returned .internalError none, leftover ((b :: bs).drop sizeofTcmMsgHeader) ++ rest)
      else receiveBody c timed ((b :: bs).take sizeofTcmMsgHeader) (leftover ((b :: bs).drop sizeofTcmMsgHeader) ++ rest) := by
  rw [receive_begins h, read_dropPauses, has, read]
  simp only [List.length_take]
  by_cases hlt : (b :: bs).length < sizeofTcmMsgHeader
  · rw [if_pos hlt, if_pos (by omega)]
  · rw [if_neg hlt, if_neg (by omega)]

theorem receiveBody_length (timed : Bool) (header : List Byte) (as : List Arrival) :
    (bytesOf (receiveBody c timed header as).2).length ≤ (bytesOf as).length ∧
      ∀ ret buf, (receiveBody c timed header as).1 = .returned ret (some buf) → buf.length < header.length + 2 ^ 31 := by
  unfold receiveBody
  split_ifs with hneg hwait
  · rw [waitForDataAvailable_bytes]
    exact ⟨Nat.le_refl _, fun ret buf h => by cases h⟩
  · exact ⟨Nat.le_refl _, fun ret buf h => by cases h⟩
  · obtain ⟨hle, hbuf⟩ := receiveData_length timed (dataLength c header).toNat header as
    refine ⟨hle, fun ret buf h => ?_⟩
    have hlen := hbuf ret buf h
    rw [BitVec.toInt_eq_toNat_cond] at hneg
    have hlt := (dataLength c header).isLt
    split at hneg <;> omega

theorem dropPauses_of_begins {as : List Arrival} (h : Begins true as) : dropPauses as = as := by
  cases as with
  | nil => exact (h ⟨rfl, rfl⟩).elim
  | cons a as =>
    cases a with
    | pause => exact (h ⟨rfl, rfl⟩).elim
    | piece b bs => rfl

/-! ## Messages -/

namespace WireMsg

variable {m : WireMsg c}

theorem length_bytes : m.bytes.length = sizeofTcmMsgHeader + m.data.length := by
  rw [bytes, List.length_append, m.header_length]

theorem toNat_totalLen (h : sizeofTcmMsgHeader + m.data.length < 2 ^ 32) :
    m.totalLen.toNat = sizeofTcmMsgHeader + m.data.length := by
  rw [totalLen, BitVec.toNat_add, ← m.data_length, BitVec.toNat_ofNat]
  rw [sizeofTcmMsgHeader] at h ⊢
  omega

theorem sent_eq (h : sizeofTcmMsgHeader + m.data.length < 2 ^ 32) : m.sent = m.bytes := by
  rw [sent, toNat_totalLen h, ← length_bytes, List.take_length]

/-- What success of `oalMsg_send` says. -/
theorem oalMsgSend_success {rc : Int} {brokenPipe : Bool} (h : (m.oalMsgSend rc brokenPipe).1 = .success) :
    0 ≤ m.totalLen.toInt ∧ (m.oalMsgSend rc brokenPipe).2 = m.sent := by
  unfold oalMsgSend at h ⊢
  split_ifs at h ⊢ with h1 h2 h3
  obtain rfl := not_not.1 h3
  refine ⟨by omega, ?_⟩
  have hnat : m.totalLen.toInt.toNat = m.totalLen.toNat := by
    have hlt := m.totalLen.isLt
    rw [BitVec.toInt_eq_toNat_cond] at h1 ⊢
    split at h1 <;> split <;> omega
  rw [sent, ← hnat]

end WireMsg

theorem Wrote.eq {ms : List (WireMsg c)} {bs : List Byte} (h : Wrote ms bs) :
    bs = ms.flatMap WireMsg.sent ∧ ∀ m ∈ ms, 0 ≤ m.totalLen.toInt := by
  induction h with
  | nil => exact ⟨rfl, by simp⟩
  | cons hsend _ ih =>
    obtain ⟨hnonneg, hsent⟩ := WireMsg.oalMsgSend_success hsend
    exact ⟨by rw [hsent, ih.1, List.flatMap_cons], List.forall_mem_cons.2 ⟨hnonneg, ih.2⟩⟩

/-! ## Every call -/

namespace Conn

variable {s t : Conn c} {timed : Bool}

/-- The stream stands at a message, and the messages to come were sent with success. -/
def Inv (s : Conn c) : Prop := s.AtBoundary ∧ ∀ m ∈ s.pending, 0 ≤ m.totalLen.toInt

theorem start_inv {msgs : List (WireMsg c)} {arrivals : List Arrival} (h : Wrote msgs (bytesOf arrivals)) :
    (start msgs arrivals).Inv := h.eq

/-- What a call leaves. -/
theorem step_eq (h : s.step timed = some t) :
    t.last = some (oalMsgReceive c timed s.arrivals).1 ∧ t.arrivals = (oalMsgReceive c timed s.arrivals).2 ∧
      t.pending = match (oalMsgReceive c timed s.arrivals).1 with
        | .returned .success _ => s.pending.tail
        | _ => s.pending := by
  unfold step at h
  split at h
  · cases h
  · cases h
    exact ⟨rfl, rfl, rfl⟩

/-- A piece that holds the header of the next message holds nothing else in front of the data. -/
theorem split_header {m : WireMsg c} {b : Byte} {bs tail : List Byte} {rest : List Arrival}
    (hbytes : b :: bs ++ bytesOf rest = m.bytes ++ tail) (hhead : sizeofTcmMsgHeader ≤ (b :: bs).length) :
    (b :: bs).take sizeofTcmMsgHeader = m.header ∧
      bytesOf (leftover ((b :: bs).drop sizeofTcmMsgHeader) ++ rest) = m.data ++ tail := by
  rw [WireMsg.bytes, List.append_assoc] at hbytes
  have hle : m.header.length ≤ sizeofTcmMsgHeader := Nat.le_of_eq m.header_length
  have hge : sizeofTcmMsgHeader ≤ m.header.length := Nat.le_of_eq m.header_length.symm
  constructor
  · have htake := congrArg (List.take sizeofTcmMsgHeader) hbytes
    rw [List.take_append_of_le_length hhead, List.take_append_of_le_length hge, List.take_of_length_le hle] at htake
    exact htake
  · have hdrop := congrArg (List.drop sizeofTcmMsgHeader) hbytes
    rw [List.drop_append_of_le_length hhead, List.drop_append_of_le_length hge, List.drop_eq_nil_of_le hle,
      List.nil_append] at hdrop
    rw [bytesOf_leftover, hdrop]

theorem steady_data (n : Nat) {b : Byte} {bs : List Byte} {rest : List Arrival}
    (hhead : sizeofTcmMsgHeader ≤ (b :: bs).length) :
    Steady (sizeofTcmMsgHeader + n) (.piece b bs :: rest) ↔
      Steady n (leftover ((b :: bs).drop sizeofTcmMsgHeader) ++ rest) := by
  rw [steady_piece, steady_leftover, List.length_drop,
    show sizeofTcmMsgHeader + n - (b :: bs).length = n - ((b :: bs).length - sizeofTcmMsgHeader) by omega]

theorem receiveBody_message {m : WireMsg c} (hlen : sizeofTcmMsgHeader + m.data.length < 2 ^ 32) (hsend : 0 ≤ m.totalLen.toInt)
    (timed : Bool) (as : List Arrival) : receiveBody c timed m.header as = receiveData timed m.data.length m.header as := by
  have htotal := WireMsg.toNat_totalLen hlen
  have hdata := m.data_length
  rw [sizeofTcmMsgHeader] at htotal
  rw [BitVec.toInt_eq_toNat_cond] at hsend
  rw [receiveBody, if_neg, hdata]
  rw [BitVec.toInt_eq_toNat_cond]
  split at hsend <;> split <;> omega

/-- A call that times out at its start is framed. -/
theorem framed_of_timedOut (hs : s.Inv) (hb : ¬Begins timed s.arrivals) (h : s.step timed = some t) :
    t.Inv ∧ Framed s timed t := by
  obtain ⟨hlast, harrivals, hpending⟩ := step_eq h
  rw [receive_timedOut hb] at hlast harrivals hpending
  have hbound : t.AtBoundary := by
    rw [AtBoundary, harrivals, waitForDataAvailable_bytes, hpending]
    exact hs.1
  refine ⟨⟨hbound, hpending ▸ hs.2⟩, ?_⟩
  rw [Framed, hlast]
  exact ⟨(not_not.1 hb).1, hpending, hbound⟩

theorem framed_of_fits (hs : s.Inv) (hfits : s.CallFits timed) (h : s.step timed = some t) : t.Inv ∧ Framed s timed t := by
  by_cases hb : Begins timed s.arrivals
  swap
  · exact framed_of_timedOut hs hb h
  have hfits := hfits.resolve_left hb
  obtain ⟨hlast, harrivals, hpending⟩ := step_eq h
  have hbytes : bytesOf (dropPauses s.arrivals) = s.pending.flatMap WireMsg.sent := (bytesOf_dropPauses _).trans hs.1
  rcases hp : s.pending with _ | ⟨m, ms⟩
  · -- nothing was sent: the call waits
    rw [hp] at hbytes hpending
    rcases dropPauses_cases s.arrivals with hd | ⟨b, bs, rest, hd⟩
    · rw [receive_nothing hb hd] at hlast harrivals hpending
      refine ⟨⟨?_, by rw [hpending]; simp⟩, ?_⟩
      · rw [AtBoundary, harrivals, hpending]
        rfl
      · rw [Framed, hlast]
        exact hp
    · rw [hd] at hbytes
      cases hbytes
  · -- the next message is read
    rw [hp] at hfits hbytes hpending
    rcases dropPauses_cases s.arrivals with hd | ⟨b, bs, rest, hd⟩
    · rw [hd] at hfits
      exact hfits.elim
    rw [hd] at hfits hbytes
    obtain ⟨hlen, hhead, hsteady⟩ := hfits
    rw [bytesOf_piece, List.flatMap_cons, WireMsg.sent_eq hlen] at hbytes
    obtain ⟨htake, hrest⟩ := split_header hbytes hhead
    have henough : m.data.length ≤ (bytesOf (leftover ((b :: bs).drop sizeofTcmMsgHeader) ++ rest)).length := by
      rw [hrest, List.length_append]
      omega
    obtain ⟨as', hread, has'⟩ := receiveData_of_steady m.header henough fun ht => (steady_data _ hhead).1 (hsteady ht)
    have hsend : 0 ≤ m.totalLen.toInt := hs.2 m (by rw [hp]; exact List.mem_cons_self)
    rw [receive_piece hb hd, if_neg (Nat.not_lt.2 hhead), htake, receiveBody_message hlen hsend, hread] at hlast harrivals hpending
    rw [hrest, List.drop_append_of_le_length (Nat.le_refl _), List.drop_length, List.nil_append] at has'
    have hbound : t.AtBoundary := by
      rw [AtBoundary, harrivals, has', hpending]
      rfl
    refine ⟨⟨hbound, fun m' hm' => hs.2 m' ?_⟩, ?_⟩
    · rw [hp]
      rw [hpending] at hm'
      exact List.mem_cons_of_mem _ hm'
    · rw [Framed, hlast]
      refine ⟨m, by rw [hp, hpending]; rfl, ?_, hbound⟩
      rw [hrest, List.take_append_of_le_length (Nat.le_refl _), List.take_length, WireMsg.bytes]

theorem not_framed (hs : s.Inv) (hfits : ¬s.CallFits timed) (h : s.step timed = some t) : ¬Framed s timed t := by
  intro hf
  have hb : Begins timed s.arrivals := fun hb => hfits (.inl hb)
  rw [CallFits, or_iff_right hb] at hfits
  obtain ⟨hlast, harrivals, hpending⟩ := step_eq h
  have hbytes : bytesOf (dropPauses s.arrivals) = s.pending.flatMap WireMsg.sent := (bytesOf_dropPauses _).trans hs.1
  rcases hp : s.pending with _ | ⟨m, ms⟩
  · -- with a timeout, the wait ended with bytes that no message has sent
    rw [hp] at hfits hbytes
    obtain rfl : timed = true := by simpa using hfits
    rcases dropPauses_cases s.arrivals with hd | ⟨b, bs, rest, hd⟩
    · rw [dropPauses_of_begins hb] at hd
      rw [hd] at hb
      exact hb ⟨rfl, rfl⟩
    · rw [hd] at hbytes
      cases hbytes
  · rw [hp] at hfits
    rcases dropPauses_cases s.arrivals with hd | ⟨b, bs, rest, hd⟩
    · rw [receive_nothing hb hd] at hlast
      rw [Framed, hlast, hp] at hf
      cases hf
    rw [hd] at hfits hbytes
    by_cases hhead : sizeofTcmMsgHeader ≤ (b :: bs).length
    swap
    · rw [receive_piece hb hd, if_pos (Nat.lt_of_not_le hhead)] at hlast
      rw [Framed, hlast] at hf
      exact hf
    rw [receive_piece hb hd, if_neg (Nat.not_lt.2 hhead)] at hlast harrivals
    obtain ⟨hle, hbuf⟩ := receiveBody_length (c := c) timed ((b :: bs).take sizeofTcmMsgHeader)
      (leftover ((b :: bs).drop sizeofTcmMsgHeader) ++ rest)
    rw [Framed, hlast] at hf
    split at hf
    · -- a message is returned: its length fits, and it has come without a pause
      rename_i buf hresult
      obtain ⟨m', hm', rfl, -⟩ := hf
      obtain ⟨rfl, -⟩ := List.cons.inj (hp.symm.trans hm')
      have hlt := hbuf _ _ (Option.some.inj hresult)
      rw [WireMsg.length_bytes, List.length_take] at hlt
      have hlen : sizeofTcmMsgHeader + m.data.length < 2 ^ 32 := by
        rw [sizeofTcmMsgHeader] at hlt ⊢
        omega
      refine hfits ⟨hlen, hhead, fun ht => ?_⟩
      subst ht
      by_contra hsteady
      rw [bytesOf_piece, hp, List.flatMap_cons, WireMsg.sent_eq hlen] at hbytes
      have hsend : 0 ≤ m.totalLen.toInt := hs.2 m (by rw [hp]; exact List.mem_cons_self)
      rw [(split_header hbytes hhead).1, receiveBody_message hlen hsend,
        receiveData_of_not_steady _ (mt (steady_data _ hhead).2 hsteady)] at hresult
      cases hresult
    · -- the header of the message has been taken away
      obtain ⟨-, hsame, hbound⟩ := hf
      rw [AtBoundary, harrivals, hsame, ← hbytes, bytesOf_piece] at hbound
      rw [hbound, bytesOf_leftover, List.length_append, List.length_append, List.length_drop, sizeofTcmMsgHeader] at hle
      have hpos : sizeofTcmMsgHeader = 28 := rfl
      omega
    · rw [hp] at hf
      cases hf
    · exact hf

/-- **Messages are framed exactly when they can be read**: whatever was sent with success, and however the kernel cuts the stream
and delays it, in every sequence of calls each call does what it has to do if and only if each call fits. -/
theorem framed_iff (msgs : List (WireMsg c)) (arrivals : List Arrival) (hsent : Wrote msgs (bytesOf arrivals))
    {tr : List (Transition (Conn c) Bool)} (hr : Run (Step.ofOption step) (start msgs arrivals) tr t) :
    Always Framed tr ↔ Meets CallFits tr :=
  hr.all_iff (start_inv hsent) (fun _ _ _ hi hc h => framed_of_fits hi hc h) fun _ _ _ hi hc h => not_framed hi hc h

/-- A machine whose `char` has no sign and whose numbers begin with their lowest byte. -/
def littleEndian : Machine := ⟨false, false⟩

/-- A message with one byte of data. -/
def oneByte : WireMsg littleEndian where
  header := [0, 0, 0, 0, 0, 0, 0, 0, 0, 0, 0, 0, 0, 0, 0, 0, 0, 0, 0, 0, 0, 0, 0, 0, 1, 0, 0, 0]
  data := [7]
  header_length := rfl
  data_length := by decide

/-- The message was sent. -/
theorem wrote_oneByte : Wrote [oneByte] (oneByte.bytes ++ []) := by
  have h : (oneByte.oalMsgSend 29 false).1 = .success := by decide
  exact Wrote.cons h Wrote.nil

/-- The message arrives whole, and a call with a timeout reads it. -/
theorem framed_iff_oneByte :
    Always Framed (play step (start [oneByte] (leftover oneByte.bytes)) [true]).1 ↔
      Meets CallFits (play step (start [oneByte] (leftover oneByte.bytes)) [true]).1 :=
  framed_iff [oneByte] (leftover oneByte.bytes) wrote_oneByte (Run.ofPlay _ _ _)

/-- The message, cut behind the first byte of its header. -/
def cutHeader : List Arrival := .piece 0 [] :: leftover (oneByte.bytes.drop 1)

/-- The message, cut before its data, which comes late. -/
def lateData : List Arrival := leftover (oneByte.bytes.take 28) ++ [.pause, .piece 7 []]

/-- A cut in the header, and a pause before the data for a call with a timeout: what has been read of the message is thrown away,
and the stream no longer stands at a message. -/
theorem not_framed_oneByte :
    (Wrote [oneByte] (bytesOf cutHeader) ∧ ∃ tr t, Run (Step.ofOption step) (start [oneByte] cutHeader) tr t ∧
      ¬Always Framed tr) ∧
    (Wrote [oneByte] (bytesOf lateData) ∧ ∃ tr t, Run (Step.ofOption step) (start [oneByte] lateData) tr t ∧
      ¬Always Framed tr) := by
  refine ⟨⟨wrote_oneByte, _, _, Run.ofPlay step _ [false], fun h => ?_⟩,
    ⟨wrote_oneByte, _, _, Run.ofPlay step _ [true], fun h => ?_⟩⟩
  · exact h _ (List.mem_singleton.2 rfl)
  · obtain ⟨-, -, hbound⟩ := h _ (List.mem_singleton.2 rfl)
    exact absurd hbound (by unfold AtBoundary; decide)

end Conn

end CodeFactory.Msg.Stream
