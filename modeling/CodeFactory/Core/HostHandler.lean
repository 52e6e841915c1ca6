import Mathlib.Logic.Relation
import CodeFactory.Core.HostMessage
import CodeFactory.Lib.Outcome
import CodeFactory.Lib.Watched

/-!
# The handling of host messages

`fetch_msg_info` and `handle_msg` of `host_handler.c`, watched for what they read of the received message, for what they write of it to
their arrays and to `retBuf`, and for what they do to `rLen`, the count of the bytes that remain. The parameter tree is a parameter. Out
stay the bytes of the answers, those that tell what the tree holds, and what a command that ends the handling does to the tree: the
buffers are apart from the message, up to the error answer, whose one byte is written over a byte that was read. `size_t` has 64 bits.
-/

namespace CodeFactory.Core

def maxTcmSendMsgLen : Nat := 8192

/-- A received message: it stands in memory from address 0 on, in the buffer of the host handler's thread. -/
structure ReceivedMsg where
  mem : Bytes
  len : Nat
  fits : len ≤ maxTcmSendMsgLen

/-- What is watched: a read of so many bytes from an address on, a write of so many bytes to an array, bytes that are used as a string,
and a new value of `rLen`. -/
inductive Touch where
  | read (addr size : Nat)
  | write (room size : Nat)
  | string (bytes : List Byte)
  | count (before after : BitVec 32)
  deriving DecidableEq

/-- An `int` made a `size_t`. -/
def sizeT (v : BitVec 32) : Nat := (v.signExtend 64).toNat

/-- The parameter tree and the rest of the agent, as `handle_msg` uses them. -/
structure HostTree (σ : Type) where
  /-- What `INIT_END`, `RESET_DEFAULT` and `DIAGNOSTICS_COMPLETE` do. -/
  command : MsgType → σ → σ
  setTr069Value : σ → List Byte → ValueArg → Result × σ
  addTr069Object : σ → List Byte → Result × σ
  deleteTr069Object : σ → List Byte → Result × σ

/-- The state at the head of the loop of `handle_msg`; `retPtr` is how much of `retBuf` is in use. -/
structure Round (σ : Type) where
  tree : σ
  retPtr : Nat
  bufPtr : Nat
  rLen : BitVec 32

/-- What `fetch_msg_info` finds. -/
structure MsgInfo where
  msgType : BitVec 32
  msgName : List Byte
  msgValueType : Option (BitVec 32)
  msgValue : Option ValueArg

/-- `INIT_END` to `SET_VALUE_EX`: what `IS_MSG_REQUEST_VALID` lets through. -/
def MsgType.requests : List MsgType :=
  [initEnd, setValue, getValue, addObject, deleteObject, resetDefault, setLogMode, getLogMode, setLogLevel, getLogLevel,
    getTr069Tree, getTr069TreeSize, diagnosticsComplete, setValueEx]

/-- The request of a number. -/
def MsgType.request (v : BitVec 32) : Option MsgType := requests.find? fun t => t.code = v.toNat

/-- The end of `handle_msg` answers this result with the rest of the message. -/
def Refused (ret : Result) : Prop := ret ≠ .tcmagentOk ∧ ret ≠ .nodeNeedNotification ∧ ret ≠ .nodeNeedNotificationPassive

instance (ret : Result) : Decidable (Refused ret) := inferInstanceAs (Decidable (_ ∧ _ ∧ _))

/-- `MSG_NAME_MAX_LEN`, and `MSG_VALUE_PARAM_NAME_LEN`. -/
def msgNameMaxLen : Nat := 256
def msgValueParamNameLen : Nat := 128

namespace Machine

variable (c : Machine)

/-- The type or the length that a field begins with: its first byte, a `char` made an unsigned `int`. -/
def lengthAt (mem : Bytes) (a : Nat) : Nat := (c.widen (mem.cell a)).toNat

/-- What `get_msg_type` reads. -/
def typeTouches (s : MsgBuf) : List Touch := [.read s.buf 1, .count s.bufLen (s.bufLen - 4)]

/-- What `get_msg_name` reads: nothing when less than the length remains, the length alone when it is too long. -/
def nameTouches (s : MsgBuf) : List Touch :=
  if s.bufLen < 4 then []
  else
    let nameLen := c.widen (s.mem.cell s.buf)
    if maxTr069NameLen + 1 < nameLen.toNat then [.read s.buf 1]
    else [.read s.buf 1, .count s.bufLen (s.bufLen - (4 + nameLen)), .read (s.buf + 4) nameLen.toNat,
      .write (maxTr069NameLen + 1) nameLen.toNat, .string (s.mem.read (s.buf + 4) nameLen.toNat)]

/-- What `get_msg_value` reads: nothing when less than the type remains, the type alone when it is not valid. -/
def valueTouches (s : MsgBuf) : List Touch :=
  if s.bufLen < 4 then []
  else
    let type := c.widen (s.mem.cell s.buf)
    if ¬(1 ≤ type ∧ type ≤ 4) then [.read s.buf 1]
    else
      let left := s.bufLen - 4
      let size := if type = 4 then (s.mem.str (s.buf + 4)).chars.length + 1 else 4
      [.read s.buf 1, .count s.bufLen left, .read (s.buf + 4) size, .count left (left - BitVec.ofNat 32 size)]

/-- `get_msg_type`, watched. -/
def watchType (s : MsgBuf) : Watched Touch (BitVec 32 × MsgBuf) := do
  Watched.note (typeTouches s)
  pure (c.getMsgType s)

/-- `get_msg_name`, watched. -/
def watchName (s : MsgBuf) : Watched Touch (Except Result (List Byte × MsgBuf)) := do
  Watched.note (c.nameTouches s)
  pure (c.getMsgName s)

/-- `get_msg_value`, watched. -/
def watchValue (s : MsgBuf) : Watched Touch (Except Result (ValueArg × MsgBuf)) := do
  Watched.note (c.valueTouches s)
  pure (c.getMsgValue s)

/-- The value that `fetch_msg_info` takes from `p` on, and puts into so many bytes. -/
def fetchValue (mem : Bytes) (p room : Nat) (valueType : BitVec 32) : Watched Touch (Option ValueArg) :=
  let number := c.intOf (mem.read p 4)
  let str := mem.str p
  if valueType = 1 then do
    Watched.note [.read p 4, .write room 4]
    pure (some (.int number))
  else if valueType = 2 then do
    Watched.note [.read p 4, .write room 4]
    pure (some (.unsigned number))
  else if valueType = 3 then do
    Watched.note [.read p 4, .write room 4]
    pure (some (.bool number))
  else if valueType = 4 then do
    Watched.note [.read p (str.chars.length + 1), .write room (str.chars.length + 1)]
    pure (some (.string str))
  else pure none

/-- `fetch_msg_info`, which is always given the start of the message; `room` is the size of what it is given to put the value in, if it
is given something. A name of a negative length is a copy that has no end. -/
def fetchMsgInfo (mem : Bytes) (room : Option Nat) : Watched Touch (Option MsgInfo) := do
  let msgTotalLen := c.intOf (mem.read 0 4)
  let msgType := c.intOf (mem.read 4 4)
  let msgNameLen := c.intOf (mem.read 8 4)
  Watched.note [.read 0 4, .read 4 4, .read 8 4, .read 12 (sizeT msgNameLen), .write (msgNameMaxLen + 1) (sizeT msgNameLen + 1)]
  if msgNameLen.toInt < 0 then pure none
  else
    let p := 12 + msgNameLen.toNat
    let name := mem.read 12 msgNameLen.toNat
    if msgTotalLen.toInt ≤ p then pure (some ⟨msgType, name, none, none⟩)
    else
      Watched.note [.read p 4]
      let valueType := c.intOf (mem.read p 4)
      match room with
      | none => pure (some ⟨msgType, name, some valueType, none⟩)
      | some room =>
        let value ← c.fetchValue mem (p + 4) room valueType
        pure (some ⟨msgType, name, some valueType, value⟩)

end Machine

namespace Round

variable {σ : Type}

/-- The error answer: the rest of the message, from the command on that was refused. -/
def answerRest (s : Round σ) : Watched Touch (Option (Round σ)) := do
  Watched.note [.read s.bufPtr (sizeT s.rLen), .write (maxTcmSendMsgLen - s.retPtr) (sizeT s.rLen)]
  pure none

/-- `endret`, with what the end of `handle_msg` reads. -/
def endret (s : Round σ) (ret : Result) : Watched Touch (Option (Round σ)) := if Refused ret then s.answerRest else pure none

end Round

namespace Machine

variable (c : Machine) {σ : Type} (host : HostTree σ)

def setValue (s : Round σ) (m : MsgBuf) : Watched Touch (Option (Round σ)) := do
  match ← c.watchName m with
  | .error ret => s.endret ret
  | .ok (name, m) =>
    match ← c.watchValue m with
    | .error ret => s.endret ret
    | .ok (value, m) =>
      let (ret, tree) := host.setTr069Value s.tree name value
      if Refused ret then s.endret ret else pure (some ⟨tree, s.retPtr, m.buf, m.bufLen⟩)

/-- The answer to `ADD_OBJECT`: the type, the name with its length and its null, and the index with its type. -/
def addAnswer (name : List Byte) : Nat := 4 + (4 + ((name.takeWhile (· ≠ 0)).length + 1)) + 8

/-- `ADD_OBJECT` and `DELETE_OBJECT`, which go on only when the tree says `TCMAGENT_OK`, with an answer of so many bytes. -/
def changeObject (change : σ → List Byte → Result × σ) (answer : List Byte → Nat) (s : Round σ) (m : MsgBuf) :
    Watched Touch (Option (Round σ)) := do
  match ← c.watchName m with
  | .error ret => s.endret ret
  | .ok (name, m) =>
    let (ret, tree) := change s.tree name
    if ret ≠ .tcmagentOk then s.endret ret
    else
      Watched.note [.write (maxTcmSendMsgLen - s.retPtr) (answer name)]
      pure (some ⟨tree, s.retPtr + answer name, m.buf, m.bufLen⟩)

/-- A command that hands the message to `fetch_msg_info` and ends the handling. -/
def fetchAndEnd (mem : Bytes) (room : Option Nat) : Watched Touch (Option (Round σ)) := do
  let _ ← c.fetchMsgInfo mem room
  pure none

/-- The body of the loop of `handle_msg`: the state after the command, or none when the command ends the handling. -/
def handleCommand (mem : Bytes) (s : Round σ) : Watched Touch (Option (Round σ)) := do
  Watched.note [.read 0 4]
  let (code, m) ← c.watchType ⟨mem, s.bufPtr, s.rLen⟩
  match MsgType.request code with
  | none => s.answerRest
  | some .setValue => c.setValue host s m
  | some .addObject => c.changeObject host.addTr069Object addAnswer s m
  | some .deleteObject => c.changeObject host.deleteTr069Object (fun _ => 0) s m
  | some .setValueEx => c.fetchAndEnd mem (some (msgValueParamNameLen + 1))
  -- an `int`
  | some .setLogLevel | some .setLogMode => c.fetchAndEnd mem (some 4)
  -- `gOutputDIR`
  | some .getTr069Tree => c.fetchAndEnd mem (some 256)
  | some .getValue | some .getTr069TreeSize => c.fetchAndEnd mem none
  | some .getLogLevel | some .getLogMode => pure none
  | some type => pure (some ⟨host.command type s.tree, s.retPtr, m.buf, m.bufLen⟩)

/-- The loop of `handle_msg`. -/
def handleLoop (mem : Bytes) : Nat → Round σ → Watched Touch (Outcome Unit)
  | 0, _ => pure .outOfFuel
  | n + 1, s => do
    match ← c.handleCommand host mem s with
    | none => pure (.done ())
    | some s => if 0 < s.rLen then handleLoop mem n s else pure (.done ())

/-- `msgHeader->totalLen`. -/
def totalLen (mem : Bytes) : BitVec 32 := c.intOf (mem.read 0 4)

/-- The state before the first command. -/
def firstRound (mem : Bytes) (tree : σ) : Round σ := ⟨tree, 4, 4, c.totalLen mem⟩

/-- `handle_msg`. A message that is shorter than its header is answered through `retTotalLen`, which points nowhere yet. A round of
the loop for every byte of memory is enough. -/
def handleMsg (m : ReceivedMsg) (tree : σ) : Watched Touch (Outcome Unit) := do
  if m.len < 8 then pure .undefined
  else
    Watched.note [.read 0 4]
    if c.totalLen m.mem = 0 then pure (.done ()) else c.handleLoop host m.mem (m.mem.top + 1) (c.firstRound m.mem tree)

end Machine

/-! ## Handling that stays inside the message -/

namespace ReceivedMsg

variable (m : ReceivedMsg)

/-- So many bytes from an address on belong to the message. -/
def Inside (a size : Nat) : Prop := size = 0 ∨ a + size ≤ m.len

/-- A read inside the message, a write that the array has room for, a string that ends; a value of `rLen` that is not greater than the
one before. -/
def Allows : Touch → Prop
  | .read a size => m.Inside a size
  | .write room size => size ≤ room
  | .string bytes => 0 ∈ bytes
  | .count before after => after ≤ before

end ReceivedMsg

namespace Machine

variable (c : Machine) {σ : Type} (host : HostTree σ) (m : ReceivedMsg)

/-- The message is handled to an end, only its own bytes are read, no array is overrun, and `rLen` never increases. -/
def HandledInside (tree : σ) : Prop :=
  (c.handleMsg host m tree).result = .done () ∧ Watched.All m.Allows (c.handleMsg host m tree)

/-- A name at `a`, with so many bytes left. Less than its length is refused unread; a length that `get_msg_name` takes has to
be no more than what is left, and its name has to stand in the message, with a null in it. -/
def NameFits (a left : Nat) : Prop :=
  4 ≤ left → a < m.len ∧
    (c.lengthAt m.mem a ≤ maxTr069NameLen + 1 → 4 + c.lengthAt m.mem a ≤ left ∧ m.Inside (a + 4) (c.lengthAt m.mem a) ∧
      0 ∈ m.mem.read (a + 4) (c.lengthAt m.mem a))

/-- The bytes of a value of this type at `a`, its type left out; other types are refused. -/
def valueSize (mem : Bytes) (a type : Nat) : Option Nat :=
  if 1 ≤ type ∧ type ≤ 3 then some 4 else if type = 4 then some ((mem.str (a + 4)).chars.length + 1) else none

/-- A value at `a`, with so many bytes left. -/
def ValueFits (a left : Nat) : Prop :=
  4 ≤ left → a < m.len ∧ ∀ size ∈ valueSize m.mem a (c.lengthAt m.mem a), 4 + size ≤ left ∧ a + 4 + size ≤ m.len

/-- The message has what `fetch_msg_info` takes from it: the three numbers it starts with, a name of the length that the third
says, and a value when the first says that one follows; and the arrays have room for the name and the value. -/
def FetchFits (room : Option Nat) : Prop :=
  let nameLen := (c.intOf (m.mem.read 8 4)).toInt
  let p := (12 + nameLen).toNat
  0 ≤ nameLen ∧ 12 + nameLen ≤ m.len ∧ nameLen ≤ msgNameMaxLen ∧
    (p < (c.totalLen m.mem).toInt → p + 4 ≤ m.len ∧
      ∀ r ∈ room, ∀ size ∈ valueSize m.mem p (c.intOf (m.mem.read p 4)).toNat, p + 4 + size ≤ m.len ∧ size ≤ r)

/-- What remains at the head of the loop is not more than what was received, and `retBuf` has room for it: an error answer can be made. -/
def RestFits (s : Round σ) : Prop := s.bufPtr + s.rLen.toNat ≤ m.len ∧ s.rLen.toNat ≤ maxTcmSendMsgLen - s.retPtr

/-- The name of the object fits, `retBuf` has room for the answer, and where the command is refused the rest of the message can be
answered. -/
def ChangeFits (change : σ → List Byte → Result × σ) (answer : List Byte → Nat) (s : Round σ) (f : MsgBuf) : Prop :=
  c.NameFits m f.buf f.bufLen.toNat ∧
    match c.getMsgName f with
    | .error _ => RestFits m s
    | .ok (name, _) =>
      (Refused (change s.tree name).1 → RestFits m s) ∧
        ((change s.tree name).1 = .tcmagentOk → answer name ≤ maxTcmSendMsgLen - s.retPtr)

/-- The name and the value fit, and where the command is refused the rest of the message can be answered. -/
def SetFits (s : Round σ) (f : MsgBuf) : Prop :=
  c.NameFits m f.buf f.bufLen.toNat ∧
    match c.getMsgName f with
    | .error _ => RestFits m s
    | .ok (name, f) =>
      c.ValueFits m f.buf f.bufLen.toNat ∧
        match c.getMsgValue f with
        | .error _ => RestFits m s
        | .ok (value, _) => Refused (host.setTr069Value s.tree name value).1 → RestFits m s

/-- The command at the head of the loop lies inside the message and inside what remains, field by field, and where it is refused
the rest of the message can be answered. -/
def CommandFits (s : Round σ) : Prop :=
  s.bufPtr < m.len ∧ 4 ≤ s.rLen.toNat ∧
    match MsgType.request (c.widen (m.mem.cell s.bufPtr)) with
    | none => RestFits m s
    | some .setValue => c.SetFits host m s ⟨m.mem, s.bufPtr + 4, s.rLen - 4⟩
    | some .addObject => c.ChangeFits m host.addTr069Object addAnswer s ⟨m.mem, s.bufPtr + 4, s.rLen - 4⟩
    | some .deleteObject => c.ChangeFits m host.deleteTr069Object (fun _ => 0) s ⟨m.mem, s.bufPtr + 4, s.rLen - 4⟩
    | some .setValueEx => c.FetchFits m (some (msgValueParamNameLen + 1))
    | some .setLogLevel | some .setLogMode => c.FetchFits m (some 4)
    | some .getTr069Tree => c.FetchFits m (some 256)
    | some .getValue | some .getTr069TreeSize => c.FetchFits m none
    | some _ => True

/-- The loop goes on from one state to the next. -/
def GoesOn (mem : Bytes) (s t : Round σ) : Prop := (c.handleCommand host mem s).result = some t ∧ 0 < t.rLen

/-- The message has a header, and when the length in it is not zero every command that the loop comes to fits. -/
def MessageFits (tree : σ) : Prop :=
  8 ≤ m.len ∧ (c.totalLen m.mem ≠ 0 →
    ∀ s, Relation.ReflTransGen (c.GoesOn host m.mem) (c.firstRound m.mem tree) s → c.CommandFits host m s)

end Machine

/-! ## The fields -/

/-- Counting down does not increase exactly when there is enough to take from. -/
theorem sub_le_self_iff (a b : BitVec 32) : a - b ≤ a ↔ b.toNat ≤ a.toNat := by
  rw [BitVec.le_def, BitVec.toNat_sub]
  have ha := a.isLt
  have hb := b.isLt
  omega

theorem toNat_sizeT (v : BitVec 32) : sizeT v = v.toNat ∨ 2 ^ 31 ≤ v.toNat ∧ 2 ^ 31 ≤ sizeT v := by
  rw [sizeT, BitVec.toNat_signExtend, BitVec.toNat_setWidth, Nat.mod_eq_of_lt (by have := v.isLt; omega)]
  cases hv : v.msb with
  | false => exact .inl (by simp)
  | true =>
    have hle := BitVec.toNat_ge_of_msb_true hv
    refine .inr ⟨by simpa using hle, ?_⟩
    simp only [if_true]
    omega

namespace ReceivedMsg

variable {m : ReceivedMsg}

theorem inside_one {a : Nat} : m.Inside a 1 ↔ a < m.len := by
  unfold Inside
  omega

theorem inside_of_pos {a size : Nat} (h : 0 < size) : m.Inside a size ↔ a + size ≤ m.len := by
  unfold Inside
  omega

/-- A size that was negative as an `int` is too long for every message, as it was before. -/
theorem inside_sizeT {a : Nat} {v : BitVec 32} : m.Inside a (sizeT v) ↔ m.Inside a v.toNat := by
  have hlen : m.len ≤ 8192 := m.fits
  unfold Inside
  rcases toNat_sizeT v with h | ⟨h, h'⟩
  · rw [h]
  · omega

end ReceivedMsg

namespace Machine

variable {c : Machine} {m : ReceivedMsg}

theorem nameTouches_iff {s : MsgBuf} (hs : s.mem = m.mem) :
    (∀ e ∈ c.nameTouches s, m.Allows e) ↔ c.NameFits m s.buf s.bufLen.toNat := by
  have h4 : s.bufLen < 4 ↔ s.bufLen.toNat < 4 := BitVec.lt_def
  rw [nameTouches, NameFits, lengthAt, hs]
  generalize c.widen (m.mem.cell s.buf) = nameLen
  by_cases hleft : s.bufLen < 4
  · rw [if_pos hleft]
    have hlt := h4.1 hleft
    exact iff_of_true (by simp) fun hle => absurd hle (by omega)
  · rw [if_neg hleft]
    have hge : 4 ≤ s.bufLen.toNat := Nat.le_of_not_lt fun hlt => hleft (h4.2 hlt)
    by_cases hlong : maxTr069NameLen + 1 < nameLen.toNat
    · simp only [if_pos hlong, List.forall_mem_singleton, ReceivedMsg.Allows, ReceivedMsg.inside_one]
      exact ⟨fun h _ => ⟨h, fun hle => absurd hle (by omega)⟩, fun h => (h hge).1⟩
    · have hsum : (4 + nameLen).toNat = 4 + nameLen.toNat := by
        rw [maxTr069NameLen] at hlong
        rw [BitVec.toNat_add]
        exact Nat.mod_eq_of_lt (by change 4 + nameLen.toNat < 2 ^ 32; omega)
      simp only [if_neg hlong, List.forall_mem_cons, ReceivedMsg.Allows, ReceivedMsg.inside_one, sub_le_self_iff, hsum]
      constructor
      · rintro ⟨ha, hle, hin, -, hnull, -⟩ _
        exact ⟨ha, fun _ => ⟨hle, hin, hnull⟩⟩
      · intro h
        obtain ⟨ha, hrest⟩ := h hge
        obtain ⟨hle, hin, hnull⟩ := hrest (by omega)
        exact ⟨ha, hle, hin, by omega, hnull, by simp⟩

theorem valueTouches_iff {s : MsgBuf} (hs : s.mem = m.mem) :
    (∀ e ∈ c.valueTouches s, m.Allows e) ↔ c.ValueFits m s.buf s.bufLen.toNat := by
  have h4 : s.bufLen < 4 ↔ s.bufLen.toNat < 4 := BitVec.lt_def
  rw [valueTouches, ValueFits, lengthAt, hs]
  generalize c.widen (m.mem.cell s.buf) = type
  by_cases hleft : s.bufLen < 4
  · rw [if_pos hleft]
    have hlt := h4.1 hleft
    exact iff_of_true (by simp) fun hle => absurd hle (by omega)
  · rw [if_neg hleft]
    have hge : 4 ≤ s.bufLen.toNat := Nat.le_of_not_lt fun hlt => hleft (h4.2 hlt)
    have hsub : (s.bufLen - 4).toNat = s.bufLen.toNat - 4 := BitVec.toNat_sub_of_le (BitVec.le_def.2 hge)
    have hvalid : 1 ≤ type ∧ type ≤ 4 ↔ 1 ≤ type.toNat ∧ type.toNat ≤ 4 := by rw [BitVec.le_def, BitVec.le_def]; rfl
    have hfour : type = 4 ↔ type.toNat = 4 := by rw [← BitVec.toNat_inj]; rfl
    by_cases hok : 1 ≤ type ∧ type ≤ 4
    · have hsize : valueSize m.mem s.buf type.toNat =
          some (if type = 4 then (m.mem.str (s.buf + 4)).chars.length + 1 else 4) := by
        rw [hvalid] at hok
        by_cases h : type = 4
        · rw [if_pos h, valueSize, if_neg (by rw [hfour.1 h]; omega), if_pos (hfour.1 h)]
        · rw [if_neg h, valueSize, if_pos ⟨hok.1, by have := mt hfour.2 h; omega⟩]
      simp only [if_neg (not_not_intro hok), hsize, Option.mem_some_iff, forall_eq']
      have hpos : 0 < if type = 4 then (m.mem.str (s.buf + 4)).chars.length + 1 else 4 := by
        split
        · omega
        · decide
      generalize (if type = 4 then (m.mem.str (s.buf + 4)).chars.length + 1 else 4) = size at hpos
      have hlen : m.len ≤ 8192 := m.fits
      have hlt : s.bufLen.toNat < 2 ^ 32 := s.bufLen.isLt
      simp only [List.forall_mem_cons, ReceivedMsg.Allows, ReceivedMsg.inside_one, ReceivedMsg.inside_of_pos hpos,
        sub_le_self_iff, hsub, BitVec.toNat_ofNat]
      constructor
      · rintro ⟨ha, -, hin, hle, -⟩ _
        rw [Nat.mod_eq_of_lt (by omega)] at hle
        exact ⟨ha, by omega, hin⟩
      · intro h
        obtain ⟨ha, hle, hin⟩ := h hge
        rw [Nat.mod_eq_of_lt (by omega)]
        exact ⟨ha, hge, hin, by omega, by simp⟩
    · have hnone : valueSize m.mem s.buf type.toNat = none := by
        rw [hvalid] at hok
        rw [valueSize, if_neg (by omega), if_neg (by omega)]
      simp only [if_pos hok, List.forall_mem_singleton, ReceivedMsg.Allows, ReceivedMsg.inside_one, hnone]
      exact ⟨fun h _ => ⟨h, by simp⟩, fun h => (h hge).1⟩

theorem fetchValue_iff {p room : Nat} {valueType : BitVec 32} :
    Watched.All m.Allows (c.fetchValue m.mem (p + 4) room valueType) ↔
      ∀ size ∈ valueSize m.mem p valueType.toNat, p + 4 + size ≤ m.len ∧ size ≤ room := by
  have hnum (k : BitVec 32) (hk : 1 ≤ k.toNat ∧ k.toNat ≤ 3) :
      (∀ size ∈ valueSize m.mem p k.toNat, p + 4 + size ≤ m.len ∧ size ≤ room) ↔ p + 4 + 4 ≤ m.len ∧ 4 ≤ room := by
    rw [valueSize, if_pos hk]
    simp
  have hinside : ∀ size, 0 < size → (m.Inside (p + 4) size ↔ p + 4 + size ≤ m.len) := fun _ => ReceivedMsg.inside_of_pos
  rw [fetchValue]
  by_cases h1 : valueType = 1
  · rw [if_pos h1, h1, hnum 1 (by decide)]
    simp [ReceivedMsg.Allows, hinside]
  rw [if_neg h1]
  by_cases h2 : valueType = 2
  · rw [if_pos h2, h2, hnum 2 (by decide)]
    simp [ReceivedMsg.Allows, hinside]
  rw [if_neg h2]
  by_cases h3 : valueType = 3
  · rw [if_pos h3, h3, hnum 3 (by decide)]
    simp [ReceivedMsg.Allows, hinside]
  rw [if_neg h3]
  by_cases h4 : valueType = 4
  · rw [if_pos h4, h4, valueSize, if_neg (by decide), if_pos (by decide)]
    simp [ReceivedMsg.Allows, hinside]
  · have h1 : valueType.toNat ≠ 1 := fun h => h1 (BitVec.eq_of_toNat_eq h)
    have h2 : valueType.toNat ≠ 2 := fun h => h2 (BitVec.eq_of_toNat_eq h)
    have h3 : valueType.toNat ≠ 3 := fun h => h3 (BitVec.eq_of_toNat_eq h)
    have hne : valueType.toNat ≠ 4 := fun h => h4 (BitVec.eq_of_toNat_eq h)
    rw [if_neg h4, valueSize, if_neg (by omega), if_neg hne]
    simp

theorem fetchMsgInfo_iff {room : Option Nat} :
    Watched.All m.Allows (c.fetchMsgInfo m.mem room) ↔ c.FetchFits m room := by
  have hlen : m.len ≤ 8192 := m.fits
  rw [fetchMsgInfo, FetchFits, totalLen]
  simp only [Watched.all_bind, Watched.all_note, List.forall_mem_cons, ReceivedMsg.Allows, ReceivedMsg.inside_sizeT,
    ReceivedMsg.inside_of_pos (show 0 < 4 by decide)]
  generalize c.intOf (m.mem.read 8 4) = nameLen
  generalize c.intOf (m.mem.read 0 4) = total
  by_cases hneg : nameLen.toInt < 0
  · have hbig : 2 ^ 31 ≤ nameLen.toNat := by
      rw [BitVec.toInt_eq_toNat_cond] at hneg
      split at hneg <;> omega
    refine iff_of_false (fun h => ?_) fun h => absurd h.1 (by omega)
    have hin := (ReceivedMsg.inside_of_pos (by omega)).1 h.1.2.2.2.1
    omega
  · have hnat : nameLen.toInt = nameLen.toNat := by
      rw [BitVec.toInt_eq_toNat_cond] at hneg ⊢
      split <;> omega
    have hp : (12 + (nameLen.toNat : Int)).toNat = 12 + nameLen.toNat := by omega
    rw [if_neg hneg, hnat, hp]
    have hname : m.Inside 12 nameLen.toNat ∧ 8 + 4 ≤ m.len ↔ 12 + (nameLen.toNat : Int) ≤ m.len := by
      unfold ReceivedMsg.Inside
      omega
    have hhead : (0 + 4 ≤ m.len ∧ 4 + 4 ≤ m.len ∧ 8 + 4 ≤ m.len ∧ m.Inside 12 nameLen.toNat ∧ sizeT nameLen + 1 ≤ msgNameMaxLen + 1 ∧
        ∀ e ∈ ([] : List Touch), m.Allows e) ↔
        0 ≤ (nameLen.toNat : Int) ∧ 12 + (nameLen.toNat : Int) ≤ m.len ∧ (nameLen.toNat : Int) ≤ msgNameMaxLen := by
      have hsize : sizeT nameLen = nameLen.toNat := by
        have hsize := toNat_sizeT nameLen
        rw [BitVec.toInt_eq_toNat_cond] at hnat
        split at hnat <;> omega
      rw [← and_assoc (b := 12 + (nameLen.toNat : Int) ≤ m.len), and_comm (a := 0 ≤ (nameLen.toNat : Int)), and_assoc, ← hname, hsize]
      constructor
      · rintro ⟨-, -, h, hin, hle, -⟩
        exact ⟨⟨hin, h⟩, by omega, by omega⟩
      · rintro ⟨⟨hin, h⟩, -, hle⟩
        exact ⟨by omega, by omega, h, hin, by omega, by simp⟩
    rw [← and_assoc (a := 12 + (nameLen.toNat : Int) ≤ m.len), ← and_assoc (a := (0 : Int) ≤ nameLen.toNat), ← hhead]
    refine and_congr_right fun _ => ?_
    by_cases hend : total.toInt ≤ ((12 + nameLen.toNat : Nat) : Int)
    · rw [if_pos hend]
      exact iff_of_true (Watched.all_pure _) fun h => absurd hend (by omega)
    · rw [if_neg hend, imp_iff_right (by omega), Watched.all_bind, Watched.all_note, List.forall_mem_singleton]
      refine and_congr (ReceivedMsg.inside_of_pos (by decide)) ?_
      cases room with
      | none => exact iff_of_true (Watched.all_pure _) (by simp)
      | some room =>
        simp only [Watched.all_bind, fetchValue_iff, Option.mem_some_iff, forall_eq']
        exact and_iff_left (Watched.all_pure _)

/-! ## One command -/

theorem getMsgName_refused {s : MsgBuf} {ret : Result} (h : c.getMsgName s = .error ret) : Refused ret := by
  unfold getMsgName at h
  simp only at h
  split_ifs at h
  · cases h
    decide
  · cases h
    decide

theorem getMsgValue_refused {s : MsgBuf} {ret : Result} (h : c.getMsgValue s = .error ret) : Refused ret := by
  unfold getMsgValue at h
  simp only at h
  split_ifs at h
  · cases h
    decide
  · cases h
    decide

theorem getMsgName_mem {s t : MsgBuf} {name : List Byte} (h : c.getMsgName s = .ok (name, t)) : t.mem = s.mem := by
  unfold getMsgName at h
  simp only at h
  split_ifs at h
  cases h
  rfl

variable {σ : Type} {s : Round σ}

theorem answerRest_iff (h4 : 4 ≤ s.rLen.toNat) : Watched.All m.Allows s.answerRest ↔ RestFits m s := by
  have hsize := toNat_sizeT s.rLen
  have hmax : maxTcmSendMsgLen - s.retPtr < 2 ^ 31 := Nat.lt_of_le_of_lt (Nat.sub_le _ _) (by decide)
  have hroom : sizeT s.rLen ≤ maxTcmSendMsgLen - s.retPtr ↔ s.rLen.toNat ≤ maxTcmSendMsgLen - s.retPtr := by omega
  rw [Round.answerRest, Watched.all_bind, Watched.all_note, List.forall_mem_cons, List.forall_mem_singleton, ReceivedMsg.Allows,
    ReceivedMsg.inside_sizeT, ReceivedMsg.inside_of_pos (by omega), ReceivedMsg.Allows, hroom]
  exact and_iff_left (Watched.all_pure _)

theorem endret_iff (h4 : 4 ≤ s.rLen.toNat) (ret : Result) :
    Watched.All m.Allows (s.endret ret) ↔ (Refused ret → RestFits m s) := by
  unfold Round.endret
  by_cases h : Refused ret
  · rw [if_pos h, answerRest_iff h4, imp_iff_right h]
  · rw [if_neg h]
    exact iff_of_true (Watched.all_pure _) fun h' => absurd h' h

theorem watchName_iff {f : MsgBuf} (hf : f.mem = m.mem) :
    Watched.All m.Allows (c.watchName f) ↔ c.NameFits m f.buf f.bufLen.toNat := by
  rw [watchName, Watched.all_bind, Watched.all_note, nameTouches_iff hf]
  exact and_iff_left (Watched.all_pure _)

theorem watchValue_iff {f : MsgBuf} (hf : f.mem = m.mem) :
    Watched.All m.Allows (c.watchValue f) ↔ c.ValueFits m f.buf f.bufLen.toNat := by
  rw [watchValue, Watched.all_bind, Watched.all_note, valueTouches_iff hf]
  exact and_iff_left (Watched.all_pure _)

theorem changeObject_iff (h4 : 4 ≤ s.rLen.toNat) {f : MsgBuf} (hf : f.mem = m.mem) (change : σ → List Byte → Result × σ)
    (answer : List Byte → Nat) : Watched.All m.Allows (c.changeObject change answer s f) ↔ c.ChangeFits m change answer s f := by
  rw [changeObject, ChangeFits, Watched.all_bind, watchName_iff hf]
  refine and_congr_right fun _ => ?_
  change Watched.All m.Allows (match c.getMsgName f with | .error ret => _ | .ok (name, m) => _) ↔ _
  cases h : c.getMsgName f with
  | error ret => exact (endret_iff h4 ret).trans (imp_iff_right (getMsgName_refused h))
  | ok r =>
    obtain ⟨name, t⟩ := r
    simp only
    split_ifs with hok
    · rw [endret_iff h4, and_iff_left fun h' => absurd h' hok]
    · rw [not_not] at hok
      rw [Watched.all_bind, Watched.all_note, List.forall_mem_singleton, ReceivedMsg.Allows, imp_iff_right hok,
        and_iff_left (Watched.all_pure _)]
      exact (and_iff_right fun h' => absurd hok h'.1).symm

theorem setValue_iff (h4 : 4 ≤ s.rLen.toNat) {f : MsgBuf} (hf : f.mem = m.mem) (host : HostTree σ) :
    Watched.All m.Allows (c.setValue host s f) ↔ c.SetFits host m s f := by
  rw [setValue, SetFits, Watched.all_bind, watchName_iff hf]
  refine and_congr_right fun _ => ?_
  change Watched.All m.Allows (match c.getMsgName f with | .error ret => _ | .ok (name, m) => _) ↔ _
  cases h : c.getMsgName f with
  | error ret => exact (endret_iff h4 ret).trans (imp_iff_right (getMsgName_refused h))
  | ok r =>
    obtain ⟨name, f'⟩ := r
    simp only
    rw [Watched.all_bind, watchValue_iff ((getMsgName_mem h).trans hf)]
    refine and_congr_right fun _ => ?_
    change Watched.All m.Allows (match c.getMsgValue f' with | .error ret => _ | .ok (value, m) => _) ↔ _
    cases h' : c.getMsgValue f' with
    | error ret => exact (endret_iff h4 ret).trans (imp_iff_right (getMsgValue_refused h'))
    | ok r =>
      obtain ⟨value, t⟩ := r
      simp only
      split_ifs with hr
      · exact endret_iff h4 _
      · exact iff_of_true (Watched.all_pure _) fun h' => absurd h' hr

theorem watchType_iff {f : MsgBuf} :
    Watched.All m.Allows (c.watchType f) ↔ f.buf < m.len ∧ 4 ≤ f.bufLen.toNat := by
  rw [watchType, Watched.all_bind, Watched.all_note, typeTouches, List.forall_mem_cons, List.forall_mem_singleton,
    ReceivedMsg.Allows, ReceivedMsg.Allows, ReceivedMsg.inside_one, sub_le_self_iff]
  exact and_iff_left (Watched.all_pure _)

theorem fetchAndEnd_iff (room : Option Nat) :
    Watched.All m.Allows (c.fetchAndEnd m.mem room : Watched Touch (Option (Round σ))) ↔ c.FetchFits m room := by
  rw [fetchAndEnd, Watched.all_bind, fetchMsgInfo_iff]
  exact and_iff_left (Watched.all_pure _)

/-- A command is handled inside the message exactly when it fits. -/
theorem handleCommand_iff (h8 : 8 ≤ m.len) (host : HostTree σ) (s : Round σ) :
    Watched.All m.Allows (c.handleCommand host m.mem s) ↔ c.CommandFits host m s := by
  rw [handleCommand, Watched.all_bind, Watched.all_note, List.forall_mem_singleton, Watched.all_bind, watchType_iff, CommandFits,
    and_iff_right (show m.Allows (.read 0 4) from .inr (by omega)), and_assoc]
  refine and_congr_right fun _ => and_congr_right fun h4 => ?_
  simp only [watchType, getMsgType, Watched.result_bind, Watched.result_pure]
  cases MsgType.request (c.widen (m.mem.cell s.bufPtr)) with
  | none => exact answerRest_iff h4
  | some type =>
    cases type with
    | setValue => exact setValue_iff h4 rfl host
    | addObject => exact changeObject_iff h4 rfl host.addTr069Object addAnswer
    | deleteObject => exact changeObject_iff h4 rfl host.deleteTr069Object _
    | setValueEx | setLogLevel | setLogMode | getTr069Tree | getValue | getTr069TreeSize => exact fetchAndEnd_iff _
    | _ => exact iff_of_true (Watched.all_pure _) trivial

/-! ## The loop -/

theorem getMsgName_buf {f g : MsgBuf} {name : List Byte} (h : c.getMsgName f = .ok (name, g)) : f.buf ≤ g.buf := by
  unfold getMsgName at h
  simp only at h
  split_ifs at h
  cases h
  simp only
  omega

theorem getMsgValue_buf {f g : MsgBuf} {value : ValueArg} (h : c.getMsgValue f = .ok (value, g)) : f.buf ≤ g.buf := by
  unfold getMsgValue at h
  simp only at h
  split_ifs at h <;> cases h <;> simp only <;> omega

theorem endret_result (s : Round σ) (ret : Result) : (s.endret ret).result = none := by
  unfold Round.endret
  split_ifs <;> rfl

theorem changeObject_next {change : σ → List Byte → Result × σ} {answer : List Byte → Nat} {f : MsgBuf} {t : Round σ}
    (h : (c.changeObject change answer s f).result = some t) : f.buf ≤ t.bufPtr := by
  change Watched.result (match c.getMsgName f with | .error ret => _ | .ok (name, m) => _) = _ at h
  cases hname : c.getMsgName f with
  | error ret =>
    rw [hname] at h
    cases (endret_result s ret).symm.trans h
  | ok r =>
    obtain ⟨name, g⟩ := r
    rw [hname] at h
    simp only at h
    split_ifs at h with hok
    · cases (endret_result s _).symm.trans h
    · cases h
      exact getMsgName_buf hname

theorem setValue_next {host : HostTree σ} {f : MsgBuf} {t : Round σ} (h : (c.setValue host s f).result = some t) :
    f.buf ≤ t.bufPtr := by
  change Watched.result (match c.getMsgName f with | .error ret => _ | .ok (name, m) => _) = _ at h
  cases hname : c.getMsgName f with
  | error ret =>
    rw [hname] at h
    cases (endret_result s ret).symm.trans h
  | ok r =>
    obtain ⟨name, g⟩ := r
    rw [hname] at h
    simp only at h
    change Watched.result (match c.getMsgValue g with | .error ret => _ | .ok (value, m) => _) = _ at h
    cases hvalue : c.getMsgValue g with
    | error ret =>
      rw [hvalue] at h
      cases (endret_result s ret).symm.trans h
    | ok r =>
      obtain ⟨value, g'⟩ := r
      rw [hvalue] at h
      simp only at h
      split_ifs at h with hok
      · cases (endret_result s _).symm.trans h
      · cases h
        exact Nat.le_trans (getMsgName_buf hname) (getMsgValue_buf hvalue)

theorem request_zero : MsgType.request (c.widen 0) = none := by
  rw [widen]
  split_ifs <;> decide

/-- The loop goes on only from a byte that is not zero, and it moves on by four bytes at least. -/
theorem handleCommand_next {host : HostTree σ} {mem : Bytes} {t : Round σ} (h : (c.handleCommand host mem s).result = some t) :
    s.bufPtr < mem.top ∧ s.bufPtr + 4 ≤ t.bufPtr := by
  simp only [handleCommand, watchType, getMsgType, Watched.result_bind, Watched.result_pure] at h
  refine ⟨?_, ?_⟩
  · by_contra hge
    rw [mem.beyond s.bufPtr (by omega), request_zero] at h
    cases h
  · cases htype : MsgType.request (c.widen (mem.cell s.bufPtr)) with
    | none =>
      rw [htype] at h
      cases h
    | some type =>
      rw [htype] at h
      cases type with
      | setValue => exact setValue_next h
      | addObject | deleteObject => exact changeObject_next h
      | setValueEx | setLogLevel | setLogMode | getTr069Tree | getValue | getTr069TreeSize | getLogLevel | getLogMode => cases h
      | _ =>
        cases h
        exact Nat.le_refl _

theorem GoesOn.next {host : HostTree σ} {mem : Bytes} {t : Round σ} (h : c.GoesOn host mem s t) :
    s.bufPtr < mem.top ∧ s.bufPtr + 4 ≤ t.bufPtr := handleCommand_next h.1

/-- The loop ends when it ends from where it goes on. -/
theorem handleLoop_done_iff (host : HostTree σ) (mem : Bytes) (n : Nat) (s : Round σ) :
    (c.handleLoop host mem (n + 1) s).result = .done () ↔
      ∀ t, c.GoesOn host mem s t → (c.handleLoop host mem n t).result = .done () := by
  rw [handleLoop, Watched.result_bind]
  unfold GoesOn
  cases (c.handleCommand host mem s).result with
  | none => exact iff_of_true rfl (by simp)
  | some t =>
    simp only [Option.some.injEq, and_imp, forall_eq']
    by_cases ht : 0 < t.rLen
    · rw [if_pos ht, imp_iff_right ht]
    · rw [if_neg ht]
      exact iff_of_true rfl fun h => absurd h ht

/-- The loop stays inside the message when the command does and the loop does from where it goes on. -/
theorem handleLoop_all_iff (host : HostTree σ) (mem : Bytes) (n : Nat) (s : Round σ) :
    Watched.All m.Allows (c.handleLoop host mem (n + 1) s) ↔ Watched.All m.Allows (c.handleCommand host mem s) ∧
      ∀ t, c.GoesOn host mem s t → Watched.All m.Allows (c.handleLoop host mem n t) := by
  rw [handleLoop, Watched.all_bind]
  refine and_congr_right fun _ => ?_
  unfold GoesOn
  cases (c.handleCommand host mem s).result with
  | none => exact iff_of_true (Watched.all_pure _) (by simp)
  | some t =>
    simp only [Option.some.injEq, and_imp, forall_eq']
    by_cases ht : 0 < t.rLen
    · rw [if_pos ht, imp_iff_right ht]
    · rw [if_neg ht]
      exact iff_of_true (Watched.all_pure _) fun h => absurd h ht

/-- **The loop ends**, on any bytes: a round for every byte of memory ahead, and one more, are enough. -/
theorem handleLoop_ends (host : HostTree σ) {mem : Bytes} (n : Nat) (s : Round σ) (hn : mem.top ≤ s.bufPtr + n) :
    (c.handleLoop host mem (n + 1) s).result = .done () := by
  induction n generalizing s with
  | zero =>
    rw [handleLoop_done_iff]
    intro t ht
    have hlt := ht.next.1
    omega
  | succ n ih =>
    rw [handleLoop_done_iff]
    intro t ht
    have hnext := ht.next
    exact ih t (by omega)

/-- Every command that the loop comes to fits when the one it is at does and all it comes to afterwards do. -/
theorem reached_fits_iff (host : HostTree σ) (s : Round σ) :
    (∀ t, Relation.ReflTransGen (c.GoesOn host m.mem) s t → c.CommandFits host m t) ↔ c.CommandFits host m s ∧
      ∀ u, c.GoesOn host m.mem s u → ∀ t, Relation.ReflTransGen (c.GoesOn host m.mem) u t → c.CommandFits host m t := by
  constructor
  · exact fun h => ⟨h s .refl, fun u hu t ht => h t (.head hu ht)⟩
  · rintro ⟨hs, hnext⟩ t ht
    rcases ht.cases_head with rfl | ⟨u, hu, ht⟩
    · exact hs
    · exact hnext u hu t ht

/-- **The loop stays inside the message** exactly when every command that it comes to fits. -/
theorem handleLoop_iff (h8 : 8 ≤ m.len) (host : HostTree σ) (n : Nat) (s : Round σ) (hn : m.mem.top ≤ s.bufPtr + n) :
    Watched.All m.Allows (c.handleLoop host m.mem (n + 1) s) ↔
      ∀ t, Relation.ReflTransGen (c.GoesOn host m.mem) s t → c.CommandFits host m t := by
  induction n generalizing s with
  | zero =>
    rw [handleLoop_all_iff, handleCommand_iff h8, reached_fits_iff]
    refine and_congr_right fun _ => forall_congr' fun u => forall_congr' fun hu => ?_
    have hlt := hu.next.1
    omega
  | succ n ih =>
    rw [handleLoop_all_iff, handleCommand_iff h8, reached_fits_iff]
    refine and_congr_right fun _ => forall_congr' fun u => forall_congr' fun hu => ?_
    have hnext := hu.next
    exact ih u (by omega)

/-! ## The message -/

end Machine

/-! ## Names longer than the message -/

/-- The length in the header goes with the number of bytes received: the four bytes of the length itself are left out of it, as
`handle_msg` counts, or are part of it, as `assemble_msg` and `fetch_msg_info` count. -/
def ReceivedMsg.Consistent (c : Machine) (m : ReceivedMsg) : Prop :=
  (c.totalLen m.mem).toNat + 4 = m.len ∨ (c.totalLen m.mem).toNat = m.len

/-- These bytes, received. -/
def received (bs : List Byte) (h : bs.length ≤ maxTcmSendMsgLen) : ReceivedMsg := ⟨Bytes.zero.write 0 bs, bs.length, h⟩

/-- A machine whose `char` has no sign and whose numbers begin with their lowest byte. -/
def littleEndian : Machine := ⟨false, false⟩

/-- A tree that takes everything. -/
def anyTree : HostTree Unit where
  command _ t := t
  setTr069Value t _ _ := (.tcmagentOk, t)
  addTr069Object t _ := (.tcmagentOk, t)
  deleteTr069Object t _ := (.tcmagentOk, t)

/-- `SET_VALUE` with a name of a hundred bytes of which none was received. -/
def longSetValue : ReceivedMsg := received [8, 0, 0, 0, 2, 0, 0, 0, 100, 0, 0, 0] (by decide)

/-- `GET_VALUE` with a name of a hundred bytes of which none was received. -/
def longGetValue : ReceivedMsg := received [12, 0, 0, 0, 3, 0, 0, 0, 100, 0, 0, 0] (by decide)

/-- `SET_LOG_LEVEL` with an empty name and a string of four letters for the level, which is put into an `int`. -/
def longLogLevel : ReceivedMsg :=
  received [22, 0, 0, 0, 9, 0, 0, 0, 1, 0, 0, 0, 0, 4, 0, 0, 0, 97, 97, 97, 97, 0] (by decide)

end CodeFactory.Core
