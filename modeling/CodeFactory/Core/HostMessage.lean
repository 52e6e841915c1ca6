import Mathlib.Algebra.Ring.Nat
import Mathlib.Tactic.SplitIfs
import CodeFactory.Lib.Bytes
import CodeFactory.Result

/-!
# The fields of host messages

`put_msg_name`, `put_msg_value`, `get_msg_type`, `get_msg_name` and `get_msg_value` of `host_handler.c`. A length or a type takes
four bytes, of which the code writes and reads only the first, as a `char`: a name comes back as long as its length fits one.
`malloc` is taken to succeed.
-/

namespace CodeFactory.Core

/-- What the C implementation chooses: whether a plain `char` has a sign, and the order of the bytes of an `int`. -/
structure Machine where
  charSigned : Bool
  bigEndian : Bool

def maxTr069NameLen : Nat := 256

/-- A parameter name as the tree holds it: a string of at most `MAX_TR069_NAME_LEN` characters. -/
structure MsgName extends CStr where
  fits : chars.length ≤ maxTr069NameLen

inductive MsgType where
  | msgOk
  | initEnd | setValue | getValue | addObject | deleteObject | resetDefault | setLogMode | getLogMode | setLogLevel | getLogLevel
  | getTr069Tree | getTr069TreeSize | diagnosticsComplete | setValueEx
  | nameError | typeError | lengthError | nameLengthError | nameLengthOptionLengthError | valueError | valueTypeTypeError
  | valueTypeLengthError
  deriving DecidableEq, Repr

/-- The number of a message type. -/
def MsgType.code (t : MsgType) : Nat := t.ctorIdx

/-- A `Tr069ValueArg`: its type and the member of the union that goes with it. -/
inductive ValueArg where
  | int (v : BitVec 32)
  | unsigned (v : BitVec 32)
  | bool (v : BitVec 32)
  | string (s : CStr)
  deriving DecidableEq

/-- The number of a value type, the same in `Tr069TypeArg` and in `MsgValueType`. -/
def ValueArg.type : ValueArg → Nat
  | int _ => 1
  | unsigned _ => 2
  | bool _ => 3
  | string _ => 4

/-- The memory with `*buf` and `*bufLen`. -/
structure MsgBuf where
  mem : Bytes
  buf : Nat
  bufLen : BitVec 32

namespace Machine

variable (c : Machine)

/-- A `char` made an `int`. -/
def widen (b : Byte) : BitVec 32 := if c.charSigned then b.signExtend 32 else b.setWidth 32

/-- The bytes of an `int`. -/
def intBytes (v : BitVec 32) : List Byte :=
  let bs := [BitVec.ofNat 8 v.toNat, BitVec.ofNat 8 (v.toNat / 2 ^ 8), BitVec.ofNat 8 (v.toNat / 2 ^ 16),
    BitVec.ofNat 8 (v.toNat / 2 ^ 24)]
  if c.bigEndian then bs.reverse else bs

/-- The `int` made of four bytes. -/
def intOf (bs : List Byte) : BitVec 32 :=
  BitVec.ofNat 32 ((if c.bigEndian then bs.reverse else bs).foldr (fun b n => b.toNat + 2 ^ 8 * n) 0)

/-- `put_msg_name` with the name's length and its terminating null. -/
def putMsgName (s : MsgBuf) (name : List Byte) (nameLen : BitVec 32) : MsgBuf where
  mem := (s.mem.store s.buf (nameLen.setWidth 8)).write (s.buf + 4) (name.take nameLen.toNat)
  buf := s.buf + 4 + nameLen.toNat
  bufLen := s.bufLen + (4 + nameLen)

def putMsgValue (s : MsgBuf) (value : ValueArg) : MsgBuf :=
  let s : MsgBuf := ⟨s.mem.store s.buf (BitVec.ofNat 8 value.type), s.buf + 4, s.bufLen + 4⟩
  match value with
  | .int v | .unsigned v | .bool v => ⟨s.mem.write s.buf (c.intBytes v), s.buf + 4, s.bufLen + 4⟩
  | .string str =>
    ⟨s.mem.write s.buf str.bytes, s.buf + (str.chars.length + 1), s.bufLen + BitVec.ofNat 32 (str.chars.length + 1)⟩

/-- The type of a message or of an answer, as the callers write it. -/
def putMsgType (s : MsgBuf) (type : MsgType) : MsgBuf where
  mem := s.mem.store s.buf (BitVec.ofNat 8 type.code)
  buf := s.buf + 4
  bufLen := s.bufLen + 4

def getMsgType (s : MsgBuf) : BitVec 32 × MsgBuf :=
  (c.widen (s.mem.cell s.buf), ⟨s.mem, s.buf + 4, s.bufLen - 4⟩)

def getMsgName (s : MsgBuf) : Except Result (List Byte × MsgBuf) :=
  if s.bufLen < 4 then .error .msgNameLengthOptionLengthError
  else
    let nameLen := c.widen (s.mem.cell s.buf)
    if maxTr069NameLen + 1 < nameLen.toNat then .error .msgNameLengthError
    else .ok (s.mem.read (s.buf + 4) nameLen.toNat, ⟨s.mem, s.buf + 4 + nameLen.toNat, s.bufLen - (4 + nameLen)⟩)

def getMsgValue (s : MsgBuf) : Except Result (ValueArg × MsgBuf) :=
  if s.bufLen < 4 then .error .msgValueTypeLengthError
  else
    let type := c.widen (s.mem.cell s.buf)
    -- IS_MSG_VALUE_TYPE_VALID
    if ¬(1 ≤ type ∧ type ≤ 4) then .error .msgValueTypeError
    else
      let s : MsgBuf := ⟨s.mem, s.buf + 4, s.bufLen - 4⟩
      let number := c.intOf (s.mem.read s.buf 4)
      let behind : MsgBuf := ⟨s.mem, s.buf + 4, s.bufLen - 4⟩
      if type = 1 then .ok (.int number, behind)
      else if type = 2 then .ok (.unsigned number, behind)
      else if type = 3 then .ok (.bool number, behind)
      else
        let str := s.mem.str s.buf
        .ok (.string str, ⟨s.mem, s.buf + (str.chars.length + 1), s.bufLen - BitVec.ofNat 32 (str.chars.length + 1)⟩)

end Machine

/-! ## Messages -/

/-- A field of a message. -/
inductive Field where
  | type (t : MsgType)
  | name (n : MsgName)
  | value (v : ValueArg)

/-- What reading a field gives. -/
inductive Item where
  | type (code : BitVec 32)
  | name (bytes : List Byte)
  | value (v : ValueArg)
  deriving DecidableEq

/-- Which of the three functions reads a field. -/
inductive Field.Kind where
  | type | name | value

def Field.kind : Field → Field.Kind
  | type _ => .type
  | name _ => .name
  | value _ => .value

/-- What reading a field has to give. -/
def Field.item : Field → Item
  | type t => .type (BitVec.ofNat 32 t.code)
  | name n => .name n.bytes
  | value v => .value v

/-- The bytes a field takes. -/
def Field.size : Field → Nat
  | type _ => 4
  | name n => 4 + (n.chars.length + 1)
  | value (.string s) => 4 + (s.chars.length + 1)
  | value _ => 8

namespace Machine

variable (c : Machine)

/-- Write one field. -/
def put (s : MsgBuf) : Field → MsgBuf
  | .type t => putMsgType s t
  | .name n => putMsgName s n.bytes (BitVec.ofNat 32 (n.chars.length + 1))
  | .value v => c.putMsgValue s v

/-- Write one field after another, with where each ends. -/
def putAll (s : MsgBuf) : List Field → MsgBuf × List (Item × Nat)
  | [] => (s, [])
  | f :: fs => ((putAll (c.put s f) fs).1, (f.item, (c.put s f).buf) :: (putAll (c.put s f) fs).2)

/-- Read one field. -/
def get (s : MsgBuf) : Field.Kind → Except Result (Item × MsgBuf)
  | .type => .ok (.type (c.getMsgType s).1, (c.getMsgType s).2)
  | .name => (c.getMsgName s).map fun r => (.name r.1, r.2)
  | .value => (c.getMsgValue s).map fun r => (.value r.1, r.2)

/-- Read one field after another, with where each ends. -/
def getAll (s : MsgBuf) : List Field.Kind → Except Result (List (Item × Nat))
  | [] => .ok []
  | k :: ks =>
    match c.get s k with
    | .error e => .error e
    | .ok (item, s') => (getAll s' ks).map fun items => (item, s'.buf) :: items

/-- The fields are written to the address `buf` and read from there, the reader given the length the writer counted: every
field comes back, and every read ends where the write ended. -/
def RoundTrip (mem : Bytes) (buf : Nat) (fs : List Field) : Prop :=
  let (s, items) := c.putAll ⟨mem, buf, 0⟩ fs
  c.getAll { s with buf := buf } (fs.map Field.kind) = .ok items

/-- The longest a name can be, with its terminating null, for its length to fit a `char`. -/
def charMax : Nat := if c.charSigned then 127 else 255

end Machine

/-- The bytes a message takes. -/
def sizeAll (fs : List Field) : Nat := (fs.map Field.size).sum

/-- At every name and value of a message the rest of it, counted with 32 bits, is at least the four bytes that `get_msg_name`
and `get_msg_value` ask for. -/
def Counted : List Field → Prop
  | [] => True
  | f :: fs => (f.kind = .type ∨ 4 ≤ sizeAll (f :: fs) % 2 ^ 32) ∧ Counted fs

/-! ## What a written field looks like -/

/-- What is written behind the type of a value. -/
def ValueArg.payload (c : Machine) : ValueArg → List Byte
  | int v | unsigned v | bool v => c.intBytes v
  | string s => s.bytes

/-- The first byte of a field. -/
def Field.tag : Field → Byte
  | type t => BitVec.ofNat 8 t.code
  | name n => BitVec.ofNat 8 (n.chars.length + 1)
  | value v => BitVec.ofNat 8 v.type

/-- What is written behind the first four bytes of a field. -/
def Field.payload (c : Machine) : Field → List Byte
  | type _ => []
  | name n => n.bytes
  | value v => v.payload c

/-- The length of a name fits a `char`; nothing is asked of the other fields. -/
def Field.Short (c : Machine) : Field → Prop
  | name n => n.chars.length + 1 ≤ c.charMax
  | _ => True

/-- A field stands in memory at an address. -/
def Field.At (c : Machine) (f : Field) (mem : Bytes) (a : Nat) : Prop :=
  mem.cell a = f.tag ∧ mem.Holds (a + 4) (f.payload c)

namespace Machine

variable {c : Machine}

theorem length_intBytes (v : BitVec 32) : (c.intBytes v).length = 4 := by
  unfold intBytes
  cases c.bigEndian <;> rfl

theorem intOf_intBytes (v : BitVec 32) : c.intOf (c.intBytes v) = v := by
  have hfold : [BitVec.ofNat 8 v.toNat, BitVec.ofNat 8 (v.toNat / 2 ^ 8), BitVec.ofNat 8 (v.toNat / 2 ^ 16),
      BitVec.ofNat 8 (v.toNat / 2 ^ 24)].foldr (fun b n => b.toNat + 2 ^ 8 * n) 0 = v.toNat := by
    have hv := v.isLt
    simp only [List.foldr_cons, List.foldr_nil, BitVec.toNat_ofNat]
    omega
  unfold intOf intBytes
  cases c.bigEndian
  · simp only [Bool.false_eq_true, if_false]
    rw [hfold, BitVec.ofNat_toNat, BitVec.setWidth_eq]
  · simp only [if_true, List.reverse_reverse]
    rw [hfold, BitVec.ofNat_toNat, BitVec.setWidth_eq]

/-- A length read back as a `char` is the length that was written when it fits one, and only then. -/
theorem widen_iff {n : Nat} (hn : n ≤ maxTr069NameLen + 1) :
    (c.widen (BitVec.ofNat 8 n)).toNat = n ↔ n ≤ c.charMax := by
  unfold widen charMax maxTr069NameLen at *
  cases c.charSigned
  · simp only [Bool.false_eq_true, if_false, BitVec.toNat_setWidth, BitVec.toNat_ofNat]
    omega
  · simp only [if_true, BitVec.toNat_signExtend, BitVec.msb_eq_decide, BitVec.toNat_setWidth, BitVec.toNat_ofNat]
    split_ifs <;> simp_all <;> omega

theorem size_eq (f : Field) : f.size = 4 + (f.payload c).length := by
  cases f with
  | type t => rfl
  | name n => simp [Field.size, Field.payload, CStr.bytes]
  | value v => cases v <;> simp [Field.size, Field.payload, ValueArg.payload, CStr.bytes, length_intBytes]

/-- Every writer puts the first byte, leaves three as they are, and puts the rest of the field behind them. -/
theorem put_eq (s : MsgBuf) (f : Field) :
    c.put s f = ⟨(s.mem.store s.buf f.tag).write (s.buf + 4) (f.payload c), s.buf + f.size,
      s.bufLen + BitVec.ofNat 32 f.size⟩ := by
  cases f with
  | type t => rfl
  | name n =>
    have hfits := n.fits
    unfold maxTr069NameLen at hfits
    have hlen : (BitVec.ofNat 32 (n.chars.length + 1)).toNat = n.chars.length + 1 := by
      rw [BitVec.toNat_ofNat]
      omega
    have htag : (BitVec.ofNat 32 (n.chars.length + 1)).setWidth 8 = BitVec.ofNat 8 (n.chars.length + 1) := by
      apply BitVec.eq_of_toNat_eq
      simp only [BitVec.toNat_setWidth, BitVec.toNat_ofNat]
      omega
    have htake : n.bytes.take (n.chars.length + 1) = n.bytes := by
      rw [CStr.bytes, List.take_of_length_le (by simp)]
    simp only [put, putMsgName, Field.tag, Field.payload, Field.size]
    generalize n.chars.length + 1 = k at *
    rw [hlen, htag, htake, BitVec.ofNat_add, Nat.add_assoc]
    rfl
  | value v =>
    cases v <;> simp only [put, putMsgValue, Field.tag, Field.payload, ValueArg.payload, Field.size, BitVec.ofNat_add,
      Nat.add_assoc, BitVec.add_assoc] <;> rfl

theorem put_at (s : MsgBuf) (f : Field) : f.At c (c.put s f).mem s.buf := by
  rw [put_eq]
  refine ⟨?_, Bytes.write_holds ..⟩
  rw [Bytes.write_cell_of_lt _ _ (by omega), Bytes.store_cell_self]

theorem put_cell_of_lt (s : MsgBuf) (f : Field) {x : Nat} (hx : x < s.buf) : (c.put s f).mem.cell x = s.mem.cell x := by
  rw [put_eq]
  dsimp only
  rw [Bytes.write_cell_of_lt _ _ (by omega), Bytes.store_cell_of_ne _ _ (by omega)]

theorem putAll_cons (s : MsgBuf) (f : Field) (fs : List Field) : c.putAll s (f :: fs) =
    ((c.putAll (c.put s f) fs).1, (f.item, (c.put s f).buf) :: (c.putAll (c.put s f) fs).2) := rfl

theorem putAll_cell_of_lt (fs : List Field) (s : MsgBuf) {x : Nat} (hx : x < s.buf) :
    (c.putAll s fs).1.mem.cell x = s.mem.cell x := by
  induction fs generalizing s with
  | nil => rfl
  | cons f fs ih =>
    have hbuf : (c.put s f).buf = s.buf + f.size := by rw [put_eq]
    rw [putAll_cons, ih _ (by omega), put_cell_of_lt _ _ hx]

/-- A field stands where it was written when the whole message is written. -/
theorem putAll_at (s : MsgBuf) (f : Field) (fs : List Field) : f.At c (c.putAll s (f :: fs)).1.mem s.buf := by
  have hbuf : (c.put s f).buf = s.buf + (4 + (f.payload c).length) := by rw [put_eq, ← size_eq]
  obtain ⟨htag, hrest⟩ := put_at (c := c) s f
  refine ⟨?_, hrest.congr fun x hx => ?_⟩
  · rw [putAll_cons, putAll_cell_of_lt _ _ (by omega), htag]
  · rw [putAll_cons, putAll_cell_of_lt _ _ (by omega)]

theorem putAll_bufLen (s : MsgBuf) (fs : List Field) :
    (c.putAll s fs).1.bufLen = s.bufLen + BitVec.ofNat 32 (sizeAll fs) := by
  induction fs generalizing s with
  | nil => exact (BitVec.add_zero s.bufLen).symm
  | cons f fs ih =>
    have hsize : sizeAll (f :: fs) = f.size + sizeAll fs := by simp [sizeAll]
    rw [putAll_cons, ih, put_eq, hsize, BitVec.ofNat_add, BitVec.add_assoc]

/-! ## Reading a written field -/

/-- What is asked of the length that is left when a field is read. -/
def LeftFor (f : Field) (bufLen : BitVec 32) : Prop := f.kind = .type ∨ 4 ≤ bufLen

theorem getMsgType_at {s : MsgBuf} {t : MsgType} (h : (Field.type t).At c s.mem s.buf) :
    c.get s .type = .ok (.type (BitVec.ofNat 32 t.code), ⟨s.mem, s.buf + 4, s.bufLen - 4⟩) := by
  have hcode : t.code ≤ 22 := by cases t <;> decide
  have hwiden : c.widen (BitVec.ofNat 8 t.code) = BitVec.ofNat 32 t.code := by
    apply BitVec.eq_of_toNat_eq
    rw [(widen_iff (c := c) (n := t.code) (by unfold maxTr069NameLen; omega)).2 (by unfold charMax; split <;> omega),
      BitVec.toNat_ofNat, Nat.mod_eq_of_lt (by omega)]
  rw [get, getMsgType, h.1, Field.tag, hwiden]

/-- A name whose length fits a `char` is read. -/
theorem getMsgName_at {s : MsgBuf} {n : MsgName} (h : (Field.name n).At c s.mem s.buf) (hleft : 4 ≤ s.bufLen)
    (hshort : (Field.name n).Short c) :
    c.get s .name = .ok (.name n.bytes, ⟨s.mem, s.buf + (Field.name n).size,
      s.bufLen - BitVec.ofNat 32 (Field.name n).size⟩) := by
  have hfits := n.fits
  unfold maxTr069NameLen at hfits
  have hlen : (c.widen (BitVec.ofNat 8 (n.chars.length + 1))).toNat = n.chars.length + 1 :=
    (widen_iff (by unfold maxTr069NameLen; omega)).2 hshort
  have hnat : c.widen (BitVec.ofNat 8 (n.chars.length + 1)) = BitVec.ofNat 32 (n.chars.length + 1) := by
    apply BitVec.eq_of_toNat_eq
    rw [hlen, BitVec.toNat_ofNat]
    omega
  have hread : s.mem.read (s.buf + 4) (n.chars.length + 1) = n.bytes := by
    have := h.2
    simpa [Field.payload, Bytes.Holds, CStr.bytes] using this
  have hlt : ¬s.bufLen < 4 := by bv_omega
  have hmax : ¬maxTr069NameLen + 1 < n.chars.length + 1 := by unfold maxTr069NameLen; omega
  rw [get, getMsgName, if_neg hlt, h.1, Field.tag]
  simp only [Field.size]
  generalize n.chars.length + 1 = k at *
  simp only [hlen]
  rw [if_neg hmax, hread, hnat, BitVec.ofNat_add, Nat.add_assoc]
  rfl

/-- A name whose length does not fit a `char` is refused or read to another end. -/
theorem getMsgName_at_long {s s' : MsgBuf} {n : MsgName} {item : Item} (h : (Field.name n).At c s.mem s.buf)
    (hget : c.get s .name = .ok (item, s')) (hbuf : s'.buf = s.buf + (Field.name n).size) :
    4 ≤ s.bufLen ∧ (Field.name n).Short c := by
  have hfits := n.fits
  unfold maxTr069NameLen at hfits
  rw [get, getMsgName] at hget
  by_cases hlt : s.bufLen < 4
  · rw [if_pos hlt] at hget
    cases hget
  rw [if_neg hlt, h.1, Field.tag] at hget
  dsimp only at hget
  split_ifs at hget
  · cases hget
  · cases hget
    refine ⟨by bv_omega, (widen_iff (by unfold maxTr069NameLen; omega)).1 ?_⟩
    simp only [Field.size] at hbuf
    omega

theorem getMsgValue_at {s : MsgBuf} {v : ValueArg} (h : (Field.value v).At c s.mem s.buf) (hleft : 4 ≤ s.bufLen) :
    c.get s .value = .ok (.value v, ⟨s.mem, s.buf + (Field.value v).size, s.bufLen - BitVec.ofNat 32 (Field.value v).size⟩) := by
  have hlt : ¬s.bufLen < 4 := by bv_omega
  have hwiden : c.widen (BitVec.ofNat 8 v.type) = BitVec.ofNat 32 v.type := by
    apply BitVec.eq_of_toNat_eq
    have htype : v.type ≤ 4 := by cases v <;> simp [ValueArg.type]
    rw [(widen_iff (c := c) (n := v.type) (by unfold maxTr069NameLen; omega)).2 (by unfold charMax; split <;> omega),
      BitVec.toNat_ofNat, Nat.mod_eq_of_lt (by omega)]
  have hsub : ∀ x y : BitVec 32, s.bufLen - x - y = s.bufLen - (x + y) := fun x y => by bv_omega
  rw [get, getMsgValue, if_neg hlt, h.1, Field.tag]
  simp only [hwiden]
  have hpayload := h.2
  cases v with
  | string str =>
    have hstr : s.mem.str (s.buf + 4) = str := Bytes.str_of_holds hpayload
    simp [ValueArg.type, Except.map, hstr, Field.size, Nat.add_assoc, BitVec.ofNat_add, hsub]
  | _ v =>
    have hread : s.mem.read (s.buf + 4) 4 = c.intBytes v := by
      have := hpayload
      simpa [Field.payload, ValueArg.payload, Bytes.Holds, length_intBytes] using this
    simp [ValueArg.type, Except.map, hread, intOf_intBytes, Field.size, Nat.add_assoc, hsub]

/-- Reading a written field gives it back and ends where it ends, when its length fits and enough is left. -/
theorem get_at {s : MsgBuf} {f : Field} (h : f.At c s.mem s.buf) (hshort : f.Short c) (hleft : LeftFor f s.bufLen) :
    c.get s f.kind = .ok (f.item, ⟨s.mem, s.buf + f.size, s.bufLen - BitVec.ofNat 32 f.size⟩) := by
  cases f with
  | type t => exact getMsgType_at h
  | name n => exact getMsgName_at h (hleft.resolve_left nofun) hshort
  | value v => exact getMsgValue_at h (hleft.resolve_left nofun)

/-- Reading a written field ends where it ends only when its length fits and enough is left. -/
theorem short_of_get_at {s s' : MsgBuf} {f : Field} {item : Item} (h : f.At c s.mem s.buf)
    (hget : c.get s f.kind = .ok (item, s')) (hbuf : s'.buf = s.buf + f.size) : f.Short c ∧ LeftFor f s.bufLen := by
  cases f with
  | type t => exact ⟨trivial, Or.inl rfl⟩
  | name n =>
    obtain ⟨hleft, hshort⟩ := getMsgName_at_long h hget hbuf
    exact ⟨hshort, Or.inr hleft⟩
  | value v =>
    refine ⟨trivial, Or.inr ?_⟩
    by_contra hlt
    rw [Field.kind, get, getMsgValue, if_pos (by bv_omega)] at hget
    cases hget

/-! ## Reading a written message -/

theorem map_cons_eq_ok {x : Except Result (List (Item × Nat))} {a b : Item × Nat} {l : List (Item × Nat)} :
    x.map (fun items => a :: items) = .ok (b :: l) ↔ a = b ∧ x = .ok l := by
  cases x <;> simp [Except.map]

/-- The reader, from the start of what was written. -/
theorem getAll_putAll_iff (s : MsgBuf) (fs : List Field) (bufLen : BitVec 32) (hlen : bufLen = BitVec.ofNat 32 (sizeAll fs)) :
    c.getAll ⟨(c.putAll s fs).1.mem, s.buf, bufLen⟩ (fs.map Field.kind) = .ok (c.putAll s fs).2 ↔
      (∀ f ∈ fs, f.Short c) ∧ Counted fs := by
  induction fs generalizing s bufLen with
  | nil => simp [putAll, getAll, Counted]
  | cons f fs ih =>
    have hat := putAll_at (c := c) s f fs
    have hbuf : (c.put s f).buf = s.buf + f.size := by rw [put_eq]
    have hsize : sizeAll (f :: fs) = f.size + sizeAll fs := by simp [sizeAll]
    have hleft : LeftFor f bufLen ↔ (f.kind = .type ∨ 4 ≤ sizeAll (f :: fs) % 2 ^ 32) := by
      unfold LeftFor
      rw [hlen, BitVec.le_def, BitVec.toNat_ofNat]
      rfl
    have hrest : bufLen - BitVec.ofNat 32 f.size = BitVec.ofNat 32 (sizeAll fs) := by
      rw [hlen, hsize, BitVec.ofNat_add]
      bv_omega
    have hih := ih (c.put s f) _ hrest
    rw [hbuf] at hih
    rw [List.forall_mem_cons, Counted, ← hleft, and_and_and_comm, ← hih, List.map_cons, getAll]
    constructor
    · intro h
      have hend : f.Short c ∧ LeftFor f bufLen := by
        cases hget : c.get ⟨(c.putAll s (f :: fs)).1.mem, s.buf, bufLen⟩ f.kind with
        | error e => rw [hget] at h; cases h
        | ok r =>
          rw [hget] at h
          have hfirst := (map_cons_eq_ok.1 h).1
          exact short_of_get_at hat hget ((Prod.mk.inj hfirst).2.trans hbuf)
      rw [get_at hat hend.1 hend.2] at h
      exact ⟨hend, (map_cons_eq_ok.1 h).2⟩
    · rintro ⟨⟨hshort, hl⟩, hall⟩
      rw [get_at hat hshort hl]
      exact map_cons_eq_ok.2 ⟨Prod.ext rfl hbuf.symm, hall⟩

end Machine

/-- A message comes back exactly if the length of each of its names, the terminating null counted, fits a `char`, and the rest
of it is counted as at least four bytes at each name and value. -/
theorem host_message_round_trip_iff (c : Machine) (mem : Bytes) (buf : Nat) (fs : List Field) :
    c.RoundTrip mem buf fs ↔ (∀ n, Field.name n ∈ fs → n.chars.length + 1 ≤ c.charMax) ∧ Counted fs := by
  have hshort : (∀ f ∈ fs, f.Short c) ↔ ∀ n, Field.name n ∈ fs → n.chars.length + 1 ≤ c.charMax := by
    constructor
    · exact fun h n hn => h _ hn
    · intro h f hf
      cases f with
      | name n => exact h n hf
      | _ => trivial
  rw [← hshort, ← Machine.getAll_putAll_iff ⟨mem, buf, 0⟩ fs _ rfl]
  have hlen : (c.putAll ⟨mem, buf, 0⟩ fs).1.bufLen = BitVec.ofNat 32 (sizeAll fs) := by
    rw [Machine.putAll_bufLen]
    exact BitVec.zero_add _
  unfold Machine.RoundTrip
  rw [← hlen]

/-- A name of 127 characters, whose length with the null does not fit a signed `char`. -/
def longName : MsgName where
  chars := List.replicate 127 97
  noNul := by simp
  fits := by simp [maxTr069NameLen]

/-- With a signed `char` the name of 127 characters and its value do not come back. -/
theorem host_message_not_round_trip :
    ¬∀ (c : Machine) (mem : Bytes) (buf : Nat) (pairs : List (MsgName × ValueArg)),
      c.RoundTrip mem buf (pairs.flatMap fun p => [.name p.1, .value p.2]) := by
  intro h
  have hlong := h ⟨true, false⟩ Bytes.zero 0 [(longName, .bool 1)]
  exact absurd hlong (by unfold Machine.RoundTrip; decide +kernel)

end CodeFactory.Core
