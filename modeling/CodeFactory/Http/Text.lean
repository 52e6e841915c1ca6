import CodeFactory.Conf.Lines
import CodeFactory.Lib.Infix

/-!
# Text as the HTTP client reads it

The string functions that `http_client.c` reads responses with. A text is the characters that were received; behind them the
buffers hold zeros. Writing behind the end of an array is undefined, and so is a number that is no `int`.
-/

namespace CodeFactory.Http

open Conf (cString isspace strchr digitsNum atoi intMax)

/-! ## Searching -/

def crlf : List Char := ['\r', '\n']

/-- `strncasecmp` over the length of `name` gives `0`. -/
def beginsWith (name text : List Char) : Bool := (name.map Char.toLower).isPrefixOf (text.map Char.toLower)

/-- `strstr` does not give `NULL`. -/
def mentions (text word : List Char) : Bool := (text.dropInfix? word).isSome

/-- `strcasestr` does not give `NULL`. -/
def mentionsNoCase (text word : List Char) : Bool := mentions (text.map Char.toLower) (word.map Char.toLower)

/-- `strstr ( buf, "\r\n\r\n" )`, as the offset of what is behind it. -/
def headerEnd (buf : List Char) : Option Nat := ((cString buf).dropInfix? (crlf ++ crlf)).map fun r => r.1.length + 4

/-- `strchr ( recvBuf, '\n' ) + 1`. -/
def nextLine (recvBuf : List Char) : Option (List Char) :=
  (strchr '\n' (cString recvBuf)).map fun r => recvBuf.drop (r.1.length + 1)

/-! ## Copying -/

/-- An array whose head has been written over with a string. -/
def fill (array text : List Char) : List Char := text ++ '\x00' :: array.drop (text.length + 1)

/-- `strncpy` of the whole of a string that is not terminated, into an array of `room` characters that holds `old`. -/
def strncpy (room : Nat) (old text : List Char) : Outcome (List Char) :=
  if text.length ≤ room then .done (text ++ old.drop text.length) else .undefined

def httpHeadLineLen : Nat := 512

/-- `get_line` into `line`. Where there is no end of the line among the first `HTTP_HEAD_LINE_LEN` characters, the zero is
written behind the array. -/
def getLine (line stream : List Char) : Outcome (List Char) :=
  let text := stream.takeWhile fun ch => ch != '\r' && ch != '\n'
  if text.length < stream.length ∧ text.length < httpHeadLineLen then .done (fill line text) else .undefined

/-! ## Numbers -/

def atoiInt (text : List Char) : Outcome Int :=
  if -intMax - 1 ≤ atoi text ∧ atoi text ≤ intMax then .done (atoi text) else .undefined

/-- `atoi` comes to an end in a text that is not terminated: behind blanks and a sign there is a character that is no digit. -/
def atoiEnds (text : List Char) : Bool :=
  match text.dropWhile isspace with
  | [] => false
  | ch :: digits => !ch.isDigit && ch != '-' && ch != '+' || digits.any fun ch => !ch.isDigit

/-- What `%s` of `sscanf` reads, and what is left. -/
def scanWord (s : List Char) : List Char × List Char := (s.dropWhile isspace).span fun ch => !isspace ch

/-- What `%d` of `sscanf` reads, of a number of any size, and what is left. -/
def scanInt (s : List Char) : Option (Int × List Char) :=
  let digits := match s.dropWhile isspace with
    | '-' :: digits => digits
    | '+' :: digits => digits
    | digits => digits
  if digits.takeWhile Char.isDigit = [] then none else some (atoi s, digits.dropWhile Char.isDigit)

def isxdigit (ch : Char) : Bool := ch.isDigit || ('a' ≤ ch.toLower && ch.toLower ≤ 'f')

/-- The value of a hexadecimal digit. -/
def hexVal (ch : Char) : Nat := if ch.isDigit then ch.toNat - 48 else ch.toLower.toNat - 87

/-- The number that hexadecimal digits make. -/
def hexNum (digits : List Char) : Nat := digits.foldl (fun n ch => 16 * n + hexVal ch) 0

/-- A `long` has 32 bits, as an `int`. -/
def toLong (n : Int) : Int := max (-intMax - 1) (min intMax n)

/-- The `0x` that may stand before hexadecimal digits. -/
def skipHexSign : List Char → List Char
  | '0' :: x :: ch :: s => if x.toLower = 'x' ∧ isxdigit ch then ch :: s else '0' :: x :: ch :: s
  | s => s

/-- `strtol` to the base 16, and the characters behind those it looks at. -/
def strtol16 (s : List Char) : Int × List Char :=
  match s.dropWhile isspace with
  | '-' :: s => (toLong (-hexNum ((skipHexSign s).takeWhile isxdigit)), (skipHexSign s).dropWhile isxdigit)
  | '+' :: s => (toLong (hexNum ((skipHexSign s).takeWhile isxdigit)), (skipHexSign s).dropWhile isxdigit)
  | s => (toLong (hexNum ((skipHexSign s).takeWhile isxdigit)), (skipHexSign s).dropWhile isxdigit)

/-! ## Lines -/

/-- A text without the ends of a line or of a string. -/
def Clean (l : List Char) : Prop := ∀ ch ∈ l, ch ≠ '\r' ∧ ch ≠ '\n' ∧ ch ≠ '\x00'

instance (l : List Char) : Decidable (Clean l) := List.decidableBAll (fun ch => ch ≠ '\r' ∧ ch ≠ '\n' ∧ ch ≠ '\x00') l

namespace Clean

variable {l : List Char} (h : Clean l)

include h

theorem notMem_cr : '\r' ∉ l := fun hm => (h _ hm).1 rfl

theorem notMem_nl : '\n' ∉ l := fun hm => (h _ hm).2.1 rfl

theorem notMem_nul : '\x00' ∉ l := fun hm => (h _ hm).2.2 rfl

theorem takeWhile_eq (x : List Char) :
    (l ++ '\r' :: x).takeWhile (fun ch => ch != '\r' && ch != '\n') = l := by
  rw [List.takeWhile_append_of_pos fun ch hch => by simp [(h ch hch).1, (h ch hch).2.1]]
  simp

theorem takeWhile_self : l.takeWhile (fun ch => ch != '\r' && ch != '\n') = l :=
  List.takeWhile_eq_self_iff.2 fun ch hch => by simp [(h ch hch).1, (h ch hch).2.1]

theorem getLine_eq (hlen : l.length < httpHeadLineLen) (line x : List Char) :
    getLine line (l ++ '\r' :: x) = .done (fill line l) := by
  unfold getLine
  rw [h.takeWhile_eq]
  exact if_pos ⟨by rw [List.length_append, List.length_cons]; omega, hlen⟩

theorem getLine_long (hlen : httpHeadLineLen ≤ l.length) (line x : List Char) : getLine line (l ++ x) = .undefined := by
  unfold getLine
  rw [List.takeWhile_append_of_pos fun ch hch => by simp [(h ch hch).1, (h ch hch).2.1]]
  refine if_neg fun hlt => ?_
  have hle := hlt.2
  rw [List.length_append] at hle
  omega

/-- A line without an end is read until the array is full. -/
theorem getLine_unfinished (line : List Char) : getLine line l = .undefined := by
  unfold getLine
  rw [h.takeWhile_self]
  exact if_neg fun hlt => absurd hlt.1 (Nat.lt_irrefl _)

theorem cString_fill (line : List Char) : cString (fill line l) = l := by
  unfold cString fill
  rw [List.takeWhile_append_of_pos fun ch hch => by simp [(h ch hch).2.2]]
  simp

/-- The next line begins behind the end of this one. -/
theorem nextLine_eq (x : List Char) : nextLine (l ++ '\r' :: '\n' :: x) = some x := by
  have hcut : cString (l ++ '\r' :: '\n' :: x) = (l ++ ['\r']) ++ '\n' :: cString x := by
    unfold cString
    rw [List.takeWhile_append_of_pos fun ch hch => by simp [(h ch hch).2.2]]
    simp
  have hnl : '\n' ∉ l ++ ['\r'] := by
    rw [List.mem_append, not_or]
    exact ⟨h.notMem_nl, by decide⟩
  unfold nextLine
  rw [hcut, Conf.strchr_append hnl, Option.map_some, List.length_append, List.length_singleton, Nat.add_assoc,
    List.drop_length_add_append]
  rfl

/-- There is no next line before the end of this one has come. -/
theorem nextLine_cr : nextLine (l ++ ['\r']) = none := by
  have hcut : cString (l ++ ['\r']) = l ++ ['\r'] := by
    refine Conf.cString_of_notMem ?_
    rw [List.mem_append, not_or]
    exact ⟨h.notMem_nul, by decide⟩
  unfold nextLine
  rw [hcut, Conf.strchr_of_notMem]
  · rfl
  · rw [List.mem_append, not_or]
    exact ⟨h.notMem_nl, by decide⟩

end Clean

/-- A line that begins with a zero is read as an empty one, or not at all. -/
theorem getLine_nul {line s array : List Char} (h : getLine line ('\x00' :: s) = .done array) : cString array = [] := by
  simp only [getLine] at h
  split at h
  · cases h
    simp [fill, cString]
  · cases h

theorem nextLine_length {recvBuf rest : List Char} (h : nextLine recvBuf = some rest) : rest.length < recvBuf.length := by
  obtain ⟨⟨before, behind⟩, hfind, rfl⟩ := Option.map_eq_some_iff.1 h
  have hpre : cString recvBuf <+: recvBuf := List.takeWhile_prefix _
  have hle := hpre.length_le
  rw [(Conf.strchr_eq_some hfind).1, List.length_append, List.length_cons] at hle
  rw [List.length_drop]
  simp only
  omega

end CodeFactory.Http
