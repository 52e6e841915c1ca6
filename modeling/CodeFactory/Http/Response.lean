import CodeFactory.Http.Client

/-!
# Responses on the wire

A response as a server writes it: a status line, header lines, an empty line and a body, of which a `Content-Length` line gives
the length or which is sent in chunks. The second part says what `parse_http_header` makes of such a text, or of the head of one.
-/

namespace CodeFactory.Http

open Conf (cString isspace digitsNum intMax)

/-! ## Lines -/

/-- A line of a header. -/
structure Line where
  text : List Char
  nonempty : text ≠ []
  clean : Clean text
  deriving DecidableEq

/-- The lines of a header, each with its end. -/
def linesText (ls : List Line) : List Char := ls.flatMap fun l => l.text ++ crlf

/-- A status line: the version with its two digits, the code and the reason. -/
structure StatusLine where
  major : Char
  minor : Char
  code : Nat
  reason : List Char
  majorDigit : major.isDigit = true
  minorDigit : minor.isDigit = true
  clean : Clean reason
  deriving DecidableEq

/-- What stands in a status line. -/
def StatusLine.text (s : StatusLine) : List Char :=
  ['H', 'T', 'T', 'P', '/', s.major, '.', s.minor] ++ ' ' :: (Nat.toDigits 10 s.code ++ ' ' :: s.reason)

/-- The first word of the reason, which `title` is for. -/
def StatusLine.title (s : StatusLine) : List Char := (scanWord s.reason).1

/-- The status line is read without running over more than the machine lets it. -/
def StatusLine.Fits (m : Machine) (s : StatusLine) : Prop :=
  s.text.length < httpHeadLineLen ∧ s.code ≤ intMax ∧ 8 < m.protocolRoom ∧ s.title ≠ [] ∧ s.title.length < m.titleRoom

instance (m : Machine) (s : StatusLine) : Decidable (s.Fits m) := inferInstanceAs (Decidable (_ ∧ _))

/-- A line that is not about how the body is delimited. -/
def Plain (l : Line) : Prop :=
  beginsWith "Content-Length:".toList l.text = false ∧ beginsWith "Transfer-Encoding:".toList l.text = false

instance (l : Line) : Decidable (Plain l) := inferInstanceAs (Decidable (_ ∧ _))

/-! ## Bodies -/

/-- Blanks in a header line. -/
def Blank (s : List Char) : Prop := ∀ ch ∈ s, ch = ' ' ∨ ch = '\t'

instance (s : List Char) : Decidable (Blank s) := List.decidableBAll (fun ch => ch = ' ' ∨ ch = '\t') s

/-- A body whose length is given: the parts of the `Content-Length` line, and the body. -/
structure Counted where
  name : List Char
  before : List Char
  digits : List Char
  behind : List Char
  body : List Char
  name_eq : name.map Char.toLower = "content-length:".toList
  before_blank : Blank before
  digits_digit : ∀ ch ∈ digits, ch.isDigit = true
  digits_ne : digits ≠ []
  behind_blank : Blank behind
  length_eq : digitsNum digits = body.length

/-- The line of the size of a chunk: its hexadecimal digits and what may stand behind them. -/
structure SizeLine where
  digits : List Char
  extension : List Char
  digits_hex : ∀ ch ∈ digits, isxdigit ch = true
  digits_ne : digits ≠ []
  extension_head : ∀ ch ∈ extension.head?, ch = ';' ∨ ch = ' ' ∨ ch = '\t'
  clean : Clean extension

/-- What stands in the line of a size. -/
def SizeLine.text (s : SizeLine) : List Char := s.digits ++ s.extension

structure Chunk where
  size : SizeLine
  data : List Char
  data_ne : data ≠ []
  size_eq : hexNum size.digits = data.length

/-- A body in chunks: the parts of the `Transfer-Encoding` line, the chunks, the line of the last size and the lines behind it. -/
structure Chunked where
  name : List Char
  before : List Char
  coding : List Char
  behind : List Char
  chunks : List Chunk
  last : SizeLine
  trailers : List Line
  name_eq : name.map Char.toLower = "transfer-encoding:".toList
  before_blank : Blank before
  coding_eq : coding.map Char.toLower = "chunked".toList
  behind_blank : Blank behind
  last_eq : hexNum last.digits = 0

/-- How the body of a response is delimited. -/
inductive Framing where
  | counted (c : Counted)
  | chunked (c : Chunked)

namespace Chunked

/-- The chunks on the wire. -/
def chunksText (cs : List Chunk) : List Char := cs.flatMap fun c => c.size.text ++ crlf ++ c.data ++ crlf

/-- The chunks and the line of the last size on the wire. -/
def toLast (c : Chunked) : List Char := chunksText c.chunks ++ c.last.text ++ crlf

/-- The body on the wire. -/
def wire (c : Chunked) : List Char := c.toLast ++ linesText c.trailers ++ crlf

def body (c : Chunked) : List Char := c.chunks.flatMap (·.data)

end Chunked

/-- The body that is delimited. -/
def Framing.body : Framing → List Char
  | counted c => c.body
  | chunked c => c.body

/-- The body on the wire. -/
def Framing.wire : Framing → List Char
  | counted c => c.body
  | chunked c => c.wire

/-- What stands in the line that delimits the body. -/
def Framing.text : Framing → List Char
  | counted c => c.name ++ c.before ++ c.digits ++ c.behind
  | chunked c => c.name ++ c.before ++ c.coding ++ c.behind

/-! ## Responses -/

theorem Clean.append {l l' : List Char} (h : Clean l) (h' : Clean l') : Clean (l ++ l') := fun ch hch =>
  (List.mem_append.1 hch).elim (h ch) (h' ch)

theorem Clean.cons {ch : Char} {l : List Char} (hch : ch ≠ '\r' ∧ ch ≠ '\n' ∧ ch ≠ '\x00') (h : Clean l) : Clean (ch :: l) :=
  fun x hx => (List.mem_cons.1 hx).elim (fun he => he ▸ hch) (h x)

theorem Clean.of_isDigit {l : List Char} (h : ∀ ch ∈ l, ch.isDigit = true) : Clean l := by
  refine fun ch hch => ⟨?_, ?_, ?_⟩
  all_goals
    rintro rfl
    exact absurd (h _ hch) (by decide)

theorem Clean.of_isxdigit {l : List Char} (h : ∀ ch ∈ l, isxdigit ch = true) : Clean l := by
  refine fun ch hch => ⟨?_, ?_, ?_⟩
  all_goals
    rintro rfl
    exact absurd (h _ hch) (by decide)

theorem Blank.clean {l : List Char} (h : Blank l) : Clean l := by
  intro ch hch
  obtain rfl | rfl := h ch hch
  all_goals decide

theorem Clean.of_toLower {l : List Char} (h : Clean (l.map Char.toLower)) : Clean l := by
  intro ch hch
  have hlow := h _ (List.mem_map_of_mem hch)
  refine ⟨?_, ?_, ?_⟩
  all_goals
    rintro rfl
    revert hlow
    decide

def StatusLine.line (s : StatusLine) : Line where
  text := s.text
  nonempty := by simp [StatusLine.text]
  clean := by
    have hcode : Clean (Nat.toDigits 10 s.code) :=
      Clean.of_isDigit fun ch hch => Nat.isDigit_of_mem_toDigits (by decide) (by decide) hch
    have hmajor : Clean [s.major] := Clean.of_isDigit (by simpa using s.majorDigit)
    have hminor : Clean [s.minor] := Clean.of_isDigit (by simpa using s.minorDigit)
    have hversion : Clean (['H', 'T', 'T', 'P', '/'] ++ [s.major] ++ ['.'] ++ [s.minor]) :=
      (((show Clean ['H', 'T', 'T', 'P', '/'] by decide).append hmajor).append (by decide)).append hminor
    exact hversion.append ((hcode.append (s.clean.cons (by decide))).cons (by decide))

/-- The line that delimits the body. -/
def Framing.line (f : Framing) : Line where
  text := f.text
  nonempty := by
    cases f with
    | counted c => simp [Framing.text, c.digits_ne]
    | chunked c =>
      have hne : c.coding ≠ [] := by
        intro h
        have := c.coding_eq
        rw [h] at this
        exact absurd this (by decide)
      simp [Framing.text, hne]
  clean := by
    cases f with
    | counted c =>
      exact (((Clean.of_toLower (c.name_eq ▸ by decide)).append c.before_blank.clean).append
        (Clean.of_isDigit c.digits_digit)).append c.behind_blank.clean
    | chunked c =>
      exact (((Clean.of_toLower (c.name_eq ▸ by decide)).append c.before_blank.clean).append
        (Clean.of_toLower (c.coding_eq ▸ by decide))).append c.behind_blank.clean

structure Response where
  status : StatusLine
  before : List Line
  framing : Framing
  behind : List Line
  before_plain : ∀ l ∈ before, Plain l
  behind_plain : ∀ l ∈ behind, Plain l

namespace Response

variable (r : Response)

/-- The lines of the header behind the status line. -/
def lines : List Line := r.before ++ r.framing.line :: r.behind

/-- The header on the wire, with the empty line. -/
def header : List Char := linesText (r.status.line :: r.lines) ++ crlf

/-- The response on the wire. -/
def wire : List Char := r.header ++ r.framing.wire

/-- The body of the response. -/
def body : List Char := r.framing.body

end Response

end CodeFactory.Http
