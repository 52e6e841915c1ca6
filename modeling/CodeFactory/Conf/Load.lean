import CodeFactory.Conf.Rows

/-!
# Loading the file

`build_para_table`: the lines of the configuration file, as `fgets` cuts them, and the nodes they are put into. Writing outside
of a pool, following `pre_app` before there is an application, and an identifier that is no `int` are undefined.
-/

namespace CodeFactory.Conf

open Cache

def maxConfLine : Nat := 255

/-- The largest `int`. -/
def intMax : Int := 2147483647

/-! ## The lines of the file -/

/-- `fgets`, of at most `n` characters: the line and what is left of the file. -/
def fgets : Nat → List Char → List Char × List Char
  | 0, file => ([], file)
  | _ + 1, [] => ([], [])
  | n + 1, ch :: file => if ch = '\n' then ([ch], file) else (ch :: (fgets n file).1, (fgets n file).2)

/-- The lines that a loop of `fgets` reads, in at most as many rounds. -/
def linesFrom : Nat → List Char → List (List Char)
  | 0, _ => []
  | _ + 1, [] => []
  | fuel + 1, ch :: file =>
    (fgets (maxConfLine - 1) (ch :: file)).1 :: linesFrom fuel (fgets (maxConfLine - 1) (ch :: file)).2

/-- The string in a buffer ends at the first null. -/
def cString (buffer : List Char) : List Char := buffer.takeWhile (· != '\x00')

/-- The strings that `configline` holds, one after the other. -/
def fileLines (file : List Char) : List (List Char) := (linesFrom file.length file).map cString

/-- `strchr`: what is before the first such character and what is behind it. -/
def strchr (ch : Char) : List Char → Option (List Char × List Char)
  | [] => none
  | x :: s => if x = ch then some ([], s) else (strchr ch s).map fun p => (x :: p.1, p.2)

/-- A newline at the end is cut off. -/
def cutNewline (s : List Char) : List Char := if s.getLast? = some '\n' then s.dropLast else s

/-- What a line of the file is taken for. -/
inductive ConfLine where
  | app (name : List Char)
  | row (num : List Char)
  | para (name val : List Char)
  | malformed
  deriving DecidableEq, Repr

/-- The branches of `build_para_table` on a line. -/
def confLine (line : List Char) : ConfLine :=
  if line.head? = some '[' then
    match strchr ']' line with
    | some (before, _) => .app before.tail
    | none => .malformed
  else
    match strchr '<' line, strchr '=' line with
    | some (_, behind), none =>
      match strchr '>' behind with
      | some (num, _) => .row num
      | none => .malformed
    | _, some (name, val) => .para name (cutNewline val)
    | none, none => .malformed

/-- What the lines of a file are taken for. -/
def confLines (file : List Char) : List ConfLine := (fileLines file).map confLine

def isspace (ch : Char) : Bool := [' ', '\t', '\n', '\x0b', '\x0c', '\r'].contains ch

/-- The number that the digits at the head of a string make. -/
def digitsNum (s : List Char) : Nat := (s.takeWhile Char.isDigit).foldl (fun n c => 10 * n + (c.toNat - 48)) 0

/-- `atoi`, of a number of any size. -/
def atoi (s : List Char) : Int :=
  match s.dropWhile isspace with
  | '-' :: digits => -digitsNum digits
  | '+' :: digits => digitsNum digits
  | digits => digitsNum digits

/-! ## The nodes -/

/-- The variables of `build_para_table`: the cache, the nodes to be used next, and those used last. -/
structure LoadState where
  cache : Cache
  app : Nat
  row : Nat
  para : Nat
  preApp : Option Nat
  preRow : Option Nat
  prePara : Option Nat
  rowNum : Int
  parameter : Nat

namespace LoadState

/-- The variables before the first line. -/
def start (T : EntityTable) : LoadState := ⟨initNode T, 0, 0, 0, none, none, none, 0, 1⟩

variable (T : EntityTable) (s : LoadState)

/-- A line with an application. -/
def loadApp (name : List Char) : Outcome (Option LoadState) :=
  if s.app < T.gMaxAppNum then
    let appName := name.take (maxNameLen - 1)
    let index := T.getAppIdByName appName
    if index = -1 then .done none
    else
      .done (some { s with
        cache := s.cache.setApp s.app { s.cache.app s.app with appId := index, appName := appName }
        app := s.app + 1, preApp := some s.app, preRow := none, prePara := none, rowNum := 0, parameter := 1 })
  else .undefined

/-- `if ( pre_para ) pre_para->next = 0;` -/
def endParas (c : Cache) : Cache :=
  match s.prePara with
  | some p => c.setParaLink (.paraNext p) none
  | none => c

/-- A line with the number of a row. -/
def loadRow (num : List Char) : Outcome (Option LoadState) :=
  if atoi num < -intMax - 1 ∨ intMax < atoi num then .undefined
  else if atoi num ≤ 0 then .done none
  else
    (follow s.preApp).bind fun a =>
      let id := getRowId (s.cache.app a).appId (atoi num)
      if s.row < T.gMaxTabNum ∧ id ≤ intMax then
        let c := s.cache.setRow s.row { s.cache.row s.row with rowId := id }
        .done (some { s with
          cache := s.endParas (c.setRowLink (placeLink a s.preRow) (some s.row))
          row := s.row + 1, preRow := some s.row, prePara := none, rowNum := atoi num, parameter := 1 })
      else .undefined

/-- The field that the next parameter is linked to. -/
def paraLink (a : Nat) : ParaLink :=
  match s.prePara, s.preRow with
  | some p, _ => .paraNext p
  | none, some r => .rowPara r
  | none, none => .appPara a

/-- A line with a parameter. -/
def loadPara (name val : List Char) : Outcome (Option LoadState) :=
  (follow s.preApp).bind fun a =>
    let id := getParaId (s.cache.app a).appId s.rowNum s.parameter
    if s.para < T.gMaxParaNum ∧ id ≤ intMax then
      let c := s.cache.setPara s.para { s.cache.para s.para with
        paraId := id, paraName := name.take (maxNameLen - 1), paraVal := val.take (maxValueLen - 1) }
      .done (some { s with
        cache := c.setParaLink (s.paraLink a) (some s.para)
        para := s.para + 1, prePara := some s.para, parameter := s.parameter + 1 })
    else .undefined

/-- The body of the loop over the lines. -/
def loadLine : ConfLine → Outcome (Option LoadState)
  | .app name => s.loadApp T name
  | .row num => s.loadRow T num
  | .para name val => s.loadPara T name val
  | .malformed => .done none

/-- The loop over the lines. -/
def loadLines (s : LoadState) : List ConfLine → Outcome (Option LoadState)
  | [] => .done (some s)
  | line :: lines =>
    (s.loadLine T line).bind fun
    | none => .done none
    | some s => s.loadLines lines

end LoadState

/-- `build_para_table`, of a file and memory that `init_node` has formatted: the cache, if it succeeds. -/
def buildParaTable (T : EntityTable) (file : List Char) : Outcome (Option Cache) :=
  ((LoadState.start T).loadLines T (confLines file)).map fun s => s.map LoadState.cache

/-! ## What a cache contains -/

/-- A parameter, as it is listed. -/
structure ParaDoc where
  paraId : Int
  paraName : List Char
  paraVal : List Char
  deriving DecidableEq, Repr

/-- A row and its parameters. -/
structure RowDoc where
  rowId : Int
  paras : List ParaDoc
  deriving DecidableEq, Repr

/-- An application, its own parameters and its rows. -/
structure AppDoc where
  appId : Int
  appName : List Char
  paras : List ParaDoc
  rows : List RowDoc
  deriving DecidableEq, Repr

namespace Cache

variable (c : Cache)

/-- What a parameter node contains. -/
def paraDoc (p : Nat) : ParaDoc := ⟨(c.para p).paraId, (c.para p).paraName, (c.para p).paraVal⟩

/-- What a row node contains. -/
def rowDoc (L : Layout) (r : Nat) : RowDoc := ⟨(c.row r).rowId, (L.paras (.row r)).map c.paraDoc⟩

/-- What an application node contains. -/
def appDoc (L : Layout) (a : Nat) : AppDoc :=
  ⟨(c.app a).appId, (c.app a).appName, (L.paras (.app a)).map c.paraDoc, (L.rows a).map (c.rowDoc L)⟩

/-- The contents of the nodes of a layout. -/
def docOn (L : Layout) : List AppDoc := (List.range L.apps).map (c.appDoc L)

/-- The contents of the cache, as the loops over its lists see them. -/
def doc (T : EntityTable) : List AppDoc := c.docOn (c.layout T)

end Cache

end CodeFactory.Conf
