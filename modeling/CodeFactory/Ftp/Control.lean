import CodeFactory.Http.Text

/-!
# The control connection of an FTP transfer

`ftp.c` as far as the commands and their replies go: `ftp_readline`, `ftp_handle_cmd_resp`, and the order in which
`ftp_download_file` and `ftp_upload_file` send their commands. What arrives is a row of characters, and a read that finds none
waits. Sockets that fail are left out.
-/

namespace CodeFactory.Ftp

open Conf (cString strchr)
open Http (atoiInt)

/-- The characters of a line, or of a connection. -/
abbrev Text := List Char

/-- The commands that are sent. -/
inductive Cmd where
  | user | pass | pasv | type | retr | cwd | stor | mkd | size
  deriving DecidableEq, Repr

/-- The first digit that is expected of the reply to a command. -/
def Cmd.expects : Cmd → Char
  | .user => '3'
  | .retr | .stor => '1'
  | .pass | .pasv | .type | .cwd | .mkd | .size => '2'

/-- What `ftp_handle_cmd_resp` returns. -/
inductive Ret where
  | ok | errorResp | internalError | timeout
  deriving DecidableEq, Repr

/-! ## A line -/

def ftpRespBufLen : Nat := 128

/-- What `ftp_readline` does: a line and what is left, a failure, or it waits for a character. -/
inductive Reading where
  | line (respline rest : Text)
  | failed (rest : Text)
  | waits
  deriving DecidableEq, Repr

/-- `ftp_readline`, when `i` characters have been read. -/
def ftpReadline (i : Nat) (respline : Text) : Text → Reading
  | [] => .waits
  | p :: control =>
    if ftpRespBufLen ≤ i + 1 then .failed control
    else if p = '\r' then
      match control with
      | [] => .waits
      | q :: control => if q = '\n' then .line respline control else .failed control
    else ftpReadline (i + 1) (respline ++ [p]) control

/-- Whatever is read of a line leaves less. -/
theorem ftpReadline_length {i : Nat} {sofar control respline rest : Text} (h : ftpReadline i sofar control = .line respline rest) :
    rest.length < control.length := by
  induction control generalizing i sofar with
  | nil => cases h
  | cons p control ih =>
    unfold ftpReadline at h
    split at h
    · cases h
    · split at h
      · split at h
        · cases h
        · split at h
          · cases h
            rw [List.length_cons, List.length_cons]
            omega
          · cases h
      · exact Nat.lt_succ_of_lt (ih h)

/-! ## A reply -/

/-- The character of a line at a place; behind the line the buffer holds zeros. -/
def charAt (respline : Text) (i : Nat) : Char := respline.getD i '\x00'

/-- The lines that are read over: those with a hyphen behind three characters, and those that begin neither with the digit of an
error nor with the one that is expected. -/
def readOver (c : Char) (respline : Text) : Bool :=
  charAt respline 3 = '-' || (charAt respline 0 ≠ '4' && charAt respline 0 ≠ '5' && charAt respline 0 ≠ c)

/-- What the loop of `ftp_handle_cmd_resp` comes to. -/
inductive Scan where
  | stopped (respline rest : Text)
  | failed (rest : Text)
  | waits
  deriving DecidableEq, Repr

/-- The loop of `ftp_handle_cmd_resp`. -/
def scan (c : Char) (control : Text) : Scan :=
  match h : ftpReadline 0 [] control with
  | .waits => .waits
  | .failed rest => .failed rest
  | .line respline rest =>
    have : rest.length < control.length := ftpReadline_length h
    if readOver c respline then scan c rest else .stopped respline rest
termination_by control.length

/-- A copy of so many characters, and a zero, into an array of that size. -/
def fits (size : Nat) (text : Text) : Outcome Unit := if text.length < size then .done () else .undefined

/-- What is up to the fourth comma, and what is behind it. -/
def fourthComma (text : Text) : Option (Text × Text) :=
  (strchr ',' text).bind fun a => (strchr ',' a.2).bind fun b => (strchr ',' b.2).bind fun c => (strchr ',' c.2).map fun d =>
    (a.1 ++ ',' :: (b.1 ++ ',' :: (c.1 ++ ',' :: d.1)), d.2)

/-- The loop over `gPasvStrPort`: what is in front of a comma and behind it is copied into four characters each. The port that is
computed from these is not needed here. -/
def copyPorts (before : Text) : Text → Outcome Unit
  | [] => .done ()
  | q :: text =>
    if q = ',' then (fits 4 before).bind fun _ => (fits 4 text).bind fun _ => copyPorts (before ++ [q]) text
    else copyPorts (before ++ [q]) text

/-- The address and the port from the reply to PASV: what stands between the parentheses is copied into arrays of 17 and of 8
characters. Without the parentheses and four commas between them, what is copied is not of any known length. -/
def fetchPasv (respline : Text) : Outcome Unit :=
  match strchr '(' respline, strchr ')' respline with
  | some (front, _), some (upto, _) =>
    if front.length < upto.length then
      match fourthComma (upto.drop (front.length + 1)) with
      | some (addr, port) => (fits 17 addr).bind fun _ => (fits 8 port).bind fun _ => copyPorts [] port
      | none => .undefined
    else .undefined
  | _, _ => .undefined

/-- The size from the reply to RETR, -1 where it has none. -/
def fetchRetr (respline : Text) : Outcome Int :=
  match strchr '(' respline with
  | none => .done (-1)
  | some (_, p) =>
    match strchr ' ' p with
    | none => .undefined
    | some (digits, _) => (fits 16 digits).bind fun _ => atoiInt digits

/-- The size from the reply to SIZE. -/
def fetchSize (respline : Text) : Outcome Int :=
  match strchr ' ' respline with
  | none => .undefined
  | some (_, p) => (fits 16 p).bind fun _ => atoiInt p

/-- What is fetched from the line that was expected. -/
def fetch (cmd : Cmd) (respline : Text) (filesize : Int) : Outcome Int :=
  match cmd with
  | .pasv => (fetchPasv (cString respline)).map fun _ => filesize
  | .retr => fetchRetr (cString respline)
  | .size => fetchSize (cString respline)
  | _ => .done filesize

/-- What a call of `ftp_handle_cmd_resp` does. -/
inductive Handled where
  | returned (ret : Ret)
  | waits
  | undefined
  deriving DecidableEq, Repr

/-- The line that the loop stops at is an error, or the one that is expected. -/
def classify (cmd : Cmd) (respline : Text) (filesize : Int) : Handled × Int :=
  if charAt respline 0 = '4' ∨ charAt respline 0 = '5' then (.returned .errorResp, filesize)
  else
    match fetch cmd respline filesize with
    | .done filesize => (.returned .ok, filesize)
    | _ => (.undefined, filesize)

/-- `ftp_handle_cmd_resp`, when the connection can be read in time: what it does, the size of the file, and what is left to read. -/
def ftpHandleCmdResp (cmd : Cmd) (filesize : Int) (control : Text) : Handled × Int × Text :=
  match scan cmd.expects control with
  | .waits => (.waits, filesize, control)
  | .failed rest => (.returned .internalError, filesize, rest)
  | .stopped respline rest => ((classify cmd respline filesize).1, (classify cmd respline filesize).2, rest)

/-! ## The transfers -/

/-- Where a transfer stands: the command that is sent next, for `CWD` and `MKD` with the directories that are left. -/
inductive Place where
  | user | pass | pasv | type | retr | size | stor
  | cwd (left : Nat)
  | mkd (left : Nat)
  | cwdAgain (left : Nat)
  deriving DecidableEq, Repr

/-- The command of a place. -/
def Place.cmd : Place → Cmd
  | .user => .user
  | .pass => .pass
  | .pasv => .pasv
  | .type => .type
  | .retr => .retr
  | .size => .size
  | .stor => .stor
  | .cwd _ | .cwdAgain _ => .cwd
  | .mkd _ => .mkd

/-- `ftp_download_file`, or `ftp_upload_file` to a path with so many directories. -/
inductive Transfer where
  | download
  | upload (dirs : Nat)
  deriving DecidableEq, Repr

/-- The next directory, or the data connection behind the last one. -/
def nextDir : Nat → Place
  | 0 => .pasv
  | n + 1 => .cwd n

/-- What follows a command. An error ends the transfer, but for a directory that is not there; whatever else is returned is taken
for success. -/
def Transfer.next (kind : Transfer) (place : Place) (ret : Ret) (filesize : Int) : Option Place :=
  match place, ret with
  | .cwd left, .errorResp => some (.mkd left)
  | _, .errorResp => none
  | .user, _ => some .pass
  | .pass, _ =>
    match kind with
    | .download => some .pasv
    | .upload dirs => some (nextDir dirs)
  | .cwd left, _ | .cwdAgain left, _ => some (nextDir left)
  | .mkd left, _ => some (.cwdAgain left)
  | .pasv, _ => some .type
  | .type, _ =>
    match kind with
    | .download => some .retr
    | .upload _ => some .stor
  | .retr, _ => if filesize = -1 then some .size else none
  | .size, _ | .stor, _ => none

end CodeFactory.Ftp
