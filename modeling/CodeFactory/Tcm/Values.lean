import CodeFactory.Http.Text
import CodeFactory.Tcm.Names

/-!
# The values of the match table

What becomes of a value of the configuration on its way to the agent: on/off values and the type of a route turn into numbers, the
password of an account is decoded, and the value of a type that is not a string has to be a number.
-/

namespace CodeFactory.Tcm

open Tr69

/-- The numbers of the parameters in the generated headers, which count from one. -/
structure ParaNumbers where
  number : ConflibPara → Nat
  pos : ∀ p, 1 ≤ number p
  accessMode : number .accessmodeMode = 1
  nextHopType : number .routeNexthoptype = 3

/-- The number of a parameter or flag. -/
def ParaNumbers.ofParID (N : ParaNumbers) : ParID → Int
  | .flagAddDefaultObject => -2
  | .flagStatusStyle => -1
  | .flagInstanceID => 0
  | .para p => N.number p

def enable : Text := ['e', 'n', 'a', 'b', 'l', 'e']

def disable : Text := ['d', 'i', 's', 'a', 'b', 'l', 'e']

def trueText : Text := ['t', 'r', 'u', 'e']

def falseText : Text := ['f', 'a', 'l', 's', 'e']

/-- `string_to_num` of the synchronisation at the start: as that of the agent, but for the empty string, which is zero. -/
def stringToNum (str : Text) : Option Int := if str = [] then some 0 else Tr69.stringToNum str

/-! ## The password of an account -/

def strPSWOffset : Text := ['Y', '2', '0', '1', '0', '-', 'T', 'E', 'C', 'O', 'M', ':', 'W', 'i', 'M', 'A']

/-- The `int` with the bits of the `unsigned` that `%X` makes of a number; too great a one becomes the greatest. -/
def toUnsigned (minus : Bool) (n : Nat) : Int :=
  (BitVec.ofInt 32 (if 4294967295 < n then 4294967295 else if minus then -n else n)).toInt

/-- A minus in front of a number, or a plus. -/
def scanSign : Text → Bool × Text
  | '-' :: s => (true, s)
  | '+' :: s => (false, s)
  | s => (false, s)

/-- `sscanf` with `%X`: the number, and what is behind it, if there is a digit. -/
def scanX (s : Text) : Option (Int × Text) :=
  let signed := scanSign (s.dropWhile Conf.isspace)
  let number := Http.skipHexSign signed.2
  let digits := number.takeWhile Http.isxdigit
  if digits = [] then none else some (toUnsigned signed.1 (Http.hexNum digits), number.dropWhile Http.isxdigit)

/-- `sscanf` with `%s`. -/
def scanS (s : Text) : Option Text :=
  let word := (s.dropWhile Conf.isspace).takeWhile fun ch => !Conf.isspace ch
  if word = [] then none else some word

/-- The rounds of `revertPSW`: the characters that are set, and those that are not. A value that is used before the first number is read
is not defined. -/
def revertRounds : List Char → Option Int → Text → Outcome (List (Option Char))
  | [], _, _ => .done []
  | offset :: offsets, tVal, tmpBuf =>
    if tmpBuf = [] then (revertRounds offsets tVal tmpBuf).map fun rest => none :: rest
    else
      let scanned := scanX tmpBuf
      let tmpBuf :=
        match scanned with
        | some (_, ':' :: behind) => (scanS behind).getD tmpBuf
        | _ => tmpBuf
      match (scanned.map Prod.fst).or tVal with
      | none => .undefined
      | some tVal =>
        (revertRounds offsets (some tVal) tmpBuf).map fun rest =>
          some (Char.ofNat ((tVal - offset.toNat) % 256).toNat) :: rest

/-- The string in a buffer; characters that are not set are not defined. -/
def readString : List (Option Char) → Outcome Text
  | [] => .undefined
  | none :: _ => .undefined
  | some ch :: rest => if ch = '\x00' then .done [] else (readString rest).map fun s => ch :: s

/-- `revertPSW`, and the copy of what it leaves in the buffer. There is room for three characters for each character of a password. -/
def revertPSW (cPassword : Text) : Outcome Text :=
  if 3 * strPSWOffset.length < cPassword.length then .undefined
  else (revertRounds strPSWOffset none cPassword).bind readString

/-! ## Values that change -/

/-- The entries whose value is on or off, as `build_tcmAgent_parameters` has them. -/
def isSwitch (N : ParaNumbers) (appID : AppID) (parID : ParID) : Bool :=
  (appID = .app .dhcpd ∧ parID = .para .dhcpdStatus) ∨
  (appID = .app .tr069 ∧ parID = .para .tr069Informstatus) ∨
  appID = .app .service ∨
  (appID = .app .accessMode ∧ N.ofParID parID = 1) ∨
  appID = .app .upnpd ∨
  (appID = .app .sdkd ∧ parID = .para .sdkdPkm) ∨
  (appID = .app .sdkd ∧ parID = .para .sdkdAlphaDelim) ∨
  (appID = .app .autocm ∧ parID = .para .autocmWmAutoCon) ∨
  (appID = .app .autocm ∧ parID = .para .autocmDhcpcdAutoStart) ∨
  (appID = .app .autocm ∧ parID = .para .autocmGwPingCheck) ∨
  (appID = .app .igmpProxy ∧ parID = .para .igmpStatus) ∨
  (appID = .app .log ∧ parID = .para .logStatus) ∨
  (appID = .app .wan ∧ parID = .para .mngStatus) ∨
  (appID = .app .autocm ∧ parID = .para .autocmMngDhcpcdAutoStart)

/-- An on/off value; other values stay. -/
def switchValue (result : Text) : Text :=
  if result = enable then ['1'] else if result = disable then ['0'] else result

/-- The type of a route; other values stay. -/
def routeValue (result : Text) : Text :=
  if result = trueText then ['1'] else if result = falseText then ['0'] else result

/-- What is sent for a value outside of the tables. -/
def plainText (N : ParaNumbers) (e : MatchParameter) (result : Text) : Text :=
  if isSwitch N e.conflibAppID e.conflibParID then switchValue result else result

/-- What is sent for a value of a table. -/
def columnText (N : ParaNumbers) (e : MatchParameter) (result : Text) : Outcome Text :=
  let result := if e.conflibAppID = .app .route ∧ N.ofParID e.conflibParID = 3 then routeValue result else result
  if e.conflibAppID = .app .account ∧ e.conflibParID = .para .accountCpassword then revertPSW result else .done result

/-! ## Messages -/

/-- The value in a message. -/
inductive NodeValue where
  | num (type : ValueType) (n : Int)
  | text (s : Text)
  deriving DecidableEq, Repr

/-- A message to the agent. -/
inductive Msg where
  | initEnd
  | addObject (name : Text)
  | setValue (name : Text) (value : NodeValue)
  deriving DecidableEq, Repr

/-- The name in a message, if it has one. -/
def Msg.name : Msg → Option Text
  | .initEnd => none
  | .addObject name => some name
  | .setValue name _ => some name

/-- What `put_msg_value` adds to the length. -/
def NodeValue.length : NodeValue → Nat
  | num .none _ => 4
  | num _ _ => 4 + 4
  | text s => 4 + (s.length + 1)

/-- What a message adds to the length. -/
def Msg.length : Msg → Nat
  | initEnd => 4
  | addObject name => 4 + (4 + (name.length + 1))
  | setValue name value => 4 + (4 + (name.length + 1)) + value.length

/-- The value that is sent of a string, if it has the type. -/
def nodeValue (toNum : Text → Option Int) (type : ValueType) (result : Text) : Option NodeValue :=
  if type = .string then some (.text result) else (toNum result).map (.num type)

end CodeFactory.Tcm
