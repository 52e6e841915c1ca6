import CodeFactory.Conf.Lines
import CodeFactory.Ehcc.Server

/-!
# Security modes and detection points

The handlers of `ehMpc.c` that write and report the security modes: a mode has a table with a row for each detection point, and the
points have a table of their own. The configuration is a store of cells here: a cell that is there can be read and written.
-/

namespace CodeFactory.Ehcc

/-- A value of the configuration: the application, the row (zero for a parameter outside the table), and the parameter. -/
structure Cell where
  app : Int
  row : Nat
  para : Nat
  deriving DecidableEq, Repr

/-- What the generated headers and the library of the security modes define, and what they have to be like: applications and
parameters have numbers of their own, and the names of the ring groups differ. -/
structure SecurityConstants where
  idSecurityMode : Int
  idDetactPoint : Int
  /-- `actSecurityMode_getModeAppIDByModeIndex`. -/
  modeAppID : Nat → Int
  /-- `actSecurityMode_getModeIndexByModeString`. -/
  modeIndex : Text → Nat
  paraDelayTime : Nat
  paraUserMode : Nat
  paraCurrentDiNum : Nat
  paraRingMode : Nat
  tabParaDpName : Nat
  tabParaAlarmStatus : Nat
  tabParaActiveStatus : Nat
  tabParaAttribute : Nat
  tabParaActiveDelay : Nat
  maxtableModeType : Nat
  maxtableDetactPoint : Nat
  maxparaDpNameLen : Nat
  ringGroupIdp : Text
  ringGroupSmp : Text
  ringGroupNone : Text
  /-- The number of a mode is a `uint8_t`. -/
  modeCount : maxtableModeType < 256
  apps : idSecurityMode ≠ idDetactPoint
  modes : ∀ m, 1 ≤ m → m ≤ maxtableModeType → modeAppID m ≠ idSecurityMode ∧ modeAppID m ≠ idDetactPoint
  modes_inj : ∀ m m', 1 ≤ m → m ≤ maxtableModeType → 1 ≤ m' → m' ≤ maxtableModeType → modeAppID m = modeAppID m' → m = m'
  paras : paraDelayTime ≠ paraUserMode ∧ paraDelayTime ≠ paraCurrentDiNum
  pointParas : tabParaDpName ≠ tabParaAlarmStatus
  modeParas : tabParaActiveStatus ≠ tabParaAttribute ∧ tabParaActiveStatus ≠ tabParaActiveDelay ∧
    tabParaAttribute ≠ tabParaActiveDelay
  ringGroups : Server.sameNoCase ringGroupSmp ringGroupIdp = false ∧ Server.sameNoCase ringGroupNone ringGroupIdp = false ∧
    Server.sameNoCase ringGroupNone ringGroupSmp = false
  /-- The buffer for a name is long enough for the number of a delay time. -/
  nameLen : 6 ≤ maxparaDpNameLen

/-- The configuration: the value of each cell that is there. -/
abbrev Config := Cell → Option Text

namespace Config

/-- `capi_write_parameter` and `capi_write_table_parameter`: a cell that is not there cannot be written. -/
def write (c : Config) (x : Cell) (value : Text) : Option Config :=
  if (c x).isSome then some (Function.update c x (some value)) else none

/-- Writes one after the other, until one fails. -/
def writes (c : Config) : List (Cell × Text) → Config
  | [] => c
  | (x, value) :: rest =>
    match c.write x value with
    | some c' => c'.writes rest
    | none => c

end Config

/-- The string that octets make: those in front of the first zero. -/
def cText (octets : List UInt8) : Text := (octets.takeWhile (· ≠ 0)).map fun b => Char.ofNat b.toNat

/-- The octets of a string. -/
def octetsOf (s : Text) : List UInt8 := s.map fun ch => UInt8.ofNat ch.toNat

/-! ## The order of octets -/

/-- The number that two octets in memory are to the host. -/
def hostNumber (littleEndian : Bool) (a b : UInt8) : Nat :=
  if littleEndian then a.toNat + 256 * b.toNat else 256 * a.toNat + b.toNat

/-- The octets in memory of a number of the host. -/
def hostOctets (littleEndian : Bool) (n : Nat) : List UInt8 :=
  if littleEndian then [UInt8.ofNat (n % 256), UInt8.ofNat (n / 256)] else [UInt8.ofNat (n / 256), UInt8.ofNat (n % 256)]

/-- `htons` and `ntohs`. -/
def htons (littleEndian : Bool) (n : Nat) : Nat := if littleEndian then n % 256 * 256 + n / 256 else n

/-- `sprintf` with `%d`. -/
def sprintfD (n : Nat) : Text := Nat.toDigits 10 n

/-- `atoi`, as a `uint16_t`. -/
def atoi16 (s : Text) : Nat := (Conf.atoi s % 65536).toNat

/-! ## A security mode -/

/-- `EhomeDP`; the delay time is the number that it is to the host. -/
structure EhomeDP where
  dpID : UInt8
  dpName : List UInt8
  dpDelayTime : Nat
  dpSetStatus : UInt8
  dpVisualStatus : UInt8
  dpAttribute : UInt8
  dpDelayTimeSwitch : UInt8
  deriving DecidableEq, Repr

structure EhomeSM where
  smID : UInt8
  smRing : UInt8
  smDP : List EhomeDP
  deriving DecidableEq, Repr

/-- What a handler comes to: whether it succeeds, the configuration, and the reply. -/
structure HandlerResult where
  success : Bool
  config : Config
  reply : List UInt8

variable (K : SecurityConstants) (littleEndian : Bool)

namespace SecurityConstants

/-- The cells of the detection points and the modes. -/
def delayTime : Cell := ⟨K.idSecurityMode, 0, K.paraDelayTime⟩

@[inherit_doc delayTime]
def userMode : Cell := ⟨K.idSecurityMode, 0, K.paraUserMode⟩

@[inherit_doc delayTime]
def currentDiNum : Cell := ⟨K.idSecurityMode, 0, K.paraCurrentDiNum⟩

@[inherit_doc delayTime]
def dpName (i : Nat) : Cell := ⟨K.idDetactPoint, i, K.tabParaDpName⟩

@[inherit_doc delayTime]
def alarmStatus (i : Nat) : Cell := ⟨K.idDetactPoint, i, K.tabParaAlarmStatus⟩

@[inherit_doc delayTime]
def activeStatus (app : Int) (i : Nat) : Cell := ⟨app, i, K.tabParaActiveStatus⟩

@[inherit_doc delayTime]
def modeAttribute (app : Int) (i : Nat) : Cell := ⟨app, i, K.tabParaAttribute⟩

@[inherit_doc delayTime]
def activeDelay (app : Int) (i : Nat) : Cell := ⟨app, i, K.tabParaActiveDelay⟩

@[inherit_doc delayTime]
def ringMode (app : Int) : Cell := ⟨app, 0, K.paraRingMode⟩

end SecurityConstants

def enable : Text := ['e', 'n', 'a', 'b', 'l', 'e']

def disable : Text := ['d', 'i', 's', 'a', 'b', 'l', 'e']

def alert : Text := ['a', 'l', 'e', 'r', 't']

def normal : Text := ['n', 'o', 'r', 'm', 'a', 'l']

/-! ## The update of a mode -/

/-- The loop of `processIDPToMFCBUpdateOneSecurityMode` over what is left of the value. A name that is longer than its field, and a
field behind the end of the value, are not defined. -/
def parseDPs : Nat → List UInt8 → Outcome (List EhomeDP × List UInt8)
  | 0, _ => .outOfFuel
  | fuel + 1, rest =>
    if rest.length ≤ 8 then .done ([], rest)
    else
      match rest with
      | dpID :: dpNameLen :: rest =>
        if K.maxparaDpNameLen < dpNameLen.toNat then .undefined
        else
          match rest.drop dpNameLen.toNat with
          | a :: b :: setStatus :: visualStatus :: attr :: delayTimeSwitch :: behind =>
            (parseDPs fuel behind).map fun x =>
              (⟨dpID, rest.take dpNameLen.toNat, hostNumber littleEndian a b, setStatus, visualStatus, attr,
                delayTimeSwitch⟩ :: x.1, x.2)
          | _ => .undefined
      | _ => .undefined

/-- The message of an update; there is room for so many points. -/
def parseSM (value : List UInt8) : Outcome EhomeSM :=
  match value with
  | [] => .undefined
  | smID :: rest =>
    (parseDPs K littleEndian (rest.length + 1) rest).bind fun x =>
      match x.2 with
      | [] => .undefined
      | smRing :: _ => if x.1.length ≤ K.maxtableDetactPoint then .done ⟨smID, smRing, x.1⟩ else .undefined

/-- What is written for a detection point: `PPI_DP_STATUS_ENABLE` and `PPI_DP_ATTRIBUTE_OPENFOREVER` are two, `PPI_DP_NORMAL` is one
and `PPI_DP_DELAYTIME_ENABLE` zero. -/
def dpWrites (appIndex : Int) (i : Nat) (dp : EhomeDP) : List (Cell × Text) :=
  [(K.dpName i, cText dp.dpName),
    (K.delayTime, sprintfD dp.dpDelayTime),
    (K.activeStatus appIndex i, if dp.dpSetStatus = 2 then enable else disable),
    (K.alarmStatus i, if dp.dpVisualStatus = 1 then enable else alert),
    (K.modeAttribute appIndex i, if dp.dpAttribute = 2 then enable else disable),
    (K.activeDelay appIndex i, if dp.dpDelayTimeSwitch = 0 then enable else disable)]

/-- The loop that writes the points, from a row on. A write that fails ends the writes for the point. -/
def updateDPs (appIndex : Int) : Nat → List EhomeDP → Config → Config
  | _, [], c => c
  | i, dp :: dps, c => updateDPs appIndex (i + 1) dps (c.writes (dpWrites K appIndex i dp))

def convertRingTypeIDToStr (ringID : UInt8) : Option Text :=
  if ringID = 1 then some K.ringGroupIdp
  else if ringID = 2 then some K.ringGroupSmp
  else if ringID = 3 then some K.ringGroupNone
  else none

/-- `processIDPToMFCBUpdateOneSecurityMode`. So many points are written as are configured; those that the message does not have are
not defined. The result of `convertRingTypeIDToStr` is compared with `-1`, which it never is, so without a ring type its string is not
defined. -/
def processIDPToMFCBUpdateOneSecurityMode (c : Config) (value : List UInt8) : Outcome HandlerResult :=
  (parseSM K littleEndian value).bind fun sm =>
    let appIndex := K.modeAppID sm.smID.toNat
    match c K.currentDiNum with
    | none => .done ⟨false, c, []⟩
    | some num =>
      if (sm.smDP.length : Int) < Conf.atoi num then .undefined
      else
        let c := updateDPs K appIndex 1 (sm.smDP.take (Conf.atoi num).toNat) c
        match convertRingTypeIDToStr K sm.smRing with
        | none => .undefined
        | some ringTypeStr =>
          match c.write (K.ringMode appIndex) ringTypeStr with
          | none => .done ⟨false, c, []⟩
          | some c => .done ⟨true, c, [sm.smID, 1]⟩

/-! ## One value of a point -/

/-- The writes of `processIDPToMFCBSetSingleDetectPoint`: the cell and the value, if there is something to write. The number of the
mode stands where the application is asked for. -/
def singleWrite (value : List UInt8) : Outcome (Option (Cell × Text)) :=
  match value with
  | smID :: dpID :: type :: rest =>
    if type = 1 then
      match rest with
      | setStatus :: _ =>
        .done (if setStatus = 2 then some (K.activeStatus smID.toNat dpID.toNat, enable)
          else if setStatus = 1 then some (K.activeStatus smID.toNat dpID.toNat, disable)
          else none)
      | [] => .undefined
    else if type = 2 then
      match rest with
      | dpNameLen :: rest =>
        -- the zero behind the name is written too
        if K.maxparaDpNameLen ≤ dpNameLen.toNat ∨ rest.length < dpNameLen.toNat then .undefined
        else .done (some (K.dpName dpID.toNat, cText (rest.take dpNameLen.toNat)))
      | [] => .undefined
    else if type = 3 then
      match rest with
      | dpAttribute :: _ =>
        .done (if dpAttribute = 2 then some (K.modeAttribute smID.toNat dpID.toNat, enable)
          else if dpAttribute = 1 then some (K.modeAttribute smID.toNat dpID.toNat, disable)
          else none)
      | [] => .undefined
    else if type = 4 then
      match rest with
      | a :: b :: _ => .done (some (K.delayTime, sprintfD (htons littleEndian (hostNumber littleEndian a b))))
      | _ => .undefined
    else .done none
  | _ => .undefined

def processIDPToMFCBSetSingleDetectPoint (c : Config) (value : List UInt8) : Outcome HandlerResult :=
  (singleWrite K littleEndian value).map fun
    | none => ⟨true, c, value ++ [1]⟩
    | some (x, v) =>
      match c.write x v with
      | some c => ⟨true, c, value ++ [1]⟩
      | none => ⟨false, c, value ++ [2]⟩

/-! ## The report -/

/-- What is reported of a detection point apart from the modes. -/
structure PointReport where
  dpID : UInt8
  dpName : List UInt8
  dpDelayTime : List UInt8
  deriving DecidableEq, Repr

/-- What is reported of a detection point in a mode. -/
structure ModePointReport where
  dpID : UInt8
  dpSetStatus : UInt8
  dpVisualStatus : UInt8
  dpAttribute : UInt8
  dpDelayTimeSwitch : UInt8
  deriving DecidableEq, Repr

/-- What is reported of a mode. -/
structure ModeReport where
  smID : UInt8
  smDP : List ModePointReport
  smRing : UInt8
  deriving DecidableEq, Repr

/-- The report of the detection points. -/
structure Report where
  curSMID : UInt8
  currDPNum : UInt8
  points : List PointReport
  modes : List ModeReport
  deriving DecidableEq, Repr

/-- A round of `ehEncodeParseDetectPoint`; without the row nothing is set. -/
def ehEncodeParseDetectPoint (c : Config) (modeID : Int) (i : Nat) : Outcome EhomeDP :=
  match c (K.activeStatus modeID i), c (K.modeAttribute modeID i), c (K.activeDelay modeID i) with
  | some activeStatus, some attr, some activeDelay =>
    let dpName := (c (K.dpName i)).getD []
    .done
      { dpID := UInt8.ofNat i
        dpName := octetsOf dpName
        dpDelayTime :=
          match c K.delayTime with
          | some delayTime => htons littleEndian (atoi16 delayTime)
          | none => 0
        dpSetStatus := if Server.sameNoCase activeStatus enable then 2 else 1
        dpVisualStatus := if Server.sameNoCase ((c (K.alarmStatus i)).getD dpName) normal then 1 else 2
        dpAttribute := if Server.sameNoCase attr enable then 2 else 1
        dpDelayTimeSwitch := if Server.sameNoCase activeDelay enable then 0 else 1 }
  | _, _, _ => .undefined

/-- `getRingTypeIDBySM`; the result of a read that fails is `TCMRET_FAILURE`, which is one. -/
def getRingTypeIDBySM (c : Config) (smID : Nat) : UInt8 :=
  match c (K.ringMode (K.modeAppID smID)) with
  | none => 1
  | some media =>
    if Server.sameNoCase media K.ringGroupIdp then 1
    else if Server.sameNoCase media K.ringGroupSmp then 2
    else 3

/-- A mode, as it is read for the report. -/
def readSM (c : Config) (currDPNum : Nat) (smID : Nat) : Outcome EhomeSM :=
  (Outcome.mapList (ehEncodeParseDetectPoint K littleEndian c (K.modeAppID smID)) (List.range' 1 currDPNum)).map fun smDP =>
    ⟨UInt8.ofNat smID, getRingTypeIDBySM K c smID, smDP⟩

/-- What is reported of a point in a mode; one that is open for ever has the status three. -/
def EhomeDP.report (dp : EhomeDP) : ModePointReport where
  dpID := dp.dpID
  dpSetStatus := if dp.dpAttribute = 2 then 3 else dp.dpSetStatus
  dpVisualStatus := dp.dpVisualStatus
  dpAttribute := dp.dpAttribute
  dpDelayTimeSwitch := dp.dpDelayTimeSwitch

/-- What is reported of a mode. -/
def EhomeSM.report (sm : EhomeSM) : ModeReport := ⟨sm.smID, sm.smDP.map EhomeDP.report, sm.smRing⟩

/-- The report that `processIDPToMFCBQueryDetectPoint` packs into its reply. The points are those of the first mode. -/
def detectPointReport (c : Config) : Option (Outcome Report) :=
  match c K.userMode, c K.currentDiNum with
  | some userMode, some num =>
    let currDPNum := (Conf.atoi num).toNat
    some (
      if K.maxtableDetactPoint < currDPNum then .undefined
      else
        (Outcome.mapList (readSM K littleEndian c currDPNum) (List.range' 1 K.maxtableModeType)).bind fun sm =>
          match sm with
          | [] => .undefined
          | first :: _ =>
            .done
              { curSMID := UInt8.ofNat (K.modeIndex userMode)
                currDPNum := UInt8.ofNat (Conf.atoi num % 256).toNat
                points := first.smDP.map fun dp => ⟨dp.dpID, dp.dpName, hostOctets littleEndian dp.dpDelayTime⟩
                modes := sm.map EhomeSM.report })
  | _, _ => none

end CodeFactory.Ehcc
