import CodeFactory.Conf.Lines
import CodeFactory.Ehcc.Server
import CodeFactory.Lib.Calendar
import CodeFactory.Oal.TcmRet
import CodeFactory.Tr69.Text

/-!
# The query of the alarm history

`processIDPToMFCBQueryAlarmHistory`: the alarms of the table between two dates are printed to the reply. `actUtil_numberCheck` and the table
belong to other libraries.
-/

namespace CodeFactory.Ehcc.AlarmHistory

open Conf (atoi digitsNum isspace)
open Oal (TcmRet)
open Outcome
open Tr69 (Text)

/-- `struct tm`, as far as it is set. -/
structure Tm where
  tmYear : Int
  tmMon : Int
  tmMday : Int
  tmHour : Int
  tmMin : Int
  tmSec : Int
  deriving DecidableEq, Repr

/-- `mktime`, in a zone that is so many seconds before that of Greenwich. A `time_t` is wide enough. -/
def mktime (zone : Int) (tm : Tm) : Int :=
  86400 * (dayNumber (tm.tmYear + 1900 + tm.tmMon / 12) ((tm.tmMon % 12).toNat + 1) tm.tmMday - dayNumber 1970 1 1) +
    3600 * tm.tmHour + 60 * tm.tmMin + tm.tmSec - zone

def checkAlarmHistoryQueryDataFormat (alarmQueryData : Text) : Bool :=
  alarmQueryData.length = 21 ∧ alarmQueryData[10]? = some ' ' ∧ alarmQueryData[4]? = some '.' ∧ alarmQueryData[7]? = some '.' ∧
    alarmQueryData[15]? = some '.' ∧ alarmQueryData[18]? = some '.'

variable (numberCheck : Text → Int → Int → Bool) (zone : Int)

/-- A number in a string: the characters are copied, checked by `actUtil_numberCheck` and read by `atoi`. -/
def numberAt (s : Text) (pos len : Nat) (max : Int) : Option Int :=
  let str := (s.drop pos).take len
  if numberCheck str 0 max then some (atoi str) else none

def separateAlarmQueryStartandEndTime (alarmQueryData : Text) : Option (Int × Int) :=
  (numberAt numberCheck alarmQueryData 0 4 9999).bind fun startYear =>
  (numberAt numberCheck alarmQueryData 5 2 99).bind fun startMonth =>
  (numberAt numberCheck alarmQueryData 8 2 99).bind fun startDay =>
  (numberAt numberCheck alarmQueryData 11 4 9999).bind fun endYear =>
  (numberAt numberCheck alarmQueryData 16 2 99).bind fun endMonth =>
  (numberAt numberCheck alarmQueryData 19 2 99).map fun endDay =>
    (mktime zone ⟨startYear - 1900, startMonth - 1, startDay, 0, 0, 0⟩, mktime zone ⟨endYear - 1900, endMonth - 1, endDay + 1, 0, 0, 0⟩)

/-- The time of an alarm, as `checkAlarmTimeInDB` reads it. -/
def alarmTt (alarmTime : Text) : Option Int :=
  (numberAt numberCheck alarmTime 0 4 9999).bind fun alarmYear =>
  (numberAt numberCheck alarmTime 5 2 99).bind fun alarmMonth =>
  (numberAt numberCheck alarmTime 8 2 99).bind fun alarmDay =>
  (numberAt numberCheck alarmTime 11 2 99).bind fun alarmHour =>
  (numberAt numberCheck alarmTime 14 2 99).bind fun alarmMin =>
  (numberAt numberCheck alarmTime 17 2 99).map fun alarmSec =>
    mktime zone ⟨alarmYear - 1900, alarmMonth - 1, alarmDay, alarmHour, alarmMin, alarmSec⟩

/-- `checkAlarmTimeInDB`, with `checkAlarmTimeFormatInDB`. -/
def checkAlarmTimeInDB (alarmTime : Text) (alarmQueryStartTime alarmQueryEndTime : Int) : Bool :=
  if alarmTime.length = 19 ∧ alarmTime[10]? = some ' ' then
    match alarmTt numberCheck zone alarmTime with
    | none => false
    | some alarmTt => alarmTt < alarmQueryEndTime ∧ alarmQueryStartTime < alarmTt
  else false

/-- A row of the table. -/
structure AlarmRow where
  nodeIndex : Text
  name : Text
  time : Text
  deriving DecidableEq, Repr

/-- The reply: the data of the query with their length, the length of the text, the text, and the length of all. -/
structure Reply where
  queryData : Text
  alarmHistoryLength : Nat
  text : Text
  valueLen : Nat
  deriving DecidableEq, Repr

/-- `MAX_PACKET_LEN*3`, what the caller has room for. -/
def replySize : Nat := 3072

/-- `sprintf` behind the text that is there already. -/
def sprintf (front : Nat) (text printed : Text) : Outcome Text :=
  if front + text.length + printed.length < replySize then done (text ++ printed) else undefined

/-- A round of the loop, for the row `i + 1`. -/
def reportRow (table : Nat → Option AlarmRow) (startTime endTime : Int) (front : Nat) (text : Text) (i : Nat) : Outcome Text :=
  match table (i + 1) with
  | none => done text
  | some row =>
    if checkAlarmTimeInDB numberCheck zone row.time startTime endTime then
      (sprintf front text ("Node index ".toList ++ row.nodeIndex ++ [' '])).bind fun text =>
      (sprintf front text ("name ".toList ++ row.name ++ [' '])).bind fun text =>
      sprintf front text ("time ".toList ++ row.time ++ [' ', '\n'])
    else done text

/-- `processIDPToMFCBQueryAlarmHistory`: an error, where nothing stands for -1, or the reply. The arguments are the length of the value of the
message, the octets behind the first (which has their number), the index of the next alarm as the configuration has it, and the table. -/
def processIDPToMFCBQueryAlarmHistory (valueLen : Nat) (queryData : Text) (nextIndex : Option Text) (table : Nat → Option AlarmRow) :
    Outcome (Except (Option TcmRet) Reply) :=
  if valueLen ≠ 22 then done (.error (some .internalError))
  else if 100 ≤ queryData.length then undefined
  else
    let queryDataStr := queryData.takeWhile (· ≠ '\x00')
    if checkAlarmHistoryQueryDataFormat queryDataStr = false then done (.error (some .internalError))
    else
      match separateAlarmQueryStartandEndTime numberCheck zone queryDataStr with
      | none => done (.error (some .failure))
      | some (startTime, endTime) =>
        match nextIndex with
        | none => done (.error (some .failure))
        | some alarmEndRowIndexStr =>
          if 4 ≤ alarmEndRowIndexStr.length then undefined
          else if numberCheck alarmEndRowIndexStr 0 999 = false then done (.error none)
          else
            let front := queryData.length + 3
            (foldl (reportRow numberCheck zone table startTime endTime front) [] (List.range (atoi alarmEndRowIndexStr).toNat)).map fun text =>
              .ok ⟨queryData, text.length % 65536, text, front + text.length⟩

/-! ## What it is for -/

/-- A time stamp of a year with four digits. -/
structure Stamp where
  date : Date
  hour : Nat
  min : Nat
  sec : Nat
  year_nonneg : 0 ≤ date.year
  year_le : date.year ≤ 9999
  hour_lt : hour < 24
  min_lt : min < 60
  sec_lt : sec < 60

structure Alarm where
  nodeIndex : Text
  name : Text
  stamp : Stamp

def digit (n : Nat) : Char := Nat.digitChar (n % 10)

/-- A number of two digits. -/
def two (n : Nat) : Text := [digit (n / 10), digit n]

/-- A number of four digits. -/
def four (n : Nat) : Text := [digit (n / 1000), digit (n / 100), digit (n / 10), digit n]

def dotText (d : Date) : Text := four d.year.toNat ++ '.' :: (two d.month ++ '.' :: two d.day)

/-- The stamp in the table. -/
def Stamp.text (s : Stamp) : Text :=
  four s.date.year.toNat ++ '-' :: (two s.date.month ++ '-' :: (two s.date.day ++ ' ' :: (two s.hour ++ ':' :: (two s.min ++ ':' :: two s.sec))))

def Alarm.row (a : Alarm) : AlarmRow := ⟨a.nodeIndex, a.name, a.stamp.text⟩

def Alarm.line (a : Alarm) : Text :=
  "Node index ".toList ++ a.nodeIndex ++ [' '] ++ ("name ".toList ++ a.name ++ [' ']) ++ ("time ".toList ++ a.stamp.text ++ [' ', '\n'])

/-- The table of alarms; its rows are numbered from one. -/
def tableOf (alarms : Nat → Option Alarm) : Nat → Option AlarmRow
  | 0 => none
  | i + 1 => (alarms i).map Alarm.row

/-- The interval of two dates in years of four digits. -/
structure Interval where
  first : Date
  last : Date
  first_nonneg : 0 ≤ first.year
  first_le : first.year ≤ 9999
  last_nonneg : 0 ≤ last.year
  last_le : last.year ≤ 9999

namespace Interval

def queryData (v : Interval) : Text := dotText v.first ++ ' ' :: dotText v.last

def Has (v : Interval) (a : Alarm) : Prop := ¬a.stamp.date.Before v.first ∧ ¬v.last.Before a.stamp.date

instance (v : Interval) (a : Alarm) : Decidable (v.Has a) := inferInstanceAs (Decidable (_ ∧ _))

end Interval

/-- The text for a row. -/
def lineAt (alarms : Nat → Option Alarm) (i : Nat) : Text := ((alarms i).map Alarm.line).getD []

/-- The query succeeds, and reports just the alarms of the interval, each once; the lengths are right, and the reply has room. -/
def Reports (v : Interval) (alarms : Nat → Option Alarm) (nextIndex : Nat) : Prop :=
  ∃ reply, processIDPToMFCBQueryAlarmHistory numberCheck zone 22 v.queryData (some (Nat.toDigits 10 nextIndex)) (tableOf alarms) = done (.ok reply) ∧
    (∃ is : List Nat, is.Nodup ∧ (∀ i, i ∈ is ↔ ∃ a, alarms i = some a ∧ v.Has a) ∧ reply.text = is.flatMap (lineAt alarms)) ∧
    reply.alarmHistoryLength = reply.text.length ∧ reply.valueLen = v.queryData.length + 3 + reply.text.length ∧ reply.valueLen ≤ replySize

/-- `actUtil_numberCheck` takes a string of digits that make a number in the range. -/
def TakesDigits : Prop := ∀ s : Text, s ≠ [] → (∀ ch ∈ s, ch.isDigit = true) → ∀ lo hi : Int, lo ≤ atoi s → atoi s ≤ hi → numberCheck s lo hi = true

/-- The numbers of the rows in front of the next index with an alarm of the interval. -/
def rowsOf (v : Interval) (alarms : Nat → Option Alarm) (nextIndex : Nat) : List Nat :=
  (List.range nextIndex).filter fun i => (alarms i).any fun a => v.Has a

/-- No alarm of the interval is in a row behind the next index or has the first second of the interval, and the text with its null has room. -/
structure Reportable (v : Interval) (alarms : Nat → Option Alarm) (nextIndex : Nat) : Prop where
  rows : ∀ i a, alarms i = some a → v.Has a → i < nextIndex
  midnight : ∀ i a, alarms i = some a → v.Has a → ¬(a.stamp.date = v.first ∧ a.stamp.hour = 0 ∧ a.stamp.min = 0 ∧ a.stamp.sec = 0)
  room : 24 + ((rowsOf v alarms nextIndex).map fun i => (lineAt alarms i).length).sum < replySize

end CodeFactory.Ehcc.AlarmHistory
