import CodeFactory.Ehcc.AlarmHistory
import Mathlib.Algebra.Order.BigOperators.Group.List
import Mathlib.Algebra.Order.Group.Nat

/-!
# What a query of the alarm history reports

Which rows are reported is worked out from the order of the dates, and when the reply has room from the lengths of the texts.
-/

namespace CodeFactory.Ehcc.AlarmHistory

open Conf (atoi)
open Outcome
open Tr69 (Text)

variable {numberCheck : Text → Int → Int → Bool} {zone : Int} {s str text : Text} {pos len n : Nat} {v : Interval} {alarms : Nat → Option Alarm}

/-! ## Numbers -/

theorem isDigit_digit (n : Nat) : (digit n).isDigit = true := by
  have hall : ∀ d < 10, (Nat.digitChar d).isDigit = true := by decide
  exact hall (n % 10) (Nat.mod_lt n (by decide))

theorem toNat_digit (n : Nat) : (digit n).toNat - 48 = n % 10 := by
  have hall : ∀ d < 10, (Nat.digitChar d).toNat - 48 = d := by decide
  exact hall (n % 10) (Nat.mod_lt n (by decide))

theorem isDigit_of_mem_two : ∀ ch ∈ two n, ch.isDigit = true := by
  simp [two, isDigit_digit]

theorem isDigit_of_mem_four : ∀ ch ∈ four n, ch.isDigit = true := by
  simp [four, isDigit_digit]

theorem atoi_two (h : n < 100) : atoi (two n) = n := by
  have hne : two n ≠ [] := List.cons_ne_nil _ _
  rw [Conf.atoi_of_digits hne isDigit_of_mem_two]
  simp only [two, List.foldl_cons, List.foldl_nil, toNat_digit]
  omega

theorem atoi_four (h : n < 10000) : atoi (four n) = n := by
  have hne : four n ≠ [] := List.cons_ne_nil _ _
  rw [Conf.atoi_of_digits hne isDigit_of_mem_four]
  simp only [four, List.foldl_cons, List.foldl_nil, toNat_digit]
  omega

theorem numberAt_two (hcheck : TakesDigits numberCheck) (hn : n < 100) (hstr : (s.drop pos).take len = two n) :
    numberAt numberCheck s pos len 99 = some (n : Int) := by
  have hvalue := atoi_two hn
  rw [numberAt, hstr, if_pos (hcheck (two n) (List.cons_ne_nil _ _) isDigit_of_mem_two 0 99 (by omega) (by omega)), hvalue]

theorem numberAt_four (hcheck : TakesDigits numberCheck) (hn : n < 10000) (hstr : (s.drop pos).take len = four n) :
    numberAt numberCheck s pos len 9999 = some (n : Int) := by
  have hvalue := atoi_four hn
  rw [numberAt, hstr, if_pos (hcheck (four n) (List.cons_ne_nil _ _) isDigit_of_mem_four 0 9999 (by omega) (by omega)), hvalue]

/-! ## Times -/

/-- The time of a day, without what is the same for all. -/
theorem mktime_date (zone : Int) (d : Date) (day hour min sec : Int) : mktime zone ⟨d.year - 1900, d.month - 1, day, hour, min, sec⟩ =
    86400 * (daysBeforeYear d.year + daysBeforeMonth (isLeap d.year) d.month + day - dayNumber 1970 1 1) + 3600 * hour + 60 * min + sec -
      zone := by
  have hpos := d.month_pos
  have hle := d.month_le
  have hyear : d.year - 1900 + 1900 + ((d.month : Int) - 1) / 12 = d.year := by omega
  have hmonth : (((d.month : Int) - 1) % 12).toNat + 1 = d.month := by omega
  rw [mktime]
  dsimp only
  rw [hyear, hmonth, dayNumber]

theorem day_lt (d : Date) : d.day < 100 := by
  have hle := d.day_le
  have hdays : monthDays (isLeap d.year) d.month ≤ 31 := by
    unfold monthDays
    repeat' split
    all_goals omega
  omega

theorem alarmTt_text (hcheck : TakesDigits numberCheck) (t : Stamp) : alarmTt numberCheck zone t.text =
    some (mktime zone ⟨t.date.year - 1900, t.date.month - 1, t.date.day, t.hour, t.min, t.sec⟩) := by
  have hyear := t.year_nonneg
  have hle := t.year_le
  have hmonth := t.date.month_le
  have hday := day_lt t.date
  have hhour := t.hour_lt
  have hmin := t.min_lt
  have hsec := t.sec_lt
  have hcast : ((t.date.year.toNat : Nat) : Int) = t.date.year := by omega
  rw [alarmTt, numberAt_four hcheck (n := t.date.year.toNat) (by omega) rfl, Option.bind_some,
    numberAt_two hcheck (n := t.date.month) (by omega) rfl, Option.bind_some, numberAt_two hcheck hday rfl, Option.bind_some,
    numberAt_two hcheck (n := t.hour) (by omega) rfl, Option.bind_some,
    numberAt_two hcheck (n := t.min) (by omega) rfl, Option.bind_some, numberAt_two hcheck (n := t.sec) (by omega) rfl, Option.map_some, hcast]

/-- The times that a query asks for. -/
theorem separate_queryData (hcheck : TakesDigits numberCheck) (v : Interval) :
    separateAlarmQueryStartandEndTime numberCheck zone v.queryData =
      some (mktime zone ⟨v.first.year - 1900, v.first.month - 1, v.first.day, 0, 0, 0⟩,
        mktime zone ⟨v.last.year - 1900, v.last.month - 1, v.last.day + 1, 0, 0, 0⟩) := by
  have hfirst := v.first_nonneg
  have hfirst' := v.first_le
  have hlast := v.last_nonneg
  have hlast' := v.last_le
  have hmonth := v.first.month_le
  have hmonth' := v.last.month_le
  have hcast : ((v.first.year.toNat : Nat) : Int) = v.first.year := by omega
  have hcast' : ((v.last.year.toNat : Nat) : Int) = v.last.year := by omega
  rw [separateAlarmQueryStartandEndTime, numberAt_four hcheck (n := v.first.year.toNat) (by omega) rfl, Option.bind_some,
    numberAt_two hcheck (n := v.first.month) (by omega) rfl, Option.bind_some, numberAt_two hcheck (day_lt v.first) rfl, Option.bind_some,
    numberAt_four hcheck (n := v.last.year.toNat) (by omega) rfl, Option.bind_some, numberAt_two hcheck (n := v.last.month) (by omega) rfl,
    Option.bind_some, numberAt_two hcheck (day_lt v.last) rfl, Option.map_some, hcast, hcast']

/-- The check takes the alarms of the interval, but for the first second. -/
theorem checkAlarmTimeInDB_text (hcheck : TakesDigits numberCheck) (v : Interval) (a : Alarm) :
    checkAlarmTimeInDB numberCheck zone a.stamp.text (mktime zone ⟨v.first.year - 1900, v.first.month - 1, v.first.day, 0, 0, 0⟩)
        (mktime zone ⟨v.last.year - 1900, v.last.month - 1, v.last.day + 1, 0, 0, 0⟩) = true ↔
      v.Has a ∧ ¬(a.stamp.date = v.first ∧ a.stamp.hour = 0 ∧ a.stamp.min = 0 ∧ a.stamp.sec = 0) := by
  have hhour := a.stamp.hour_lt
  have hmin := a.stamp.min_lt
  have hsec := a.stamp.sec_lt
  have hfirst : a.stamp.date = v.first ↔ a.stamp.date.number = v.first.number := ⟨congrArg Date.number, Date.number_inj⟩
  rw [checkAlarmTimeInDB, if_pos ⟨rfl, rfl⟩, alarmTt_text hcheck]
  dsimp only
  rw [decide_eq_true_eq, mktime_date, mktime_date, mktime_date, Interval.Has, ← Date.number_lt_iff, ← Date.number_lt_iff, hfirst]
  have hn (d : Date) : d.number = daysBeforeYear d.year + daysBeforeMonth (isLeap d.year) d.month + d.day := rfl
  rw [hn, hn, hn]
  omega

/-! ## The text -/

variable {startTime endTime : Int} {front : Nat} {a : Alarm}

/-- The check takes the alarm of the row. -/
def taken (numberCheck : Text → Int → Int → Bool) (zone : Int) (alarms : Nat → Option Alarm) (startTime endTime : Int) (i : Nat) : Bool :=
  (alarms i).any fun a => checkAlarmTimeInDB numberCheck zone a.stamp.text startTime endTime

/-- Three texts have room if they have together. -/
theorem sprintf_three (front : Nat) (text x y z : Text) :
    ((sprintf front text x).bind fun text => (sprintf front text y).bind fun text => sprintf front text z) =
      if front + (text ++ (x ++ y ++ z)).length < replySize then done (text ++ (x ++ y ++ z)) else undefined := by
  unfold sprintf
  simp only [List.length_append]
  split
  · rw [bind_done, List.length_append]
    split
    · rw [bind_done]
      simp only [List.length_append, List.append_assoc]
      split
      · rw [if_pos (by omega)]
      · rw [if_neg (by omega)]
    · rw [bind_undefined, if_neg (by omega)]
  · rw [bind_undefined, if_neg (by omega)]

theorem reportRow_eq {i : Nat} (ha : alarms i = some a) (text : Text) :
    reportRow numberCheck zone (tableOf alarms) startTime endTime front text i =
      if checkAlarmTimeInDB numberCheck zone a.stamp.text startTime endTime then
        if front + (text ++ a.line).length < replySize then done (text ++ a.line) else undefined
      else done text := by
  have hrow : tableOf alarms (i + 1) = some a.row := congrArg (Option.map Alarm.row) ha
  rw [reportRow, hrow]
  exact congrArg (fun x => if checkAlarmTimeInDB numberCheck zone a.stamp.text startTime endTime then x else done text)
    (sprintf_three front text _ _ _)

/-- The rows that are taken are printed, as long as there is room. -/
theorem foldl_reportRow (alarms : Nat → Option Alarm) (l : List Nat) (text : Text) :
    foldl (reportRow numberCheck zone (tableOf alarms) startTime endTime front) text l =
      if l.filter (taken numberCheck zone alarms startTime endTime) = [] ∨
          front + (text ++ (l.filter (taken numberCheck zone alarms startTime endTime)).flatMap (lineAt alarms)).length < replySize then
        done (text ++ (l.filter (taken numberCheck zone alarms startTime endTime)).flatMap (lineAt alarms))
      else undefined := by
  induction l generalizing text with
  | nil => simp [foldl]
  | cons i l ih =>
    rw [foldl]
    cases ha : alarms i with
    | none =>
      have hrow : tableOf alarms (i + 1) = none := congrArg (Option.map Alarm.row) ha
      have hnot : taken numberCheck zone alarms startTime endTime i = false := by simp [taken, ha]
      rw [reportRow, hrow, List.filter_cons_of_neg (by simp [hnot])]
      exact ih text
    | some a =>
      have htaken : taken numberCheck zone alarms startTime endTime i = checkAlarmTimeInDB numberCheck zone a.stamp.text startTime endTime := by
        rw [taken, ha, Option.any_some]
      have hline : lineAt alarms i = a.line := by rw [lineAt, ha, Option.map_some, Option.getD_some]
      rw [reportRow_eq ha, ← htaken]
      cases hcheck : taken numberCheck zone alarms startTime endTime i with
      | false =>
        rw [List.filter_cons_of_neg (by simp [hcheck])]
        exact ih text
      | true =>
        rw [List.filter_cons_of_pos hcheck, List.flatMap_cons, hline, if_pos rfl, ← List.append_assoc]
        by_cases hroom : front + (text ++ a.line).length < replySize
        · rw [if_pos hroom, bind_done, ih]
          by_cases hnil : l.filter (taken numberCheck zone alarms startTime endTime) = []
          · rw [if_pos (.inl hnil), if_pos (.inr (by rw [hnil, List.flatMap_nil, List.append_nil]; exact hroom))]
          · refine if_congr ?_ rfl rfl
            exact or_congr (iff_of_false hnil (List.cons_ne_nil _ _)) Iff.rfl
        · rw [if_neg hroom, bind_undefined, if_neg]
          rintro (hnil | hmore)
          · exact absurd hnil (List.cons_ne_nil _ _)
          · rw [List.length_append] at hmore
            omega

/-! ## When the query reports the alarms -/

theorem notMem_null_of_isDigit {s : Text} (h : ∀ ch ∈ s, ch.isDigit = true) : ∀ ch ∈ s, ch ≠ '\x00' := by
  rintro ch hch rfl
  exact absurd (h _ hch) (by decide)

theorem queryData_clear (v : Interval) : v.queryData.takeWhile (· ≠ '\x00') = v.queryData := by
  have hdot (d : Date) : ∀ ch ∈ dotText d, ch ≠ '\x00' := by
    intro ch hch
    simp only [dotText, List.mem_append, List.mem_cons] at hch
    rcases hch with hyear | rfl | hmonth | rfl | hday
    · exact notMem_null_of_isDigit isDigit_of_mem_four ch hyear
    · decide
    · exact notMem_null_of_isDigit isDigit_of_mem_two ch hmonth
    · decide
    · exact notMem_null_of_isDigit isDigit_of_mem_two ch hday
  refine List.takeWhile_eq_self_iff.2 fun ch hch => decide_eq_true ?_
  simp only [Interval.queryData, List.mem_append, List.mem_cons] at hch
  rcases hch with hfirst | rfl | hlast
  · exact hdot v.first ch hfirst
  · decide
  · exact hdot v.last ch hlast

/-- A query of two dates goes through the rows. -/
theorem process_eq (zone : Int) (hcheck : TakesDigits numberCheck) (v : Interval) (alarms : Nat → Option Alarm) (hn : n ≤ 999) :
    processIDPToMFCBQueryAlarmHistory numberCheck zone 22 v.queryData (some (Nat.toDigits 10 n)) (tableOf alarms) =
      (foldl (reportRow numberCheck zone (tableOf alarms) (mktime zone ⟨v.first.year - 1900, v.first.month - 1, v.first.day, 0, 0, 0⟩)
        (mktime zone ⟨v.last.year - 1900, v.last.month - 1, v.last.day + 1, 0, 0, 0⟩) 24) [] (List.range n)).map fun text =>
          .ok ⟨v.queryData, text.length % 65536, text, 24 + text.length⟩ := by
  have hlength : v.queryData.length = 21 := rfl
  have hformat : checkAlarmHistoryQueryDataFormat v.queryData = true := decide_eq_true ⟨rfl, rfl, rfl, rfl, rfl, rfl⟩
  have hdigits : ∀ ch ∈ Nat.toDigits 10 n, ch.isDigit = true := fun ch hch => Nat.isDigit_of_mem_toDigits (by decide) (by decide) hch
  have hatoi := Conf.atoi_toDigits n
  have hshort : (Nat.toDigits 10 n).length ≤ 3 := (Nat.length_toDigits_le_iff (by decide) (by decide)).2 (by omega)
  have hindex : numberCheck (Nat.toDigits 10 n) 0 999 = true := hcheck _ Nat.toDigits_ne_nil hdigits 0 999 (by omega) (by omega)
  rw [processIDPToMFCBQueryAlarmHistory, if_neg (by decide), hlength, if_neg (by decide), queryData_clear]
  dsimp only
  rw [hformat, if_neg (by decide), separate_queryData hcheck]
  dsimp only
  rw [if_neg (by omega), hindex, if_neg (by decide), hatoi, Int.toNat_natCast]

theorem taken_iff (hcheck : TakesDigits numberCheck) {i : Nat} :
    taken numberCheck zone alarms (mktime zone ⟨v.first.year - 1900, v.first.month - 1, v.first.day, 0, 0, 0⟩)
        (mktime zone ⟨v.last.year - 1900, v.last.month - 1, v.last.day + 1, 0, 0, 0⟩) i = true ↔
      ∃ a, alarms i = some a ∧ v.Has a ∧ ¬(a.stamp.date = v.first ∧ a.stamp.hour = 0 ∧ a.stamp.min = 0 ∧ a.stamp.sec = 0) := by
  rw [taken, Option.any_eq_true]
  exact exists_congr fun a => and_congr_right fun _ => checkAlarmTimeInDB_text hcheck v a

theorem Alarm.line_ne_nil (a : Alarm) : a.line ≠ [] := by
  unfold Alarm.line
  exact List.append_ne_nil_of_right_ne_nil _ (List.append_ne_nil_of_right_ne_nil _ (List.cons_ne_nil _ _))

theorem lineAt_ne_nil {i : Nat} (ha : alarms i = some a) : lineAt alarms i ≠ [] := by
  rw [lineAt, ha]
  exact a.line_ne_nil

/-- Rows that have the text of more rows are all of them. -/
theorem mem_of_flatMap_eq {is js : List Nat} (hjs : js.Nodup) (hsub : js ⊆ is) (hline : ∀ i ∈ is, lineAt alarms i ≠ [])
    (heq : is.flatMap (lineAt alarms) = js.flatMap (lineAt alarms)) {i : Nat} (hi : i ∈ is) : i ∈ js := by
  by_contra hnot
  have hsubperm : (i :: js).Subperm is := List.subperm_of_subset (List.nodup_cons.2 ⟨hnot, hjs⟩) (List.cons_subset.2 ⟨hi, hsub⟩)
  obtain ⟨l, hperm, hsublist⟩ := hsubperm
  have hsum := (hsublist.map fun i => (lineAt alarms i).length).sum_le_sum fun _ _ => Nat.zero_le _
  have hlen := congrArg List.length heq
  rw [List.length_flatMap, List.length_flatMap] at hlen
  rw [(hperm.map fun i => (lineAt alarms i).length).sum_eq, List.map_cons, List.sum_cons, hlen] at hsum
  have hpos := List.length_pos_iff.2 (hline i hi)
  omega

/-- **The alarms are reported** if and only if none of the interval is in a row behind the next index or has the first second of the interval,
and the text has room with its null. -/
theorem reports_iff (hcheck : TakesDigits numberCheck) (zone : Int) (v : Interval) (alarms : Nat → Option Alarm) (hn : n ≤ 999) :
    Reports numberCheck zone v alarms n ↔ Reportable v alarms n := by
  have hrun := process_eq zone hcheck v alarms hn
  rw [foldl_reportRow] at hrun
  generalize hstart : mktime zone ⟨v.first.year - 1900, v.first.month - 1, v.first.day, 0, 0, 0⟩ = startTime at hrun
  generalize hend : mktime zone ⟨v.last.year - 1900, v.last.month - 1, v.last.day + 1, 0, 0, 0⟩ = endTime at hrun
  have htaken : ∀ i, taken numberCheck zone alarms startTime endTime i = true ↔
      ∃ a, alarms i = some a ∧ v.Has a ∧ ¬(a.stamp.date = v.first ∧ a.stamp.hour = 0 ∧ a.stamp.min = 0 ∧ a.stamp.sec = 0) := by
    intro i
    rw [← hstart, ← hend]
    exact taken_iff hcheck
  generalize htake : taken numberCheck zone alarms startTime endTime = take at hrun htaken
  rw [List.nil_append] at hrun
  have hrows : ∀ i, i ∈ rowsOf v alarms n ↔ i < n ∧ ∃ a, alarms i = some a ∧ v.Has a := by
    intro i
    rw [rowsOf, List.mem_filter, List.mem_range, Option.any_eq_true]
    simp only [decide_eq_true_eq]
  constructor
  · rintro ⟨reply, hdone, ⟨is, hnodup, hmem, htext⟩, -, -, -⟩
    rw [hrun] at hdone
    obtain ⟨text, hfold, hreply⟩ := map_eq_done.1 hdone
    obtain rfl := Except.ok.inj hreply
    split at hfold
    · rename_i hroom
      obtain rfl := Outcome.done.inj hfold
      have hsub : (List.range n).filter take ⊆ is := by
        intro i hi
        obtain ⟨a, ha, hhas, -⟩ := (htaken i).1 (List.mem_filter.1 hi).2
        exact (hmem i).2 ⟨a, ha, hhas⟩
      have hall : ∀ i ∈ is, i < n ∧ take i = true := by
        intro i hi
        have hline : ∀ i ∈ is, lineAt alarms i ≠ [] := by
          intro i hi
          obtain ⟨a, ha, -⟩ := (hmem i).1 hi
          exact lineAt_ne_nil ha
        have hi' := mem_of_flatMap_eq (List.nodup_range.filter take) hsub hline htext.symm hi
        exact ⟨List.mem_range.1 (List.mem_filter.1 hi').1, (List.mem_filter.1 hi').2⟩
      have hsame : rowsOf v alarms n = (List.range n).filter take := by
        refine List.filter_congr fun i hi => Bool.eq_iff_iff.2 ⟨fun hany => ?_, fun htake => ?_⟩
        · have hi' := (hrows i).1 (List.mem_filter.2 ⟨hi, hany⟩)
          exact (hall i ((hmem i).2 hi'.2)).2
        · obtain ⟨a, ha, hhas, -⟩ := (htaken i).1 htake
          rw [Option.any_eq_true]
          exact ⟨a, ha, decide_eq_true hhas⟩
      refine ⟨fun i a ha hhas => (hall i ((hmem i).2 ⟨a, ha, hhas⟩)).1, fun i a ha hhas => ?_, ?_⟩
      · obtain ⟨a', ha', -, hlate⟩ := (htaken i).1 (hall i ((hmem i).2 ⟨a, ha, hhas⟩)).2
        obtain rfl := Option.some.inj (ha.symm.trans ha')
        exact hlate
      · rw [hsame, ← List.length_flatMap]
        rcases hroom with hnil | hroom
        · rw [hnil, List.flatMap_nil, List.length_nil]
          decide
        · exact hroom
    · cases hfold
  · rintro ⟨hbefore, hlate, hroom⟩
    have hsame : (List.range n).filter take = rowsOf v alarms n := by
      refine List.filter_congr fun i hi => Bool.eq_iff_iff.2 ⟨fun htake => ?_, fun hany => ?_⟩
      · obtain ⟨a, ha, hhas, -⟩ := (htaken i).1 htake
        rw [Option.any_eq_true]
        exact ⟨a, ha, decide_eq_true hhas⟩
      · obtain ⟨a, ha, hhas⟩ := (Option.any_eq_true _ _).1 hany
        exact (htaken i).2 ⟨a, ha, of_decide_eq_true hhas, hlate i a ha (of_decide_eq_true hhas)⟩
    rw [hsame] at hrun
    rw [← List.length_flatMap] at hroom
    rw [if_pos (.inr hroom)] at hrun
    have hsize : replySize = 3072 := rfl
    refine ⟨_, hrun, ⟨rowsOf v alarms n, List.nodup_range.filter _, fun i => ?_, rfl⟩, ?_, rfl, ?_⟩
    · rw [hrows]
      exact ⟨fun h => h.2, fun h => ⟨hbefore i _ h.choose_spec.1 h.choose_spec.2, h⟩⟩
    · exact Nat.mod_eq_of_lt (by omega)
    · exact Nat.le_of_lt hroom

/-- A check of strings of digits. -/
def digitsCheck (s : Text) (lo hi : Int) : Bool := s ≠ [] ∧ s.all Char.isDigit = true ∧ lo ≤ atoi s ∧ atoi s ≤ hi

theorem takesDigits_digitsCheck : TakesDigits digitsCheck := fun _ hne hdigits _ _ hlo hhi =>
  decide_eq_true ⟨hne, List.all_eq_true.2 hdigits, hlo, hhi⟩

/-- The second of January 2011. -/
def january : Date := ⟨2011, 1, 2, by decide, by decide, by decide, by decide⟩

/-- The query for this day. -/
def oneDay : Interval := ⟨january, january, by decide, by decide, by decide, by decide⟩

/-- One alarm of this day, at so many seconds past midnight. -/
def oneAlarm (sec : Nat) (hsec : sec < 60) (i : Nat) : Option Alarm :=
  if i = 0 then some ⟨['7'], ['d', 'o', 'o', 'r'], january, 0, 0, sec, by decide, by decide, by decide, by decide, hsec⟩ else none

/-- An alarm in the second second of the day. -/
theorem reports_second : Reports digitsCheck 0 oneDay (oneAlarm 1 (by decide)) 1 := by
  refine (reports_iff takesDigits_digitsCheck 0 oneDay (oneAlarm 1 (by decide)) (by decide)).2 ⟨fun i a ha _ => ?_, fun i a ha _ => ?_, ?_⟩
  · unfold oneAlarm at ha
    split at ha
    · omega
    · cases ha
  · unfold oneAlarm at ha
    split at ha
    · cases ha
      exact fun h => absurd h.2.2.2 (by decide)
    · cases ha
  · decide

/-- An alarm in the first second of the day. -/
theorem not_reports_first : ¬Reports digitsCheck 0 oneDay (oneAlarm 0 (by decide)) 1 := by
  rintro ⟨reply, hdone, ⟨is, -, hmem, htext⟩, -⟩
  have hrun : processIDPToMFCBQueryAlarmHistory digitsCheck 0 22 oneDay.queryData (some (Nat.toDigits 10 1))
      (tableOf (oneAlarm 0 (by decide))) = done (.ok ⟨oneDay.queryData, 0, [], 24⟩) := by rfl
  rw [hrun] at hdone
  cases hdone
  have hzero : 0 ∈ is := (hmem 0).2 ⟨_, rfl, by decide, by decide⟩
  exact lineAt_ne_nil rfl (List.flatMap_eq_nil_iff.1 htext.symm 0 hzero)

end CodeFactory.Ehcc.AlarmHistory
