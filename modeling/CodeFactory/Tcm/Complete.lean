import CodeFactory.Tcm.StartUp

/-!
# What the agent is told at the start

The messages of the synchronisation are worked out here for every configuration: which of them there are for a row, and when all of
them go into the packets.
-/

namespace CodeFactory.Tcm

open Tr69

variable (N : ParaNumbers) (c : Configuration) (wanIp : Option Text)

/-! ## What is asked -/

/-- The row is in the table. -/
def Configuration.HasRow (e : MatchParameter) (k : Nat) : Prop := (c.readTableParameter e.conflibAppID k 1).isSome

/-- A row has all columns, and the values have the types of their entries. -/
structure Configuration.Typed : Prop where
  columns : ∀ d ∈ gMatchParameters, d.IsColumn → ∀ k,
    ((c.readTableParameter d.conflibAppID k (N.ofParID d.conflibParID)).isSome ↔ c.HasRow d k)
  plainValues : ∀ e ∈ gMatchParameters, e.IsPlain → ∀ v, c.readParameter e.conflibAppID (N.ofParID e.conflibParID) = some v →
    (nodeValue stringToNum e.type (plainText N e v)).isSome
  columnValues : ∀ d ∈ gMatchParameters, d.IsColumn → ∀ k v text,
    c.readTableParameter d.conflibAppID k (N.ofParID d.conflibParID) = some v → columnText N d v = .done text →
      (nodeValue stringToNum d.type text).isSome

/-- Besides, the rows are numbered from one to `maxNumInstance`. -/
structure Configuration.WellFormed : Prop extends c.Typed N where
  rows : ∀ e ∈ gMatchParameters, e.IsInstance → ∀ k, c.HasRow e k → 1 ≤ k ∧ k ≤ e.maxNumInstance

/-- The messages with a name. -/
def named (ms : List Msg) (name : Text) : List Msg := ms.filter fun m => m.name = some name

/-- The messages have all rows and values of the configuration, and nothing of a row that is not there. -/
structure Complete (ms : List Msg) : Prop where
  objects : ∀ e ∈ gMatchParameters, e.IsInstance → ∀ k, c.HasRow e k → named ms (e.nameAt k) = [.addObject (e.nameAt k)]
  columns : ∀ e ∈ gMatchParameters, e.IsInstance → ∀ k, c.HasRow e k →
    ∀ d ∈ gMatchParameters, d.IsColumn → d.conflibAppID = e.conflibAppID →
      ∃ v text value, c.readTableParameter d.conflibAppID k (N.ofParID d.conflibParID) = some v ∧ columnText N d v = .done text ∧
        nodeValue stringToNum d.type text = some value ∧ named ms (d.nameAt k) = [.setValue (d.nameAt k) value] ∧
        [.addObject (e.nameAt k), .setValue (d.nameAt k) value].Sublist ms
  plain : ∀ e ∈ gMatchParameters, e.IsPlain → ∀ v, c.readParameter e.conflibAppID (N.ofParID e.conflibParID) = some v →
    ∃ value, nodeValue stringToNum e.type (plainText N e v) = some value ∧ named ms e.name = [.setValue e.name value]
  nothing : ∀ e ∈ gMatchParameters, e.IsInstance → ∀ k, ¬c.HasRow e k →
    named ms (e.nameAt k) = [] ∧
    ∀ d ∈ gMatchParameters, d.IsColumn → d.conflibAppID = e.conflibAppID → named ms (d.nameAt k) = []

/-- The synchronisation succeeds, and what it sends is complete. -/
def Synchronised : Prop := ∃ sent, buildTcmAgentParameters N c wanIp = .done ⟨0, sent⟩ ∧ Complete N c sent.flatten

/-! ## The messages of a configuration -/

/-- What is put for an entry, and a row of its table. -/
def putAt (e : MatchParameter) (k : Nat) : Option Put :=
  if e.IsInstance then
    if (c.readTableParameter e.conflibAppID k 1).isNone then none else some ⟨e.name, [], .addObject (e.nameAt k)⟩
  else if e.IsColumn then
    (c.readTableParameter e.conflibAppID k (N.ofParID e.conflibParID)).bind fun result =>
      match columnText N e result with
      | .done text => (nodeValue stringToNum e.type text).map fun value => ⟨e.name, text, .setValue (e.nameAt k) value⟩
      | _ => none
  else if e.IsPlain then
    (c.readParameter e.conflibAppID (N.ofParID e.conflibParID)).bind fun result =>
      (nodeValue stringToNum e.type (plainText N e result)).map fun value => ⟨e.name, result, .setValue e.name value⟩
  else if e.IsDefaultObject then some ⟨e.name, [], .addObject e.name⟩
  else none

/-- The rows that are looked at for an entry. -/
def rowsOf (e : MatchParameter) : List Nat :=
  if e.IsInstance then List.range' 1 e.maxNumInstance else if e.IsColumn then List.range e.maxNumInstance else [0]

def entryPuts (e : MatchParameter) : List Put := (rowsOf e).filterMap (putAt N c e)

/-- What is put for the address. -/
def urlPuts : List Put :=
  (wanIp.map fun wanIp =>
    (⟨connectionRequestURL.toList, urlText wanIp, .setValue connectionRequestURL.toList (.text (urlText wanIp))⟩ : Put)).toList

def allPuts : List Put := gMatchParameters.flatMap (entryPuts N c) ++ urlPuts wanIp

/-- Cut where `judge_msg_total_length` says, the messages go into the buffer, with the four octets of the length. -/
def Fits : Nat → List Put → Prop
  | _, [] => True
  | used, p :: ps =>
    let used := if judgeMsgTotalLength used p.name p.value then used else 0
    4 + (used + p.msg.length) ≤ maxSendMsgLen ∧ Fits (used + p.msg.length) ps

instance decidableFits : (used : Nat) → (ps : List Put) → Decidable (Fits used ps)
  | _, [] => isTrue trivial
  | used, p :: ps =>
    have := decidableFits ((if judgeMsgTotalLength used p.name p.value then used else 0) + p.msg.length) ps
    inferInstanceAs (Decidable (_ ∧ _))

/-- No table has its last row, the passwords can be decoded, the address leaves room for the port, and the packets fit. -/
structure Synchronisable : Prop where
  lastRow : ∀ e ∈ gMatchParameters, e.IsInstance → ¬c.HasRow e e.maxNumInstance
  passwords : ∀ k v, c.readTableParameter (.app .account) k (N.number .accountCpassword) = some v → ∃ text, revertPSW v = .done text
  address : ∀ ip, wanIp = some ip → ip.length < 15
  packets : Fits 0 (allPuts N c wanIp)

/-! ## Messages are put -/

/-- The messages that have been put. -/
def Sender.messages (s : Sender) : List Msg := s.sent.flatten ++ s.buf

theorem Sender.makeRoom_messages (s : Sender) (name value : Text) : (s.makeRoom name value).messages = s.messages := by
  unfold makeRoom notify messages
  split
  · rfl
  · simp

/-- Messages that fit are put one after the other. -/
theorem forEach_run {ps : List Put} {s : Sender} (h : Fits s.totalLen ps) :
    ∃ t, Outcome.forEach Put.run ps s = .done (.ok t) ∧ t.messages = s.messages ++ ps.map Put.msg := by
  induction ps generalizing s with
  | nil => exact ⟨s, rfl, by simp⟩
  | cons p ps ih =>
    have hused : (s.makeRoom p.name p.value).totalLen = if judgeMsgTotalLength s.totalLen p.name p.value then s.totalLen else 0 := by
      unfold Sender.makeRoom Sender.notify
      split <;> rfl
    obtain ⟨hroom, hrest⟩ := h
    rw [← hused] at hroom hrest
    obtain ⟨t, ht, hmessages⟩ := ih (s := ⟨(s.makeRoom p.name p.value).sent, (s.makeRoom p.name p.value).buf ++ [p.msg],
      (s.makeRoom p.name p.value).totalLen + p.msg.length⟩) hrest
    refine ⟨t, ?_, ?_⟩
    · rw [Outcome.forEach, Put.run, Sender.put, if_pos hroom]
      exact ht
    · rw [hmessages, List.map_cons, ← s.makeRoom_messages p.name p.value]
      simp [Sender.messages]

/-- Messages that are put fit. -/
theorem fits_of_forEach_run {ps : List Put} {s : Sender} {r : Except (List (List Msg)) Sender}
    (h : Outcome.forEach Put.run ps s = .done r) : Fits s.totalLen ps := by
  induction ps generalizing s with
  | nil => trivial
  | cons p ps ih =>
    have hused : (s.makeRoom p.name p.value).totalLen = if judgeMsgTotalLength s.totalLen p.name p.value then s.totalLen else 0 := by
      unfold Sender.makeRoom Sender.notify
      split <;> rfl
    rw [Outcome.forEach, Put.run, Sender.put] at h
    split at h
    · rename_i hroom
      have hrest := ih h
      rw [hused] at hroom hrest
      exact ⟨hroom, hrest⟩
    · cases h

/-! ## The rounds of the loop -/

/-- The passwords that are read can be decoded. -/
def Decodable : Prop :=
  ∀ k < maxNumOfRuleInstance, ∀ v, c.readTableParameter (.app .account) k (N.number .accountCpassword) = some v →
    ∃ text, revertPSW v = .done text

variable {N c}

theorem forEach_run_toList (p : Option Put) (s : Sender) :
    Outcome.forEach Put.run p.toList s = match p with | none => .done (.ok s) | some p => p.run s := by
  cases p with
  | none => rfl
  | some p => exact Outcome.andThen_done _

theorem forEach_rows {e : MatchParameter} {f : Nat → Sender → Progress} {rows : List Nat}
    (h : ∀ k ∈ rows, ∀ s, f k s = Outcome.forEach Put.run (putAt N c e k).toList s) (s : Sender) :
    Outcome.forEach f rows s = Outcome.forEach Put.run (rows.filterMap (putAt N c e)) s := by
  rw [List.filterMap_eq_flatMap_toList, ← Outcome.forEach_forEach]
  exact Outcome.forEach_congr h s

variable {e : MatchParameter}

theorem buildEntry_instance (h : e.IsInstance) (he : e ∈ gMatchParameters) (s : Sender) :
    buildEntry N c e s = Outcome.forEach Put.run (entryPuts N c e) s := by
  obtain ⟨hdefault, hplain, hcolumn⟩ := h.others he
  unfold buildEntry addDefaultObject setPlainValue setColumnValues
  simp only [if_neg hdefault, if_neg hplain, if_neg hcolumn, Outcome.andThen_ok, Outcome.andThen_done]
  unfold addInstanceObjects
  rw [if_pos h, entryPuts, rowsOf, if_pos h]
  refine forEach_rows (fun k _ s => ?_) s
  rw [forEach_run_toList, putAt, if_pos h, h.constructInstanceName_eq he]
  split <;> rfl

theorem buildEntry_plain (h : e.IsPlain) (he : e ∈ gMatchParameters) (htyped : c.Typed N) (s : Sender) :
    buildEntry N c e s = Outcome.forEach Put.run (entryPuts N c e) s := by
  obtain ⟨hdefault, hinstance, hcolumn⟩ := h.others he
  unfold buildEntry addDefaultObject addInstanceObjects setColumnValues
  simp only [if_neg hdefault, if_neg hinstance, if_neg hcolumn, Outcome.andThen_ok, Outcome.andThen_done]
  unfold setPlainValue
  rw [if_pos h, entryPuts, rowsOf, if_neg hinstance, if_neg hcolumn, List.filterMap_eq_flatMap_toList, List.flatMap_singleton,
    forEach_run_toList, putAt, if_neg hinstance, if_neg hcolumn, if_pos h]
  cases hread : c.readParameter e.conflibAppID (N.ofParID e.conflibParID) with
  | none => rfl
  | some v =>
    obtain ⟨value, hvalue⟩ := Option.isSome_iff_exists.1 (htyped.plainValues e he h v hread)
    simp only [Option.bind_some, putValue, hvalue, Option.map_some]
    rfl

theorem buildEntry_default (h : e.IsDefaultObject) (he : e ∈ gMatchParameters) (s : Sender) :
    buildEntry N c e s = Outcome.forEach Put.run (entryPuts N c e) s := by
  obtain ⟨hinstance, hplain, hcolumn⟩ := h.others he
  unfold buildEntry addInstanceObjects setPlainValue setColumnValues
  simp only [if_neg hinstance, if_neg hplain, if_neg hcolumn, Outcome.andThen_done]
  unfold addDefaultObject
  rw [if_pos h, entryPuts, rowsOf, if_neg hinstance, if_neg hcolumn, List.filterMap_eq_flatMap_toList, List.flatMap_singleton,
    forEach_run_toList, putAt, if_neg hinstance, if_neg hcolumn, if_neg hplain, if_pos h]

/-- A round for a column that is decoded. -/
theorem buildEntry_column (h : e.IsColumn) (he : e ∈ gMatchParameters) (htyped : c.Typed N)
    (hdecode : ∀ k < e.maxNumInstance, ∀ v, c.readTableParameter e.conflibAppID k (N.ofParID e.conflibParID) = some v →
      ∃ text, columnText N e v = .done text) (s : Sender) :
    buildEntry N c e s = Outcome.forEach Put.run (entryPuts N c e) s := by
  obtain ⟨hdefault, hinstance, hplain⟩ := h.others he
  unfold buildEntry addDefaultObject addInstanceObjects setPlainValue
  simp only [if_neg hdefault, if_neg hinstance, if_neg hplain, Outcome.andThen_ok]
  unfold setColumnValues
  rw [if_pos h, entryPuts, rowsOf, if_neg hinstance, if_pos h]
  refine forEach_rows (fun k hk s => ?_) s
  rw [forEach_run_toList, putAt, if_neg hinstance, if_pos h]
  cases hread : c.readTableParameter e.conflibAppID k (N.ofParID e.conflibParID) with
  | none => rfl
  | some v =>
    obtain ⟨text, htext⟩ := hdecode k (List.mem_range.1 hk) v hread
    obtain ⟨value, hvalue⟩ := Option.isSome_iff_exists.1 (htyped.columnValues e he h k v text hread htext)
    simp only [Option.bind_some, htext, Outcome.bind_done, h.getInstanceParName_eq he, putValue, hvalue, Option.map_some]
    rfl

/-- A round of the loop puts the messages for the entry. -/
theorem buildEntry_eq (he : e ∈ gMatchParameters) (htyped : c.Typed N)
    (hdecode : e.IsColumn → ∀ k < e.maxNumInstance, ∀ v, c.readTableParameter e.conflibAppID k (N.ofParID e.conflibParID) = some v →
      ∃ text, columnText N e v = .done text) (s : Sender) :
    buildEntry N c e s = Outcome.forEach Put.run (entryPuts N c e) s := by
  by_cases hinstance : e.IsInstance
  · exact buildEntry_instance hinstance he s
  by_cases hcolumn : e.IsColumn
  · exact buildEntry_column hcolumn he htyped (hdecode hcolumn) s
  by_cases hplain : e.IsPlain
  · exact buildEntry_plain hplain he htyped s
  by_cases hdefault : e.IsDefaultObject
  · exact buildEntry_default hdefault he s
  -- what only has a status is not put
  unfold buildEntry addDefaultObject addInstanceObjects setPlainValue setColumnValues entryPuts rowsOf putAt
  simp only [if_neg hinstance, if_neg hcolumn, if_neg hplain, if_neg hdefault, Outcome.andThen_ok]
  rfl

/-- A round of the loop that goes on has put the messages for the entry, whatever the configuration is like. -/
theorem buildEntry_ok (he : e ∈ gMatchParameters) {s t : Sender} (hok : buildEntry N c e s = .done (.ok t)) :
    Outcome.forEach Put.run (entryPuts N c e) s = .done (.ok t) := by
  by_cases hinstance : e.IsInstance
  · rwa [buildEntry_instance hinstance he] at hok
  by_cases hcolumn : e.IsColumn
  · unfold buildEntry addDefaultObject addInstanceObjects setPlainValue at hok
    simp only [if_neg (hcolumn.others he).1, if_neg hinstance, if_neg (hcolumn.others he).2.2, Outcome.andThen_ok] at hok
    unfold setColumnValues at hok
    rw [if_pos hcolumn] at hok
    rw [entryPuts, rowsOf, if_neg hinstance, if_pos hcolumn, List.filterMap_eq_flatMap_toList, ← Outcome.forEach_forEach]
    refine Outcome.forEach_ok_of (fun k _ s t hround => ?_) hok
    rw [forEach_run_toList, putAt, if_neg hinstance, if_pos hcolumn]
    cases hread : c.readTableParameter e.conflibAppID k (N.ofParID e.conflibParID) with
    | none =>
      rw [hread] at hround
      exact hround
    | some v =>
      simp only [hread, hcolumn.getInstanceParName_eq he] at hround
      obtain ⟨text, htext, hput⟩ := Outcome.bind_eq_done.1 hround
      unfold putValue at hput
      simp only [Option.bind_some, htext]
      cases hvalue : nodeValue stringToNum e.type text with
      | none => simp [hvalue] at hput
      | some value =>
        simp only [hvalue] at hput
        exact hput
  by_cases hplain : e.IsPlain
  · unfold buildEntry addDefaultObject addInstanceObjects setColumnValues at hok
    simp only [if_neg (hplain.others he).1, if_neg hinstance, if_neg hcolumn, Outcome.andThen_ok, Outcome.andThen_done] at hok
    unfold setPlainValue at hok
    rw [if_pos hplain] at hok
    rw [entryPuts, rowsOf, if_neg hinstance, if_neg hcolumn, List.filterMap_eq_flatMap_toList, List.flatMap_singleton,
      forEach_run_toList, putAt, if_neg hinstance, if_neg hcolumn, if_pos hplain]
    cases hread : c.readParameter e.conflibAppID (N.ofParID e.conflibParID) with
    | none =>
      rw [hread] at hok
      exact hok
    | some v =>
      simp only [hread, putValue] at hok
      simp only [Option.bind_some]
      cases hvalue : nodeValue stringToNum e.type (plainText N e v) with
      | none => simp [hvalue] at hok
      | some value =>
        simp only [hvalue] at hok
        exact hok
  by_cases hdefault : e.IsDefaultObject
  · rwa [buildEntry_default hdefault he] at hok
  unfold buildEntry addDefaultObject addInstanceObjects setPlainValue setColumnValues at hok
  unfold entryPuts rowsOf putAt
  simp only [if_neg hinstance, if_neg hcolumn, if_neg hplain, if_neg hdefault, Outcome.andThen_ok] at hok ⊢
  exact hok

/-- The values of the columns are converted where the passwords are decoded. -/
theorem Decodable.columnText (h : Decodable N c) (hmax : e.maxNumInstance = maxNumOfRuleInstance) {k : Nat}
    (hk : k < e.maxNumInstance) {v : Text} (hread : c.readTableParameter e.conflibAppID k (N.ofParID e.conflibParID) = some v) :
    ∃ text, columnText N e v = .done text := by
  unfold Tcm.columnText
  by_cases hpassword : e.conflibAppID = .app .account ∧ e.conflibParID = .para .accountCpassword
  · obtain ⟨happ, hpar⟩ := hpassword
    rw [happ, hpar] at hread
    obtain ⟨text, htext⟩ := h k (hmax ▸ hk) v hread
    refine ⟨text, ?_⟩
    rw [if_pos ⟨happ, hpar⟩, if_neg (fun hroute => by rw [happ] at hroute; exact nomatch hroute.1), htext]
  · exact ⟨_, if_neg hpassword⟩

/-- **The loop** puts the messages of the configuration. -/
theorem forEach_buildEntry (htyped : c.Typed N) (hdecode : Decodable N c) (s : Sender) :
    Outcome.forEach (buildEntry N c) gMatchParameters s = Outcome.forEach Put.run (gMatchParameters.flatMap (entryPuts N c)) s := by
  rw [← Outcome.forEach_forEach]
  refine Outcome.forEach_congr (fun e he s => ?_) s
  refine buildEntry_eq he htyped (fun hcolumn k hk v hread => ?_) s
  exact hdecode.columnText ((wellFlagged_of_mem he).2.2.1 (.inr hcolumn)) hk hread

theorem forEach_run_ne_error (ps : List Put) (s : Sender) (sent : List (List Msg)) :
    Outcome.forEach Put.run ps s ≠ .done (.error sent) := by
  refine Outcome.forEach_ne_error (fun p _ s sent h => ?_) s sent
  unfold Put.run at h
  obtain ⟨t, -, ht⟩ := Outcome.map_eq_done.1 h
  cases ht

/-- A round for a column, of a row that is there. -/
theorem columnRound_eq (h : e.IsColumn) (he : e ∈ gMatchParameters) (htyped : c.Typed N) {k : Nat} {v : Text}
    (hread : c.readTableParameter e.conflibAppID k (N.ofParID e.conflibParID) = some v) (s : Sender) {r : Except (List (List Msg)) Sender}
    (hdone : ((columnText N e v).bind fun result =>
      match getInstanceParName e.name k with
      | none => .done (.error s.sent)
      | some instanceParName => putValue e instanceParName result result s) = .done r) :
    (∃ text, columnText N e v = .done text) ∧ ∃ t, r = .ok t := by
  obtain ⟨text, htext, hput⟩ := Outcome.bind_eq_done.1 hdone
  obtain ⟨value, hvalue⟩ := Option.isSome_iff_exists.1 (htyped.columnValues e he h k v text hread htext)
  simp only [h.getInstanceParName_eq he, putValue, hvalue] at hput
  obtain ⟨t, -, ht⟩ := Outcome.map_eq_done.1 hput
  exact ⟨⟨text, htext⟩, t, ht.symm⟩

/-- A column is never given up, and is done only when its values can be converted. -/
theorem buildEntry_column_done (h : e.IsColumn) (he : e ∈ gMatchParameters) (htyped : c.Typed N) {s : Sender}
    {r : Except (List (List Msg)) Sender} (hdone : buildEntry N c e s = .done r) :
    (∃ t, r = .ok t) ∧ ∀ k < e.maxNumInstance, ∀ v, c.readTableParameter e.conflibAppID k (N.ofParID e.conflibParID) = some v →
      ∃ text, columnText N e v = .done text := by
  obtain ⟨hdefault, hinstance, hplain⟩ := h.others he
  unfold buildEntry addDefaultObject addInstanceObjects setPlainValue at hdone
  simp only [if_neg hdefault, if_neg hinstance, if_neg hplain, Outcome.andThen_ok] at hdone
  unfold setColumnValues at hdone
  rw [if_pos h] at hdone
  have hgoes : ∀ k ∈ List.range e.maxNumInstance, ∀ (s : Sender) (sent : List (List Msg)),
      (match c.readTableParameter e.conflibAppID k (N.ofParID e.conflibParID) with
      | none => .done (.ok s)
      | some result =>
        (columnText N e result).bind fun result =>
          match getInstanceParName e.name k with
          | none => .done (.error s.sent)
          | some instanceParName => putValue e instanceParName result result s : Progress) ≠ .done (.error sent) := by
    intro k _ s sent hround
    cases hread : c.readTableParameter e.conflibAppID k (N.ofParID e.conflibParID) with
    | none =>
      rw [hread] at hround
      cases hround
    | some v =>
      rw [hread] at hround
      obtain ⟨-, t, ht⟩ := columnRound_eq h he htyped hread s hround
      cases ht
  constructor
  · cases r with
    | ok t => exact ⟨t, rfl⟩
    | error sent => exact absurd hdone (Outcome.forEach_ne_error hgoes s sent)
  · intro k hk v hread
    obtain ⟨s', r', hround⟩ := Outcome.exists_done_of_forEach hgoes hdone (List.mem_range.2 hk)
    simp only [hread] at hround
    exact (columnRound_eq h he htyped hread s' hround).1

/-- The loop is done only when the passwords can be decoded. -/
theorem decodable_of_done (htyped : c.Typed N) {s : Sender} {r : Except (List (List Msg)) Sender}
    (hdone : Outcome.forEach (buildEntry N c) gMatchParameters s = .done r) : Decodable N c := by
  have hpassword : ∃ e ∈ gMatchParameters, e.IsColumn ∧ e.conflibAppID = .app .account ∧ e.conflibParID = .para .accountCpassword ∧
      e.maxNumInstance = maxNumOfRuleInstance := by
    decide +kernel
  obtain ⟨e, he, hcolumn, happ, hpar, hmax⟩ := hpassword
  have hgoes : ∀ e ∈ gMatchParameters, ∀ s sent, buildEntry N c e s ≠ .done (.error sent) := by
    intro e he s sent hround
    by_cases hcolumn : e.IsColumn
    · obtain ⟨⟨t, ht⟩, -⟩ := buildEntry_column_done hcolumn he htyped hround
      cases ht
    · rw [buildEntry_eq he htyped (fun h => absurd h hcolumn)] at hround
      exact forEach_run_ne_error _ s sent hround
  obtain ⟨s', r', hround⟩ := Outcome.exists_done_of_forEach hgoes hdone he
  intro k hk v hread
  obtain ⟨text, htext⟩ := (buildEntry_column_done hcolumn he htyped hround).2 k (hmax ▸ hk) v (by rw [happ, hpar]; exact hread)
  refine ⟨text, ?_⟩
  unfold columnText at htext
  rwa [if_pos ⟨happ, hpar⟩, if_neg (fun hroute => by rw [happ] at hroute; exact nomatch hroute.1)] at htext

end CodeFactory.Tcm
