import CodeFactory.Tcm.Api
import CodeFactory.Tcm.Synchronised

/-!
# The library and the start say the same

What a call of the library sends for a value or a new row is worked out for every entry of the match table, and compared with what the
synchronisation at the start sends of a configuration that holds it.
-/

namespace CodeFactory.Tcm

open Tr69 Oal

/-! ## What is asked -/

/-- The numbers of the parameters of a route. -/
structure ParaNumbers.Route (N : ParaNumbers) : Prop where
  dstip : N.number .routeDstip = 1
  mask : N.number .routeMask = 2
  nexthoptypeinterface : N.number .routeNexthoptypeinterface = 4
  nexthoptypeip : N.number .routeNexthoptypeip = 5
  metric : N.number .routeMetric = 6

/-- The values that are admitted for an entry. They go into the buffers of both programs, and the password of an account is encoded. -/
def MatchParameter.Admits (N : ParaNumbers) (e : MatchParameter) (v : Text) : Prop :=
  v.length < maxLenOfValue ∧
  if isSwitch N e.conflibAppID e.conflibParID then v ∈ [enable, disable, ['1'], ['0']]
  else if e.conflibAppID = .app .route ∧ e.conflibParID = .para .routeNexthoptype then v ∈ [trueText, falseText, ['1'], ['0']]
  else if e.conflibAppID = .app .account ∧ e.conflibParID = .para .accountCpassword then
    ∃ text, revertPSW v = .done text ∧ judgeValidityOfValue e text = true
  else judgeValidityOfValue e v = true

/-- A change of the configuration: a value outside of the tables, a value of a row, or a new row with its values. -/
inductive Change where
  | plain (e : MatchParameter) (v : Text)
  | cell (e : MatchParameter) (row : Nat) (v : Text)
  | newRow (e : MatchParameter) (row : Nat) (value : Nat → Text)

/-- The entry belongs to the row of another one. -/
def MatchParameter.InTableOf (e d : MatchParameter) : Prop := d.conflibAppID = e.conflibAppID ∧ (d.IsInstance ∨ d.IsColumn)

instance (e d : MatchParameter) : Decidable (e.InTableOf d) := inferInstanceAs (Decidable (_ ∧ _))

namespace Change

variable (N : ParaNumbers)

/-- The change is for an entry of the match table and a row, with values that are admitted. -/
def Admitted : Change → Prop
  | plain e v => e ∈ gMatchParameters ∧ e.IsPlain ∧ e.Admits N v
  | cell e row v => e ∈ gMatchParameters ∧ e.IsColumn ∧ 1 ≤ row ∧ row ≤ 99 ∧ e.Admits N v
  | newRow e row value => e ∈ gMatchParameters ∧ e.IsInstance ∧ 1 ≤ row ∧ row ≤ 99 ∧
    ∀ d ∈ gMatchParameters, d.IsColumn → d.conflibAppID = e.conflibAppID → d.Admits N (value (N.ofParID d.conflibParID - 1).toNat)

/-- The configuration holds it. -/
def HeldBy (c : Configuration) : Change → Prop
  | plain e v => c.readParameter e.conflibAppID (N.ofParID e.conflibParID) = some v
  | cell e row v => c.readTableParameter e.conflibAppID row (N.ofParID e.conflibParID) = some v
  | newRow e row value => c.HasRow e row ∧ ∀ d ∈ gMatchParameters, d.IsColumn → d.conflibAppID = e.conflibAppID →
    c.readTableParameter d.conflibAppID row (N.ofParID d.conflibParID) = some (value (N.ofParID d.conflibParID - 1).toNat)

/-- The call that tells the agent. -/
def call : Change → Outcome Called
  | plain e v => tcmAgentApiSetValueByIndex N e.conflibAppID (-1) e.conflibParID v
  | cell e row v => tcmAgentApiSetValueByIndex N e.conflibAppID row e.conflibParID v
  | newRow e row value => tcmAgentApiAddObjectByIndex N e.conflibAppID row value

/-- The names of its place. -/
def names : Change → List Text
  | plain e _ => [e.name]
  | cell e row _ => [e.nameAt row]
  | newRow e row _ => (gMatchParameters.filter fun d => e.InTableOf d).map fun d => d.nameAt row

/-- The call succeeds and sends, but for the end of the initialisation, the messages that are sent at the start for the place. -/
def Agrees (start : List Msg) (ch : Change) : Prop :=
  ∃ packets, ch.call N = .done ⟨.success, packets⟩ ∧
    packets.flatten.filter (fun m => m.name.isSome) = start.filter fun m => m.name ∈ ch.names.map some

/-- On/off values and the type of the route of a new row are spelled as words, and the row is not behind those that are looked at. -/
def Matches : Change → Prop
  | plain e v => isSwitch N e.conflibAppID e.conflibParID = true → v = enable ∨ v = disable
  | cell e row _ => row < e.maxNumInstance
  | newRow e row value => row < e.maxNumInstance ∧ (e.conflibAppID = .app .route → value 2 = trueText ∨ value 2 = falseText)

end Change

variable {N : ParaNumbers} {c : Configuration} {wanIp : Option Text} {e : MatchParameter}

/-! ## The table -/

/-- What the programs rely on in an entry. -/
structure FitsApi (e : MatchParameter) : Prop where
  flags : e.IsPlain ∨ e.IsColumn →
    e.conflibAppID ≠ .flagAddDefaultObject ∧ e.conflibParID ≠ .flagAddDefaultObject ∧ e.conflibParID ≠ .flagInstanceID
  /-- On/off values and the type of a route are numbers. -/
  bool : e.IsPlain ∧ isApiSwitch e.conflibAppID e.conflibParID = true ∨
    e.conflibAppID = .app .route ∧ e.conflibParID = .para .routeNexthoptype → e.type = .bool ∧ e.min = 0 ∧ e.max = 1
  accessMode : e.IsPlain → e.conflibAppID = .app .accessMode → e.conflibParID = .para .accessmodeMode
  noSwitch : e.IsColumn → isApiSwitch e.conflibAppID e.conflibParID = false
  /-- Routes and accounts are in tables only. -/
  app : e.IsPlain → e.conflibAppID ≠ .app .route ∧ e.conflibAppID ≠ .app .account
  max : e.type = .string → e.max ≤ maxLenOfValue
  para : e.IsColumn → e.conflibAppID = .app .route →
    e.conflibParID ∈ ([.para .routeDstip, .para .routeMask, .para .routeNexthoptype, .para .routeNexthoptypeinterface,
      .para .routeNexthoptypeip, .para .routeMetric] : List ParID)

instance (e : MatchParameter) : Decidable (FitsApi e) :=
  decidable_of_iff (_ ∧ _ ∧ _ ∧ _ ∧ _ ∧ _ ∧ _)
    ⟨fun ⟨flags, bool, accessMode, noSwitch, app, max, para⟩ => ⟨flags, bool, accessMode, noSwitch, app, max, para⟩,
      fun h => ⟨h.flags, h.bool, h.accessMode, h.noSwitch, h.app, h.max, h.para⟩⟩

/-- A table whose entries the calls can be made for. -/
structure ApiTable where
  entries : List MatchParameter
  fits : ∀ e ∈ entries, FitsApi e
  /-- A parameter has one entry only. -/
  unique : entries.Pairwise fun d e => d.IsPlain ∨ d.IsColumn →
    ¬(d.conflibAppID = e.conflibAppID ∧ d.conflibRowID = e.conflibRowID ∧ d.conflibParID = e.conflibParID)
  /-- The places of the values of a route are those of its parameters. -/
  route : ∀ p ∈ ([.routeDstip, .routeMask, .routeNexthoptype, .routeNexthoptypeinterface, .routeNexthoptypeip,
    .routeMetric] : List ConflibPara), ∃ d ∈ entries, d.IsColumn ∧ d.conflibAppID = .app .route ∧ d.conflibParID = .para p

def apiTable : ApiTable where
  entries := gMatchParameters
  fits := by decide +kernel
  unique := by decide +kernel
  route := by decide +kernel

theorem fitsApi_of_mem {e : MatchParameter} (he : e ∈ gMatchParameters) : FitsApi e := apiTable.fits e he

theorem isSwitch_eq {appID : AppID} {parID : ParID} (hmode : appID = .app .accessMode → N.ofParID parID = 1) :
    isSwitch N appID parID = isApiSwitch appID parID := by
  unfold isSwitch isApiSwitch
  rw [decide_eq_decide, and_iff_left_of_imp hmode]
  exact Iff.of_eq (by ac_rfl)

theorem isSwitch_of_plain (he : e ∈ gMatchParameters) (h : e.IsPlain) :
    isSwitch N e.conflibAppID e.conflibParID = isApiSwitch e.conflibAppID e.conflibParID := by
  refine isSwitch_eq fun happ => ?_
  rw [(fitsApi_of_mem he).accessMode h happ, ParaNumbers.ofParID, N.accessMode]
  rfl

/-- No value of a table is on or off. -/
theorem not_isSwitch_column (he : e ∈ gMatchParameters) (h : e.IsColumn) : isSwitch N e.conflibAppID e.conflibParID = false := by
  have hnot := (fitsApi_of_mem he).noSwitch h
  rw [isSwitch_eq fun happ => ?_, hnot]
  simp [isApiSwitch, happ] at hnot

theorem nexthoptype_iff (hroute : N.Route) (he : e ∈ gMatchParameters) (h : e.IsColumn) (happ : e.conflibAppID = .app .route) :
    N.ofParID e.conflibParID = 3 ↔ e.conflibParID = .para .routeNexthoptype := by
  have hpara := (fitsApi_of_mem he).para h happ
  simp only [List.mem_cons, List.not_mem_nil, or_false] at hpara
  rcases hpara with hpar | hpar | hpar | hpar | hpar | hpar <;>
    simp [hpar, ParaNumbers.ofParID, hroute.dstip, hroute.mask, N.nextHopType, hroute.nexthoptypeinterface, hroute.nexthoptypeip,
      hroute.metric]

/-- The values of a route are in the first six places. -/
theorem number_of_route (hroute : N.Route) (he : e ∈ gMatchParameters) (h : e.IsColumn) (happ : e.conflibAppID = .app .route) :
    (N.ofParID e.conflibParID - 1).toNat < 6 := by
  have hpara := (fitsApi_of_mem he).para h happ
  simp only [List.mem_cons, List.not_mem_nil, or_false] at hpara
  rcases hpara with hpar | hpar | hpar | hpar | hpar | hpar <;>
    simp [hpar, ParaNumbers.ofParID, hroute.dstip, hroute.mask, N.nextHopType, hroute.nexthoptypeinterface, hroute.nexthoptypeip,
      hroute.metric]

theorem number_nonneg (he : e ∈ gMatchParameters) (h : e.IsPlain ∨ e.IsColumn) : 0 ≤ N.ofParID e.conflibParID := by
  obtain ⟨-, hdefault, -⟩ := (fitsApi_of_mem he).flags h
  have hstatus : e.conflibParID ≠ .flagStatusStyle := h.elim (fun h => h.2) fun h => h.2.2
  cases hpar : e.conflibParID with
  | flagAddDefaultObject => exact absurd hpar hdefault
  | flagStatusStyle => exact absurd hpar hstatus
  | flagInstanceID => exact Int.le_refl 0
  | para p => exact Int.natCast_nonneg _

/-! ## A value is sent -/

/-- A value that is in the range of the entry is the same for both programs. -/
theorem nodeValue_of_judge {text : Text} (h : judgeValidityOfValue e text = true) :
    ∃ node, nodeValue Tr69.stringToNum e.type text = some node ∧ nodeValue stringToNum e.type text = some node := by
  unfold nodeValue
  unfold judgeValidityOfValue at h
  split at h
  · rename_i htype
    rw [if_pos htype, if_pos htype]
    exact ⟨_, rfl, rfl⟩
  · rename_i htype
    split at h
    · rename_i num hnum
      have hne : text ≠ [] := by
        rintro rfl
        cases hnum
      rw [if_neg htype, if_neg htype, stringToNum, if_neg hne, hnum]
      exact ⟨_, rfl, rfl⟩
    · cases h

theorem packet_eq {m : Msg} (h : 4 + m.length ≤ maxSendMsgLen) : packet m = .done [m] := by
  rw [packet, Sender.put, if_pos]
  · rfl
  · rwa [Nat.zero_add]

/-- A value that is in the range of the entry is sent. -/
theorem tcmAgentApiSetValue_eq (he : e ∈ gMatchParameters) (name : Text) {text : Text} (hname : name.length ≤ 204)
    (h : judgeValidityOfValue e text = true) :
    ∃ node, nodeValue stringToNum e.type text = some node ∧ tcmAgentApiSetValue name text e.type = .done (some [.setValue name node]) := by
  obtain ⟨node, hnode, hstart⟩ := nodeValue_of_judge h
  refine ⟨node, hstart, ?_⟩
  have hlength : node.length ≤ 4 + (maxLenOfValue + 1) := by
    unfold nodeValue at hnode
    split at hnode
    · rename_i htype
      cases hnode
      rw [judgeValidityOfValue, if_pos htype, decide_eq_true_eq] at h
      have hmax := (fitsApi_of_mem he).max htype
      have hle : text.length ≤ maxLenOfValue := by omega
      simp only [NodeValue.length]
      omega
    · obtain ⟨num, -, rfl⟩ := Option.map_eq_some_iff.1 hnode
      cases e.type <;> simp [NodeValue.length, maxLenOfValue]
  have hroom : 4 + (Msg.setValue name node).length ≤ maxSendMsgLen := by
    simp only [Msg.length, maxSendMsgLen]
    rw [maxLenOfValue] at hlength
    omega
  rw [tcmAgentApiSetValue, hnode]
  simp only [packet_eq hroom]
  rfl

/-! ## What is made of a value -/

theorem copyValue_eq {v : Text} (h : v.length < maxLenOfValue) : copyValue v = .done v := if_pos h

theorem judge_bool (htype : e.type = .bool ∧ e.min = 0 ∧ e.max = 1) :
    judgeValidityOfValue e ['1'] = true ∧ judgeValidityOfValue e ['0'] = true := by
  obtain ⟨htype, hmin, hmax⟩ := htype
  have hone : Tr69.stringToNum ['1'] = some 1 := by decide
  have hzero : Tr69.stringToNum ['0'] = some 0 := by decide
  simp [judgeValidityOfValue, htype, hmin, hmax, hone, hzero]

/-- Outside of the tables both programs make the same of a value, when on or off is spelled as a word. -/
theorem valueTmp_plain {v : Text} (he : e ∈ gMatchParameters) (h : e.IsPlain) (hadmits : e.Admits N v)
    (hword : isSwitch N e.conflibAppID e.conflibParID = true → v = enable ∨ v = disable) :
    valueTmp e.conflibAppID e.conflibParID v = .done (some (plainText N e v)) ∧ judgeValidityOfValue e (plainText N e v) = true := by
  obtain ⟨hlength, hvalue⟩ := hadmits
  obtain ⟨hroute, haccount⟩ := (fitsApi_of_mem he).app h
  unfold valueTmp plainText
  rw [← isSwitch_of_plain he h]
  by_cases hswitch : isSwitch N e.conflibAppID e.conflibParID = true
  · rw [if_pos hswitch, if_pos hswitch]
    obtain ⟨hone, hzero⟩ := judge_bool ((fitsApi_of_mem he).bool (.inl ⟨h, (isSwitch_of_plain he h).symm.trans hswitch⟩))
    rcases hword hswitch with rfl | rfl
    · exact ⟨rfl, hone⟩
    · exact ⟨rfl, hzero⟩
  · rw [if_neg hswitch, if_neg fun hbad => hroute hbad.1, if_neg fun hbad => haccount hbad.1] at hvalue
    rw [if_neg hswitch, if_neg hswitch, if_neg fun hbad => hroute hbad.1, if_neg fun hbad => haccount hbad.1, copyValue_eq hlength]
    exact ⟨rfl, hvalue⟩

/-- For other spellings of on or off the library makes nothing. -/
theorem valueTmp_eq_none {v : Text} (he : e ∈ gMatchParameters) (h : e.IsPlain)
    (hswitch : isSwitch N e.conflibAppID e.conflibParID = true) (hword : ¬(v = enable ∨ v = disable)) :
    valueTmp e.conflibAppID e.conflibParID v = .done none := by
  rw [isSwitch_of_plain he h] at hswitch
  rw [not_or] at hword
  rw [valueTmp, if_pos hswitch, if_neg hword.1, if_neg hword.2]

/-- Both programs make the same of a value of a table. -/
theorem valueTmp_column {v : Text} (hroute : N.Route) (he : e ∈ gMatchParameters) (h : e.IsColumn) (hadmits : e.Admits N v) :
    ∃ text, columnText N e v = .done text ∧ valueTmp e.conflibAppID e.conflibParID v = .done (some text) ∧
      judgeValidityOfValue e text = true := by
  obtain ⟨hlength, hvalue⟩ := hadmits
  rw [not_isSwitch_column he h, if_neg Bool.false_ne_true] at hvalue
  unfold columnText valueTmp
  rw [(fitsApi_of_mem he).noSwitch h, if_neg Bool.false_ne_true]
  by_cases hnexthop : e.conflibAppID = .app .route ∧ e.conflibParID = .para .routeNexthoptype
  · have hnumber := (nexthoptype_iff hroute he h hnexthop.1).2 hnexthop.2
    have haccount : ¬(e.conflibAppID = .app .account ∧ e.conflibParID = .para .accountCpassword) := by
      rw [hnexthop.1]
      exact fun hbad => nomatch hbad.1
    obtain ⟨hone, hzero⟩ := judge_bool ((fitsApi_of_mem he).bool (.inr hnexthop))
    rw [if_pos hnexthop] at hvalue
    rw [if_neg haccount, if_pos hnexthop, if_pos ⟨hnexthop.1, hnumber⟩]
    simp only [List.mem_cons, List.not_mem_nil, or_false] at hvalue
    rcases hvalue with rfl | rfl | rfl | rfl
    · exact ⟨_, rfl, rfl, hone⟩
    · exact ⟨_, rfl, rfl, hzero⟩
    · exact ⟨_, rfl, rfl, hone⟩
    · exact ⟨_, rfl, rfl, hzero⟩
  · have hnumber : ¬(e.conflibAppID = .app .route ∧ N.ofParID e.conflibParID = 3) := fun hbad =>
      hnexthop ⟨hbad.1, (nexthoptype_iff hroute he h hbad.1).1 hbad.2⟩
    rw [if_neg hnexthop] at hvalue
    rw [if_neg hnexthop, copyValue_eq hlength]
    by_cases hpassword : e.conflibAppID = .app .account ∧ e.conflibParID = .para .accountCpassword
    · rw [if_pos hpassword] at hvalue
      obtain ⟨text, htext, hjudge⟩ := hvalue
      rw [if_pos hpassword, if_pos hpassword, if_neg hnumber, Outcome.bind_done, htext]
      exact ⟨text, rfl, rfl, hjudge⟩
    · rw [if_neg hpassword] at hvalue
      rw [if_neg hpassword, if_neg hpassword, if_neg hnumber]
      exact ⟨v, rfl, rfl, hvalue⟩

/-! ## The calls of the library -/

/-- The entries before the one that is asked for are passed over. -/
theorem setLoop_append {appID : AppID} {rowID : Int} {parID : ParID} {tmp : Option Text} {xs : List MatchParameter}
    (h : ∀ d ∈ xs, ¬(d.conflibAppID = appID ∧ d.conflibRowID = (if rowID = -1 then .flagNoRow else .flagTemplateRow) ∧
      d.conflibParID = parID)) (ys : List MatchParameter) :
    setLoop appID rowID parID tmp (xs ++ ys) = setLoop appID rowID parID tmp ys := by
  induction xs with
  | nil => rfl
  | cons d xs ih =>
    have hd := h d List.mem_cons_self
    rw [List.cons_append, setLoop]
    by_cases hrow : rowID = -1
    · rw [if_pos hrow] at hd
      rw [if_neg fun hbad => hd ⟨hbad.2.2.1, hbad.2.1, hbad.2.2.2⟩, if_neg fun hbad => hbad.1 hrow]
      exact ih fun z hz => h z (List.mem_cons_of_mem _ hz)
    · rw [if_neg hrow] at hd
      rw [if_neg fun hbad => hrow hbad.1, if_neg fun hbad => hd ⟨hbad.2.2.1, hbad.2.1, hbad.2.2.2⟩]
      exact ih fun z hz => h z (List.mem_cons_of_mem _ hz)

/-- The loop comes to the entry of the parameter. -/
theorem setLoop_eq (he : e ∈ gMatchParameters) (h : e.IsPlain ∨ e.IsColumn) (rowID : Int) (tmp : Option Text)
    (hrow : e.conflibRowID = if rowID = -1 then .flagNoRow else .flagTemplateRow) :
    ∃ ys, setLoop e.conflibAppID rowID e.conflibParID tmp gMatchParameters =
      setLoop e.conflibAppID rowID e.conflibParID tmp (e :: ys) := by
  obtain ⟨xs, ys, hsplit⟩ := List.append_of_mem he
  have hunique : gMatchParameters.Pairwise _ := apiTable.unique
  rw [hsplit, List.pairwise_append] at hunique
  refine ⟨ys, ?_⟩
  rw [hsplit]
  refine setLoop_append (fun d hd hbad => ?_) _
  rw [← hrow] at hbad
  refine hunique.2.2 d hd e List.mem_cons_self ?_ hbad
  unfold MatchParameter.IsPlain MatchParameter.IsColumn
  rw [hbad.2.1, hbad.2.2]
  exact h

/-- The arguments pass the checks. -/
theorem tcmAgentApiSetValueByIndex_eq (he : e ∈ gMatchParameters) (h : e.IsPlain ∨ e.IsColumn) {rowID : Int}
    (hrow : rowID = -1 ∨ 1 ≤ rowID) (v : Text) :
    tcmAgentApiSetValueByIndex N e.conflibAppID rowID e.conflibParID v =
      (valueTmp e.conflibAppID e.conflibParID v).bind fun tmp => setLoop e.conflibAppID rowID e.conflibParID tmp gMatchParameters := by
  rw [tcmAgentApiSetValueByIndex, if_neg]
  have happ := ((fitsApi_of_mem he).flags h).1
  have hnumber := number_nonneg (N := N) he h
  rintro (hbad | hbad | hbad | hbad)
  · exact happ hbad
  · omega
  · omega
  · omega

/-- A value outside of the tables is set. -/
theorem call_plain {v text : Text} (he : e ∈ gMatchParameters) (h : e.IsPlain)
    (htmp : valueTmp e.conflibAppID e.conflibParID v = .done (some text)) (hjudge : judgeValidityOfValue e text = true) :
    ∃ node, nodeValue stringToNum e.type text = some node ∧ (Change.plain e v).call N =
      .done ⟨.success, [.setValue e.name node] :: if e.conflibAppID = .app .tr069 then [[.initEnd]] else []⟩ := by
  have hname := (wellNamed_name he).2
  obtain ⟨node, hnode, hset⟩ := tcmAgentApiSetValue_eq he e.name (by omega) hjudge
  obtain ⟨ys, hloop⟩ := setLoop_eq he (.inl h) (-1) (some text) (by rw [if_pos rfl]; exact h.1)
  refine ⟨node, hnode, ?_⟩
  rw [Change.call, tcmAgentApiSetValueByIndex_eq he (.inl h) (.inl rfl), htmp, Outcome.bind_done, hloop, setLoop,
    if_pos ⟨rfl, h.1, rfl, rfl⟩]
  simp only [follow, Outcome.bind_done, if_pos hjudge, setAndReturn, hset]
  rfl

theorem call_plain_none {v : Text} (he : e ∈ gMatchParameters) (h : e.IsPlain)
    (htmp : valueTmp e.conflibAppID e.conflibParID v = .done none) : (Change.plain e v).call N = .undefined := by
  obtain ⟨ys, hloop⟩ := setLoop_eq he (.inl h) (-1) none (by rw [if_pos rfl]; exact h.1)
  rw [Change.call, tcmAgentApiSetValueByIndex_eq he (.inl h) (.inl rfl), htmp, Outcome.bind_done, hloop, setLoop,
    if_pos ⟨rfl, h.1, rfl, rfl⟩]
  rfl

/-- A value of a row is set. -/
theorem call_column {v text : Text} {row : Nat} (he : e ∈ gMatchParameters) (h : e.IsColumn) (hpos : 1 ≤ row) (hle : row ≤ 99)
    (htmp : valueTmp e.conflibAppID e.conflibParID v = .done (some text)) (hjudge : judgeValidityOfValue e text = true) :
    ∃ node, nodeValue stringToNum e.type text = some node ∧
      tcmAgentApiSetValueByIndex N e.conflibAppID row e.conflibParID v = .done ⟨.success, [[.setValue (e.nameAt row) node]]⟩ := by
  have hrow : ¬(row : Int) = -1 := by omega
  obtain ⟨node, hnode, hset⟩ := tcmAgentApiSetValue_eq he _ (MatchParameter.length_nameAt_le he hle) hjudge
  obtain ⟨ys, hloop⟩ := setLoop_eq he (.inr h) row (some text) (by rw [if_neg hrow]; exact h.1)
  refine ⟨node, hnode, ?_⟩
  rw [tcmAgentApiSetValueByIndex_eq he (.inr h) (.inr (by omega)), htmp, Outcome.bind_done, hloop, setLoop,
    if_neg fun hbad => hrow hbad.1, if_pos ⟨hrow, h.1, rfl, rfl⟩]
  simp only [follow, Outcome.bind_done, if_pos hjudge, h.createParameterName_eq he hpos hle, hset]
  rfl

end CodeFactory.Tcm
