import CodeFactory.Tcm.Agreement

/-!
# Calls of the library and the start

The messages for a new row are worked out, and every call of the library is compared with the synchronisation at the start.
-/

namespace CodeFactory.Tcm

open Tr69 Oal

variable {N : ParaNumbers} {c : Configuration} {wanIp : Option Text} {e : MatchParameter} {row : Nat} {value : Nat → Text}

/-! ## A new row -/

/-- The values of a route are admitted, place by place. -/
theorem length_of_route (hroute : N.Route)
    (hadmits : ∀ d ∈ gMatchParameters, d.IsColumn → d.conflibAppID = .app .route →
      d.Admits N (value (N.ofParID d.conflibParID - 1).toNat)) : ∀ i < 6, (value i).length < maxLenOfValue := by
  have hplace : ∀ p ∈ ([.routeDstip, .routeMask, .routeNexthoptype, .routeNexthoptypeinterface, .routeNexthoptypeip,
      .routeMetric] : List ConflibPara), (value (N.number p - 1)).length < maxLenOfValue := by
    intro p hp
    obtain ⟨d, hd, hcolumn, happ, hpar⟩ := apiTable.route p hp
    have hlength := (hadmits d hd hcolumn happ).1
    have hindex : (N.ofParID d.conflibParID - 1).toNat = N.number p - 1 := by
      rw [hpar, ParaNumbers.ofParID]
      omega
    rwa [hindex] at hlength
  simp only [List.forall_mem_cons, hroute.dstip, hroute.mask, N.nextHopType, hroute.nexthoptypeinterface, hroute.nexthoptypeip,
    hroute.metric] at hplace
  intro i hi
  obtain ⟨h₀, h₁, h₂, h₃, h₄, h₅, -⟩ := hplace
  obtain rfl | rfl | rfl | rfl | rfl | rfl : i = 0 ∨ i = 1 ∨ i = 2 ∨ i = 3 ∨ i = 4 ∨ i = 5 := by omega
  · exact h₀
  · exact h₁
  · exact h₂
  · exact h₃
  · exact h₄
  · exact h₅

/-- The values of a route are written, when its type is spelled as a word. -/
theorem valueConvert_eq (hlength : ∀ i < 6, (value i).length < maxLenOfValue) (hword : value 2 = trueText ∨ value 2 = falseText) :
    valueConvert value = .done ((List.range 6).map fun i => if i = 2 then routeValue (value 2) else value i) := by
  have hcopy : ∀ text : Text, Outcome.mapList (fun i => if i = 2 then .done text else copyValue (value i)) [0, 1, 2, 3, 4, 5] =
      .done ((List.range 6).map fun i => if i = 2 then text else value i) := by
    intro text
    rw [show [0, 1, 2, 3, 4, 5] = List.range 6 from rfl]
    refine Outcome.mapList_eq_done fun i hi => ?_
    split
    · rfl
    · exact copyValue_eq (hlength i (List.mem_range.1 hi))
  rcases hword with htrue | hfalse
  · rw [valueConvert, if_pos htrue, hcopy, htrue]
    rfl
  · rw [valueConvert, if_neg (by rw [hfalse]; decide), if_pos hfalse, hcopy, hfalse]
    rfl

/-- The values that are used for a new row. -/
def convertedOf (appID : AppID) (value : Nat → Text) : List Text :=
  if appID = .app .route then (List.range 6).map fun i => if i = 2 then routeValue (value 2) else value i else []

/-- The packets for an entry of a row. -/
def rowPackets (N : ParaNumbers) (c : Configuration) (e : MatchParameter) (row : Nat) (d : MatchParameter) : List (List Msg) :=
  if e.InTableOf d then ((putAt N c d row).map fun p => [p.msg]).toList else []

theorem putAt_column {d : MatchParameter} {v text : Text} {node : NodeValue} (h : d.IsColumn)
    (hread : c.readTableParameter d.conflibAppID row (N.ofParID d.conflibParID) = some v) (htext : columnText N d v = .done text)
    (hnode : nodeValue stringToNum d.type text = some node) :
    putAt N c d row = some ⟨d.name, text, .setValue (d.nameAt row) node⟩ := by
  rw [putAt, if_neg h.not_isInstance, if_pos h, hread]
  simp only [Option.bind_some, htext, hnode, Option.map_some]

theorem setValue_column {d : MatchParameter} {v : Text} (hroute : N.Route) (hd : d ∈ gMatchParameters) (h : d.IsColumn) (hpos : 1 ≤ row)
    (hle : row ≤ 99) (hadmits : d.Admits N v)
    (hread : c.readTableParameter d.conflibAppID row (N.ofParID d.conflibParID) = some v) :
    ∃ p, putAt N c d row = some p ∧
      tcmAgentApiSetValueByIndex N d.conflibAppID row d.conflibParID v = .done ⟨.success, [[p.msg]]⟩ := by
  obtain ⟨text, htext, htmp, hjudge⟩ := valueTmp_column hroute hd h hadmits
  obtain ⟨node, hnode, hcall⟩ := call_column hd h hpos hle htmp hjudge
  exact ⟨_, putAt_column h hread htext hnode, hcall⟩

/-- The converted type of a route is told as the word is. -/
theorem setValue_routeValue {d : MatchParameter} {v : Text} (hd : d ∈ gMatchParameters) (h : d.IsColumn)
    (hnexthop : d.conflibAppID = .app .route ∧ d.conflibParID = .para .routeNexthoptype) (hword : v = trueText ∨ v = falseText)
    (rowID : Int) :
    tcmAgentApiSetValueByIndex N d.conflibAppID rowID d.conflibParID (routeValue v) =
      tcmAgentApiSetValueByIndex N d.conflibAppID rowID d.conflibParID v := by
  have htmp : valueTmp d.conflibAppID d.conflibParID (routeValue v) = valueTmp d.conflibAppID d.conflibParID v := by
    unfold valueTmp
    rw [(fitsApi_of_mem hd).noSwitch h, if_neg Bool.false_ne_true, if_neg Bool.false_ne_true, if_pos hnexthop, if_pos hnexthop]
    rcases hword with rfl | rfl <;> rfl
  unfold tcmAgentApiSetValueByIndex
  rw [htmp]

/-- What the library uses for a value of a new row is told as the value is. -/
theorem rowValue_eq {d : MatchParameter} (hroute : N.Route) (hd : d ∈ gMatchParameters) (h : d.IsColumn)
    (hword : d.conflibAppID = .app .route → value 2 = trueText ∨ value 2 = falseText) (rowID : Int) :
    ∃ v, rowValue d.conflibAppID (convertedOf d.conflibAppID value) value (N.ofParID d.conflibParID - 1).toNat = .done v ∧
      tcmAgentApiSetValueByIndex N d.conflibAppID rowID d.conflibParID v =
        tcmAgentApiSetValueByIndex N d.conflibAppID rowID d.conflibParID (value (N.ofParID d.conflibParID - 1).toNat) := by
  unfold rowValue convertedOf
  by_cases happ : d.conflibAppID = .app .route
  · have hnumber := number_of_route hroute hd h happ
    have hnexthop := nexthoptype_iff hroute hd h happ
    have hpos := number_nonneg (N := N) hd (.inr h)
    rw [if_pos happ, if_pos happ, List.getElem?_map, List.getElem?_range hnumber]
    refine ⟨if (N.ofParID d.conflibParID - 1).toNat = 2 then routeValue (value 2) else value (N.ofParID d.conflibParID - 1).toNat,
      rfl, ?_⟩
    by_cases hindex : (N.ofParID d.conflibParID - 1).toNat = 2
    · rw [if_pos hindex, hindex]
      exact setValue_routeValue hd h ⟨happ, hnexthop.1 (by omega)⟩ (hword happ) rowID
    · rw [if_neg hindex]
  · rw [if_neg happ]
    exact ⟨_, rfl, rfl⟩

/-- A round of the loop sends what there is for the entry in the row. -/
theorem addEntry_eq {d : MatchParameter} (hroute : N.Route) (hd : d ∈ gMatchParameters) (hpos : 1 ≤ row) (hle : row ≤ 99)
    (hadmits : d.IsColumn → d.conflibAppID = e.conflibAppID → d.Admits N (value (N.ofParID d.conflibParID - 1).toNat))
    (hrow : c.HasRow e row)
    (hread : d.IsColumn → d.conflibAppID = e.conflibAppID →
      c.readTableParameter d.conflibAppID row (N.ofParID d.conflibParID) = some (value (N.ofParID d.conflibParID - 1).toNat))
    (hword : e.conflibAppID = .app .route → value 2 = trueText ∨ value 2 = falseText) (sent : List (List Msg)) :
    addEntry N e.conflibAppID row (convertedOf e.conflibAppID value) value d sent = .done (.ok (sent ++ rowPackets N c e row d)) := by
  by_cases happ : d.conflibAppID = e.conflibAppID
  case neg =>
    have hpackets : rowPackets N c e row d = [] := if_neg fun hbad => happ hbad.1
    rw [hpackets, addEntry, addInstance, if_neg fun hbad => happ hbad.2.2, Outcome.andThen_ok, addValue,
      if_neg fun hbad => happ hbad.2.1, List.append_nil]
  by_cases hinstance : d.IsInstance
  · have hrow' : c.HasRow d row := by
      rw [Configuration.HasRow, happ]
      exact hrow
    have hpackets : rowPackets N c e row d = [[.addObject (d.nameAt row)]] := by
      rw [rowPackets, if_pos ⟨happ, .inl hinstance⟩, putAt_instance hinstance hrow']
      rfl
    have hroom : 4 + (Msg.addObject (d.nameAt row)).length ≤ maxSendMsgLen := by
      have hname := MatchParameter.length_nameAt_le hd hle
      simp only [Msg.length, maxSendMsgLen]
      omega
    rw [hpackets, addEntry, addInstance, if_pos ⟨(wellFlagged_of_mem hd).2.1 hinstance, hinstance, happ⟩,
      hinstance.createInstanceName_eq hd hpos hle]
    simp only [packet_eq hroom, Outcome.map, Outcome.bind_done, Outcome.andThen_ok]
    rw [addValue, if_neg fun hbad => hbad.2.2.1 hinstance]
  rw [addEntry, addInstance, if_neg fun hbad => hinstance hbad.2.1, Outcome.andThen_ok]
  by_cases hcolumn : d.IsColumn
  · rw [← happ] at hword
    obtain ⟨v, hv, hset⟩ := rowValue_eq hroute hd hcolumn hword row
    obtain ⟨p, hp, hcall⟩ := setValue_column hroute hd hcolumn hpos hle (hadmits hcolumn happ) (hread hcolumn happ)
    have hpackets : rowPackets N c e row d = [[p.msg]] := by
      rw [rowPackets, if_pos ⟨happ, .inr hcolumn⟩, hp]
      rfl
    rw [hpackets, ← happ, addValue, if_pos ⟨hcolumn.1, rfl, hcolumn.2.1, hcolumn.2.2⟩, hv, Outcome.bind_done, hset, hcall]
    rfl
  · have hpackets : rowPackets N c e row d = [] := if_neg fun hbad => hbad.2.elim hinstance hcolumn
    rw [hpackets, addValue, if_neg fun hbad => hcolumn ⟨hbad.1, hbad.2.2.1, hbad.2.2.2⟩, List.append_nil]

/-- A new row is told with its object and its values. -/
theorem call_newRow (hroute : N.Route) (hadm : (Change.newRow e row value).Admitted N) (hheld : (Change.newRow e row value).HeldBy N c)
    (hword : e.conflibAppID = .app .route → value 2 = trueText ∨ value 2 = falseText) :
    (Change.newRow e row value).call N = .done ⟨.success, gMatchParameters.flatMap (rowPackets N c e row)⟩ := by
  obtain ⟨he, hinstance, hpos, hle, hadmits⟩ := hadm
  obtain ⟨hrow, hread⟩ := hheld
  have happ : ¬(e.conflibAppID = .flagAddDefaultObject ∨ (row : Int) < 1) := by
    rintro (hdefault | hlow)
    · exact (hinstance.others he).1 hdefault
    · omega
  have hconvert : (if e.conflibAppID = .app .route then valueConvert value else .done []) =
      .done (convertedOf e.conflibAppID value) := by
    unfold convertedOf
    split
    · rename_i happ
      rw [happ] at hadmits
      exact valueConvert_eq (length_of_route hroute hadmits) (hword happ)
    · rfl
  have hloop := Outcome.forEach_flatMap (g := rowPackets N c e row)
    (fun d hd sent => addEntry_eq hroute hd hpos hle (hadmits d hd) hrow (hread d hd) hword sent) []
  rw [Change.call, tcmAgentApiAddObjectByIndex, if_neg happ, hconvert, Outcome.bind_done, hloop, List.nil_append]
  rfl

/-- A new row of a route whose type is no word is not told. -/
theorem call_newRow_undefined (hadm : (Change.newRow e row value).Admitted N) (happ : e.conflibAppID = .app .route)
    (hword : ¬(value 2 = trueText ∨ value 2 = falseText)) (called : Called) : (Change.newRow e row value).call N ≠ .done called := by
  obtain ⟨he, hinstance, hpos, hle, -⟩ := hadm
  rw [not_or] at hword
  intro hcall
  have hbad : ¬(AppID.app .route = .flagAddDefaultObject ∨ (row : Int) < 1) := by
    rintro (hdefault | hlow)
    · cases hdefault
    · omega
  rw [Change.call, happ, tcmAgentApiAddObjectByIndex, if_neg hbad, if_pos rfl, valueConvert, if_neg hword.1, if_neg hword.2,
    Outcome.bind_done, Outcome.map_eq_done] at hcall
  obtain ⟨r, hloop, -⟩ := hcall
  -- nothing is written to the copies, so no round for a value has a result, and no other one returns
  have hvalue : ∀ d sent, d.IsColumn → d.conflibAppID = .app .route → addValue N (.app .route) row [] value d sent = .undefined := by
    intro d sent hcolumn happ
    rw [addValue, if_pos ⟨hcolumn.1, happ, hcolumn.2.1, hcolumn.2.2⟩]
    rfl
  have hround : ∀ d ∈ gMatchParameters, ∀ sent r, addEntry N (.app .route) row [] value d sent = .done r →
      (∃ t, r = .ok t) ∧ ¬(d.IsColumn ∧ d.conflibAppID = .app .route) := by
    intro d hd sent r hdone
    rw [addEntry, Outcome.andThen, Outcome.bind_eq_done] at hdone
    obtain ⟨x, hx, hdone⟩ := hdone
    have hok : ∃ t, x = .ok t := by
      unfold addInstance at hx
      split at hx
      · rename_i hrow
        rw [MatchParameter.IsInstance.createInstanceName_eq hrow.2.1 hd hpos hle] at hx
        obtain ⟨p, -, rfl⟩ := Outcome.map_eq_done.1 hx
        exact ⟨_, rfl⟩
      · cases hx
        exact ⟨_, rfl⟩
    obtain ⟨t, rfl⟩ := hok
    by_cases hcolumn : d.IsColumn ∧ d.conflibAppID = .app .route
    · simp only [hvalue d t hcolumn.1 hcolumn.2] at hdone
      cases hdone
    · refine ⟨?_, hcolumn⟩
      simp only [addValue] at hdone
      rw [if_neg fun hbad => hcolumn ⟨⟨hbad.1, hbad.2.2.1, hbad.2.2.2⟩, hbad.2.1⟩] at hdone
      cases hdone
      exact ⟨_, rfl⟩
  have hgoes : ∀ d ∈ gMatchParameters, ∀ sent x, addEntry N (.app .route) row [] value d sent ≠ .done (.error x) := by
    intro d hd sent x hdone
    obtain ⟨⟨t, ht⟩, -⟩ := hround d hd sent _ hdone
    cases ht
  obtain ⟨d, hd, hcolumn, happ', -⟩ := apiTable.route .routeDstip List.mem_cons_self
  obtain ⟨sent, r', hdone⟩ := Outcome.exists_done_of_forEach hgoes hloop hd
  exact (hround d hd sent r' hdone).2 ⟨hcolumn, happ'⟩

/-! ## The messages at the start -/

/-- Of the names of a row, an entry of the row has one in its messages, and another entry none. -/
theorem filter_entryMsgs {d : MatchParameter} (hd : d ∈ gMatchParameters) :
    (entryMsgs N c d).filter (fun m => m.name ∈ (Change.newRow e row value).names.map some) =
      if e.InTableOf d then named (entryMsgs N c d) (d.nameAt row) else [] := by
  have hname : ∀ m ∈ entryMsgs N c d, m.name ∈ (Change.newRow e row value).names.map some ↔
      e.InTableOf d ∧ m.name = some (d.nameAt row) := by
    intro m hm
    obtain ⟨k, -, p, hp, rfl⟩ := mem_entryMsgs.1 hm
    rw [name_of_putAt hd hp]
    simp only [Change.names, List.map_map, List.mem_map, List.mem_filter, decide_eq_true_eq]
    constructor
    · rintro ⟨z, ⟨hz, hin⟩, hsame⟩
      obtain rfl := MatchParameter.eq_of_nameAt_eq hz hd (Option.some.inj hsame)
      exact ⟨hin, hsame.symm⟩
    · rintro ⟨hin, hsame⟩
      exact ⟨d, ⟨hd, hin⟩, hsame.symm⟩
  split
  · rename_i hin
    refine List.filter_congr fun m hm => ?_
    rw [decide_eq_decide, hname m hm]
    exact and_iff_right hin
  · rename_i hin
    refine List.filter_eq_nil_iff.2 fun m hm hbad => ?_
    exact hin ((hname m hm).1 (of_decide_eq_true hbad)).1

/-- The messages at the start for a row. -/
theorem filter_allMsgs : (allMsgs N c wanIp).filter (fun m => m.name ∈ (Change.newRow e row value).names.map some) =
    gMatchParameters.flatMap fun d => if e.InTableOf d then named (entryMsgs N c d) (d.nameAt row) else [] := by
  have hurl : ((urlPuts wanIp).map Put.msg).filter (fun m => m.name ∈ (Change.newRow e row value).names.map some) = [] := by
    refine List.filter_eq_nil_iff.2 fun m hm hbad => ?_
    obtain ⟨p, hp, rfl⟩ := List.mem_map.1 hm
    obtain ⟨ip, -, rfl⟩ := Option.map_eq_some_iff.1 (Option.mem_toList.1 hp)
    obtain ⟨name, hname, hsame⟩ := List.mem_map.1 (of_decide_eq_true hbad)
    obtain ⟨d, hd, rfl⟩ := List.mem_map.1 hname
    exact Template.fill_ne (templates_pairwise.2 d (List.mem_filter.1 hd).1) [] _ (Option.some.inj hsame).symm
  have hend : [Msg.initEnd].filter (fun m => m.name ∈ (Change.newRow e row value).names.map some) = [] := by
    refine List.filter_eq_nil_iff.2 fun m hm hbad => ?_
    rw [List.mem_singleton] at hm
    subst hm
    obtain ⟨name, -, hsame⟩ := List.mem_map.1 (of_decide_eq_true hbad)
    cases hsame
  unfold allMsgs allPuts
  rw [List.map_append, List.filter_append, List.filter_append, hurl, hend, List.append_nil, List.append_nil, List.map_flatMap,
    List.filter_flatMap]
  refine List.flatMap_congr fun d hd => ?_
  exact filter_entryMsgs hd

theorem filter_singleton (ms : List Msg) (name : Text) : ms.filter (fun m => m.name ∈ [name].map some) = named ms name := by
  refine List.filter_congr fun m _ => ?_
  rw [List.map_singleton, decide_eq_decide, List.mem_singleton]

theorem mem_rowsOf_table {d : MatchParameter} (he : e ∈ gMatchParameters) (hinstance : e.IsInstance) (hd : d ∈ gMatchParameters)
    (hin : e.InTableOf d) (hpos : 1 ≤ row) (hlt : row < e.maxNumInstance) : row ∈ rowsOf d := by
  have hmax : d.maxNumInstance = e.maxNumInstance :=
    ((wellFlagged_of_mem hd).2.2.1 hin.2).trans ((wellFlagged_of_mem he).2.2.1 (.inl hinstance)).symm
  rcases hin.2 with hinstance' | hcolumn
  · rw [mem_rowsOf_instance hinstance']
    omega
  · rw [mem_rowsOf_column hcolumn]
    omega

/-! ## The calls agree with the start -/

theorem agrees_plain {v : Text} (hadm : (Change.plain e v).Admitted N) (hheld : (Change.plain e v).HeldBy N c) :
    (Change.plain e v).Agrees N (allMsgs N c wanIp) ↔ (Change.plain e v).Matches N := by
  obtain ⟨he, hplain, hadmits⟩ := hadm
  obtain ⟨-, hinstance, hcolumn⟩ := hplain.others he
  constructor
  · rintro ⟨packets, hcall, -⟩ hswitch
    by_contra hword
    rw [call_plain_none he hplain (valueTmp_eq_none he hplain hswitch hword)] at hcall
    cases hcall
  · intro hword
    obtain ⟨htmp, hjudge⟩ := valueTmp_plain he hplain hadmits hword
    obtain ⟨node, hnode, hcall⟩ := call_plain he hplain htmp hjudge
    refine ⟨_, hcall, ?_⟩
    have hnamed : named (allMsgs N c wanIp) e.name = [.setValue e.name node] := by
      have hall : named (allMsgs N c wanIp) (e.nameAt 0) = named (entryMsgs N c e) (e.nameAt 0) := named_allMsgs he 0
      rw [hplain.nameAt_eq he, named_entryMsgs_plain hplain he, putAt, if_neg hinstance, if_neg hcolumn, if_pos hplain] at hall
      rw [hall, (hheld : c.readParameter _ _ = _)]
      simp only [Option.bind_some, hnode, Option.map_some]
      rfl
    rw [Change.names, filter_singleton, hnamed]
    split <;> rfl

theorem agrees_cell {v : Text} (hroute : N.Route) (hadm : (Change.cell e row v).Admitted N) (hheld : (Change.cell e row v).HeldBy N c) :
    (Change.cell e row v).Agrees N (allMsgs N c wanIp) ↔ (Change.cell e row v).Matches N := by
  obtain ⟨he, hcolumn, hpos, hle, hadmits⟩ := hadm
  obtain ⟨p, hp, hcall⟩ := setValue_column hroute he hcolumn hpos hle hadmits hheld
  have hname := name_of_putAt he hp
  have hnamed : named (allMsgs N c wanIp) (e.nameAt row) = if row < e.maxNumInstance then [p.msg] else [] := by
    rw [named_allMsgs he, named_entryMsgs (.inr hcolumn) he, hp]
    simp only [mem_rowsOf_column hcolumn]
    rfl
  have hsent : [[p.msg]].flatten.filter (fun m => m.name.isSome) = [p.msg] := by
    refine List.filter_eq_self.2 fun m hm => ?_
    obtain rfl := List.mem_singleton.1 hm
    rw [hname]
    rfl
  unfold Change.Agrees Change.Matches
  rw [Change.names, filter_singleton, hnamed]
  constructor
  · rintro ⟨packets, hcall', hsame⟩
    by_contra hlast
    rw [Change.call, hcall] at hcall'
    cases hcall'
    rw [hsent, if_neg hlast] at hsame
    cases hsame
  · intro hlt
    exact ⟨_, hcall, by rw [hsent, if_pos hlt]⟩

/-- The messages of a new row, all of which have a name. -/
theorem flatten_rowPackets : (gMatchParameters.flatMap (rowPackets N c e row)).flatten.filter (fun m => m.name.isSome) =
    gMatchParameters.flatMap fun d => if e.InTableOf d then ((putAt N c d row).map Put.msg).toList else [] := by
  have hmsgs : (gMatchParameters.flatMap (rowPackets N c e row)).flatten =
      gMatchParameters.flatMap fun d => if e.InTableOf d then ((putAt N c d row).map Put.msg).toList else [] := by
    rw [List.flatMap_def, List.flatten_flatten, List.map_map, ← List.flatMap_def]
    refine List.flatMap_congr fun d _ => ?_
    rw [Function.comp_apply, rowPackets]
    split
    · cases putAt N c d row <;> rfl
    · rfl
  rw [hmsgs, List.filter_eq_self]
  intro m hm
  obtain ⟨d, hd, hm⟩ := List.mem_flatMap.1 hm
  split at hm
  · obtain ⟨p, hp, rfl⟩ := Option.map_eq_some_iff.1 (Option.mem_toList.1 hm)
    rw [name_of_putAt hd hp]
    rfl
  · cases hm

theorem agrees_newRow (hroute : N.Route) (hadm : (Change.newRow e row value).Admitted N) (hheld : (Change.newRow e row value).HeldBy N c) :
    (Change.newRow e row value).Agrees N (allMsgs N c wanIp) ↔ (Change.newRow e row value).Matches N := by
  obtain ⟨he, hinstance, hpos, hle, hadmits⟩ := hadm
  constructor
  · rintro ⟨packets, hcall, hsame⟩
    have hword : e.conflibAppID = .app .route → value 2 = trueText ∨ value 2 = falseText := by
      intro happ
      by_contra hword
      exact call_newRow_undefined ⟨he, hinstance, hpos, hle, hadmits⟩ happ hword _ hcall
    rw [call_newRow hroute ⟨he, hinstance, hpos, hle, hadmits⟩ hheld hword] at hcall
    cases hcall
    refine ⟨?_, hword⟩
    by_contra hlast
    -- a value of the row is told by the call only
    obtain ⟨d, hd, hcolumn, happ⟩ := (wellFlagged_of_mem he).2.2.2 hinstance
    have hin : e.InTableOf d := ⟨happ, .inr hcolumn⟩
    obtain ⟨p, hp, -⟩ := setValue_column hroute hd hcolumn hpos hle (hadmits d hd hcolumn happ) (hheld.2 d hd hcolumn happ)
    have hmem : p.msg ∈ (allMsgs N c wanIp).filter fun m => m.name ∈ (Change.newRow e row value).names.map some := by
      rw [← hsame, flatten_rowPackets, List.mem_flatMap]
      exact ⟨d, hd, by rw [if_pos hin, hp]; exact List.mem_singleton_self _⟩
    rw [filter_allMsgs, List.mem_flatMap] at hmem
    obtain ⟨z, hz, hmem⟩ := hmem
    split at hmem
    · obtain ⟨hmem, hsame⟩ := List.mem_filter.1 hmem
      rw [name_of_putAt hd hp, decide_eq_true_eq] at hsame
      obtain rfl := MatchParameter.eq_of_nameAt_eq hd hz (Option.some.inj hsame)
      have hmax : d.maxNumInstance = e.maxNumInstance :=
        ((wellFlagged_of_mem hd).2.2.1 (.inr hcolumn)).trans ((wellFlagged_of_mem he).2.2.1 (.inl hinstance)).symm
      have hnamed : p.msg ∈ named (entryMsgs N c d) (d.nameAt row) :=
        List.mem_filter.2 ⟨hmem, by rw [name_of_putAt hd hp]; exact decide_eq_true rfl⟩
      rw [named_entryMsgs (.inr hcolumn) hd, if_neg (by rw [mem_rowsOf_column hcolumn]; omega)] at hnamed
      cases hnamed
    · cases hmem
  · rintro ⟨hlt, hword⟩
    refine ⟨_, call_newRow hroute ⟨he, hinstance, hpos, hle, hadmits⟩ hheld hword, ?_⟩
    rw [flatten_rowPackets, filter_allMsgs]
    refine List.flatMap_congr fun d hd => ?_
    split
    · rename_i hin
      rw [named_entryMsgs hin.2 hd, if_pos (mem_rowsOf_table he hinstance hd hin hpos hlt)]
    · rfl

/-- **The calls of the library** tell the agent what the start tells it, exactly when on or off and the type of a new route are
spelled as words and the row is before the last one. -/
theorem agrees_iff (hroute : N.Route) {ch : Change} (hadm : ch.Admitted N) (hheld : ch.HeldBy N c) {sent : List (List Msg)}
    (hbuild : buildTcmAgentParameters N c wanIp = .done ⟨0, sent⟩) : ch.Agrees N sent.flatten ↔ ch.Matches N := by
  rw [(flatten_of_build hbuild).1]
  cases ch with
  | plain e v => exact agrees_plain hadm hheld
  | cell e row v => exact agrees_cell hroute hadm hheld
  | newRow e row value => exact agrees_newRow hroute hadm hheld

theorem headerNumbers_route : headerNumbers.Route := ⟨rfl, rfl, rfl, rfl, rfl⟩

/-- The start succeeds. -/
theorem build_of_ret {c : Configuration} (h : (buildTcmAgentParameters headerNumbers c none).map Built.ret = .done 0) :
    ∃ sent, buildTcmAgentParameters headerNumbers c none = .done ⟨0, sent⟩ := by
  obtain ⟨⟨ret, sent⟩, hbuild, hret⟩ := Outcome.map_eq_done.1 h
  cases hret
  exact ⟨sent, hbuild⟩

/-- The service provider in the first row is told as at the start. -/
theorem agrees_first : ∃ e ∈ gMatchParameters, ∃ sent, buildTcmAgentParameters headerNumbers (oneProvider 1) none = .done ⟨0, sent⟩ ∧
    (Change.cell e 1 ['x']).Agrees headerNumbers sent.flatten := by
  have hentry : ∃ e ∈ gMatchParameters, e.conflibAppID = .app .hnsp ∧ (Change.cell e 1 ['x']).Matches headerNumbers ∧ e.IsColumn ∧
      isSwitch headerNumbers e.conflibAppID e.conflibParID = false ∧ judgeValidityOfValue e ['x'] = true := by
    unfold Change.Matches
    decide +kernel
  obtain ⟨e, he, happ, hmatches, hcolumn, hswitch, hjudge⟩ := hentry
  have hadmits : e.Admits headerNumbers ['x'] := by
    refine ⟨by decide, ?_⟩
    rw [hswitch, if_neg Bool.false_ne_true, if_neg (by rw [happ]; exact fun h => nomatch h.1),
      if_neg (by rw [happ]; exact fun h => nomatch h.1)]
    exact hjudge
  have hheld : (Change.cell e 1 ['x']).HeldBy headerNumbers (oneProvider 1) := by
    rw [Change.HeldBy, happ]
    rfl
  obtain ⟨sent, hbuild⟩ := build_first
  have hadm : (Change.cell e 1 ['x']).Admitted headerNumbers := ⟨he, hcolumn, by decide, by decide, hadmits⟩
  exact ⟨e, he, sent, hbuild, (agrees_iff headerNumbers_route hadm hheld hbuild).2 hmatches⟩

/-- A configuration with an on/off value. -/
def switched (v : Text) : Configuration where
  readParameter app _ := if app = .app .upnpd then some v else none
  readTableParameter _ _ _ := none

/-- An on/off value that is one already is not told. -/
theorem not_agrees_one : ∃ e ∈ gMatchParameters, ∃ sent, (Change.plain e ['1']).Admitted headerNumbers ∧
    (Change.plain e ['1']).HeldBy headerNumbers (switched ['1']) ∧
    buildTcmAgentParameters headerNumbers (switched ['1']) none = .done ⟨0, sent⟩ ∧
    ¬(Change.plain e ['1']).Agrees headerNumbers sent.flatten := by
  have hentry : ∃ e ∈ gMatchParameters, e.conflibAppID = .app .upnpd ∧ e.IsPlain ∧
      isSwitch headerNumbers e.conflibAppID e.conflibParID = true := by
    decide +kernel
  obtain ⟨e, he, happ, hplain, hswitch⟩ := hentry
  obtain ⟨sent, hbuild⟩ := build_of_ret (c := switched ['1']) (by decide +kernel)
  refine ⟨e, he, sent, ⟨he, hplain, by decide, ?_⟩, ?_, hbuild, ?_⟩
  · rw [if_pos hswitch]
    decide
  · rw [Change.HeldBy, happ]
    rfl
  · rintro ⟨packets, hcall, -⟩
    rw [call_plain_none he hplain (valueTmp_eq_none he hplain hswitch (by decide))] at hcall
    cases hcall

end CodeFactory.Tcm
