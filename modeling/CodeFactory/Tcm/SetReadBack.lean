import CodeFactory.Tcm.SetNames

/-!
# When a value that is set is read back

What `tcmCB_set_value` does for the name of an entry and a row is done by this entry alone. Most values are stored as they are, and come
back; truth values are stored as words, and not all of their spellings have one.
-/

namespace CodeFactory.Tcm

open Tr69 Oal

/-- The numbers of the parameters of the DHCP server. -/
structure ParaNumbers.Dhcpd (N : ParaNumbers) : Prop where
  status : N.number .dhcpdStatus = 1
  startip : N.number .dhcpdStartip = 2
  endip : N.number .dhcpdEndip = 3
  defaultlease : N.number .dhcpdDefaultlease = 4
  maxlease : N.number .dhcpdMaxlease = 5

/-- The value that a text stands for: truth values are spelled in four ways. -/
def valueOf (type : ValueType) (v : Text) : Option NodeValue :=
  if type = .bool then
    if v = ['1'] ∨ v = trueText then some (.num .bool 1)
    else if v = ['0'] ∨ v = falseText then some (.num .bool 0)
    else none
  else nodeValue stringToNum type v

/-- What the synchronisation at the start makes of a text that is stored for an entry. -/
def toldText (N : ParaNumbers) (e : MatchParameter) (stored : Text) : Outcome Text :=
  if e.IsColumn then columnText N e stored else .done (plainText N e stored)

/-- Whatever the configuration and its answers, a call that sets the value uses nothing that is not assigned, and when it succeeds, it has
written one text, of the parameter and the row, which the synchronisation at the start makes the same value of. -/
def ReadsBack (N : ParaNumbers) (e : MatchParameter) (k : Nat) (v : Text) : Prop :=
  ∀ w : Surroundings, (e.IsInstance ∨ e.IsColumn → w.conf.HasRow e k) →
    tcmCBSetValue N w (e.nameAt k) v ≠ .undefined ∧
    ∀ written, tcmCBSetValue N w (e.nameAt k) v = .done ⟨.applied, written⟩ →
      ∃ stored told, written = [⟨e.conflibAppID, if e.IsColumn then some k else none, N.ofParID e.conflibParID, stored⟩] ∧
        toldText N e stored = .done told ∧ nodeValue stringToNum e.type told = valueOf e.type v

/-- A truth value is a one, or a zero outside of the tables; or it is for a row that is not reached. -/
def Settable (e : MatchParameter) (k : Nat) (v : Text) : Prop :=
  e.type = .bool → v = ['1'] ∨ (v = ['0'] ∧ e.IsPlain) ∨ (e.IsColumn ∧ 99 < k)

variable {N : ParaNumbers} {w : Surroundings} {d e z : MatchParameter} {k : Nat} {rowID : Int} {v : Text} {zs : List MatchParameter}

/-! ## What the loop comes to -/

/-- The object of the table of an entry. -/
def IsObjectOf (e z : MatchParameter) : Prop := z.IsInstance ∧ z.conflibAppID = e.conflibAppID ∧ (e.IsInstance ∨ e.IsColumn)

instance (e z : MatchParameter) : Decidable (IsObjectOf e z) := inferInstanceAs (Decidable (_ ∧ _))

/-- The row, or the error of one that is too great. -/
def rowOf (k : Nat) : Except SetDone Int := if k ≤ 99 then .ok k else .error ⟨.applyError, []⟩

/-- An entry that is not asked for passes over the name; the object of the table gives the row. -/
theorem setEntry_passes (hz : z ∈ gMatchParameters) (he : e ∈ gMatchParameters) (hother : z = e → ¬e.IsPlain ∧ ¬e.IsColumn) :
    setEntry N w (e.nameAt k) v z rowID = .done (if IsObjectOf e z then rowOf k else .ok rowID) := by
  have hplain : ¬(z.IsPlain ∧ z.name = e.nameAt k) := by
    rintro ⟨h, hname⟩
    obtain rfl := eq_of_plain hz h he hname
    exact (hother rfl).1 h
  rw [setEntry, if_neg hplain]
  by_cases hobject : IsObjectOf e z
  · obtain ⟨hinstance, happ, hrow⟩ := hobject
    obtain ⟨back, htemplate⟩ := template_of_own hz hinstance he hrow happ
    have hname : e.nameAt k = (Template.hole z.name ('.' :: back)).fill (Nat.toDigits 10 k) := by rw [MatchParameter.nameAt, htemplate]
    have hmention : Http.mentions (e.nameAt k) z.name = true := by
      rw [hname, Template.fill, Http.mentions, dropInfix?_append_left]
      rfl
    have hgiven : getInstanceidMatchRowId z.name (e.nameAt k) = if k ≤ 99 then (k : Int) else -1 := by
      rw [hname, getInstanceidMatchRowId_fill]
    have hobject : IsObjectOf e z := ⟨hinstance, happ, hrow⟩
    rw [if_pos ⟨hinstance, hmention⟩, hgiven, if_pos hobject, rowOf]
    by_cases hk : k ≤ 99
    · rw [if_pos hk, if_pos hk, if_neg (by omega)]
    · rw [if_neg hk, if_neg hk, if_pos rfl]
  · have hmention : ¬(z.IsInstance ∧ Http.mentions (e.nameAt k) z.name = true) := by
      rintro ⟨hinstance, hmention⟩
      obtain ⟨happ, back, htemplate⟩ := own_of_mentions hz hinstance he hmention
      exact hobject ⟨hinstance, happ, row_of_hole he htemplate⟩
    have hcolumn : ¬(z.conflibRowID = .flagTemplateRow ∧ ¬z.IsInstance ∧ templateMatchCompare z.name (e.nameAt k) = true ∧
        N.ofParID z.conflibParID ≠ 0 ∧ rowID ≠ 0) := by
      rintro ⟨hrow, hinstance, hmatch, -⟩
      have h := isColumn_of_row hz hrow hinstance
      obtain rfl := eq_of_match hz h he hmatch
      exact (hother rfl).2 h
    rw [if_neg hmention, if_neg hcolumn, if_neg hobject]

/-- The entries that are not asked for pass over the name. -/
theorem forEach_passes (hzs : ∀ z ∈ zs, z ∈ gMatchParameters ∧ (z = e → ¬e.IsPlain ∧ ¬e.IsColumn)) (he : e ∈ gMatchParameters) :
    Outcome.forEach (setEntry N w (e.nameAt k) v) zs rowID = .done (if ∃ z ∈ zs, IsObjectOf e z then rowOf k else .ok rowID) := by
  induction zs generalizing rowID with
  | nil => simp [Outcome.forEach]
  | cons z zs ih =>
    obtain ⟨hz, hother⟩ := hzs z List.mem_cons_self
    have hrest := fun rowID => @ih rowID fun y hy => hzs y (List.mem_cons_of_mem _ hy)
    rw [Outcome.forEach, setEntry_passes hz he hother]
    by_cases hobject : IsObjectOf e z
    · have hany : ∃ y ∈ z :: zs, IsObjectOf e y := ⟨z, List.mem_cons_self, hobject⟩
      rw [if_pos hobject, if_pos hany, rowOf]
      by_cases hk : k ≤ 99
      · rw [if_pos hk, Outcome.andThen_ok, hrest, rowOf, if_pos hk, ite_self]
      · rw [if_neg hk]
        rfl
    · rw [if_neg hobject, Outcome.andThen_ok, hrest]
      simp only [List.exists_mem_cons_iff, hobject, false_or]

/-- The entry of a name stands behind entries that are not asked for. -/
theorem exists_split (he : e ∈ gMatchParameters) :
    ∃ xs ys, gMatchParameters = xs ++ e :: ys ∧ ∀ z ∈ xs, z ∈ gMatchParameters ∧ (z = e → ¬e.IsPlain ∧ ¬e.IsColumn) := by
  obtain ⟨xs, ys, hsplit, hnot⟩ := List.eq_append_cons_of_mem he
  refine ⟨xs, ys, hsplit, fun z hz => ⟨hsplit ▸ List.mem_append_left _ hz, ?_⟩⟩
  rintro rfl
  exact absurd hz hnot

/-- **A name of an entry outside of the tables** is set by this entry. -/
theorem tcmCBSetValue_plain (he : e ∈ gMatchParameters) (h : e.IsPlain) (k : Nat) :
    tcmCBSetValue N w (e.nameAt k) v = setPlain N w e v := by
  obtain ⟨xs, ys, hsplit, hothers⟩ := exists_split he
  have hname := h.nameAt_eq he k
  obtain ⟨-, hinstance, hcolumn⟩ := h.others he
  have hnone : ¬∃ z ∈ xs, IsObjectOf e z := by
    rintro ⟨z, -, -, -, hrow⟩
    exact hrow.elim hinstance hcolumn
  have hentry : setEntry N w (e.nameAt k) v e 0 = (setPlain N w e v).map .error := if_pos ⟨h, hname.symm⟩
  rw [tcmCBSetValue, hsplit, Outcome.forEach_append, forEach_passes hothers he, if_neg hnone, Outcome.andThen_ok, Outcome.forEach, hentry]
  cases setPlain N w e v <;> rfl

/-- The object of its table stands before a column. -/
theorem object_before (he : e ∈ gMatchParameters) (h : e.IsColumn) {xs ys : List MatchParameter} (hsplit : gMatchParameters = xs ++ e :: ys) :
    ∃ z ∈ xs, IsObjectOf e z := by
  obtain ⟨d, hd, hinstance, happ⟩ := exists_object he h
  have hfirst : gMatchParameters.Pairwise _ := matchTable.instances
  rw [hsplit] at hd hfirst
  rw [List.pairwise_append, List.pairwise_cons] at hfirst
  refine ⟨d, ?_, hinstance, happ, .inr h⟩
  rcases List.mem_append.1 hd with hx | hy
  · exact hx
  · rcases List.mem_cons.1 hy with rfl | hy
    · exact absurd hinstance h.2.1
    · exact absurd ⟨h, hinstance, happ.symm⟩ (hfirst.2.1.1 d hy)

/-- **The name of a column for a row** is set by this column. -/
theorem tcmCBSetValue_column (he : e ∈ gMatchParameters) (h : e.IsColumn) (hpos : 1 ≤ k) (hk : k ≤ 99) :
    tcmCBSetValue N w (e.nameAt k) v = setColumn N w e k v := by
  obtain ⟨xs, ys, hsplit, hothers⟩ := exists_split he
  obtain ⟨-, hinstance, hplain⟩ := h.others he
  have hentry : setEntry N w (e.nameAt k) v e k = (setColumn N w e k v).map .error := by
    have hnumber : N.ofParID e.conflibParID ≠ 0 := by
      cases hpar : e.conflibParID with
      | flagAddDefaultObject => exact (by decide : (-2 : Int) ≠ 0)
      | flagStatusStyle => exact (by decide : (-1 : Int) ≠ 0)
      | flagInstanceID => exact absurd hpar hinstance
      | para p =>
        have hpos := N.pos p
        rw [ParaNumbers.ofParID]
        omega
    rw [setEntry, if_neg fun hbad => hplain hbad.1, if_neg fun hbad => hinstance hbad.1,
      if_pos ⟨h.1, hinstance, match_own he h hpos hk, hnumber, by omega⟩]
  rw [tcmCBSetValue, hsplit, Outcome.forEach_append, forEach_passes hothers he, if_pos (object_before he h hsplit), rowOf, if_pos hk,
    Outcome.andThen_ok, Outcome.forEach, hentry]
  cases setColumn N w e k v <;> rfl

theorem tcmCBSetValue_far (he : e ∈ gMatchParameters) (h : e.IsColumn) (hk : 99 < k) :
    tcmCBSetValue N w (e.nameAt k) v = .done ⟨.applyError, []⟩ := by
  obtain ⟨xs, ys, hsplit, hothers⟩ := exists_split he
  rw [tcmCBSetValue, hsplit, Outcome.forEach_append, forEach_passes hothers he, if_pos (object_before he h hsplit), rowOf,
    if_neg (by omega)]
  rfl

theorem tcmCBSetValue_other (he : e ∈ gMatchParameters) (hplain : ¬e.IsPlain) (hcolumn : ¬e.IsColumn) (k : Nat) :
    tcmCBSetValue N w (e.nameAt k) v = .done ⟨.applyError, []⟩ := by
  rw [tcmCBSetValue, forEach_passes (fun z hz => ⟨hz, fun _ => ⟨hplain, hcolumn⟩⟩) he]
  split
  · rw [rowOf]
    split <;> rfl
  · rfl

/-! ## What is written -/

/-- What the loop relies on in the entries of truth values, and in those of the DHCP server. -/
structure TruthTable where
  entries : List MatchParameter
  truth : ∀ e ∈ entries, e.type = .bool → e.IsPlain ∧ isApiSwitch e.conflibAppID e.conflibParID = true ∨
    e.IsColumn ∧ e.conflibAppID = .app .route ∧ e.conflibParID = .para .routeNexthoptype
  dhcpd : ∀ e ∈ entries, e.IsPlain → e.conflibAppID = .app .dhcpd → e.conflibParID ∈ ([.para .dhcpdStatus, .para .dhcpdStartip,
    .para .dhcpdEndip, .para .dhcpdDefaultlease, .para .dhcpdMaxlease] : List ParID)

def truthTable : TruthTable where
  entries := gMatchParameters
  truth := by decide +kernel
  dhcpd := by decide +kernel

/-- Both directions take the same values for on or off. -/
theorem isSetSwitch_of_plain (hdhcpd : N.Dhcpd) (he : e ∈ gMatchParameters) (h : e.IsPlain) :
    isSetSwitch N e.conflibAppID e.conflibParID = isApiSwitch e.conflibAppID e.conflibParID := by
  have hstatus : e.conflibAppID = .app .dhcpd ∧ N.ofParID e.conflibParID = 1 ↔
      e.conflibAppID = .app .dhcpd ∧ e.conflibParID = .para .dhcpdStatus := by
    refine and_congr_right fun happ => ?_
    have hpara := truthTable.dhcpd e he h happ
    simp only [List.mem_cons, List.not_mem_nil, or_false] at hpara
    rcases hpara with hpar | hpar | hpar | hpar | hpar <;>
      simp [hpar, ParaNumbers.ofParID, hdhcpd.status, hdhcpd.startip, hdhcpd.endip, hdhcpd.defaultlease, hdhcpd.maxlease]
  unfold isSetSwitch isApiSwitch
  rw [decide_eq_decide, hstatus]
  exact Iff.of_eq (by ac_rfl)

/-- A configuration that holds a text everywhere, and takes everything. -/
def willing : Surroundings := ⟨⟨fun _ _ => some [], fun _ _ _ => some []⟩, fun _ => true, []⟩

theorem writeResult_willing (rowID : Option Int) (stored : Text) :
    writeResult N willing e rowID (some stored) = .done ⟨.applied, [⟨e.conflibAppID, rowID, N.ofParID e.conflibParID, stored⟩]⟩ := rfl

theorem written_of_applied {rowID : Option Int} {stored : Text} {written : List Write}
    (h : writeResult N w e rowID (some stored) = .done ⟨.applied, written⟩) :
    written = [⟨e.conflibAppID, rowID, N.ofParID e.conflibParID, stored⟩] := by
  obtain ⟨value, hvalue, h⟩ := Outcome.map_eq_done.1 h
  obtain rfl := Option.some.inj (follow_eq_done.1 hvalue)
  split at h
  · exact (SetDone.mk.inj h).2.symm
  · cases h

/-- **A value outside of the tables is read back** if there is a result, and the start makes the value of it. -/
theorem readsBack_plain (he : e ∈ gMatchParameters) (h : e.IsPlain) {result : Option Text} (hresult : plainResult N e v = .done result) :
    ReadsBack N e k v ↔ ∃ stored, result = some stored ∧ nodeValue stringToNum e.type (plainText N e stored) = valueOf e.type v := by
  obtain ⟨-, -, hcolumn⟩ := h.others he
  have htold : ∀ stored, toldText N e stored = .done (plainText N e stored) := fun stored => if_neg hcolumn
  constructor
  · intro hreads
    obtain ⟨hdefined, happlied⟩ := hreads willing fun _ => rfl
    have hrun : tcmCBSetValue N willing (e.nameAt k) v = writeResult N willing e none result := by
      rw [tcmCBSetValue_plain he h, setPlain, hresult, Outcome.bind_done, if_neg]
      rintro ⟨-, hnone⟩
      cases hnone
    rw [hrun] at hdefined happlied
    cases result with
    | none => exact absurd rfl hdefined
    | some stored =>
      obtain ⟨stored', told, hwritten, hconvert, hvalue⟩ := happlied _ (writeResult_willing none stored)
      obtain rfl : stored = stored' := (Write.mk.inj (List.cons.inj hwritten).1).2.2.2
      rw [htold] at hconvert
      obtain rfl := Outcome.done.inj hconvert
      exact ⟨stored, rfl, hvalue⟩
  · rintro ⟨stored, rfl, hvalue⟩ w -
    rw [tcmCBSetValue_plain he h, setPlain, hresult, Outcome.bind_done]
    split
    · exact ⟨(fun hbad => nomatch hbad), fun _ hbad => nomatch hbad⟩
    · exact ⟨(fun hbad => nomatch hbad), fun written hdone => ⟨stored, _, written_of_applied hdone, htold stored, hvalue⟩⟩

/-- **A value of a row is read back** if there is a result, and the start makes the value of it. -/
theorem readsBack_column (he : e ∈ gMatchParameters) (h : e.IsColumn) (hpos : 1 ≤ k) (hk : k ≤ 99) {result : Option Text}
    (hresult : ∀ w, columnResult N w e v = .done result) :
    ReadsBack N e k v ↔ ∃ stored told, result = some stored ∧ columnText N e stored = .done told ∧
      nodeValue stringToNum e.type told = valueOf e.type v := by
  have htold : ∀ stored, toldText N e stored = columnText N e stored := fun stored => if_pos h
  have hrun : ∀ w, tcmCBSetValue N w (e.nameAt k) v = writeResult N w e (some k) result := by
    intro w
    rw [tcmCBSetValue_column he h hpos hk, setColumn, hresult w, Outcome.bind_done]
  constructor
  · intro hreads
    obtain ⟨hdefined, happlied⟩ := hreads willing fun _ => rfl
    rw [hrun] at hdefined happlied
    cases result with
    | none => exact absurd rfl hdefined
    | some stored =>
      obtain ⟨stored', told, hwritten, hconvert, hvalue⟩ := happlied _ (writeResult_willing (some k) stored)
      obtain rfl : stored = stored' := (Write.mk.inj (List.cons.inj hwritten).1).2.2.2
      exact ⟨stored, told, rfl, (htold stored).symm.trans hconvert, hvalue⟩
  · rintro ⟨stored, told, rfl, hconvert, hvalue⟩ w -
    rw [hrun]
    refine ⟨(fun hbad => nomatch hbad), fun written hdone => ?_⟩
    rw [if_pos h]
    exact ⟨stored, told, written_of_applied hdone, (htold stored).trans hconvert, hvalue⟩

theorem readsBack_of_error (h : ∀ w, tcmCBSetValue N w (e.nameAt k) v = .done ⟨.applyError, []⟩) : ReadsBack N e k v := by
  intro w _
  rw [h]
  exact ⟨(fun hbad => nomatch hbad), fun _ hbad => nomatch hbad⟩

/-! ## The values that are read back -/

theorem nodeValue_switch (htype : e.type = .bool) : nodeValue stringToNum e.type ['1'] = some (.num .bool 1) ∧
    nodeValue stringToNum e.type ['0'] = some (.num .bool 0) := by
  rw [htype]
  decide

/-- A truth value has one of four spellings. -/
theorem spelling (htype : e.type = .bool) (hadmits : (valueOf e.type v).isSome = true) :
    v = ['1'] ∨ v = ['0'] ∨ v = trueText ∨ v = falseText := by
  rw [valueOf, if_pos htype] at hadmits
  split at hadmits
  · rename_i hone
    exact hone.elim .inl fun htrue => .inr (.inr (.inl htrue))
  split at hadmits
  · rename_i hzero
    exact hzero.elim (fun h => .inr (.inl h)) fun hfalse => .inr (.inr (.inr hfalse))
  · cases hadmits

/-- On or off outside of the tables. -/
theorem readsBack_switch (hdhcpd : N.Dhcpd) (he : e ∈ gMatchParameters) (h : e.IsPlain) (htype : e.type = .bool)
    (hswitch : isApiSwitch e.conflibAppID e.conflibParID = true) (hadmits : (valueOf e.type v).isSome = true) :
    ReadsBack N e k v ↔ v = ['1'] ∨ v = ['0'] := by
  have hresult : plainResult N e v = .done (wordFor enable disable v) := by
    rw [plainResult, isSetSwitch_of_plain hdhcpd he h, if_pos hswitch]
  have hplain : ∀ stored, plainText N e stored = switchValue stored := by
    intro stored
    rw [plainText, isSwitch_of_plain he h, if_pos hswitch]
  obtain ⟨hone, hzero⟩ := nodeValue_switch htype
  rw [readsBack_plain he h hresult]
  rcases spelling htype hadmits with rfl | rfl | rfl | rfl
  · refine iff_of_true ⟨enable, rfl, ?_⟩ (.inl rfl)
    rw [hplain, valueOf, if_pos htype]
    exact hone
  · refine iff_of_true ⟨disable, rfl, ?_⟩ (.inr rfl)
    rw [hplain, valueOf, if_pos htype]
    exact hzero
  · exact iff_of_false (fun ⟨_, hnone, _⟩ => nomatch hnone) (by decide)
  · exact iff_of_false (fun ⟨_, hnone, _⟩ => nomatch hnone) (by decide)

/-- The type of a route. -/
theorem readsBack_nexthoptype (hroute : N.Route) (he : e ∈ gMatchParameters) (h : e.IsColumn) (htype : e.type = .bool)
    (happ : e.conflibAppID = .app .route) (hpar : e.conflibParID = .para .routeNexthoptype) (hpos : 1 ≤ k) (hk : k ≤ 99)
    (hadmits : (valueOf e.type v).isSome = true) : ReadsBack N e k v ↔ v = ['1'] := by
  have hnumber : e.conflibAppID = .app .route ∧ N.ofParID e.conflibParID = 3 := ⟨happ, (nexthoptype_iff hroute he h happ).2 hpar⟩
  have hresult : ∀ w, columnResult N w e v = .done (wordFor trueText trueText v) := fun w => if_pos hnumber
  have htold : columnText N e trueText = .done ['1'] := by
    rw [columnText, if_pos hnumber, if_neg]
    · rfl
    · rw [happ]
      exact fun hbad => nomatch hbad.1
  obtain ⟨hone, hzero⟩ := nodeValue_switch htype
  rw [readsBack_column he h hpos hk hresult]
  rcases spelling htype hadmits with rfl | rfl | rfl | rfl
  · refine iff_of_true ⟨trueText, ['1'], rfl, htold, ?_⟩ rfl
    rw [valueOf, if_pos htype]
    exact hone
  · refine iff_of_false ?_ (by decide)
    rintro ⟨stored, told, hstored, hconvert, hvalue⟩
    obtain rfl := Option.some.inj hstored
    obtain rfl := Outcome.done.inj (htold.symm.trans hconvert)
    rw [hone, valueOf, if_pos htype] at hvalue
    exact absurd hvalue (by decide)
  · exact iff_of_false (fun ⟨_, _, hnone, _⟩ => nomatch hnone) (by decide)
  · exact iff_of_false (fun ⟨_, _, hnone, _⟩ => nomatch hnone) (by decide)

theorem readsBack_text (hdhcpd : N.Dhcpd) (he : e ∈ gMatchParameters) (h : e.IsPlain) (htype : e.type ≠ .bool)
    (hlength : v.length < maxLenOfValue) : ReadsBack N e k v := by
  have hswitch : ¬isApiSwitch e.conflibAppID e.conflibParID = true := fun hswitch => htype ((fitsApi_of_mem he).bool (.inl ⟨h, hswitch⟩)).1
  have hresult : plainResult N e v = .done (some v) := by
    rw [plainResult, isSetSwitch_of_plain hdhcpd he h, if_neg hswitch, copyValue_eq hlength]
    rfl
  refine (readsBack_plain he h hresult).2 ⟨v, rfl, ?_⟩
  rw [plainText, isSwitch_of_plain he h, if_neg hswitch, valueOf, if_neg htype]

/-- Other values of a row. -/
theorem readsBack_cell (hroute : N.Route) (he : e ∈ gMatchParameters) (h : e.IsColumn) (htype : e.type ≠ .bool) (hpos : 1 ≤ k)
    (hk : k ≤ 99) (hpassword : ¬(e.conflibAppID = .app .account ∧ e.conflibParID = .para .accountCpassword))
    (hlength : v.length < maxLenOfValue) : ReadsBack N e k v := by
  have hnumber : ¬(e.conflibAppID = .app .route ∧ N.ofParID e.conflibParID = 3) := by
    rintro ⟨happ, hnumber⟩
    exact htype ((fitsApi_of_mem he).bool (.inr ⟨happ, (nexthoptype_iff hroute he h happ).1 hnumber⟩)).1
  have hresult : ∀ w, columnResult N w e v = .done (some v) := by
    intro w
    rw [columnResult, if_neg hnumber, if_neg hpassword, copyValue_eq hlength]
    rfl
  refine (readsBack_column he h hpos hk hresult).2 ⟨v, v, rfl, ?_, ?_⟩
  · rw [columnText, if_neg hnumber, if_neg hpassword]
  · rw [valueOf, if_neg htype]

/-- **A value that is set is read back** if and only if it is no truth value, or a one, or a zero outside of the tables, or the row is not
reached. -/
theorem readsBack_iff (hroute : N.Route) (hdhcpd : N.Dhcpd) (he : e ∈ gMatchParameters)
    (hpassword : ¬(e.conflibAppID = .app .account ∧ e.conflibParID = .para .accountCpassword)) (hpos : 1 ≤ k) (v : Text)
    (hlength : v.length < maxLenOfValue) (hadmits : (valueOf e.type v).isSome = true) : ReadsBack N e k v ↔ Settable e k v := by
  by_cases hplain : e.IsPlain
  · obtain ⟨-, -, hcolumn⟩ := hplain.others he
    by_cases htype : e.type = .bool
    · have hswitch := ((truthTable.truth e he htype).resolve_right fun hrow => hcolumn hrow.1).2
      rw [readsBack_switch hdhcpd he hplain htype hswitch hadmits, Settable]
      simp only [htype, hplain, hcolumn, true_implies, and_true, false_and, or_false]
    · exact iff_of_true (readsBack_text hdhcpd he hplain htype hlength) fun hbad => absurd hbad htype
  by_cases hcolumn : e.IsColumn
  · by_cases hk : k ≤ 99
    · by_cases htype : e.type = .bool
      · obtain ⟨-, happ, hpar⟩ := (truthTable.truth e he htype).resolve_left fun hout => hplain hout.1
        have hfar : ¬99 < k := by omega
        rw [readsBack_nexthoptype hroute he hcolumn htype happ hpar hpos hk hadmits, Settable]
        simp only [htype, hplain, hfar, true_implies, and_false, or_false]
      · exact iff_of_true (readsBack_cell hroute he hcolumn htype hpos hk hpassword hlength) fun hbad => absurd hbad htype
    · refine iff_of_true (readsBack_of_error fun w => tcmCBSetValue_far he hcolumn (by omega)) fun _ => ?_
      exact .inr (.inr ⟨hcolumn, by omega⟩)
  · refine iff_of_true (readsBack_of_error fun w => tcmCBSetValue_other he hplain hcolumn k) fun htype => ?_
    rcases truthTable.truth e he htype with hbad | hbad
    · exact absurd hbad.1 hplain
    · exact absurd hbad.1 hcolumn

/-- The numbers of `conflib.h`; a parameter that is not there has the first one. -/
def conflibNumbers : ParaNumbers where
  number
    | .lanMask | .dhcpdStartip | .wanMode | .dnsmasqDns2 | .sntpNtpserver2 | .portforwardProtocol | .firewallSrcmask | .routeMask => 2
    | .dhcpdEndip | .wanIp | .dnsmasqDomain | .sntpNtpserver3 | .portforwardStartIncomingPort | .firewallSrcport | .routeNexthoptype => 3
    | .dhcpdDefaultlease | .wanNetmask | .sntpNtpserver4 | .portforwardEndIncomingPort | .firewallDstip | .routeNexthoptypeinterface => 4
    | .dhcpdMaxlease | .wanGateway | .sntpNtpserver5 | .portforwardStartForwardPort | .firewallDstmask | .routeNexthoptypeip => 5
    | .wanPdns | .sntpTimezoneindex | .portforwardEndForwardPort | .firewallDstport | .routeMetric => 6
    | .wanSdns | .portforwardServerIp | .firewallProtocol => 7
    | .wanMtu => 8
    | .wanBridgeip => 9
    | .wanBridgemaskbit => 10
    | .wanVlanid => 11
    | .wanVlanskbprio => 12
    | .wanVlanprio => 13
    | _ => 1
  pos p := by split <;> decide
  accessMode := rfl
  nextHopType := rfl

theorem conflibNumbers_route : conflibNumbers.Route := ⟨rfl, rfl, rfl, rfl, rfl⟩

theorem conflibNumbers_dhcpd : conflibNumbers.Dhcpd := ⟨rfl, rfl, rfl, rfl, rfl⟩

theorem exists_nexthoptype : ∃ e ∈ gMatchParameters, e.IsColumn ∧ e.conflibAppID = .app .route ∧ e.conflibParID = .para .routeNexthoptype ∧
    e.type = .bool := by
  decide +kernel

/-- A one for the type of a route comes back. -/
theorem readsBack_nexthop_one : ∃ e ∈ gMatchParameters, e.conflibParID = .para .routeNexthoptype ∧ ReadsBack conflibNumbers e 1 ['1'] := by
  obtain ⟨e, he, hcolumn, happ, hpar, htype⟩ := exists_nexthoptype
  have hadmits : (valueOf e.type ['1']).isSome = true := by
    rw [htype]
    decide
  have hpassword : ¬(e.conflibAppID = .app .account ∧ e.conflibParID = .para .accountCpassword) := by
    rw [happ]
    exact fun hbad => nomatch hbad.1
  exact ⟨e, he, hpar, (readsBack_iff conflibNumbers_route conflibNumbers_dhcpd he hpassword (by decide) ['1'] (by decide) hadmits).2
    fun _ => .inl rfl⟩

/-- A zero for the type of a route is stored as a one. -/
theorem not_readsBack_nexthop_zero : ∃ e ∈ gMatchParameters, e.conflibParID = .para .routeNexthoptype ∧ e.type = .bool ∧
    ¬ReadsBack conflibNumbers e 1 ['0'] := by
  obtain ⟨e, he, hcolumn, happ, hpar, htype⟩ := exists_nexthoptype
  have hadmits : (valueOf e.type ['0']).isSome = true := by
    rw [htype]
    decide
  refine ⟨e, he, hpar, htype, fun hreads => ?_⟩
  have hone := (readsBack_nexthoptype conflibNumbers_route he hcolumn htype happ hpar (by decide) (by decide) hadmits).1 hreads
  exact absurd hone (by decide)

end CodeFactory.Tcm
