import CodeFactory.Conf.Survival

/-!
# Reading back what was written

`config_api_read_parameter`, `config_api_read_table_parameter` and `config_api_read_table_row` with the memory that they copy
to. They copy a value with the null character behind it, but for a value of `MAX_VALUE_LEN - 1` characters, behind which the
memory stays as it was.
-/

namespace CodeFactory.Conf

open Cache

/-! ## Copying a value -/

/-- The memory behind a pointer to characters. -/
abbrev Buffer := Nat → Char

/-- `strncpy ( result, value, n )`: the characters of the string, then null characters up to `n` of them. -/
def copyChars (result : Buffer) (value : List Char) (n : Nat) : Buffer := fun i => if i < n then value.getD i '\x00' else result i

/-- How many characters of a value are copied. -/
def copyLen (value : List Char) : Nat := if value.length + 1 < maxValueLen - 1 then value.length + 1 else maxValueLen - 1

/-- What all readers do with a value. -/
def copyVal (result : Buffer) (value : List Char) : Buffer := copyChars result value (copyLen value)

/-- The memory holds the string and the null character behind it. -/
structure IsString (buffer : Buffer) (s : List Char) : Prop where
  chars : ∀ i (h : i < s.length), buffer i = s[i]
  noNul : '\x00' ∉ s
  nul : buffer s.length = '\x00'

/-- A value that is copied is a string when it is shorter than `MAX_VALUE_LEN - 1`, or a null character was behind it. -/
theorem isString_copyVal {value : List Char} (hlen : value.length ≤ maxValueLen - 1) (hnul : '\x00' ∉ value) (result : Buffer) :
    IsString (copyVal result value) value ↔ value.length < maxValueLen - 1 ∨ result (maxValueLen - 1) = '\x00' := by
  have hmax : maxValueLen - 1 = 639 := rfl
  have hcopied : value.length ≤ copyLen value := by
    unfold copyLen
    split_ifs <;> omega
  have hchars : ∀ i (h : i < value.length), copyVal result value i = value[i] := by
    intro i hi
    unfold copyVal copyChars
    rw [if_pos (by omega), List.getD_eq_getElem?_getD, List.getElem?_eq_getElem hi]
    rfl
  by_cases hshort : value.length < maxValueLen - 1
  · have hterm : value.length < copyLen value := by
      unfold copyLen
      split_ifs <;> omega
    refine iff_of_true ⟨hchars, hnul, ?_⟩ (Or.inl hshort)
    unfold copyVal copyChars
    rw [if_pos hterm, List.getD_eq_getElem?_getD, List.getElem?_eq_none (Nat.le_refl _)]
    rfl
  · have hfull : value.length = maxValueLen - 1 := by omega
    have hbehind : copyVal result value value.length = result (maxValueLen - 1) := by
      have hcopy : copyLen value = maxValueLen - 1 := if_neg (by omega)
      unfold copyVal copyChars
      rw [hcopy, if_neg (by omega), hfull]
    constructor
    · intro h
      exact Or.inr (hbehind ▸ h.nul)
    · rintro (hlt | hzero)
      · exact absurd hlt hshort
      · exact ⟨hchars, hnul, hbehind.trans hzero⟩

/-! ## The readers -/

/-- A reader of one parameter, with the memory that it copies to. -/
def ReadCall.into (T : EntityTable) (c : Cache) (k : ReadCall) (result : Buffer) : Outcome (Int × Buffer) :=
  (k.run T c).map fun
  | some value => (0, copyVal result value)
  | none => (-1, result)

namespace Cache

variable (T : EntityTable) (c : Cache)

/-- The loop of `config_api_read_table_row` over the columns, each into its own memory. -/
def readColumns (p : Option Nat) (val : Nat → Buffer) : Outcome (Nat → Buffer) :=
  (loopFrom c.paraNext (fun p => (c.para p).paraId != -1)
    (fun (s : Nat × (Nat → Buffer)) p =>
      (Except.ok (s.1 + 1, Function.update s.2 s.1 (copyVal (s.2 s.1) (c.para p).paraVal)) : Except Empty _))
    (T.gMaxParaNum + 1) p (0, val)).map fun
  | .ok s => s.2
  | .error e => e.elim

/-- `config_api_read_table_row`, of a `val` whose pointers all point to memory. -/
def configApiReadTableRow (appIndex rowIndex : Int) (val : Nat → Buffer) : Outcome (Int × (Nat → Buffer)) :=
  if T.ValidApp appIndex then
    (c.findApp T appIndex).bind fun
    | none => .done (-1, val)
    | some a =>
      (c.findRow T a (getRowId appIndex rowIndex)).bind fun
      | none => .done (-1, val)
      | some r => (c.readColumns T (c.row r).para val).map fun val => (0, val)
  else .done (-1, val)

end Cache

/-! ## The node of a parameter -/

/-- The node that the readers and writers of a parameter find. -/
def ReadCall.node (T : EntityTable) (c : Cache) : ReadCall → Outcome (Option Nat)
  | .parameter appIndex paraIndex =>
    if T.ValidApp appIndex then
      (c.findApp T appIndex).bind fun
      | none => .done none
      | some a => c.findPara T (c.app a).para (getParaId appIndex 0 paraIndex)
    else .done none
  | .tableParameter appIndex rowIndex paraIndex =>
    if T.ValidApp appIndex then
      (c.findApp T appIndex).bind fun
      | none => .done none
      | some a =>
        (c.findRow T a (getRowId appIndex rowIndex)).bind fun
        | none => .done none
        | some r => c.findPara T (c.row r).para (getParaId appIndex rowIndex paraIndex)
    else .done none

variable {T : EntityTable} {c c' : Cache} {L : Layout}

/-- The readers give the value of the node. -/
theorem ReadCall.run_eq (k : ReadCall) : k.run T c = (k.node T c).map fun p => p.map fun p => (c.para p).paraVal := by
  cases k with
  | parameter appIndex paraIndex =>
    simp only [run, node, configApiReadParameter]
    split_ifs
    · cases c.findApp T appIndex with
      | done found => cases found <;> rfl
      | undefined => rfl
      | outOfFuel => rfl
    · rfl
  | tableParameter appIndex rowIndex paraIndex =>
    simp only [run, node, configApiReadTableParameter]
    split_ifs
    · cases c.findApp T appIndex with
      | undefined => rfl
      | outOfFuel => rfl
      | done found =>
        cases found with
        | none => rfl
        | some a =>
          simp only [Outcome.bind_done]
          cases c.findRow T a (getRowId appIndex rowIndex) with
          | undefined => rfl
          | outOfFuel => rfl
          | done found => cases found <;> rfl
    · rfl

/-- The writers change the value of the node. -/
theorem WriteCall.exists_node {k : WriteCall} (h : k.run T c = .done (0, c')) :
    ∃ p, k.target.node T c = .done (some p) ∧ c' = c.writeVal p k.val := by
  obtain ⟨target, val⟩ := k
  cases target with
  | parameter appIndex paraIndex =>
    simp only [run, configApiWriteParameter] at h
    simp only [ReadCall.node]
    split at h
    · rename_i hvalid
      rw [if_pos hvalid]
      obtain ⟨app, happ, h⟩ := Outcome.bind_eq_done.1 h
      cases app with
      | none => cases h
      | some a =>
        obtain ⟨para, hpara, h⟩ := Outcome.bind_eq_done.1 h
        cases para with
        | none => cases h
        | some p =>
          cases h
          exact ⟨p, by rw [happ]; exact hpara, rfl⟩
    · cases h
  | tableParameter appIndex rowIndex paraIndex =>
    simp only [run, configApiWriteTableParameter] at h
    simp only [ReadCall.node]
    split at h
    · rename_i hvalid
      rw [if_pos hvalid]
      obtain ⟨app, happ, h⟩ := Outcome.bind_eq_done.1 h
      cases app with
      | none => cases h
      | some a =>
        obtain ⟨row, hrow, h⟩ := Outcome.bind_eq_done.1 h
        cases row with
        | none => cases h
        | some r =>
          obtain ⟨para, hpara, h⟩ := Outcome.bind_eq_done.1 h
          cases para with
          | none => cases h
          | some p =>
            cases h
            exact ⟨p, by rw [happ, Outcome.bind_done]; simp only; rw [hrow]; exact hpara, rfl⟩
    · cases h

theorem ReadCall.node_writeVal (k : ReadCall) (p : Nat) (val : List Char) : k.node T (c.writeVal p val) = k.node T c := by
  cases k with
  | parameter appIndex paraIndex =>
    simp only [node, findPara_writeVal]
    rfl
  | tableParameter appIndex rowIndex paraIndex =>
    simp only [node, findPara_writeVal]
    rfl

namespace Holds

/-- A parameter of an application that is found. -/
theorem node_parameter (h : Holds T c L) {appIndex paraIndex : Int} {p : Nat}
    (hnode : (ReadCall.parameter appIndex paraIndex).node T c = .done (some p)) :
    ∃ a, FirstApp c L appIndex a ∧ p ∈ L.paras (.app a) ∧ (c.para p).paraId = getParaId appIndex 0 paraIndex := by
  simp only [ReadCall.node] at hnode
  split at hnode
  · obtain ⟨app, happ, hnode⟩ := Outcome.bind_eq_done.1 hnode
    cases app with
    | none => cases hnode
    | some a =>
      simp only at hnode
      rw [show (c.app a).para = c.paraHead (.app a) from rfl, h.findPara_eq (.app a)] at hnode
      have hfind := Outcome.done.inj hnode
      exact ⟨a, h.findApp_some happ, List.mem_of_find?_eq_some hfind, by simpa using List.find?_some hfind⟩
  · cases hnode

/-- A parameter of a row that is found. -/
theorem node_tableParameter (h : Holds T c L) {appIndex rowIndex paraIndex : Int} {p : Nat}
    (hnode : (ReadCall.tableParameter appIndex rowIndex paraIndex).node T c = .done (some p)) :
    ∃ a r, T.ValidApp appIndex ∧ c.findApp T appIndex = .done (some a) ∧
      c.findRow T a (getRowId appIndex rowIndex) = .done (some r) ∧ FirstApp c L appIndex a ∧ r ∈ L.rows a ∧
      (c.row r).rowId = getRowId appIndex rowIndex ∧ p ∈ L.paras (.row r) ∧
      (c.para p).paraId = getParaId appIndex rowIndex paraIndex := by
  simp only [ReadCall.node] at hnode
  split at hnode
  · rename_i hvalid
    obtain ⟨app, happ, hnode⟩ := Outcome.bind_eq_done.1 hnode
    cases app with
    | none => cases hnode
    | some a =>
      obtain ⟨row, hrow, hnode⟩ := Outcome.bind_eq_done.1 hnode
      cases row with
      | none => cases hnode
      | some r =>
        simp only at hnode
        rw [show (c.row r).para = c.paraHead (.row r) from rfl, h.findPara_eq (.row r)] at hnode
        have hfind := Outcome.done.inj hnode
        have hfound := hrow
        rw [h.findRow_eq] at hfound
        have hfound := Outcome.done.inj hfound
        exact ⟨a, r, hvalid, happ, hrow, h.findApp_some happ, List.mem_of_find?_eq_some hfound,
          by simpa using List.find?_some hfound, List.mem_of_find?_eq_some hfind, by simpa using List.find?_some hfind⟩
  · cases hnode

/-- Two calls that find one node are the same. -/
theorem node_inj (h : Holds T c L) {k k' : ReadCall} {p : Nat} (hk : k.node T c = .done (some p))
    (hk' : k'.node T c = .done (some p)) : k = k' := by
  cases k with
  | parameter appIndex paraIndex =>
    obtain ⟨a, ha, hp, hid⟩ := h.node_parameter hk
    cases k' with
    | parameter appIndex' paraIndex' =>
      obtain ⟨a', ha', hp', hid'⟩ := h.node_parameter hk'
      obtain rfl : a = a' := ParaOwner.app.inj (h.para_owner _ _ p hp hp')
      obtain rfl := ha.2.1.symm.trans ha'.2.1
      rw [hid] at hid'
      unfold getParaId at hid'
      obtain rfl : paraIndex = paraIndex' := by omega
      rfl
    | tableParameter appIndex' rowIndex' paraIndex' =>
      obtain ⟨a', r', -, -, -, -, -, -, hp', -⟩ := h.node_tableParameter hk'
      cases h.para_owner _ _ p hp hp'
  | tableParameter appIndex rowIndex paraIndex =>
    obtain ⟨a, r, -, -, -, ha, hr, hrid, hp, hid⟩ := h.node_tableParameter hk
    cases k' with
    | parameter appIndex' paraIndex' =>
      obtain ⟨a', ha', hp', hid'⟩ := h.node_parameter hk'
      cases h.para_owner _ _ p hp hp'
    | tableParameter appIndex' rowIndex' paraIndex' =>
      obtain ⟨a', r', -, -, -, ha', hr', hrid', hp', hid'⟩ := h.node_tableParameter hk'
      obtain rfl : r = r' := ParaOwner.row.inj (h.para_owner _ _ p hp hp')
      obtain rfl := h.row_owner a a' r hr hr'
      obtain rfl := ha.2.1.symm.trans ha'.2.1
      obtain rfl := getRowId_inj.1 (hrid.symm.trans hrid')
      rw [hid] at hid'
      unfold getParaId at hid'
      obtain rfl : paraIndex = paraIndex' := by omega
      rfl

/-- What the loop over the columns of a row copies. -/
theorem readColumns_eq (h : Holds T c L) (o : ParaOwner) (val : Nat → Buffer) :
    c.readColumns T (c.paraHead o) val =
      .done fun j => match (L.paras o)[j]? with
        | some p => copyVal (val j) (c.para p).paraVal
        | none => val j := by
  have hfold : ∀ (ps : List Nat) (i : Nat) (v : Nat → Buffer),
      ps.foldlM (fun (s : Nat × (Nat → Buffer)) p =>
        (Except.ok (s.1 + 1, Function.update s.2 s.1 (copyVal (s.2 s.1) (c.para p).paraVal)) : Except Empty _)) (i, v) =
      .ok (i + ps.length, fun j => if i ≤ j then
        match ps[j - i]? with
        | some p => copyVal (v j) (c.para p).paraVal
        | none => v j
        else v j) := by
    intro ps
    induction ps with
    | nil =>
      intro i v
      simp only [List.foldlM_nil, List.getElem?_nil, ite_self, List.length_nil, Nat.add_zero]
      rfl
    | cons p ps ih =>
      intro i v
      rw [List.foldlM_cons]
      show ps.foldlM _ (i + 1, Function.update v i (copyVal (v i) (c.para p).paraVal)) = _
      rw [ih, List.length_cons]
      congr 2
      · omega
      · funext j
        rcases Nat.lt_trichotomy j i with hlt | rfl | hgt
        · rw [if_neg (by omega), if_neg (by omega), Function.update_of_ne (by omega)]
        · rw [if_neg (by omega), if_pos (Nat.le_refl _), Function.update_self, Nat.sub_self]
          rfl
        · obtain ⟨d, rfl⟩ : ∃ d, j = i + 1 + d := ⟨j - (i + 1), by omega⟩
          rw [if_pos (by omega), if_pos (by omega), Function.update_of_ne (by omega),
            show i + 1 + d - (i + 1) = d by omega, show i + 1 + d - i = d + 1 by omega, List.getElem?_cons_succ]
  unfold readColumns
  rw [(h.para_chain o).loopFrom_eq (h.paras_live o) (h.paras_length o), hfold]
  refine congrArg Outcome.done ?_
  funext j
  simp only [Nat.zero_le, if_true, Nat.sub_zero]

/-- The columns of a full row are numbered from one on. -/
theorem paraId_of_full (h : Holds T c L) (hfull : RowsFull T (c.docOn L)) {a r : Nat} (hr : r ∈ L.rows a) {j p : Nat}
    (hp : (L.paras (.row r))[j]? = some p) : (c.para p).paraId = (c.row r).rowId + (j + 1) := by
  have ha : c.appDoc L a ∈ c.docOn L := List.mem_map_of_mem (List.mem_range.2 (h.row_mem a r hr).1)
  obtain ⟨e, -, hcols⟩ := hfull _ ha (c.rowDoc L r) (List.mem_map_of_mem hr)
  have hget := congrArg (fun l => l[j]?) hcols
  have hrange : j < e.2 - 1 := by
    have hlen := congrArg List.length hcols
    obtain ⟨hlt, -⟩ := List.getElem?_eq_some_iff.1 hp
    simp only [rowDoc, tableColumns, List.length_map, List.length_range] at hlen
    omega
  simp only [rowDoc, tableColumns, List.getElem?_map, hp, Option.map_some, List.getElem?_range hrange, Option.some.injEq,
    Prod.mk.injEq] at hget
  exact hget.1

end Holds

/-! ## What is read behind a write -/

namespace Holds

/-- What `config_api_read_table_row` copies of a row that is found. -/
theorem configApiReadTableRow_of_found (h : Holds T c L) {appIndex rowIndex : Int} {a r : Nat} (hvalid : T.ValidApp appIndex)
    (happ : c.findApp T appIndex = .done (some a)) (hrow : c.findRow T a (getRowId appIndex rowIndex) = .done (some r))
    (val : Nat → Buffer) :
    c.configApiReadTableRow T appIndex rowIndex val =
      .done (0, fun j => match (L.paras (.row r))[j]? with
        | some p => copyVal (val j) (c.para p).paraVal
        | none => val j) := by
  unfold configApiReadTableRow
  rw [if_pos hvalid, happ, Outcome.bind_done]
  simp only
  rw [hrow, Outcome.bind_done]
  simp only
  rw [show (c.row r).para = c.paraHead (.row r) from rfl, h.readColumns_eq]
  rfl

/-- What `config_api_read_table_row` copies of a parameter of a full row that is found. -/
theorem configApiReadTableRow_of_node (h : Holds T c L) (hfull : RowsFull T (c.docOn L)) {appIndex rowIndex paraIndex : Int}
    {p : Nat} (hnode : (ReadCall.tableParameter appIndex rowIndex paraIndex).node T c = .done (some p)) (val : Nat → Buffer) :
    ∃ s, c.configApiReadTableRow T appIndex rowIndex val = .done (0, s) ∧
      s (paraIndex - 1).toNat = copyVal (val (paraIndex - 1).toNat) (c.para p).paraVal := by
  obtain ⟨a, r, hvalid, happ, hrow, -, hr, hrid, hp, hid⟩ := h.node_tableParameter hnode
  obtain ⟨j, hj⟩ := List.mem_iff_getElem?.1 hp
  have hcolumn := h.paraId_of_full hfull hr hj
  rw [hid, hrid] at hcolumn
  unfold getParaId getRowId at hcolumn
  refine ⟨_, h.configApiReadTableRow_of_found hvalid happ hrow val, ?_⟩
  rw [show (paraIndex - 1).toNat = j by omega, hj]

end Holds

/-- What is promised of the readers behind a write: the value is read back by every reader of it, with a null character behind
it, the readers agree on every parameter of a table, and every other parameter is read as before. -/
structure ReadsBack (T : EntityTable) (c c' : Cache) (k : WriteCall) (result : Buffer) (val : Nat → Buffer) : Prop where
  own : ∃ s, k.target.into T c' result = .done (0, s) ∧ IsString s (k.val.take (maxValueLen - 1))
  row : ∀ appIndex rowIndex paraIndex, k.target = .tableParameter appIndex rowIndex paraIndex →
    ∃ s, c'.configApiReadTableRow T appIndex rowIndex val = .done (0, s) ∧
      IsString (s (paraIndex - 1).toNat) (k.val.take (maxValueLen - 1))
  agree : ∀ appIndex rowIndex paraIndex s, (ReadCall.tableParameter appIndex rowIndex paraIndex).into T c' result = .done (0, s) →
    ∃ s', c'.configApiReadTableRow T appIndex rowIndex (fun _ => result) = .done (0, s') ∧ s' (paraIndex - 1).toNat = s
  others : ∀ k' : ReadCall, k' ≠ k.target → ∀ b, k'.into T c' b = k'.into T c b
  otherColumns : ∀ appIndex rowIndex (j : Nat), ReadCall.tableParameter appIndex rowIndex (j + 1) ≠ k.target → ∀ v,
    (c'.configApiReadTableRow T appIndex rowIndex v).map (fun x => (x.1, x.2 j)) =
      (c.configApiReadTableRow T appIndex rowIndex v).map fun x => (x.1, x.2 j)

theorem writeVal_paraVal_of_ne {p q : Nat} (hq : q ≠ p) (val : List Char) :
    ((c.writeVal p val).para q).paraVal = (c.para q).paraVal := by
  unfold Cache.writeVal setPara
  simp only
  rw [Function.update_of_ne hq]

theorem ReadCall.into_of_node {k : ReadCall} {p : Nat} (hnode : k.node T c = .done (some p)) (result : Buffer) :
    k.into T c result = .done (0, copyVal result (c.para p).paraVal) := by
  unfold ReadCall.into
  rw [ReadCall.run_eq, hnode]
  rfl

theorem ReadCall.exists_node {k : ReadCall} {result s : Buffer} (h : k.into T c result = .done (0, s)) :
    ∃ p, k.node T c = .done (some p) := by
  unfold ReadCall.into at h
  obtain ⟨v, hv, heq⟩ := Outcome.map_eq_done.1 h
  rw [ReadCall.run_eq] at hv
  obtain ⟨p, hp, rfl⟩ := Outcome.map_eq_done.1 hv
  cases p with
  | none => cases heq
  | some p => exact ⟨p, hp⟩

/-- A write changes what is read of its own parameter only. -/
theorem ReadCall.into_writeVal_of_ne {L : Layout} (h : Holds T c L) {k k' : ReadCall} {p : Nat} (hk : k.node T c = .done (some p))
    (hne : k' ≠ k) (val : List Char) (b : Buffer) : k'.into T (c.writeVal p val) b = k'.into T c b := by
  unfold ReadCall.into
  rw [ReadCall.run_eq, ReadCall.run_eq, ReadCall.node_writeVal]
  cases hnode : k'.node T c with
  | undefined => rfl
  | outOfFuel => rfl
  | done found =>
    cases found with
    | none => rfl
    | some q =>
      have hq : q ≠ p := by
        rintro rfl
        exact hne (h.node_inj hnode hk)
      simp only [Outcome.map, Outcome.bind_done, Option.map_some]
      rw [writeVal_paraVal_of_ne hq]

/-- A write changes what is read of its own column only. -/
theorem configApiReadTableRow_writeVal_of_ne {L : Layout} (h : Holds T c L) (hfull : RowsFull T (c.docOn L)) {k : ReadCall}
    {p : Nat} (hk : k.node T c = .done (some p)) (val : List Char) {appIndex rowIndex : Int} {j : Nat}
    (hne : ReadCall.tableParameter appIndex rowIndex (j + 1) ≠ k) (v : Nat → Buffer) :
    ((c.writeVal p val).configApiReadTableRow T appIndex rowIndex v).map (fun x => (x.1, x.2 j)) =
      (c.configApiReadTableRow T appIndex rowIndex v).map fun x => (x.1, x.2 j) := by
  by_cases hvalid : T.ValidApp appIndex
  · cases happ : c.findApp T appIndex with
    | undefined => exact absurd (h.findApp_eq appIndex ▸ happ) (by simp)
    | outOfFuel => exact absurd (h.findApp_eq appIndex ▸ happ) (by simp)
    | done found =>
      have happ' : (c.writeVal p val).findApp T appIndex = .done found := happ
      cases found with
      | none =>
        unfold configApiReadTableRow
        rw [if_pos hvalid, if_pos hvalid, happ, happ']
        rfl
      | some a =>
        cases hrow : c.findRow T a (getRowId appIndex rowIndex) with
        | undefined => exact absurd (h.findRow_eq a _ ▸ hrow) (by simp)
        | outOfFuel => exact absurd (h.findRow_eq a _ ▸ hrow) (by simp)
        | done found =>
          have hrow' : (c.writeVal p val).findRow T a (getRowId appIndex rowIndex) = .done found := hrow
          cases found with
          | none =>
            unfold configApiReadTableRow
            rw [if_pos hvalid, if_pos hvalid, happ, happ', Outcome.bind_done, Outcome.bind_done]
            simp only
            rw [hrow, hrow']
            rfl
          | some r =>
            rw [h.configApiReadTableRow_of_found hvalid happ hrow,
              (h.writeVal p val).configApiReadTableRow_of_found hvalid happ' hrow']
            simp only [Outcome.map, Outcome.bind_done]
            cases hj : (L.paras (.row r))[j]? with
            | none => rfl
            | some q =>
              have hq : q ≠ p := by
                rintro rfl
                -- the column would be the parameter that was written
                rw [h.findRow_eq] at hrow
                have hfound := Outcome.done.inj hrow
                have hr := List.mem_of_find?_eq_some hfound
                have hrid : (c.row r).rowId = getRowId appIndex rowIndex := by simpa using List.find?_some hfound
                have hcolumn := h.paraId_of_full hfull hr hj
                have hfirst := h.findApp_some happ
                have hmem := List.mem_of_getElem? hj
                cases k with
                | parameter appIndex' paraIndex' =>
                  obtain ⟨a', -, hp', -⟩ := h.node_parameter hk
                  cases h.para_owner _ _ q hmem hp'
                | tableParameter appIndex' rowIndex' paraIndex' =>
                  obtain ⟨a', r', -, -, -, ha', hr', hrid', hp', hid'⟩ := h.node_tableParameter hk
                  obtain rfl : r = r' := ParaOwner.row.inj (h.para_owner _ _ q hmem hp')
                  obtain rfl := h.row_owner a a' r hr hr'
                  obtain rfl := hfirst.2.1.symm.trans ha'.2.1
                  obtain rfl := getRowId_inj.1 (hrid.symm.trans hrid')
                  rw [hcolumn, hrid] at hid'
                  unfold getParaId getRowId at hid'
                  obtain rfl : paraIndex' = j + 1 := by omega
                  exact hne rfl
              simp only
              rw [writeVal_paraVal_of_ne hq]
  · unfold configApiReadTableRow
    rw [if_neg hvalid, if_neg hvalid]

theorem rowsFull_writeVal {L : Layout} (hfull : RowsFull T (c.docOn L)) (p : Nat) (val : List Char) :
    RowsFull T ((c.writeVal p val).docOn L) :=
  rowsFull_of_written (c.docOn_writeVal p val L) hfull

/-- **Reading back what was written**, of a cache with the invariant whose rows are full: a value that was written is read back,
and everything else as before, exactly when the value is shorter than `MAX_VALUE_LEN - 1`, or there was a null character where
the readers leave off in the memory that they copy to. -/
theorem read_back_iff {T : EntityTable} {c c' : Cache} (h : Sound T c) (hfull : RowsFull T (c.doc T)) {k : WriteCall}
    (hwrite : k.run T c = .done (0, c')) (hval : '\x00' ∉ k.val) (result : Buffer) (val : Nat → Buffer) :
    ReadsBack T c c' k result val ↔
      k.val.length < maxValueLen - 1 ∨ result (maxValueLen - 1) = '\x00' ∧
        ∀ appIndex rowIndex paraIndex, k.target = .tableParameter appIndex rowIndex paraIndex →
          val (paraIndex - 1).toNat (maxValueLen - 1) = '\x00' := by
  obtain ⟨p, hnode, rfl⟩ := WriteCall.exists_node hwrite
  have hnode' : k.target.node T (c.writeVal p k.val) = .done (some p) := by rw [ReadCall.node_writeVal, hnode]
  have hholds := h.holds
  have hholds' := hholds.writeVal p k.val
  have hfull' := rowsFull_writeVal (h.holds.doc_eq ▸ hfull) p k.val
  have hvalue := c.writeVal_paraVal p k.val
  have hlen : (k.val.take (maxValueLen - 1)).length ≤ maxValueLen - 1 := List.length_take_le ..
  have hnul : '\x00' ∉ k.val.take (maxValueLen - 1) := fun hmem => hval (List.mem_of_mem_take hmem)
  have hown := ReadCall.into_of_node hnode' result
  rw [hvalue] at hown
  have hstring := fun b => isString_copyVal hlen hnul b
  have hshort : (k.val.take (maxValueLen - 1)).length < maxValueLen - 1 ↔ k.val.length < maxValueLen - 1 := by
    rw [List.length_take]
    omega
  simp only [hshort] at hstring
  constructor
  · intro hback
    by_cases hlt : k.val.length < maxValueLen - 1
    · exact Or.inl hlt
    · obtain ⟨s, hs, hstr⟩ := hback.own
      obtain rfl : _ = s := congrArg Prod.snd (Outcome.done.inj (hown.symm.trans hs))
      refine Or.inr ⟨((hstring result).1 hstr).resolve_left hlt, fun appIndex rowIndex paraIndex htarget => ?_⟩
      obtain ⟨s, hs, hstr⟩ := hback.row _ _ _ htarget
      rw [htarget] at hnode'
      obtain ⟨s', hs', hcolumn⟩ := hholds'.configApiReadTableRow_of_node hfull' hnode' val
      obtain rfl : s' = s := congrArg Prod.snd (Outcome.done.inj (hs'.symm.trans hs))
      rw [hcolumn, hvalue] at hstr
      exact ((hstring _).1 hstr).resolve_left hlt
  · intro hroom
    refine ⟨⟨_, hown, (hstring result).2 (hroom.imp_right And.left)⟩, ?_, ?_, ?_, ?_⟩
    · intro appIndex rowIndex paraIndex htarget
      rw [htarget] at hnode'
      obtain ⟨s, hs, hcolumn⟩ := hholds'.configApiReadTableRow_of_node hfull' hnode' val
      refine ⟨s, hs, ?_⟩
      rw [hcolumn, hvalue]
      exact (hstring _).2 (hroom.imp_right fun hzero => hzero.2 _ _ _ htarget)
    · intro appIndex rowIndex paraIndex s hs
      obtain ⟨q, hq⟩ := ReadCall.exists_node hs
      obtain ⟨s', hs', hcolumn⟩ := hholds'.configApiReadTableRow_of_node hfull' hq fun _ => result
      have heq := congrArg Prod.snd (Outcome.done.inj ((ReadCall.into_of_node hq result).symm.trans hs))
      exact ⟨s', hs', hcolumn.trans heq⟩
    · intro k' hne b
      exact ReadCall.into_writeVal_of_ne hholds hnode hne k.val b
    · intro appIndex rowIndex j hne v
      exact configApiReadTableRow_writeVal_of_ne hholds (h.holds.doc_eq ▸ hfull) hnode k.val hne v

/-- The address of the local network is written. -/
def writeIp (val : List Char) : WriteCall := ⟨.parameter 1 1, val⟩

theorem read_back_lan :
    ReadsBack entityInfoArray (cacheOf entityInfoArray "[lan]\nip=192.168.0.1\n")
        ((cacheOf entityInfoArray "[lan]\nip=192.168.0.1\n").writeVal 0 "10.0.0.1".toList) (writeIp "10.0.0.1".toList)
        (fun _ => 'x') (fun _ _ => 'x') ↔
      "10.0.0.1".toList.length < maxValueLen - 1 ∨ 'x' = '\x00' ∧
        ∀ appIndex rowIndex paraIndex, ReadCall.parameter 1 1 = .tableParameter appIndex rowIndex paraIndex → 'x' = '\x00' :=
  read_back_iff (k := writeIp "10.0.0.1".toList)
    ((loaded (show buildParaTable entityInfoArray "[lan]\nip=192.168.0.1\n".toList = .done (some _) from rfl)).2 (by decide))
    (by decide) rfl (by decide) (fun _ => 'x') fun _ _ => 'x'

/-- A value of `MAX_VALUE_LEN - 1` characters is copied into memory with other characters in it: no null character is behind
it. -/
theorem not_read_back :
    Sound entityInfoArray (cacheOf entityInfoArray "[lan]\nip=192.168.0.1\n") ∧
      RowsFull entityInfoArray ((cacheOf entityInfoArray "[lan]\nip=192.168.0.1\n").doc entityInfoArray) ∧
      ∃ c', (writeIp (List.replicate (maxValueLen - 1) 'x')).run entityInfoArray
          (cacheOf entityInfoArray "[lan]\nip=192.168.0.1\n") = .done (0, c') ∧
        ¬ReadsBack entityInfoArray (cacheOf entityInfoArray "[lan]\nip=192.168.0.1\n") c'
          (writeIp (List.replicate (maxValueLen - 1) 'x')) (fun _ => 'x') fun _ _ => 'x' := by
  have hlen : (List.replicate (maxValueLen - 1) 'x').length = maxValueLen - 1 := List.length_replicate
  generalize List.replicate (maxValueLen - 1) 'x' = v at hlen ⊢
  refine ⟨(loaded (show buildParaTable entityInfoArray "[lan]\nip=192.168.0.1\n".toList = .done (some _) from rfl)).2 (by decide),
    by decide, _, rfl, fun h => ?_⟩
  obtain ⟨s, hs, hstr⟩ := h.own
  have htake : v.take (maxValueLen - 1) = v := List.take_of_length_le (Nat.le_of_eq hlen)
  have hnode : (ReadCall.parameter 1 1).node entityInfoArray
      ((cacheOf entityInfoArray "[lan]\nip=192.168.0.1\n").writeVal 0 v) = .done (some 0) := by
    rw [ReadCall.node_writeVal]
    rfl
  have hread := ReadCall.into_of_node hnode fun _ => 'x'
  rw [writeVal_paraVal, htake] at hread
  obtain rfl : _ = s := congrArg Prod.snd (Outcome.done.inj (hread.symm.trans hs))
  change IsString _ (v.take (maxValueLen - 1)) at hstr
  rw [htake] at hstr
  rcases (isString_copyVal (Nat.le_of_eq hlen) hstr.noNul fun _ => 'x').1 hstr with hlt | hx
  · omega
  · exact absurd hx (by decide)

end CodeFactory.Conf
