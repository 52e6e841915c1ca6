import CodeFactory.Conf.Flash

/-!
# Regular contents

The parameters of an owner are numbered one after the other, names and values fit their buffers and have none of the characters
that end them. A file is loaded into regular contents, every call keeps them, and their items build them again.
-/

namespace CodeFactory.Conf

open Cache Layout

/-- The parameters have the identifiers that come after `base`. -/
def Numbered (base : Int) (ps : List ParaDoc) : Prop := ∀ (k : Nat) (q : ParaDoc), ps[k]? = some q → q.paraId = base + (k + 1 : Nat)

/-- The name fits its buffer, without the character that ends it; the value fits its buffer and is on one line. -/
structure ParaDoc.Plain (q : ParaDoc) : Prop where
  name_length : q.paraName.length ≤ maxNameLen - 1
  name_sign : '=' ∉ q.paraName
  name_null : '\x00' ∉ q.paraName
  val_length : q.paraVal.length ≤ maxValueLen - 1
  val_line : '\n' ∉ q.paraVal
  val_null : '\x00' ∉ q.paraVal

/-- A row with an index, and with parameters in order. -/
structure RowDoc.Regular (appId : Int) (r : RowDoc) : Prop where
  indexed : ∃ i : Int, 1 ≤ i ∧ r.rowId = getRowId appId i
  numbered : Numbered r.rowId r.paras
  plain : ∀ q ∈ r.paras, q.Plain

/-- An application of the table, with parameters and rows in order. -/
structure AppDoc.Regular (T : EntityTable) (s : AppDoc) : Prop where
  known : T.getAppIdByName s.appName = s.appId ∧ s.appId ≠ -1
  name_length : s.appName.length ≤ maxNameLen - 1
  name_bracket : ']' ∉ s.appName
  name_line : '\n' ∉ s.appName
  name_null : '\x00' ∉ s.appName
  numbered : Numbered (getRowId s.appId 0) s.paras
  plain : ∀ q ∈ s.paras, q.Plain
  rows : ∀ r ∈ s.rows, r.Regular s.appId

/-- Every application is regular. -/
def Regular (T : EntityTable) (d : List AppDoc) : Prop := ∀ s ∈ d, s.Regular T

/-! ## Regular contents are built of their items -/

theorem Builds.append {T : EntityTable} {e m d : List AppDoc} {its its' : List DocItem} (h : Builds T e its m)
    (h' : Builds T m its' d) : Builds T e (its ++ its') d := by
  induction its generalizing e with
  | nil =>
    obtain rfl : e = m := h
    exact h'
  | cons it its ih => exact ⟨h.1, ih h.2⟩

theorem Numbered.middle {base : Int} {ps qs : List ParaDoc} {q : ParaDoc} (h : Numbered base (ps ++ q :: qs)) :
    q.paraId = base + (ps.length + 1 : Nat) :=
  h ps.length q (by rw [List.getElem?_append_right (Nat.le_refl _), Nat.sub_self, List.getElem?_cons_zero])

section

variable {T : EntityTable} (e : List AppDoc)

/-- The parameters of an application. -/
theorem builds_own (appId : Int) (appName : List Char) (ps qs : List ParaDoc) (h : Numbered (getRowId appId 0) (ps ++ qs)) :
    Builds T (e ++ [⟨appId, appName, ps, []⟩]) (qs.map DocItem.para) (e ++ [⟨appId, appName, ps ++ qs, []⟩]) := by
  induction qs generalizing ps with
  | nil =>
    rw [List.append_nil]
    exact rfl
  | cons q qs ih =>
    refine ⟨⟨⟨appId, appName, ps, []⟩, by simp, h.middle⟩, ?_⟩
    rw [addItem, changeLast_concat]
    have hnext := ih (ps ++ [q]) (by rwa [List.append_assoc])
    rwa [List.append_assoc] at hnext

/-- The parameters of the last row. -/
theorem builds_columns (s : AppDoc) (rows : List RowDoc) (rowId : Int) (ps qs : List ParaDoc) (h : Numbered rowId (ps ++ qs)) :
    Builds T (e ++ [s.withRows (rows ++ [⟨rowId, ps⟩])]) (qs.map DocItem.para)
      (e ++ [s.withRows (rows ++ [⟨rowId, ps ++ qs⟩])]) := by
  induction qs generalizing ps with
  | nil =>
    rw [List.append_nil]
    exact rfl
  | cons q qs ih =>
    refine ⟨⟨s.withRows (rows ++ [⟨rowId, ps⟩]), by simp, ?_⟩, ?_⟩
    · rw [AppDoc.nextId, AppDoc.withRows, List.getLast?_concat]
      exact h.middle
    · rw [addItem, changeLast_concat]
      have hpara : (s.withRows (rows ++ [⟨rowId, ps⟩])).withPara q = s.withRows (rows ++ [⟨rowId, ps ++ [q]⟩]) := by
        unfold AppDoc.withPara AppDoc.withRows
        simp
      rw [hpara]
      have hnext := ih (ps ++ [q]) (by rwa [List.append_assoc])
      rwa [List.append_assoc] at hnext

/-- The rows of an application. -/
theorem builds_rows (s : AppDoc) (rows rs : List RowDoc) (h : ∀ r ∈ rs, r.Regular s.appId) :
    Builds T (e ++ [s.withRows rows]) (rs.flatMap (RowDoc.items s.appId)) (e ++ [s.withRows (rows ++ rs)]) := by
  induction rs generalizing rows with
  | nil =>
    rw [List.append_nil]
    exact rfl
  | cons r rs ih =>
    obtain ⟨rowId, ps⟩ := r
    have hr := h ⟨rowId, ps⟩ List.mem_cons_self
    rw [List.flatMap_cons]
    have hnext := ih (rows ++ [⟨rowId, ps⟩]) fun r hr => h r (List.mem_cons_of_mem _ hr)
    rw [List.append_assoc] at hnext
    refine Builds.append ?_ hnext
    refine ⟨⟨s.withRows rows, by simp, rfl, hr.indexed⟩, ?_⟩
    rw [addItem, changeLast_concat]
    exact builds_columns e s rows rowId [] ps hr.numbered

theorem builds_app (s : AppDoc) (h : s.Regular T) : Builds T e s.items (e ++ [s]) := by
  obtain ⟨appId, appName, ps, rs⟩ := s
  refine ⟨h.known, Builds.append (builds_own e appId appName [] ps h.numbered) ?_⟩
  exact builds_rows e ⟨appId, appName, ps, []⟩ [] rs h.rows

end

/-- **Regular contents are built of their items.** -/
theorem Regular.builds {T : EntityTable} {d : List AppDoc} (h : Regular T d) : Builds T [] (docItems d) d := by
  have hfrom : ∀ e, Builds T e (docItems d) (e ++ d) := by
    induction d with
    | nil =>
      intro e
      rw [List.append_nil]
      exact rfl
    | cons s d ih =>
      intro e
      have hnext := ih (fun t ht => h t (List.mem_cons_of_mem _ ht)) (e ++ [s])
      rw [List.append_assoc] at hnext
      exact (builds_app e s (h s List.mem_cons_self)).append hnext
  exact hfrom []

/-! ## Loading gives regular contents -/

/-- A value of one line, as a C string. -/
def PlainValue (val : List Char) : Prop := '\n' ∉ val ∧ '\x00' ∉ val

instance (val : List Char) : Decidable (PlainValue val) := inferInstanceAs (Decidable (_ ∧ _))

/-- What a line of a file can hold. -/
def ConfLine.Plain : ConfLine → Prop
  | .app name => ']' ∉ name ∧ '\n' ∉ name ∧ '\x00' ∉ name
  | .row _ => True
  | .para name val => '=' ∉ name ∧ '\x00' ∉ name ∧ PlainValue val
  | .malformed => True

theorem notMem_take {ch : Char} {l : List Char} (n : Nat) (h : ch ∉ l) : ch ∉ l.take n := fun hmem => h (List.mem_of_mem_take hmem)

/-- A value that is cut to its buffer. -/
theorem ParaDoc.Plain.of_take {q : ParaDoc} {val : List Char} (hlen : q.paraName.length ≤ maxNameLen - 1) (hsign : '=' ∉ q.paraName)
    (hnull : '\x00' ∉ q.paraName) (hval : PlainValue val) (heq : q.paraVal = val.take (maxValueLen - 1)) : q.Plain where
  name_length := hlen
  name_sign := hsign
  name_null := hnull
  val_length := by
    rw [heq]
    exact List.length_take_le _ _
  val_line := by
    rw [heq]
    exact notMem_take _ hval.1
  val_null := by
    rw [heq]
    exact notMem_take _ hval.2

theorem ParaDoc.Plain.ofLine {id : Int} {name val : List Char} (h : (ConfLine.para name val).Plain) :
    (ParaDoc.ofLine id name val).Plain :=
  .of_take (List.length_take_le _ _) (notMem_take _ h.1) (notMem_take _ h.2.1) h.2.2 rfl

theorem Numbered.nil (base : Int) : Numbered base [] := fun k q h => by simp at h

/-- Another parameter, with the next identifier. -/
theorem Numbered.concat {base : Int} {ps : List ParaDoc} {q : ParaDoc} (h : Numbered base ps)
    (hq : q.paraId = base + (ps.length + 1 : Nat)) : Numbered base (ps ++ [q]) := by
  intro k p hp
  rw [List.getElem?_append] at hp
  split at hp
  · exact h k p hp
  · have hk : k - ps.length = 0 := by
      by_contra hne
      rw [List.getElem?_eq_none (by rw [List.length_singleton]; omega)] at hp
      cases hp
    rw [hk] at hp
    obtain rfl := Option.some.inj hp
    rw [hq, show k = ps.length by omega]

namespace AppDoc.Regular

variable {T : EntityTable} {s : AppDoc}

theorem withRows (h : s.Regular T) {rows : List RowDoc} (hrows : ∀ r ∈ rows, r.Regular s.appId) : (s.withRows rows).Regular T :=
  ⟨h.known, h.name_length, h.name_bracket, h.name_line, h.name_null, h.numbered, h.plain, hrows⟩

theorem addRow (h : s.Regular T) {n : Int} (hn : 1 ≤ n) : (s.addRow n).Regular T := by
  refine h.withRows fun r hr => ?_
  rcases List.mem_append.1 hr with hr | hr
  · exact h.rows r hr
  · obtain rfl := List.mem_singleton.1 hr
    exact ⟨⟨n, hn, rfl⟩, .nil _, fun q hq => absurd hq List.not_mem_nil⟩

/-- A line with a parameter. -/
theorem addPara (h : s.Regular T) {name val : List Char} (hline : (ConfLine.para name val).Plain) :
    (s.addPara name val).Regular T := by
  have hplain : ∀ (ps : List ParaDoc) (id : Int), (∀ q ∈ ps, q.Plain) → ∀ q ∈ ps ++ [ParaDoc.ofLine id name val], q.Plain := by
    intro ps id hps q hq
    rcases List.mem_append.1 hq with hq | hq
    · exact hps q hq
    · obtain rfl := List.mem_singleton.1 hq
      exact .ofLine hline
  unfold AppDoc.addPara nextId
  cases hlast : s.rows.getLast? with
  | none =>
    exact ⟨h.known, h.name_length, h.name_bracket, h.name_line, h.name_null, h.numbered.concat rfl, hplain _ _ h.plain, h.rows⟩
  | some r =>
    have hreg := h.rows r (List.mem_of_getLast? hlast)
    refine h.withRows fun t ht => ?_
    rcases List.mem_append.1 ht with ht | ht
    · exact h.rows t (List.dropLast_subset _ ht)
    · obtain rfl := List.mem_singleton.1 ht
      exact ⟨hreg.indexed, hreg.numbered.concat rfl, hplain _ _ hreg.plain⟩

end AppDoc.Regular

/-- The last application is changed into a regular one. -/
theorem Regular.changeLast {T : EntityTable} {d : List AppDoc} (h : Regular T d) {f : AppDoc → AppDoc}
    (hf : ∀ s, s.Regular T → (f s).Regular T) : Regular T (changeLast d f) := by
  unfold Conf.changeLast
  cases hlast : d.getLast? with
  | none => exact h
  | some s =>
    intro t ht
    rcases List.mem_append.1 ht with ht | ht
    · exact h t (List.dropLast_subset _ ht)
    · obtain rfl := List.mem_singleton.1 ht
      exact hf s (h s (List.mem_of_getLast? hlast))

/-- A line keeps the contents regular. -/
theorem Regular.readLine {T : EntityTable} {d d' : List AppDoc} (h : Regular T d) {line : ConfLine} (hline : line.Plain)
    (hread : readLine T d line = some d') : Regular T d' := by
  cases line with
  | app name =>
    simp only [Conf.readLine] at hread
    split at hread
    · cases hread
    · next hid =>
      obtain rfl := Option.some.inj hread
      intro t ht
      rcases List.mem_append.1 ht with ht | ht
      · exact h t ht
      · obtain rfl := List.mem_singleton.1 ht
        exact ⟨⟨rfl, hid⟩, List.length_take_le _ _, notMem_take _ hline.1, notMem_take _ hline.2.1, notMem_take _ hline.2.2,
          .nil _, fun q hq => absurd hq List.not_mem_nil, fun r hr => absurd hr List.not_mem_nil⟩
  | row num =>
    simp only [Conf.readLine] at hread
    split at hread
    · cases hread
    · next hnum =>
      obtain rfl := Option.some.inj hread
      exact h.changeLast fun s hs => hs.addRow (by omega)
  | para name val =>
    obtain rfl := Option.some.inj hread
    exact h.changeLast fun s hs => hs.addPara hline
  | malformed => cases hread

theorem Regular.readLines {T : EntityTable} {d d' : List AppDoc} {lines : List ConfLine} (h : Regular T d)
    (hlines : ∀ line ∈ lines, line.Plain) (hread : readLines T d lines = some d') : Regular T d' := by
  induction lines generalizing d with
  | nil =>
    obtain rfl := Option.some.inj hread
    exact h
  | cons line lines ih =>
    obtain ⟨e, he, hrest⟩ := Option.bind_eq_some_iff.1 hread
    exact ih (h.readLine (hlines line List.mem_cons_self) he) (fun l hl => hlines l (List.mem_cons_of_mem _ hl)) hrest

/-! ## The calls keep the contents regular -/

/-- The names of the columns, as C strings without the character that ends a name in the file. -/
def EntityTable.NamesPlain (T : EntityTable) : Prop :=
  ∀ e ∈ T.entities, ∀ paras ∈ e.rowParas, ∀ p ∈ paras, '=' ∉ p.2 ∧ '\x00' ∉ p.2

instance (T : EntityTable) : Decidable T.NamesPlain :=
  inferInstanceAs (Decidable (∀ e ∈ T.entities, ∀ paras ∈ e.rowParas, ∀ p ∈ paras, '=' ∉ p.2 ∧ '\x00' ∉ p.2))

/-- The values of a call are C strings of one line. -/
def ConfCall.Plain : ConfCall → Prop
  | .writeParameter _ _ val => PlainValue val
  | .writeTableParameter _ _ _ val => PlainValue val
  | .addTableRow _ _ val => ∀ j, ∀ v ∈ val j, PlainValue v
  | .deleteTableRow _ _ => True

/-- The name that a column gets. -/
theorem EntityTable.NamesPlain.columnName {T : EntityTable} (h : T.NamesPlain) {id : Int} {name : List Char}
    (hname : T.columnName id = some name) : name.length ≤ maxNameLen - 1 ∧ '=' ∉ name ∧ '\x00' ∉ name := by
  unfold EntityTable.columnName getParaNameById at hname
  split at hname
  · cases hname
  · next e he =>
    split at hname
    · cases hname
    · next paras hparas =>
      split at hname
      · cases hname
      · next p hp =>
        obtain rfl := Option.some.inj hname
        obtain ⟨hsign, hnull⟩ := h e (List.mem_of_find?_eq_some he) paras hparas p (List.mem_of_find?_eq_some hp)
        exact ⟨List.length_take_le _ _, notMem_take _ hsign, notMem_take _ hnull⟩

/-- An item of the second list and the one of the first that it belongs to. -/
theorem getElem?_of_forall₂ {α : Type} {R : α → α → Prop} {l l' : List α} (h : List.Forall₂ R l l') {k : Nat} {y : α}
    (hy : l'[k]? = some y) : ∃ x, l[k]? = some x ∧ R x y := by
  induction h generalizing k with
  | nil => simp at hy
  | @cons x z l l' hxz _ ih =>
    cases k with
    | zero =>
      obtain rfl := Option.some.inj hy
      exact ⟨x, rfl, hxz⟩
    | succ k => exact ih (k := k) hy

section

variable {val : List Char}

theorem Numbered.written {base : Int} {ps ps' : List ParaDoc} (h : Numbered base ps)
    (hw : List.Forall₂ (ParaDoc.Written val) ps ps') : Numbered base ps' := by
  intro k q' hq'
  obtain ⟨q, hq, hwq⟩ := getElem?_of_forall₂ hw hq'
  rw [hwq.paraId]
  exact h k q hq

theorem ParaDoc.Plain.written {ps ps' : List ParaDoc} (hval : PlainValue val) (h : ∀ q ∈ ps, q.Plain)
    (hw : List.Forall₂ (ParaDoc.Written val) ps ps') : ∀ q ∈ ps', q.Plain := by
  intro q' hq'
  obtain ⟨q, hq, hwq⟩ := exists_of_forall₂ hw hq'
  have hplain := h q hq
  obtain ⟨hid, hname, hold | hnew⟩ := hwq
  · obtain rfl : q' = q := by
      cases q
      cases q'
      simp only at hid hname hold
      rw [hid, hname, hold]
    exact hplain
  · refine .of_take ?_ ?_ ?_ hval hnew
    · rw [hname]
      exact hplain.name_length
    · rw [hname]
      exact hplain.name_sign
    · rw [hname]
      exact hplain.name_null

/-- A value that is written leaves the contents regular. -/
theorem Regular.written {T : EntityTable} {d d' : List AppDoc} (hval : PlainValue val) (h : Regular T d)
    (hw : List.Forall₂ (AppDoc.Written val) d d') : Regular T d' := by
  intro s' hs'
  obtain ⟨s, hs, hws⟩ := exists_of_forall₂ hw hs'
  have hreg := h s hs
  have hid := hws.appId
  have hname := hws.appName
  refine ⟨?_, hname ▸ hreg.name_length, hname ▸ hreg.name_bracket, hname ▸ hreg.name_line, hname ▸ hreg.name_null, ?_,
    ParaDoc.Plain.written hval hreg.plain hws.paras, fun r' hr' => ?_⟩
  · rw [hname, hid]
    exact hreg.known
  · rw [hid]
    exact hreg.numbered.written hws.paras
  · obtain ⟨r, hr, hwr⟩ := exists_of_forall₂ hws.rows hr'
    have hrow := hreg.rows r hr
    refine ⟨?_, ?_, ParaDoc.Plain.written hval hrow.plain hwr.paras⟩
    · rw [hwr.rowId, hid]
      exact hrow.indexed
    · rw [hwr.rowId]
      exact hrow.numbered.written hwr.paras

end

/-- A row that was added. -/
theorem IsNewRow.regular {T : EntityTable} (hnames : T.NamesPlain) {appIndex i : Int} {val : Nat → Option (List Char)}
    {r : RowDoc} (h : IsNewRow T appIndex i val r) (hi : 1 ≤ i) (hval : ∀ j, ∀ v ∈ val j, PlainValue v) : r.Regular appIndex := by
  refine ⟨⟨i, hi, h.rowId⟩, ?_, ?_⟩
  · intro k q hq
    rw [h.paraId k q hq, h.rowId]
    unfold getParaId getRowId
    omega
  · intro q hq
    obtain ⟨k, hk⟩ := List.getElem?_of_mem hq
    obtain ⟨hlen, hsign, hnull⟩ := hnames.columnName (h.paraName k q hk)
    refine .of_take hlen hsign hnull ?_ (h.paraVal k q hk)
    cases hv : val k with
    | none => exact ⟨List.not_mem_nil, List.not_mem_nil⟩
    | some v => exact hval k v hv

/-- **A call keeps the contents regular.** -/
theorem Change.regular {T : EntityTable} (hnames : T.NamesPlain) {d d' : List AppDoc} {call : ConfCall} {ret : Int}
    (h : Change T d call ret d') (hplain : call.Plain) (hreg : Regular T d) : Regular T d' := by
  have hset : ∀ (a : Nat) (s : AppDoc), s.Regular T → Regular T (d.set a s) := by
    intro a s hs t ht
    rcases List.mem_or_eq_of_mem_set ht with ht | rfl
    · exact hreg t ht
    · exact hs
  cases h with
  | nothing => exact hreg
  | written hw => exact hreg.written hplain hw
  | tableWritten hw => exact hreg.written hplain hw
  | @added appIndex rowIndex val a s rowMaxnum rowEnd xs ys i r _ h _ =>
    have hs := hreg s (List.mem_of_getElem? h.app)
    refine hset a _ (hs.withRows fun t ht => ?_)
    have hrows := hs.rows
    rw [h.rows] at hrows
    rcases List.mem_append.1 ht with ht | ht
    · exact hrows t (List.mem_append_left _ ht)
    · rcases List.mem_cons.1 ht with rfl | ht
      · rw [h.adds.appId]
        exact h.row.regular hnames h.adds.one_le hplain
      · exact hrows t (List.mem_append_right _ ht)
  | @deleted appIndex rowIndex a s xs ys r happ hid hrows hr =>
    have hs := hreg s (List.mem_of_getElem? happ)
    refine hset a _ (hs.withRows fun t ht => hs.rows t ?_)
    rw [hrows]
    rcases List.mem_append.1 ht with ht | ht
    · exact List.mem_append_left _ ht
    · exact List.mem_append_right _ (List.mem_cons_of_mem _ ht)

end CodeFactory.Conf
