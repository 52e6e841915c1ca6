import CodeFactory.Conf.Contents

/-!
# What is loaded

Loading puts the contents of a file into a cache with a layout as long as its lines fit, and is undefined at the first line that
does not.
-/

namespace CodeFactory.Conf

open Cache Layout

/-! ## The cache while the file is read -/

namespace Layout

/-- The owner of the next parameter. -/
def lastOwner (L : Layout) (a : Nat) : ParaOwner :=
  match (L.rows a).getLast? with
  | some r => .row r
  | none => .app a

/-- What the next parameter belongs to is there. -/
theorem has_lastOwner (L : Layout) {a : Nat} (ha : a < L.apps) : L.Has (L.lastOwner a) := by
  unfold lastOwner
  cases hlast : (L.rows a).getLast? with
  | none => exact ha
  | some r => exact ⟨a, List.mem_of_getLast? hlast⟩

/-- The layout with another application. -/
def addApp (L : Layout) : Layout := { L with apps := L.apps + 1 }

end Layout

namespace Holds

variable {T : EntityTable} {c : Cache} {L : Layout}

theorem rows_eq_nil (h : Holds T c L) {a : Nat} (ha : L.apps ≤ a) : L.rows a = [] := by
  rw [List.eq_nil_iff_forall_not_mem]
  intro r hr
  have := (h.row_mem a r hr).1
  omega

theorem paras_eq_nil (h : Holds T c L) {a : Nat} (ha : L.apps ≤ a) : L.paras (.app a) = [] := by
  rw [List.eq_nil_iff_forall_not_mem]
  intro p hp
  have : a < L.apps := (h.para_mem _ p hp).1
  omega

/-- What the next parameter belongs to is of no other application. -/
theorem lastOwner_ne (h : Holds T c L) {a b : Nat} (hb : b ≠ a) :
    L.lastOwner a ≠ .app b ∧ ∀ r ∈ L.rows b, L.lastOwner a ≠ .row r := by
  unfold lastOwner
  cases hlast : (L.rows a).getLast? with
  | none => exact ⟨fun heq => hb (ParaOwner.app.inj heq).symm, fun r _ heq => by cases heq⟩
  | some q =>
    refine ⟨fun heq => (by cases heq), fun r hr heq => ?_⟩
    obtain rfl := ParaOwner.row.inj heq
    exact hb (h.row_owner b a q hr (List.mem_of_getLast? hlast))

/-- The next application is put into use. -/
theorem addApp (h : Holds T c L) (hmax : L.apps < T.gMaxAppNum) {id : Int} (hid : id ≠ -1) (name : List Char) :
    Holds T (c.setApp L.apps { c.app L.apps with appId := id, appName := name }) L.addApp := by
  have happ : ∀ a, ((c.setApp L.apps { c.app L.apps with appId := id, appName := name }).app a).row = (c.app a).row ∧
      ((c.setApp L.apps { c.app L.apps with appId := id, appName := name }).app a).para = (c.app a).para ∧
      ((c.setApp L.apps { c.app L.apps with appId := id, appName := name }).app a).next = (c.app a).next := by
    intro a
    by_cases ha : a = L.apps
    · subst ha
      simp [setApp]
    · simp [setApp, ha]
  refine ⟨hmax, ?_, ?_, ?_, h.row_nodup, h.row_owner, ?_, h.row_live, ?_, h.para_nodup, h.para_owner, ?_, h.para_live⟩
  · intro a
    rw [← h.app_next a]
    exact (happ a).2.2
  · intro a
    show _ ↔ a < L.apps + 1
    by_cases ha : a = L.apps
    · subst ha
      simpa [setApp] using hid
    · have hlive := h.app_live a
      simp only [setApp, Function.update_of_ne ha]
      omega
  · intro a
    rw [(happ a).1]
    exact h.row_chain a
  · intro a r hr
    obtain ⟨ha, hr⟩ := h.row_mem a r hr
    exact ⟨Nat.lt_succ_of_lt ha, hr⟩
  · intro o
    cases o with
    | app a =>
      have hhead : ((c.setApp L.apps { c.app L.apps with appId := id, appName := name }).paraHead (.app a)) = c.paraHead (.app a) :=
        (happ a).2.1
      rw [hhead]
      exact h.para_chain (.app a)
    | row r => exact h.para_chain (.row r)
  · intro o p hp
    obtain ⟨ho, hlt⟩ := h.para_mem o p hp
    cases o with
    | app a => exact ⟨Nat.lt_succ_of_lt ho, hlt⟩
    | row r => exact ⟨ho, hlt⟩

end Holds

/-- The application that lines are added to, its last row and its last parameter. -/
structure Current (s : LoadState) (L : Layout) (a : Nat) : Prop where
  preRow : s.preRow = (L.rows a).getLast?
  prePara : s.prePara = (L.paras (L.lastOwner a)).getLast?
  rowNum : ∀ r ∈ (L.rows a).getLast?, (s.cache.row r).rowId = getRowId (s.cache.app a).appId s.rowNum
  rowNum_zero : (L.rows a).getLast? = none → s.rowNum = 0
  parameter : s.parameter = (L.paras (L.lastOwner a)).length + 1

/-- What holds while the file is read: the cache has a layout and the contents of the lines read so far, the nodes from the
next ones on are fresh, and the last application is the one that lines are added to. -/
structure LoadInv (T : EntityTable) (s : LoadState) (L : Layout) (d : List AppDoc) : Prop where
  holds : Holds T s.cache L
  doc : s.cache.docOn L = d
  app : s.app = L.apps
  row : s.row = rowsIn d
  para : s.para = parasIn d
  rowFresh : ∀ r, s.row ≤ r → s.cache.row r = ⟨-1, none, none⟩
  paraFresh : ∀ p, s.para ≤ p → s.cache.para p = ⟨-1, [], [], none⟩
  appId : ∀ a, a < L.apps → 0 ≤ (s.cache.app a).appId ∧ (s.cache.app a).appId < T.idEnd
  indexed : ∀ a r, r ∈ L.rows a → ∃ i : Int, 1 ≤ i ∧ (s.cache.row r).rowId = getRowId (s.cache.app a).appId i
  none : L.apps = 0 → s.preApp = none
  some : ∀ a, L.apps = a + 1 → s.preApp = some a ∧ Current s L a

/-- Before the first line. -/
theorem LoadInv.start (T : EntityTable) : LoadInv T (LoadState.start T) ⟨0, fun _ => [], fun _ => []⟩ [] where
  holds := Holds.initNode
  doc := rfl
  app := rfl
  row := rfl
  para := rfl
  rowFresh := fun _ _ => rfl
  paraFresh := fun _ _ => rfl
  appId := by simp
  indexed := by simp
  none := fun _ => rfl
  some := by simp

namespace Current

variable {s : LoadState} {L : Layout} {a : Nat}

/-- The next parameter is linked behind the last one of its owner. -/
theorem paraLink_eq (h : Current s L a) : s.paraLink a = L.tailLink (L.lastOwner a) := by
  unfold LoadState.paraLink tailLink
  rw [h.prePara, h.preRow]
  cases (L.paras (L.lastOwner a)).getLast? with
  | some p => rfl
  | none =>
    unfold lastOwner
    cases (L.rows a).getLast? with
    | some r => rfl
    | none => rfl

/-- The identifier of the next parameter. -/
theorem nextId_eq (h : Current s L a) :
    (s.cache.appDoc L a).nextId = getParaId (s.cache.app a).appId s.rowNum s.parameter := by
  unfold AppDoc.nextId appDoc
  rw [List.getLast?_map, h.parameter]
  unfold lastOwner
  cases hlast : (L.rows a).getLast? with
  | some r =>
    have hid := h.rowNum r hlast
    simp only [Option.map_some, rowDoc, List.length_map, hid]
    rfl
  | none =>
    rw [h.rowNum_zero hlast]
    simp only [Option.map_none, List.length_map]
    rfl

end Current

/-- What a line that follows the contents `d` does: it is undefined when the line does not fit, and else it fails or leads to
the contents with the line. -/
def Loads (T : EntityTable) (d : List AppDoc) (line : ConfLine) (res : Outcome (Option LoadState)) : Prop :=
  (¬Fits T d line ∧ res = .undefined) ∨
    Fits T d line ∧
      (readLine T d line = none ∧ res = .done none ∨
        ∃ s' L' d', readLine T d line = some d' ∧ res = .done (some s') ∧ LoadInv T s' L' d')

/-- The cache after a line with the number of a row. -/
def LoadState.rowCache (s : LoadState) (a : Nat) (id : Int) : Cache :=
  (s.cache.setRow s.row ⟨id, none, none⟩).setRowLink (placeLink a s.preRow) (some s.row)

/-- The cache after a line with a parameter. -/
def LoadState.paraCache (s : LoadState) (link : ParaLink) (id : Int) (name val : List Char) : Cache :=
  (s.cache.setPara s.para ⟨id, name.take (maxNameLen - 1), val.take (maxValueLen - 1), none⟩).setParaLink link (some s.para)

namespace LoadInv

variable {T : EntityTable} {s : LoadState} {L : Layout} {d : List AppDoc}

theorem length_doc (h : LoadInv T s L d) : d.length = L.apps := by
  rw [← h.doc, docOn, List.length_map, List.length_range]

/-- A line with an application. -/
theorem loadApp (h : LoadInv T s L d) (name : List Char) : Loads T d (.app name) (s.loadApp T name) := by
  unfold LoadState.loadApp Loads readLine Fits
  rw [h.length_doc, h.app]
  by_cases hmax : L.apps < T.gMaxAppNum
  · refine Or.inr ⟨hmax, ?_⟩
    rw [if_pos hmax]
    by_cases hid : T.getAppIdByName (name.take (maxNameLen - 1)) = -1
    · exact Or.inl ⟨if_pos hid, by rw [if_pos hid]⟩
    · right
      simp only [if_neg hid]
      have hbounds := T.getAppIdByName_bounds hid
      refine ⟨_, L.addApp, _, rfl, rfl, h.holds.addApp hmax hid _, ?_, rfl, ?_, ?_, h.rowFresh, h.paraFresh, ?_, ?_, ?_, ?_⟩
      · have hold : ∀ a, a < L.apps → (s.cache.setApp L.apps { s.cache.app L.apps with
            appId := T.getAppIdByName (name.take (maxNameLen - 1)), appName := name.take (maxNameLen - 1) }).appDoc L.addApp a =
            s.cache.appDoc L a := by
          intro a ha
          have hne : a ≠ L.apps := Nat.ne_of_lt ha
          unfold appDoc
          simp only [setApp, Function.update_of_ne hne]
          rfl
        rw [docOn_succ rfl, List.map_congr_left fun a ha => hold a (List.mem_range.1 ha), ← h.doc]
        unfold docOn appDoc
        simp only [setApp, Function.update_self, addApp, h.holds.rows_eq_nil (Nat.le_refl _),
          h.holds.paras_eq_nil (Nat.le_refl _), List.map_nil]
      · rw [rowsIn_append, rowsIn_singleton]
        exact h.row
      · rw [parasIn_append, parasIn_singleton]
        exact h.para
      · intro a ha
        by_cases hne : a = L.apps
        · subst hne
          simpa [setApp] using hbounds
        · have ha : a < L.apps + 1 := ha
          simp only [setApp, Function.update_of_ne hne]
          exact h.appId a (by omega)
      · intro a r hr
        have hne : a ≠ L.apps := Nat.ne_of_lt (h.holds.row_mem a r hr).1
        simp only [setApp, Function.update_of_ne hne]
        exact h.indexed a r hr
      · intro hzero
        exact absurd hzero (Nat.succ_ne_zero _)
      · intro a ha
        obtain rfl : L.apps = a := Nat.succ.inj ha
        have hrows : L.addApp.rows L.apps = [] := h.holds.rows_eq_nil (Nat.le_refl _)
        have howner : L.addApp.lastOwner L.apps = .app L.apps := by
          unfold lastOwner
          rw [hrows]
          rfl
        have hparas : L.addApp.paras (.app L.apps) = [] := h.holds.paras_eq_nil (Nat.le_refl _)
        refine ⟨rfl, ?_, ?_, ?_, fun _ => rfl, ?_⟩
        · rw [hrows]
          rfl
        · rw [howner, hparas]
          rfl
        · intro r hr
          rw [hrows] at hr
          cases hr
        · rw [howner, hparas]
          rfl
  · exact Or.inl ⟨hmax, if_neg hmax⟩

theorem getLast?_doc (h : LoadInv T s L d) {a : Nat} (ha : L.apps = a + 1) : d.getLast? = Option.some (s.cache.appDoc L a) := by
  rw [← h.doc, docOn_succ ha, List.getLast?_concat]

theorem doc_eq_nil (h : LoadInv T s L d) (ha : L.apps = 0) : d = [] := by
  rw [← List.length_eq_zero_iff, h.length_doc, ha]

theorem rowId_next (h : LoadInv T s L d) : (s.cache.row s.row).rowId = -1 := by rw [h.rowFresh s.row (Nat.le_refl _)]

theorem paraId_next (h : LoadInv T s L d) : (s.cache.para s.para).paraId = -1 := by rw [h.paraFresh s.para (Nat.le_refl _)]

/-- The link of the last parameter is cleared already. -/
theorem endParas_eq (h : LoadInv T s L d) {a : Nat} (ha : L.apps = a + 1) {c : Cache} (hc : c.para = s.cache.para) :
    s.endParas c = c := by
  unfold LoadState.endParas
  rw [(h.some a ha).2.prePara]
  cases hlast : (L.paras (L.lastOwner a)).getLast? with
  | none => rfl
  | some p =>
    obtain ⟨ps, hps⟩ := List.getLast?_eq_some_iff.1 hlast
    have hchain := h.holds.para_chain (L.lastOwner a)
    rw [hps] at hchain
    have hnext : (c.para p).next = Option.none := by
      rw [hc]
      exact hchain.next_eq_head
    show c.setPara p { c.para p with next := Option.none } = c
    rw [← hnext]
    unfold setPara
    rw [Function.update_eq_self]

/-- The contents of the cache with another row are those with another row. -/
theorem row_sameOn (h : LoadInv T s L d) (id : Int) (link : RowLink) :
    SameOn L s.cache ((s.cache.setRow s.row ⟨id, Option.none, Option.none⟩).setRowLink link (Option.some s.row)) where
  appId := fun _ => setRowLink_appId ..
  appName := fun _ => setRowLink_appName ..
  rowId := fun a r hr => by
    have hne : r ≠ s.row := by
      rintro rfl
      exact (h.holds.row_free h.rowId_next).1 a hr
    rw [setRowLink_rowId]
    simp [setRow, hne]
  para := fun _ _ _ => by
    rw [setRowLink_para]
    exact ⟨rfl, rfl, rfl⟩

/-- A line with the number of a row changes no other node that is not in use. -/
theorem rowCache_row (h : LoadInv T s L d) {a r : Nat} (id : Int) (hpre : s.preRow = (L.rows a).getLast?) (hr : s.row < r) :
    (s.rowCache a id).row r = s.cache.row r := by
  have hne : r ≠ s.row := Nat.ne_of_gt hr
  unfold LoadState.rowCache placeLink
  cases hlast : s.preRow with
  | none => simp [setRowLink, setApp, setRow, hne]
  | some pre =>
    have hmem : pre ∈ L.rows a := List.mem_of_getLast? (hpre.symm.trans hlast)
    have hpr : r ≠ pre := by
      rintro rfl
      refine (h.holds.row_live r).2 ⟨a, hmem⟩ ?_
      rw [h.rowFresh r (Nat.le_of_lt hr)]
    simp [setRowLink, setRow, hne, hpr]

/-- The contents of the cache with another row. -/
theorem doc_withRow (h : LoadInv T s L d) {a : Nat} (ha : L.apps = a + 1) (n : Int) :
    (s.rowCache a (getRowId (s.cache.app a).appId n)).docOn (L.setRows a (L.rows a ++ [s.row])) =
      changeLast d fun t => t.addRow n := by
  have hsame := h.row_sameOn (getRowId (s.cache.app a).appId n) (placeLink a s.preRow)
  have hcols := (h.holds.row_free h.rowId_next).2
  rw [← h.doc]
  have hother : ∀ b, b < a → (s.rowCache a (getRowId (s.cache.app a).appId n)).appDoc (L.setRows a (L.rows a ++ [s.row])) b =
      s.cache.appDoc L b :=
    fun b hb => hsame.appDoc (setRows_of_ne L (Nat.ne_of_lt hb) _) rfl fun _ _ => rfl
  refine docOn_changeLast ha ?_ ?_ hother
  · exact ha
  have hold : (L.rows a).map ((s.rowCache a (getRowId (s.cache.app a).appId n)).rowDoc (L.setRows a (L.rows a ++ [s.row]))) =
      (L.rows a).map (s.cache.rowDoc L) :=
    List.map_congr_left fun r hr => hsame.rowDoc hr rfl
  have hown : (L.paras (.app a)).map (s.rowCache a (getRowId (s.cache.app a).appId n)).paraDoc =
      (L.paras (.app a)).map s.cache.paraDoc :=
    List.map_congr_left fun p hp => hsame.paraDoc hp
  have hnew : (s.rowCache a (getRowId (s.cache.app a).appId n)).rowDoc (L.setRows a (L.rows a ++ [s.row])) s.row =
      ⟨getRowId (s.cache.app a).appId n, []⟩ := by
    unfold rowDoc LoadState.rowCache
    rw [setRowLink_rowId, setRows_paras, hcols]
    simp [setRow]
  have hid := hsame.appId a
  have hname := hsame.appName a
  unfold LoadState.rowCache at hold hown hnew ⊢
  unfold appDoc AppDoc.addRow
  rw [setRows_self, setRows_paras, List.map_append, List.map_singleton, hold, hown, hnew, hid, hname]

/-- What holds after a line with the number of a row. -/
theorem withRow (h : LoadInv T s L d) {a : Nat} (ha : L.apps = a + 1) {n : Int} (hn : 1 ≤ n) (hmax : s.row < T.gMaxTabNum) :
    LoadInv T { s with
        cache := s.rowCache a (getRowId (s.cache.app a).appId n)
        row := s.row + 1, preRow := Option.some s.row, prePara := Option.none, rowNum := n, parameter := 1 }
      (L.setRows a (L.rows a ++ [s.row])) (changeLast d fun t => t.addRow n) := by
  have hsame := h.row_sameOn (getRowId (s.cache.app a).appId n) (placeLink a s.preRow)
  have hpre := (h.some a ha).2.preRow
  have hcols := (h.holds.row_free h.rowId_next).2
  have hid : getRowId (s.cache.app a).appId n ≠ -1 := by
    have := (h.appId a (by omega)).1
    unfold getRowId
    omega
  have hrowId : ((s.rowCache a (getRowId (s.cache.app a).appId n)).row s.row).rowId = getRowId (s.cache.app a).appId n := by
    unfold LoadState.rowCache
    rw [setRowLink_rowId]
    simp [setRow]
  have hd : d = d.dropLast ++ [s.cache.appDoc L a] := by
    rw [← h.doc, docOn_succ ha, List.dropLast_concat]
  have hrows : L.rows a = L.rows a ++ [] := by rw [List.append_nil]
  refine ⟨?_, h.doc_withRow ha n, h.app, ?_, ?_, ?_, ?_, ?_, ?_, ?_, ?_⟩
  · have hholds := h.holds.insertRow (by omega) hrows h.rowId_next hmax hid
    rwa [← hpre] at hholds
  · rw [hd, changeLast_concat, rowsIn_append, AppDoc.rowsIn_addRow, ← Nat.add_assoc, ← rowsIn_append, ← hd, ← h.row]
  · rw [hd, changeLast_concat, parasIn_append, AppDoc.parasIn_addRow, ← parasIn_append, ← hd]
    exact h.para
  · intro r hr
    have hr : s.row + 1 ≤ r := hr
    rw [h.rowCache_row _ hpre (by omega)]
    exact h.rowFresh r (by omega)
  · intro p hp
    show ((s.rowCache a (getRowId (s.cache.app a).appId n)).para p) = _
    unfold LoadState.rowCache
    rw [setRowLink_para]
    exact h.paraFresh p hp
  · intro b hb
    show 0 ≤ ((s.rowCache a (getRowId (s.cache.app a).appId n)).app b).appId ∧ _
    rw [show ((s.rowCache a (getRowId (s.cache.app a).appId n)).app b).appId = (s.cache.app b).appId from hsame.appId b]
    exact h.appId b hb
  · intro b r hr
    show ∃ i : Int, 1 ≤ i ∧ _ = getRowId ((s.rowCache a (getRowId (s.cache.app a).appId n)).app b).appId i
    rw [show ((s.rowCache a (getRowId (s.cache.app a).appId n)).app b).appId = (s.cache.app b).appId from hsame.appId b]
    by_cases hb : b = a
    · subst hb
      rw [setRows_self] at hr
      rcases List.mem_append.1 hr with hr | hr
      · obtain ⟨i, hi, heq⟩ := h.indexed b r hr
        exact ⟨i, hi, (hsame.rowId b r hr).trans heq⟩
      · obtain rfl := List.mem_singleton.1 hr
        exact ⟨n, hn, hrowId⟩
    · rw [setRows_of_ne L hb] at hr
      obtain ⟨i, hi, heq⟩ := h.indexed b r hr
      exact ⟨i, hi, (hsame.rowId b r hr).trans heq⟩
  · intro hzero
    have hzero : L.apps = 0 := hzero
    omega
  · intro b hb
    obtain rfl : a = b := Nat.succ.inj (ha.symm.trans hb)
    have hlast : ((L.setRows a (L.rows a ++ [s.row])).rows a).getLast? = Option.some s.row := by
      rw [setRows_self, List.getLast?_concat]
    have howner : (L.setRows a (L.rows a ++ [s.row])).lastOwner a = .row s.row := by
      unfold lastOwner
      rw [hlast]
    refine ⟨(h.some a ha).1, hlast.symm, ?_, ?_, ?_, ?_⟩
    · rw [howner, setRows_paras, hcols]
      rfl
    · intro r hr
      rw [hlast] at hr
      obtain rfl := Option.some.inj hr
      show _ = getRowId ((s.rowCache a (getRowId (s.cache.app a).appId n)).app a).appId n
      rw [show ((s.rowCache a (getRowId (s.cache.app a).appId n)).app a).appId = (s.cache.app a).appId from hsame.appId a]
      exact hrowId
    · intro hnone
      rw [hlast] at hnone
      cases hnone
    · rw [howner, setRows_paras, hcols]
      rfl

/-- A line with the number of a row. -/
theorem loadRow (h : LoadInv T s L d) (num : List Char) : Loads T d (.row num) (s.loadRow T num) := by
  unfold LoadState.loadRow Loads readLine Fits
  by_cases hint : atoi num < -intMax - 1 ∨ intMax < atoi num
  · rw [if_pos hint]
    exact Or.inl ⟨fun hfit => by omega, rfl⟩
  rw [if_neg hint]
  by_cases hpos : atoi num ≤ 0
  · rw [if_pos hpos]
    exact Or.inr ⟨⟨by omega, by omega, fun hlt => by omega⟩, Or.inl ⟨if_pos hpos, rfl⟩⟩
  rw [if_neg hpos]
  cases happs : L.apps with
  | zero =>
    rw [h.none happs, h.doc_eq_nil happs]
    refine Or.inl ⟨?_, rfl⟩
    rintro ⟨-, -, hfit⟩
    obtain ⟨t, ht, -⟩ := hfit (by omega)
    cases ht
  | succ a =>
    rw [(h.some a happs).1, h.getLast?_doc happs, ← h.row]
    simp only [follow, Outcome.bind_done]
    by_cases hfit : s.row < T.gMaxTabNum ∧ getRowId (s.cache.app a).appId (atoi num) ≤ intMax
    · right
      refine ⟨⟨by omega, by omega, fun _ => ⟨_, rfl, hfit⟩⟩, Or.inr ?_⟩
      rw [if_pos hfit, if_neg hpos]
      refine ⟨_, _, _, rfl, ?_, h.withRow happs (by omega) hfit.1⟩
      rw [h.rowFresh s.row (Nat.le_refl _), h.endParas_eq happs (by rw [setRowLink_para]; rfl), ← (h.some a happs).1]
      rfl
    · refine Or.inl ⟨?_, by rw [if_neg hfit]⟩
      rintro ⟨-, -, hlast⟩
      obtain ⟨t, ht, hfit'⟩ := hlast (by omega)
      obtain rfl := Option.some.inj ht
      exact hfit hfit'

theorem para_sameOn (h : LoadInv T s L d) (link : ParaLink) (id : Int) (name val : List Char) :
    SameOn L s.cache (s.paraCache link id name val) :=
  (h.holds.sameOn_setFreePara h.paraId_next _).trans (Holds.sameOn_setParaLink L _ link _) (fun _ _ hr => hr) (fun _ _ hq => hq)

theorem paraDoc_paraCache (s : LoadState) (link : ParaLink) (id : Int) (name val : List Char) :
    (s.paraCache link id name val).paraDoc s.para = ParaDoc.ofLine id name val := by
  unfold paraDoc LoadState.paraCache ParaDoc.ofLine
  rw [setParaLink_paraId, setParaLink_paraName, setParaLink_paraVal]
  simp [setPara]

/-- The contents of the cache with another parameter. -/
theorem doc_withPara (h : LoadInv T s L d) {a : Nat} (ha : L.apps = a + 1) (link : ParaLink) (name val : List Char) :
    (s.paraCache link (s.cache.appDoc L a).nextId name val).docOn
        (L.setParas (L.lastOwner a) (L.paras (L.lastOwner a) ++ [s.para])) =
      changeLast d fun t => t.addPara name val := by
  have hsame := h.para_sameOn link (s.cache.appDoc L a).nextId name val
  have hnew := paraDoc_paraCache s link (s.cache.appDoc L a).nextId name val
  have hother : ∀ b, b < a → (s.paraCache link (s.cache.appDoc L a).nextId name val).appDoc
      (L.setParas (L.lastOwner a) (L.paras (L.lastOwner a) ++ [s.para])) b = s.cache.appDoc L b := by
    intro b hb
    obtain ⟨happ, hrow⟩ := h.holds.lastOwner_ne (Nat.ne_of_lt hb)
    exact hsame.appDoc rfl (setParas_of_ne L happ.symm _) fun r hr => setParas_of_ne L (hrow r hr).symm _
  have hold : ∀ o, o ≠ L.lastOwner a → ((L.setParas (L.lastOwner a) (L.paras (L.lastOwner a) ++ [s.para])).paras o).map
      (s.paraCache link (s.cache.appDoc L a).nextId name val).paraDoc = (L.paras o).map s.cache.paraDoc := by
    intro o ho
    rw [setParas_of_ne L ho]
    exact List.map_congr_left fun p hp => hsame.paraDoc hp
  have hmap : ((L.setParas (L.lastOwner a) (L.paras (L.lastOwner a) ++ [s.para])).paras (L.lastOwner a)).map
      (s.paraCache link (s.cache.appDoc L a).nextId name val).paraDoc =
      (L.paras (L.lastOwner a)).map s.cache.paraDoc ++ [ParaDoc.ofLine (s.cache.appDoc L a).nextId name val] := by
    rw [setParas_self, List.map_append, List.map_singleton, hnew]
    congr 1
    exact List.map_congr_left fun p hp => hsame.paraDoc hp
  rw [← h.doc]
  refine docOn_changeLast ha ?_ ?_ hother
  · exact ha
  · have hid := hsame.appId a
    have hname := hsame.appName a
    generalize s.paraCache link (s.cache.appDoc L a).nextId name val = c' at hsame hold hmap hid hname ⊢
    cases hlast : (L.rows a).getLast? with
    | none =>
      have howner : L.lastOwner a = .app a := by
        unfold lastOwner
        rw [hlast]
      have hnil := List.getLast?_eq_none_iff.1 hlast
      have hrows : (s.cache.appDoc L a).rows.getLast? = Option.none := by
        rw [appDoc, hnil]
        rfl
      unfold AppDoc.addPara
      rw [hrows]
      generalize (s.cache.appDoc L a).nextId = id at hmap ⊢
      rw [howner] at hmap ⊢
      simp only [appDoc, setParas_rows, hnil, List.map_nil, hid, hname] at hmap ⊢
      rw [hmap]
    | some r =>
      have howner : L.lastOwner a = .row r := by
        unfold lastOwner
        rw [hlast]
      obtain ⟨rs, hrs⟩ := List.getLast?_eq_some_iff.1 hlast
      have hnodup := h.holds.row_nodup a
      rw [hrs] at hnodup
      have hrest : rs.map (c'.rowDoc (L.setParas (.row r) (L.paras (.row r) ++ [s.para]))) = rs.map (s.cache.rowDoc L) := by
        refine List.map_congr_left fun q hq => hsame.rowDoc (a := a) (by simp [hrs, hq]) (setParas_of_ne L ?_ _)
        intro heq
        obtain rfl := ParaOwner.row.inj heq
        exact (List.nodup_append.1 hnodup).2.2 q hq q (by simp) rfl
      have hrowId := hsame.rowId a r (by simp [hrs])
      have hown := hold (.app a) (by simp [howner])
      have hrows : (s.cache.appDoc L a).rows = rs.map (s.cache.rowDoc L) ++ [s.cache.rowDoc L r] := by
        rw [appDoc, hrs, List.map_append, List.map_singleton]
      unfold AppDoc.addPara
      rw [hrows, List.getLast?_concat, List.dropLast_concat]
      generalize (s.cache.appDoc L a).nextId = id at hmap ⊢
      rw [howner] at hmap hown ⊢
      have hrow : c'.rowDoc (L.setParas (.row r) (L.paras (.row r) ++ [s.para])) r =
          { s.cache.rowDoc L r with paras := (s.cache.rowDoc L r).paras ++ [ParaDoc.ofLine id name val] } := by
        rw [rowDoc, hmap, hrowId]
        rfl
      simp only [appDoc, setParas_rows, hrs, List.map_append, List.map_singleton, hrest, hid, hname, hown, hrow]

/-- A line with a parameter changes no other node that is not in use. -/
theorem paraCache_para (h : LoadInv T s L d) {o : ParaOwner} {p : Nat} (id : Int) (name val : List Char) (hp : s.para < p) :
    (s.paraCache (L.tailLink o) id name val).para p = s.cache.para p := by
  have hne : p ≠ s.para := Nat.ne_of_gt hp
  unfold LoadState.paraCache tailLink
  cases hlast : (L.paras o).getLast? with
  | none => cases o <;> simp [headLink, setParaLink, setApp, setRow, setPara, hne]
  | some pre =>
    have hpr : p ≠ pre := by
      rintro rfl
      refine (h.holds.para_live p).2 ⟨o, List.mem_of_getLast? hlast⟩ ?_
      rw [h.paraFresh p (Nat.le_of_lt hp)]
    simp [setParaLink, setPara, hne, hpr]

/-- A line with a parameter changes no row that is not in use. -/
theorem paraCache_row (h : LoadInv T s L d) {o : ParaOwner} (ho : L.Has o) {r : Nat} (id : Int) (name val : List Char)
    (hr : s.row ≤ r) : (s.paraCache (L.tailLink o) id name val).row r = s.cache.row r := by
  unfold LoadState.paraCache tailLink
  cases (L.paras o).getLast? with
  | some pre => rfl
  | none =>
    cases o with
    | app a => rfl
    | row q =>
      have hne : r ≠ q := by
        rintro rfl
        refine (h.holds.row_live r).2 ho ?_
        rw [h.rowFresh r hr]
      simp [headLink, setParaLink, setRow, hne]

/-- What holds after a line with a parameter. -/
theorem withPara (h : LoadInv T s L d) {a : Nat} (ha : L.apps = a + 1) (hmax : s.para < T.gMaxParaNum)
    (name val : List Char) :
    LoadInv T { s with
        cache := s.paraCache (L.tailLink (L.lastOwner a)) (s.cache.appDoc L a).nextId name val
        para := s.para + 1, prePara := Option.some s.para, parameter := s.parameter + 1 }
      (L.setParas (L.lastOwner a) (L.paras (L.lastOwner a) ++ [s.para])) (changeLast d fun t => t.addPara name val) := by
  obtain ⟨hpre, hcur⟩ := h.some a ha
  have hsame := h.para_sameOn (L.tailLink (L.lastOwner a)) (s.cache.appDoc L a).nextId name val
  have hhas : L.Has (L.lastOwner a) := L.has_lastOwner (by omega)
  have hd : d = d.dropLast ++ [s.cache.appDoc L a] := by
    rw [← h.doc, docOn_succ ha, List.dropLast_concat]
  have hid : (s.cache.appDoc L a).nextId ≠ -1 := by
    have hnonneg := (h.appId a (by omega)).1
    rw [hcur.nextId_eq]
    have hnum : 0 ≤ s.rowNum := by
      cases hlast : (L.rows a).getLast? with
      | none => exact Int.le_of_eq (hcur.rowNum_zero hlast).symm
      | some r =>
        obtain ⟨i, hi, heq⟩ := h.indexed a r (List.mem_of_getLast? hlast)
        rw [hcur.rowNum r hlast, getRowId_inj] at heq
        omega
    unfold getParaId
    omega
  have howner : (L.setParas (L.lastOwner a) (L.paras (L.lastOwner a) ++ [s.para])).lastOwner a = L.lastOwner a := rfl
  refine ⟨?_, h.doc_withPara ha _ name val, h.app, ?_, ?_, ?_, ?_, ?_, ?_, ?_, ?_⟩
  · exact h.holds.appendPara hhas h.paraId_next hmax hid _ _
  · rw [hd, changeLast_concat, rowsIn_append, AppDoc.rowsIn_addPara, ← rowsIn_append, ← hd]
    exact h.row
  · rw [hd, changeLast_concat, parasIn_append, AppDoc.parasIn_addPara, ← Nat.add_assoc, ← parasIn_append, ← hd, ← h.para]
  · intro r hr
    exact (h.paraCache_row hhas _ name val hr).trans (h.rowFresh r hr)
  · intro p hp
    have hp : s.para + 1 ≤ p := hp
    exact (h.paraCache_para _ name val (by omega)).trans (h.paraFresh p (by omega))
  · intro b hb
    show 0 ≤ ((s.paraCache (L.tailLink (L.lastOwner a)) (s.cache.appDoc L a).nextId name val).app b).appId ∧ _
    rw [hsame.appId b]
    exact h.appId b hb
  · intro b r hr
    obtain ⟨i, hi, heq⟩ := h.indexed b r hr
    refine ⟨i, hi, (hsame.rowId b r hr).trans ?_⟩
    rw [heq]
    exact congrArg (getRowId · i) (hsame.appId b).symm
  · exact h.none
  · intro b hb
    obtain rfl : a = b := Nat.succ.inj (ha.symm.trans hb)
    refine ⟨hpre, hcur.preRow, ?_, ?_, hcur.rowNum_zero, ?_⟩
    · rw [howner, setParas_self, List.getLast?_concat]
    · intro r hr
      refine (hsame.rowId a r (List.mem_of_getLast? hr)).trans ((hcur.rowNum r hr).trans ?_)
      exact congrArg (getRowId · s.rowNum) (hsame.appId a).symm
    · rw [howner, setParas_self, List.length_append, List.length_singleton, ← hcur.parameter]

/-- A line with a parameter. -/
theorem loadPara (h : LoadInv T s L d) (name val : List Char) : Loads T d (.para name val) (s.loadPara T name val) := by
  unfold LoadState.loadPara Loads readLine Fits
  cases happs : L.apps with
  | zero =>
    rw [h.none happs, h.doc_eq_nil happs]
    refine Or.inl ⟨?_, rfl⟩
    rintro ⟨t, ht, -⟩
    cases ht
  | succ a =>
    obtain ⟨hpre, hcur⟩ := h.some a happs
    rw [hpre, h.getLast?_doc happs, ← h.para]
    simp only [follow, Outcome.bind_done, ← hcur.nextId_eq]
    by_cases hfit : s.para < T.gMaxParaNum ∧ (s.cache.appDoc L a).nextId ≤ intMax
    · right
      refine ⟨⟨_, rfl, hfit⟩, Or.inr ?_⟩
      rw [if_pos hfit]
      refine ⟨_, _, _, rfl, ?_, h.withPara happs hfit.1 name val⟩
      rw [h.paraFresh s.para (Nat.le_refl _), hcur.paraLink_eq, ← hpre]
      rfl
    · refine Or.inl ⟨?_, by rw [if_neg hfit]⟩
      rintro ⟨t, ht, hfit'⟩
      obtain rfl := Option.some.inj ht
      exact hfit hfit'

/-- **A line of the file**: the step of the induction over the lines. -/
theorem loadLine (h : LoadInv T s L d) (line : ConfLine) : Loads T d line (s.loadLine T line) := by
  cases line with
  | app name => exact h.loadApp name
  | row num => exact h.loadRow num
  | para name val => exact h.loadPara name val
  | malformed => exact Or.inr ⟨trivial, Or.inl ⟨rfl, rfl⟩⟩

/-- **The lines of the file**: loading them is undefined when one does not fit, and else it fails or leads to the contents of the
lines. -/
theorem loadLines (h : LoadInv T s L d) (lines : List ConfLine) :
    (¬LinesFit T d lines ∧ s.loadLines T lines = .undefined) ∨
      LinesFit T d lines ∧
        (readLines T d lines = Option.none ∧ s.loadLines T lines = .done Option.none ∨
          ∃ s' L' d', readLines T d lines = Option.some d' ∧ s.loadLines T lines = .done (Option.some s') ∧ LoadInv T s' L' d') := by
  induction lines generalizing s L d with
  | nil => exact Or.inr ⟨trivial, Or.inr ⟨s, L, d, rfl, rfl, h⟩⟩
  | cons line lines ih =>
    unfold LinesFit readLines LoadState.loadLines
    rcases h.loadLine line with ⟨hfit, heq⟩ | ⟨hfit, ⟨hread, heq⟩ | ⟨s', L', d', hread, heq, h'⟩⟩
    · rw [heq]
      exact Or.inl ⟨fun hall => hfit hall.1, rfl⟩
    · rw [heq, hread]
      exact Or.inr ⟨⟨hfit, fun d' hd' => by cases hd'⟩, Or.inl ⟨rfl, rfl⟩⟩
    · rw [heq, hread]
      simp only [Outcome.bind_done, Option.bind_some]
      rcases ih h' with ⟨hfits, hres⟩ | ⟨hfits, hres⟩
      · exact Or.inl ⟨fun hall => hfits (hall.2 d' rfl), hres⟩
      · refine Or.inr ⟨⟨hfit, fun e he => ?_⟩, hres⟩
        obtain rfl := Option.some.inj he
        exact hfits

end LoadInv

end CodeFactory.Conf
