import CodeFactory.Conf.Rows

/-!
# Adding a row

What `config_api_add_table_row` does to a cache that has a layout: nothing, or a row is put at its place and as many of its
columns are added as there are free parameters and names for them.
-/

namespace CodeFactory.Conf

open Cache Layout

/-- One number of a range less has the property. -/
theorem countP_range_of_change {f g : Nat → Bool} {n p : Nat} (hp : p < n) (hf : f p = true) (hg : g p = false)
    (hother : ∀ q, q ≠ p → f q = g q) : (List.range n).countP f = (List.range n).countP g + 1 := by
  induction n with
  | zero => omega
  | succ n ih =>
    rw [List.range_succ, List.countP_append, List.countP_append, List.countP_singleton, List.countP_singleton]
    by_cases hpn : p = n
    · subst hpn
      have hsame : (List.range p).countP f = (List.range p).countP g :=
        List.countP_congr fun q hq => by
          rw [hother q (by have := List.mem_range.1 hq; omega)]
      rw [hsame, hf, hg]
      rfl
    · rw [ih (by omega), hother n (Ne.symm hpn)]
      omega

namespace Cache

variable (T : EntityTable) (c : Cache)

/-- The number of free rows. -/
def freeRowNum : Nat := (List.range T.gMaxTabNum).countP fun r => (c.row r).rowId == -1

/-- The number of free parameters. -/
def freeParaNum : Nat := (List.range T.gMaxParaNum).countP fun p => (c.para p).paraId == -1

/-- The contents of the nodes of a layout are the same in two caches. -/
structure SameOn (L : Layout) (c c' : Cache) : Prop where
  appId : ∀ a, (c'.app a).appId = (c.app a).appId
  appName : ∀ a, (c'.app a).appName = (c.app a).appName
  rowId : ∀ a r, r ∈ L.rows a → (c'.row r).rowId = (c.row r).rowId
  para : ∀ o p, p ∈ L.paras o → (c'.para p).paraId = (c.para p).paraId ∧ (c'.para p).paraName = (c.para p).paraName ∧
    (c'.para p).paraVal = (c.para p).paraVal

variable {T c} {c' c'' : Cache} {L : Layout}

theorem SameOn.refl : SameOn L c c :=
  ⟨fun _ => rfl, fun _ => rfl, fun _ _ _ => rfl, fun _ _ _ => ⟨rfl, rfl, rfl⟩⟩

theorem SameOn.trans {L' : Layout} (h : SameOn L c c') (h' : SameOn L' c' c'') (hrows : ∀ a, ∀ r ∈ L.rows a, r ∈ L'.rows a)
    (hparas : ∀ o, ∀ p ∈ L.paras o, p ∈ L'.paras o) : SameOn L c c'' where
  appId := fun a => (h'.appId a).trans (h.appId a)
  appName := fun a => (h'.appName a).trans (h.appName a)
  rowId := fun a r hr => (h'.rowId a r (hrows a r hr)).trans (h.rowId a r hr)
  para := fun o p hp => by
    obtain ⟨hid, hname, hval⟩ := h.para o p hp
    obtain ⟨hid', hname', hval'⟩ := h'.para o p (hparas o p hp)
    exact ⟨hid'.trans hid, hname'.trans hname, hval'.trans hval⟩

theorem findFreePara_none (h : c.findFreePara T = none) : c.freeParaNum T = 0 := by
  unfold findFreePara at h
  rw [Option.map_eq_none_iff, List.find?_eq_none] at h
  exact List.countP_eq_zero.2 h

/-- A free parameter that is found, with its contents cleared. -/
theorem findFreePara_some {p : Nat} (h : c.findFreePara T = some (p, c')) :
    p < T.gMaxParaNum ∧ (c.para p).paraId = -1 ∧
      c' = c.setPara p { c.para p with paraName := [], paraVal := [], next := none } := by
  unfold findFreePara at h
  rw [Option.map_eq_some_iff] at h
  obtain ⟨q, hq, heq⟩ := h
  obtain ⟨rfl, rfl⟩ := Prod.mk.inj heq
  exact ⟨List.mem_range.1 (List.mem_of_find?_eq_some hq), by simpa using List.find?_some hq, rfl⟩

theorem findFreeRow_none (h : c.findFreeRow T = none) : c.freeRowNum T = 0 := by
  unfold findFreeRow at h
  rw [Option.map_eq_none_iff, List.find?_eq_none] at h
  exact List.countP_eq_zero.2 h

theorem findFreeRow_some {r : Nat} (h : c.findFreeRow T = some (r, c')) :
    r < T.gMaxTabNum ∧ (c.row r).rowId = -1 ∧ c' = c.setRow r { c.row r with next := none, para := none } := by
  unfold findFreeRow at h
  rw [Option.map_eq_some_iff] at h
  obtain ⟨q, hq, heq⟩ := h
  obtain ⟨rfl, rfl⟩ := Prod.mk.inj heq
  exact ⟨List.mem_range.1 (List.mem_of_find?_eq_some hq), by simpa using List.find?_some hq, rfl⟩

end Cache

/-- The contents of a new column: its identifier, its name, and the value that is given for it. -/
structure IsColumn (T : EntityTable) (c : Cache) (appIndex rowIndex : Int) (val : Nat → Option (List Char)) (k p : Nat) :
    Prop where
  paraId : (c.para p).paraId = getParaId appIndex rowIndex (k + 1)
  paraName : T.columnName (getParaId appIndex rowIndex (k + 1)) = some (c.para p).paraName
  paraVal : (c.para p).paraVal = ((val k).getD []).take (maxValueLen - 1)

theorem getParaId_ne {appIndex rowIndex : Int} (happ : 0 ≤ appIndex) (hrow : 0 ≤ rowIndex) (k : Nat) :
    getParaId appIndex rowIndex (k + 1) ≠ -1 := by
  unfold getParaId
  omega

namespace Holds

variable {T : EntityTable} {c : Cache} {L : Layout}

/-- Clearing a free parameter changes nothing of a layout. -/
theorem sameOn_setFreePara (h : Holds T c L) {p : Nat} (hp : (c.para p).paraId = -1) (node : ParaNode) :
    SameOn L c (c.setPara p node) where
  appId := fun _ => rfl
  appName := fun _ => rfl
  rowId := fun _ _ _ => rfl
  para := fun o q hq => by
    have hqp : q ≠ p := by
      rintro rfl
      exact h.para_free hp o hq
    simp [setPara, hqp]

theorem sameOn_setParaLink (L : Layout) (c : Cache) (link : ParaLink) (q : Option Nat) : SameOn L c (c.setParaLink link q) where
  appId := fun _ => setParaLink_appId ..
  appName := fun _ => setParaLink_appName ..
  rowId := fun _ _ _ => setParaLink_rowId ..
  para := fun _ _ _ => ⟨setParaLink_paraId .., setParaLink_paraName .., setParaLink_paraVal ..⟩

/-- What `add_para_tail` does at the end of the parameters of an owner. -/
theorem addParaTail_cases (h : Holds T c L) {o : ParaOwner} (ho : L.Has o) {id : Int} (hid : id ≠ -1) (val : List Char) :
    (∃ c', c.addParaTail T (L.tailLink o) id val = (none, c') ∧ Holds T c' L ∧ SameOn L c c' ∧
      (c.freeParaNum T = 0 ∨ T.columnName id = none)) ∨
    ∃ p c' name, c.addParaTail T (L.tailLink o) id val = (some p, c') ∧ T.columnName id = some name ∧
      Holds T c' (L.setParas o (L.paras o ++ [p])) ∧ SameOn L c c' ∧ c.freeParaNum T = c'.freeParaNum T + 1 ∧
      (c'.para p).paraId = id ∧ (c'.para p).paraName = name ∧ (c'.para p).paraVal = val.take (maxValueLen - 1) := by
  unfold addParaTail
  cases hfind : c.findFreePara T with
  | none => exact Or.inl ⟨c, rfl, h, SameOn.refl, Or.inl (findFreePara_none hfind)⟩
  | some found =>
    obtain ⟨p, c₁⟩ := found
    obtain ⟨hmax, hp, rfl⟩ := findFreePara_some hfind
    have h₁ := h.setFreePara hp { c.para p with paraName := [], paraVal := [], next := none } hp
    have hs₁ := h.sameOn_setFreePara hp { c.para p with paraName := [], paraVal := [], next := none }
    have hp₁ : ((c.setPara p { c.para p with paraName := [], paraVal := [], next := none }).para p).paraId = -1 := by
      simpa [setPara] using hp
    cases hname : T.columnName id with
    | none => exact Or.inl ⟨_, rfl, h₁, hs₁, Or.inr rfl⟩
    | some name =>
      have h₂ := h₁.appendPara ho hp₁ hmax hid name (val.take (maxValueLen - 1))
      have hs₂ := (h₁.sameOn_setFreePara hp₁ ⟨id, name, val.take (maxValueLen - 1), none⟩).trans
        (sameOn_setParaLink L _ (L.tailLink o) (some p)) (fun _ _ hr => hr) (fun _ _ hq => hq)
      refine Or.inr ⟨p, _, name, rfl, rfl, h₂, hs₁.trans hs₂ (fun _ _ hr => hr) (fun _ _ hq => hq), ?_, ?_, ?_, ?_⟩
      · refine countP_range_of_change hmax ?_ ?_ ?_
        · simpa using hp
        · rw [setParaLink_paraId]
          simpa [setPara] using hid
        · intro q hq
          rw [setParaLink_paraId]
          simp [setPara, hq]
      · rw [setParaLink_paraId]
        simp [setPara]
      · rw [setParaLink_paraName]
        simp [setPara]
      · rw [setParaLink_paraVal]
        simp [setPara]

/-- What the loop over the columns does: it adds all of them when there are free parameters and names for all, and else
stops at the first that cannot be added. -/
theorem addColumns_cases (h : Holds T c L) {r : Nat} (hr : L.Has (.row r)) {appIndex rowIndex : Int} (happ : 0 ≤ appIndex)
    (hrow : 0 ≤ rowIndex) (val : Nat → Option (List Char)) (n k : Nat) :
    ∃ ok c' ps, c.addColumns T (L.tailLink (.row r)) appIndex rowIndex val n k = (ok, c') ∧
      Holds T c' (L.setParas (.row r) (L.paras (.row r) ++ ps)) ∧ SameOn L c c' ∧
      c.freeParaNum T = c'.freeParaNum T + ps.length ∧ (ok = true ↔ ps.length = n) ∧
      (ok = true ↔ n ≤ c.freeParaNum T ∧ ∀ j, j < n → (T.columnName (getParaId appIndex rowIndex ((k + j : Nat) + 1))).isSome) ∧
      ∀ j p, ps[j]? = some p → IsColumn T c' appIndex rowIndex val (k + j) p := by
  induction n generalizing c L k with
  | zero =>
    refine ⟨true, c, [], rfl, ?_, SameOn.refl, rfl, by simp, by simp, by simp⟩
    rw [List.append_nil, setParas_eq_self]
    exact h
  | succ n ih =>
    unfold addColumns
    rcases h.addParaTail_cases hr (getParaId_ne happ hrow k) ((val k).getD []) with
      ⟨c', heq, h', hsame, hwhy⟩ | ⟨p, c', name, heq, hname, h', hsame, hfree, hid, hpname, hval⟩
    · rw [heq]
      refine ⟨false, c', [], rfl, ?_, hsame, ?_, by simp, ?_, by simp⟩
      · rw [List.append_nil, setParas_eq_self]
        exact h'
      · have hparas : ∀ p, ((c.para p).paraId = -1 ↔ (c'.para p).paraId = -1) := by
          intro p
          have hiff := (h.para_live p).trans (h'.para_live p).symm
          exact not_iff_not.1 hiff
        exact List.countP_congr fun p _ => by simpa using hparas p
      · refine iff_of_false (by simp) ?_
        rintro ⟨hle, hall⟩
        rcases hwhy with hzero | hnone
        · omega
        · have := hall 0 (Nat.succ_pos n)
          simp [hnone] at this
    · rw [heq]
      have hr' : (L.setParas (.row r) (L.paras (.row r) ++ [p])).Has (.row r) := hr
      have hlink : (L.setParas (.row r) (L.paras (.row r) ++ [p])).tailLink (.row r) = .paraNext p := by simp [tailLink]
      obtain ⟨ok, c'', ps, hadd, h'', hsame', hfree', hok, hok', hps⟩ := ih h' hr' (k + 1)
      rw [hlink] at hadd
      rw [setParas_self, setParas_setParas, List.append_assoc] at h''
      have hsub : ∀ o, ∀ q ∈ L.paras o, q ∈ (L.setParas (.row r) (L.paras (.row r) ++ [p])).paras o := by
        intro o q hq
        by_cases ho : o = .row r
        · subst ho
          rw [setParas_self]
          exact List.mem_append_left _ hq
        · rw [setParas_of_ne L ho]
          exact hq
      refine ⟨ok, c'', p :: ps, hadd, h'', hsame.trans hsame' (fun _ _ hs => hs) hsub, ?_, ?_, ?_, ?_⟩
      · rw [hfree, hfree', List.length_cons]
        omega
      · rw [hok, List.length_cons]
        omega
      · rw [hok']
        constructor
        · rintro ⟨hle, hall⟩
          refine ⟨by omega, fun j hj => ?_⟩
          cases j with
          | zero =>
            show (T.columnName (getParaId appIndex rowIndex (((k + 0 : Nat) : Int) + 1))).isSome = true
            rw [Nat.add_zero, hname]
            rfl
          | succ j =>
            have := hall j (by omega)
            rwa [show k + 1 + j = k + (j + 1) by omega] at this
        · rintro ⟨hle, hall⟩
          refine ⟨by omega, fun j hj => ?_⟩
          have := hall (j + 1) (by omega)
          rwa [show k + (j + 1) = k + 1 + j by omega] at this
      · intro j q hq
        cases j with
        | zero =>
          obtain rfl := Option.some.inj hq
          obtain ⟨hid', hname', hval'⟩ := hsame'.para (.row r) p (by simp)
          exact ⟨hid'.trans hid, by rw [Nat.add_zero, hname', hpname, hname], by rw [hval', hval]; rfl⟩
        | succ j =>
          have := hps j q hq
          rwa [show k + 1 + j = k + (j + 1) by omega] at this

end Holds

/-! ## The row -/

/-- What is said of a row that was added: its place, its identifier and its columns; everything else is as it was. -/
structure RowAdded (T : EntityTable) (c : Cache) (L : Layout) (a : Nat) (i : Int) (xs ys : List Nat)
    (val : Nat → Option (List Char)) (n : Nat) (ps : List Nat) (c' : Cache) : Prop where
  fresh : (c.row n).rowId = -1
  holds : Holds T c' ((L.setRows a (xs ++ n :: ys)).setParas (.row n) ps)
  same : SameOn L c c'
  rowId : (c'.row n).rowId = getRowId (c.app a).appId i
  columns : ∀ j p, ps[j]? = some p → IsColumn T c' (c.app a).appId i val j p
  free : c.freeParaNum T = c'.freeParaNum T + ps.length

/-- The columns of a row can all be added. -/
def ColumnsFit (T : EntityTable) (c : Cache) (appIndex i : Int) (rowEnd : Nat) : Prop :=
  rowEnd - 1 ≤ c.freeParaNum T ∧ ∀ j, j < rowEnd - 1 → (T.columnName (getParaId appIndex i ((j : Nat) + 1))).isSome

namespace Holds

variable {T : EntityTable} {c : Cache} {L : Layout}

/-- What adding a row does at its place: nothing when no row is free, and else the row is added, with all of its columns or up
to the first one that does not fit. -/
theorem addRowAt_cases (h : Holds T c L) {a : Nat} (ha : a < L.apps) {xs ys : List Nat} {i : Int}
    (hplace : Place c (c.app a).appId (L.rows a) xs i ys) (hi : 1 ≤ i) (happ : 0 ≤ (c.app a).appId) (rowEnd : Nat)
    (val : Nat → Option (List Char)) :
    (c.freeRowNum T = 0 ∧ c.addRowAt T (c.app a).appId a rowEnd val (xs.getLast?, i, ys.head?) = (-1, c)) ∨
    ∃ n ps c', RowAdded T c L a i xs ys val n ps c' ∧
      ((ps.length = rowEnd - 1 ∧ ColumnsFit T c (c.app a).appId i rowEnd ∧
          c.addRowAt T (c.app a).appId a rowEnd val (xs.getLast?, i, ys.head?) = (0, c')) ∨
        (ps.length ≠ rowEnd - 1 ∧ ¬ColumnsFit T c (c.app a).appId i rowEnd ∧
          c.addRowAt T (c.app a).appId a rowEnd val (xs.getLast?, i, ys.head?) = (-1, c'))) := by
  unfold addRowAt addRowTail
  cases hfind : c.findFreeRow T with
  | none => exact Or.inl ⟨findFreeRow_none hfind, rfl⟩
  | some found =>
    obtain ⟨n, c₁⟩ := found
    obtain ⟨hmax, hn, rfl⟩ := findFreeRow_some hfind
    right
    have h₁ := h.setFreeRow hn { c.row n with next := none, para := none } hn rfl
    have hn₁ : ((c.setRow n { c.row n with next := none, para := none }).row n).rowId = -1 := by simpa [setRow] using hn
    have hid : getRowId (c.app a).appId i ≠ -1 := by
      unfold getRowId
      omega
    have h₂ := h₁.insertRow ha hplace.split hn₁ hmax hid
    have hcols := (h.row_free hn).2
    have hr : (L.setRows a (xs ++ n :: ys)).Has (.row n) := ⟨a, by simp⟩
    obtain ⟨ok, c', ps, hadd, h', hsame, hfree, hok, hfit, hps⟩ :=
      h₂.addColumns_cases hr happ (Int.le_of_lt hi) val (rowEnd - 1) 0
    have hlink : (L.setRows a (xs ++ n :: ys)).tailLink (.row n) = .rowPara n := by simp [tailLink, hcols, headLink]
    rw [hlink] at hadd
    rw [setRows_paras, hcols, List.nil_append] at h'
    obtain ⟨happs, hparas, -, hids⟩ := linkLast_fields (((c.setRow n { c.row n with next := none, para := none }).setRow n
      ⟨getRowId (c.app a).appId i, none, none⟩).setRowLink (placeLink a xs.getLast?) (some n)) n ys.head?
    generalize hc₂ : (((c.setRow n { c.row n with next := none, para := none }).setRow n
      ⟨getRowId (c.app a).appId i, none, none⟩).setRowLink (placeLink a xs.getLast?) (some n)).linkLast n ys.head? = c₂
      at hadd hsame hfree happs hparas hids hfit
    have hpara : c₂.para = c.para := by rw [hparas, setRowLink_para]; rfl
    have hcount : c₂.freeParaNum T = c.freeParaNum T := by unfold freeParaNum; rw [hpara]
    have hsame₂ : SameOn L c c₂ := by
      refine ⟨?_, ?_, ?_, ?_⟩
      · intro b
        rw [happs, setRowLink_appId]
        rfl
      · intro b
        rw [happs, setRowLink_appName]
        rfl
      · intro b s hs
        have hsn : s ≠ n := by
          rintro rfl
          exact (h.row_free hn).1 b hs
        rw [hids, setRowLink_rowId]
        simp [setRow, hsn]
      · intro o p _
        rw [hpara]
        exact ⟨rfl, rfl, rfl⟩
    have hsub : ∀ b, ∀ s ∈ L.rows b, s ∈ (L.setRows a (xs ++ n :: ys)).rows b := by
      intro b s hs
      by_cases hb : b = a
      · subst hb
        rw [hplace.split] at hs
        rw [setRows_self, List.perm_middle.mem_iff]
        exact List.mem_cons_of_mem _ hs
      · rwa [setRows_of_ne L hb]
    have hrowId : (c'.row n).rowId = getRowId (c.app a).appId i := by
      rw [hsame.rowId a n (by simp), hids, setRowLink_rowId]
      simp [setRow]
    refine ⟨n, ps, c', ⟨hn, h', hsame₂.trans hsame hsub (fun _ _ hp => hp), hrowId, ?_, by rw [← hcount, hfree]⟩, ?_⟩
    · intro j p hj
      have := hps j p hj
      rwa [Nat.zero_add] at this
    · rw [hcount] at hfit
      simp only [Nat.zero_add] at hfit
      rw [← hc₂] at hadd
      simp only [hadd]
      cases ok with
      | true => exact Or.inl ⟨hok.1 rfl, hfit.1 rfl, rfl⟩
      | false => exact Or.inr ⟨fun hl => (Bool.false_ne_true (hok.2 hl)), fun hc => (Bool.false_ne_true (hfit.2 hc)), rfl⟩

end Holds

end CodeFactory.Conf
