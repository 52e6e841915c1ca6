import CodeFactory.Conf.AddRow
import CodeFactory.Lib.Run

/-!
# The calls that change the cache

What each of `config_api_write_parameter`, `config_api_write_table_parameter`, `config_api_add_table_row` and
`config_api_delete_table_row` does to a cache that has a layout, and a step of a process that makes them.
-/

namespace CodeFactory.Conf

open Cache Layout

namespace Cache

variable (T : EntityTable) (c : Cache)

/-- What `config_api_add_table_row` finds before it adds anything: the application, the end of its columns, and the place. -/
def addSpot (appIndex rowIndex : Int) (val : Nat → Option (List Char)) : Option (Nat × Nat × Option Nat × Int × Option Nat) :=
  if T.ValidApp appIndex ∧ (val 0).isSome then
    match c.findApp T appIndex with
    | .done (some a) =>
      match T.appExistTable appIndex with
      | some (rowMaxnum, rowEnd) =>
        if (rowMaxnum : Int) < rowIndex ∨ rowIndex < 0 then none
        else
          match c.rowPlace T appIndex a rowIndex with
          | .done (some place) => some (a, rowEnd, place)
          | _ => none
      | none => none
    | _ => none
  else none

end Cache

/-- The application is in use, and the first one with its identifier. -/
def FirstApp (c : Cache) (L : Layout) (appIndex : Int) (a : Nat) : Prop :=
  a < L.apps ∧ (c.app a).appId = appIndex ∧ ∀ b, b < a → (c.app b).appId ≠ appIndex

/-- What is known of the place that `config_api_add_table_row` finds. -/
structure Spot (T : EntityTable) (c : Cache) (L : Layout) (appIndex rowIndex : Int) (val : Nat → Option (List Char))
    (a rowMaxnum rowEnd : Nat) (xs : List Nat) (i : Int) (ys : List Nat) : Prop where
  valid : T.ValidApp appIndex
  given : (val 0).isSome = true
  app : FirstApp c L appIndex a
  table : T.appExistTable appIndex = some (rowMaxnum, rowEnd)
  range : 0 ≤ rowIndex ∧ rowIndex ≤ rowMaxnum
  place : Place c (c.app a).appId (L.rows a) xs i ys
  one_le : 1 ≤ i
  explicit : 0 < rowIndex → i = rowIndex
  gap : rowIndex = 0 → i = xs.length + 1 ∧
    ∀ (j : Nat) r, xs[j]? = some r → (c.row r).rowId = getRowId (c.app a).appId (1 + j)

namespace Holds

variable {T : EntityTable} {c : Cache} {L : Layout}

theorem findApp_some (h : Holds T c L) {appIndex : Int} {a : Nat} (hfind : c.findApp T appIndex = .done (some a)) :
    FirstApp c L appIndex a := by
  rw [h.findApp_eq] at hfind
  have hfind := Outcome.done.inj hfind
  obtain ⟨hid, hlt, hbefore⟩ := List.find?_range_eq_some.1 hfind
  refine ⟨List.mem_range.1 hlt, by simpa using hid, ?_⟩
  intro b hb
  simpa using hbefore b hb

theorem findApp_none (h : Holds T c L) {appIndex : Int} (hfind : c.findApp T appIndex = .done none) (a : Nat) (ha : a < L.apps) :
    (c.app a).appId ≠ appIndex := by
  rw [h.findApp_eq] at hfind
  have hnone := List.find?_eq_none.1 (Outcome.done.inj hfind) a (List.mem_range.2 ha)
  simpa using hnone

/-- The application that is found is the only one that is the first with its identifier. -/
theorem first_unique {appIndex : Int} {a b : Nat} (ha : FirstApp c L appIndex a) (hb : FirstApp c L appIndex b) : a = b := by
  rcases Nat.lt_trichotomy a b with hlt | heq | hlt
  · exact absurd ha.2.1 (hb.2.2 a hlt)
  · exact heq
  · exact absurd hb.2.1 (ha.2.2 b hlt)

/-- The place that a call finds. -/
theorem spot_of_addSpot (h : Holds T c L) (ho : Ordered c L) {appIndex rowIndex : Int} {val : Nat → Option (List Char)}
    {a rowEnd : Nat} {place : Option Nat × Int × Option Nat}
    (hspot : c.addSpot T appIndex rowIndex val = some (a, rowEnd, place)) :
    ∃ rowMaxnum xs i ys, Spot T c L appIndex rowIndex val a rowMaxnum rowEnd xs i ys ∧
      place = (xs.getLast?, i, ys.head?) := by
  unfold addSpot at hspot
  split at hspot
  · rename_i hvalid
    split at hspot
    · rename_i b hfind
      obtain ⟨hb, hid, hfirst⟩ := h.findApp_some hfind
      split at hspot
      · rename_i rowMaxnum rowEnd' htable
        split at hspot
        · cases hspot
        · rename_i hrange
          split at hspot
          · rename_i place' hplace
            cases hspot
            have hrow : 0 ≤ rowIndex := by omega
            rw [← hid] at hplace
            rcases h.rowPlace_cases ho hrow with ⟨-, -, heq⟩ | ⟨xs, i, ys, hp, hi, hexp, hgap, heq⟩
            · rw [hplace] at heq
              cases heq
            · rw [hplace] at heq
              cases heq
              exact ⟨rowMaxnum, xs, i, ys, ⟨hvalid.1, hvalid.2, ⟨hb, hid, hfirst⟩, htable, ⟨hrow, by omega⟩, hp, hi, hexp, hgap⟩, rfl⟩
          · cases hspot
      · cases hspot
    · cases hspot
  · cases hspot

/-- The call adds a row where it finds a place, and does nothing when it finds none. -/
theorem configApiAddTableRow_eq (h : Holds T c L) (ho : Ordered c L) (appIndex rowIndex : Int)
    (val : Nat → Option (List Char)) :
    c.configApiAddTableRow T appIndex rowIndex val =
      .done (match c.addSpot T appIndex rowIndex val with
        | none => (-1, c)
        | some (a, rowEnd, place) => c.addRowAt T appIndex a rowEnd val place) := by
  unfold configApiAddTableRow addSpot
  by_cases hvalid : T.ValidApp appIndex ∧ (val 0).isSome = true
  · rw [if_pos hvalid, if_pos hvalid, h.findApp_eq]
    cases hfind : (List.range L.apps).find? fun a => (c.app a).appId == appIndex with
    | none => rfl
    | some a =>
      simp only [Outcome.bind_done]
      cases htable : T.appExistTable appIndex with
      | none => rfl
      | some entry =>
        obtain ⟨rowMaxnum, rowEnd⟩ := entry
        simp only
        by_cases hrange : (rowMaxnum : Int) < rowIndex ∨ rowIndex < 0
        · rw [if_pos hrange, if_pos hrange]
        · rw [if_neg hrange, if_neg hrange]
          have hid : (c.app a).appId = appIndex := by simpa using List.find?_some hfind
          rw [← hid]
          rcases h.rowPlace_cases ho (a := a) (show 0 ≤ rowIndex by omega) with ⟨-, -, heq⟩ | ⟨xs, i, ys, -, -, -, -, heq⟩
          · rw [heq]
            rfl
          · rw [heq]
            rfl
  · rw [if_neg hvalid, if_neg hvalid]

/-- **What adding a row does**: nothing, or a row is added at the place that was found, with all of its columns or up to the
first one that does not fit. -/
theorem configApiAddTableRow_cases (h : Holds T c L) (ho : Ordered c L) (appIndex rowIndex : Int)
    (val : Nat → Option (List Char)) :
    (c.configApiAddTableRow T appIndex rowIndex val = .done (-1, c) ∧
      (c.addSpot T appIndex rowIndex val = none ∨ c.freeRowNum T = 0)) ∨
    ∃ a rowMaxnum rowEnd xs i ys n ps c' ret, c.addSpot T appIndex rowIndex val = some (a, rowEnd, xs.getLast?, i, ys.head?) ∧
      Spot T c L appIndex rowIndex val a rowMaxnum rowEnd xs i ys ∧ RowAdded T c L a i xs ys val n ps c' ∧
      c.configApiAddTableRow T appIndex rowIndex val = .done (ret, c') ∧ c.freeRowNum T ≠ 0 ∧
      (ret = 0 ∧ ps.length = rowEnd - 1 ∧ ColumnsFit T c appIndex i rowEnd ∨
        ret = -1 ∧ ps.length ≠ rowEnd - 1 ∧ ¬ColumnsFit T c appIndex i rowEnd) := by
  rw [h.configApiAddTableRow_eq ho]
  cases hspot : c.addSpot T appIndex rowIndex val with
  | none => exact Or.inl ⟨rfl, Or.inl rfl⟩
  | some spot =>
    obtain ⟨a, rowEnd, place⟩ := spot
    obtain ⟨rowMaxnum, xs, i, ys, hs, rfl⟩ := h.spot_of_addSpot ho hspot
    have hid := hs.app.2.1
    have happ : 0 ≤ (c.app a).appId := by
      have := hs.valid.1
      omega
    simp only
    rw [← hid]
    rcases h.addRowAt_cases hs.app.1 hs.place hs.one_le happ rowEnd val with ⟨hfree, heq⟩ | ⟨n, ps, c', hadded, hret⟩
    · exact Or.inl ⟨congrArg _ heq, Or.inr hfree⟩
    · have hfree : c.freeRowNum T ≠ 0 := by
        intro hfree
        have hin : n < T.gMaxTabNum := (hadded.holds.row_mem a n (by simp)).2
        exact absurd (List.countP_eq_zero.1 hfree n (List.mem_range.2 hin)) (by simpa using hadded.fresh)
      rcases hret with ⟨hlen, hfit, heq⟩ | ⟨hlen, hfit, heq⟩
      · exact Or.inr ⟨a, rowMaxnum, rowEnd, xs, i, ys, n, ps, c', 0, rfl, hid ▸ hs, hadded, congrArg _ heq, hfree,
          Or.inl ⟨rfl, hlen, hfit⟩⟩
      · exact Or.inr ⟨a, rowMaxnum, rowEnd, xs, i, ys, n, ps, c', -1, rfl, hid ▸ hs, hadded, congrArg _ heq, hfree,
          Or.inr ⟨rfl, hlen, hfit⟩⟩

/-- What is known of a row that `config_api_delete_table_row` has taken out. -/
structure RowDeleted (T : EntityTable) (c : Cache) (L : Layout) (appIndex rowIndex : Int) (a r : Nat) (xs ys : List Nat)
    (c' : Cache) : Prop where
  valid : T.ValidApp appIndex
  app : FirstApp c L appIndex a
  rows : L.rows a = xs ++ r :: ys
  rowId : (c.row r).rowId = getRowId appIndex rowIndex
  holds : Holds T c' ((L.setRows a (xs ++ ys)).setParas (.row r) [])
  same : SameOn ((L.setRows a (xs ++ ys)).setParas (.row r) []) c c'

/-- The search for a row to be deleted: it is found behind smaller ones, or there is none. -/
theorem foldlM_searchDelete (c : Cache) (appIndex rowIndex : Int) (xs l : List Nat)
    (h : l.Pairwise fun r s => (c.row r).rowId < (c.row s).rowId) :
    (∃ zs r ys, l = zs ++ r :: ys ∧ (c.row r).rowId = getRowId appIndex rowIndex ∧
        l.foldlM (c.searchDelete appIndex rowIndex) xs.getLast? = .error (.found (xs ++ zs).getLast? r)) ∨
      (∀ r ∈ l, (c.row r).rowId ≠ getRowId appIndex rowIndex) ∧
        (l.foldlM (c.searchDelete appIndex rowIndex) xs.getLast? = .error .missing ∨
          ∃ pre, l.foldlM (c.searchDelete appIndex rowIndex) xs.getLast? = .ok pre) := by
  induction l generalizing xs with
  | nil => exact Or.inr ⟨by simp, Or.inr ⟨_, rfl⟩⟩
  | cons r l ih =>
    obtain ⟨hr, hl⟩ := List.pairwise_cons.1 h
    rw [List.foldlM_cons, searchDelete]
    by_cases hlt : (c.row r).rowId < getRowId appIndex rowIndex
    · rw [if_pos hlt]
      have hlast : (some r : Option Nat) = (xs ++ [r]).getLast? := by simp
      rcases ih (xs ++ [r]) hl with ⟨zs, s, ys, heq, hid, hfold⟩ | ⟨hnone, hfold⟩
      · refine Or.inl ⟨r :: zs, s, ys, by rw [heq]; rfl, hid, ?_⟩
        rw [hlast]
        rw [List.append_assoc] at hfold
        exact hfold
      · refine Or.inr ⟨?_, ?_⟩
        · intro s hs
          rcases List.mem_cons.1 hs with rfl | hs
          · omega
          · exact hnone s hs
        · rw [hlast]
          exact hfold
    · rw [if_neg hlt]
      by_cases hgt : getRowId appIndex rowIndex < (c.row r).rowId
      · rw [if_pos hgt]
        refine Or.inr ⟨?_, Or.inl rfl⟩
        intro s hs
        rcases List.mem_cons.1 hs with rfl | hs
        · omega
        · have := hr s hs
          omega
      · rw [if_neg hgt]
        exact Or.inl ⟨[], r, l, rfl, by omega, by rw [List.append_nil]; rfl⟩

/-- Deleting a row changes the contents of no other node. -/
theorem sameOn_removeRow (h : Holds T c L) {a r : Nat} {xs ys : List Nat} (hrows : L.rows a = xs ++ r :: ys) (link : RowLink)
    (q : Option Nat) :
    SameOn ((L.setRows a (xs ++ ys)).setParas (.row r) []) c
      (((c.freed (L.paras (.row r))).setRow r ⟨-1, none, none⟩).setRowLink link q) where
  appId := fun _ => setRowLink_appId ..
  appName := fun _ => setRowLink_appName ..
  rowId := fun b s hs => by
    have hsr : s ≠ r := by
      rintro rfl
      have hnodup := h.row_nodup a
      rw [hrows] at hnodup
      by_cases hb : b = a
      · subst hb
        rw [setParas_rows, setRows_self] at hs
        exact (List.nodup_cons.1 (List.perm_middle.nodup_iff.1 hnodup)).1 hs
      · rw [setParas_rows, setRows_of_ne L hb] at hs
        exact hb (h.row_owner b a s hs (by simp [hrows]))
    rw [setRowLink_rowId]
    simp [setRow, hsr, freed]
  para := fun o p hp => by
    have hpr : p ∉ L.paras (.row r) := by
      intro hmem
      by_cases ho : o = .row r
      · subst ho
        rw [setParas_self] at hp
        cases hp
      · rw [setParas_of_ne _ ho, setRows_paras] at hp
        exact ho (h.para_owner o (.row r) p hp hmem)
    rw [setRowLink_para]
    simp [setRow, freed, hpr]

/-- **What deleting a row does**: the row is taken out, with its parameters, or there is no such row. -/
theorem configApiDeleteTableRow_cases (h : Holds T c L) (ho : Ordered c L) (appIndex rowIndex : Int) :
    (c.configApiDeleteTableRow T appIndex rowIndex = .done (-1, c) ∧
        (T.ValidApp appIndex → ∀ a, FirstApp c L appIndex a → ∀ r ∈ L.rows a, (c.row r).rowId ≠ getRowId appIndex rowIndex)) ∨
      ∃ a r xs ys c', RowDeleted T c L appIndex rowIndex a r xs ys c' ∧
        c.configApiDeleteTableRow T appIndex rowIndex = .done (0, c') := by
  unfold configApiDeleteTableRow
  by_cases hvalid : T.ValidApp appIndex
  · rw [if_pos hvalid]
    cases hfind : c.findApp T appIndex with
    | undefined => exact absurd (h.findApp_eq appIndex ▸ hfind) (by simp)
    | outOfFuel => exact absurd (h.findApp_eq appIndex ▸ hfind) (by simp)
    | done found =>
      cases found with
      | none => exact Or.inl ⟨rfl, fun _ a ha => absurd ha.2.1 (h.findApp_none hfind a ha.1)⟩
      | some a =>
        obtain ⟨ha, hid, hfirst⟩ := h.findApp_some hfind
        simp only [Outcome.bind_done]
        rw [(h.row_chain a).loopFrom_eq (h.rows_live a) (h.rows_length a), Outcome.bind_done]
        rcases foldlM_searchDelete c appIndex rowIndex [] (L.rows a) (ho.ascending a) with
          ⟨xs, r, ys, hrows, hrid, hfold⟩ | ⟨hnone, hfold⟩
        · right
          rw [show (none : Option Nat) = ([] : List Nat).getLast? from rfl, hfold]
          simp only [List.nil_append]
          have hparas := freeParas_eq (h.para_chain (.row r)) (h.para_nodup _)
            (fun p hp => (h.para_live p).2 ⟨_, hp⟩) (h.paras_length _)
          have hchain := h.row_chain a
          rw [hrows] at hchain
          refine ⟨a, r, xs, ys, _, ⟨hvalid, ⟨ha, hid, hfirst⟩, hrows, hrid, h.removeRow hrows,
            h.sameOn_removeRow hrows _ _⟩, ?_⟩
          unfold deleteRow
          rw [show (c.row r).para = c.paraHead (.row r) from rfl, hparas]
          rfl
        · left
          refine ⟨?_, fun _ b hb => first_unique ⟨ha, hid, hfirst⟩ hb ▸ hnone⟩
          rw [show (none : Option Nat) = ([] : List Nat).getLast? from rfl]
          rcases hfold with hfold | ⟨pre, hfold⟩ <;> rw [hfold]
  · rw [if_neg hvalid]
    exact Or.inl ⟨rfl, fun h => absurd h hvalid⟩

/-- Writing a value keeps the layout, and every identifier and name. -/
theorem writeVal (h : Holds T c L) (p : Nat) (val : List Char) : Holds T (c.writeVal p val) L where
  apps_le := h.apps_le
  app_next := h.app_next
  app_live := h.app_live
  row_chain := h.row_chain
  row_nodup := h.row_nodup
  row_owner := h.row_owner
  row_mem := h.row_mem
  row_live := h.row_live
  para_chain := fun o => by
    have hnext : (c.writeVal p val).paraNext = c.paraNext := by
      unfold Cache.writeVal
      rw [setPara_paraNext]
      exact Function.update_eq_self p c.paraNext
    rw [hnext]
    exact h.para_chain o
  para_nodup := h.para_nodup
  para_owner := h.para_owner
  para_mem := h.para_mem
  para_live := fun q => by
    rw [← h.para_live q]
    by_cases hq : q = p
    · subst hq
      simp [Cache.writeVal, setPara]
    · simp [Cache.writeVal, setPara, hq]

/-- **What writing a parameter does**: a value is written to a parameter of an application, or nothing. -/
theorem configApiWriteParameter_cases (h : Holds T c L) (appIndex paraIndex : Int) (val : List Char) :
    c.configApiWriteParameter T appIndex paraIndex val = .done (-1, c) ∨
      ∃ o p, p ∈ L.paras o ∧ c.configApiWriteParameter T appIndex paraIndex val = .done (0, c.writeVal p val) := by
  unfold configApiWriteParameter
  by_cases hvalid : T.ValidApp appIndex
  · rw [if_pos hvalid, h.findApp_eq]
    cases hfind : (List.range L.apps).find? fun a => (c.app a).appId == appIndex with
    | none => exact Or.inl rfl
    | some a =>
      simp only [Outcome.bind_done]
      rw [show (c.app a).para = c.paraHead (.app a) from rfl, h.findPara_eq (.app a)]
      cases hpara : (L.paras (.app a)).find? fun p => (c.para p).paraId == getParaId appIndex 0 paraIndex with
      | none => exact Or.inl rfl
      | some p => exact Or.inr ⟨.app a, p, List.mem_of_find?_eq_some hpara, rfl⟩
  · rw [if_neg hvalid]
    exact Or.inl rfl

/-- **What writing a parameter of a row does**: a value is written to a parameter of a row, or nothing. -/
theorem configApiWriteTableParameter_cases (h : Holds T c L) (appIndex rowIndex paraIndex : Int) (val : List Char) :
    c.configApiWriteTableParameter T appIndex rowIndex paraIndex val = .done (-1, c) ∨
      ∃ o p, p ∈ L.paras o ∧
        c.configApiWriteTableParameter T appIndex rowIndex paraIndex val = .done (0, c.writeVal p val) := by
  unfold configApiWriteTableParameter
  by_cases hvalid : T.ValidApp appIndex
  · rw [if_pos hvalid, h.findApp_eq]
    cases hfind : (List.range L.apps).find? fun a => (c.app a).appId == appIndex with
    | none => exact Or.inl rfl
    | some a =>
      simp only [Outcome.bind_done]
      rw [h.findRow_eq]
      cases hrow : (L.rows a).find? fun r => (c.row r).rowId == getRowId appIndex rowIndex with
      | none => exact Or.inl rfl
      | some r =>
        simp only [Outcome.bind_done]
        rw [show (c.row r).para = c.paraHead (.row r) from rfl, h.findPara_eq (.row r)]
        cases hpara : (L.paras (.row r)).find? fun p => (c.para p).paraId == getParaId appIndex rowIndex paraIndex with
        | none => exact Or.inl rfl
        | some p => exact Or.inr ⟨.row r, p, List.mem_of_find?_eq_some hpara, rfl⟩
  · rw [if_neg hvalid]
    exact Or.inl rfl

end Holds

end CodeFactory.Conf
