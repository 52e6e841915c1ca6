import CodeFactory.Conf.Representation

/-!
# A row that cannot be added

What `config_api_add_table_row` leaves behind when it fails, of a cache in any state: the row is linked before its columns are
taken, and nothing is undone when one of them cannot be.
-/

namespace CodeFactory.Conf

open Cache

/-- What every round keeps, of the state of a loop and of what it leaves the loop with, holds at the end. -/
theorem loopFrom_invariant {π σ ε : Type} {next : π → Option π} {live : π → Bool} {body : σ → π → Except ε σ} {I : σ → Prop}
    {E : ε → Prop} (hok : ∀ s x t, I s → body s x = .ok t → I t) (herror : ∀ s x e, I s → body s x = .error e → E e) {fuel : Nat}
    {p : Option π} {s : σ} (h : I s) {r : Except ε σ} (hr : loopFrom next live body fuel p s = .done r) :
    (∀ t, r = .ok t → I t) ∧ ∀ e, r = .error e → E e := by
  induction fuel generalizing p s with
  | zero => cases hr
  | succ fuel ih =>
    cases p with
    | none =>
      cases hr
      refine ⟨fun t ht => ?_, fun e he => ?_⟩
      · cases ht
        exact h
      · cases he
    | some x =>
      rw [loopFrom] at hr
      split at hr
      · split at hr
        · rename_i t ht
          exact ih (hok s x t h ht) hr
        · rename_i e hbody
          cases hr
          refine ⟨fun t ht => ?_, fun e he => ?_⟩
          · cases ht
          · cases he
            exact herror s x _ h hbody
      · cases hr
        refine ⟨fun t ht => ?_, fun e he => ?_⟩
        · cases ht
          exact h
        · cases he

namespace Cache

variable {T : EntityTable} {c c' : Cache}

/-- The index of a new row is one or more. -/
theorem rowPlace_one_le {appIndex rowIndex : Int} {a : Nat} {place : Option Nat × Int × Option Nat}
    (h : c.rowPlace T appIndex a rowIndex = .done (some place)) : 1 ≤ place.2.1 := by
  unfold rowPlace at h
  split at h
  · rename_i hpos
    obtain ⟨r, hr, heq⟩ := Outcome.map_eq_done.1 h
    have hbody : ∀ (pre : Option Nat) x e, True → c.searchIndex appIndex rowIndex pre x = .error e →
        ∀ pre i last, e = RowSearch.before pre i last → i = rowIndex := by
      intro pre x e _ hbody pre' i last heq
      unfold searchIndex at hbody
      split_ifs at hbody
      · cases hbody
        cases heq
      · cases hbody
        cases heq
        rfl
    obtain ⟨-, hleft⟩ := loopFrom_invariant (I := fun _ => True) (fun _ _ _ _ _ => trivial) hbody trivial hr
    cases r with
    | ok pre =>
      cases heq
      exact hpos
    | error e =>
      cases e with
      | taken => cases heq
      | before pre i last =>
        cases heq
        show 1 ≤ i
        rw [hleft _ rfl pre i last rfl]
        exact hpos
  · obtain ⟨r, hr, heq⟩ := Outcome.map_eq_done.1 h
    have hok : ∀ (s : Option Nat × Int) x t, 1 ≤ s.2 → c.searchGap appIndex s x = .ok t → 1 ≤ t.2 := by
      intro s x t hs hbody
      unfold searchGap at hbody
      split_ifs at hbody
      cases hbody
      show 1 ≤ s.2 + 1
      omega
    have herror : ∀ (s : Option Nat × Int) x e, 1 ≤ s.2 → c.searchGap appIndex s x = .error e →
        ∀ pre i last, e = RowSearch.before pre i last → 1 ≤ i := by
      intro s x e hs hbody pre i last heq
      unfold searchGap at hbody
      split_ifs at hbody
      cases hbody
      cases heq
      exact hs
    obtain ⟨hend, hleft⟩ := loopFrom_invariant hok herror (Int.le_refl 1) hr
    cases r with
    | ok s =>
      cases heq
      exact hend s rfl
    | error e =>
      cases e with
      | taken => cases heq
      | before pre i last =>
        cases heq
        exact hleft _ rfl pre i last rfl

/-! ## The call, of a cache in any state -/

/-- The call does nothing where it finds no place. -/
theorem configApiAddTableRow_of_none {appIndex rowIndex : Int} {val : Nat → Option (List Char)}
    (h : c.addSpot T appIndex rowIndex val = none) {ret : Int}
    (hcall : c.configApiAddTableRow T appIndex rowIndex val = .done (ret, c')) : c' = c := by
  unfold addSpot at h
  unfold configApiAddTableRow at hcall
  split at hcall
  · rename_i hvalid
    rw [if_pos hvalid] at h
    obtain ⟨found, hfind, hcall⟩ := Outcome.bind_eq_done.1 hcall
    rw [hfind] at h
    cases found with
    | none =>
      cases hcall
      rfl
    | some a =>
      simp only at h hcall
      cases htable : T.appExistTable appIndex with
      | none =>
        rw [htable] at hcall
        cases hcall
        rfl
      | some entry =>
        rw [htable] at h hcall
        simp only at h hcall
        split at hcall
        · cases hcall
          rfl
        · rename_i hrange
          rw [if_neg hrange] at h
          obtain ⟨place, hplace, heq⟩ := Outcome.map_eq_done.1 hcall
          rw [hplace] at h
          cases place with
          | none =>
            cases heq
            rfl
          | some place => cases h
  · cases hcall
    rfl

/-- The call adds a row at the place that it finds. -/
theorem configApiAddTableRow_of_some {appIndex rowIndex : Int} {val : Nat → Option (List Char)} {a rowEnd : Nat}
    {place : Option Nat × Int × Option Nat} (h : c.addSpot T appIndex rowIndex val = some (a, rowEnd, place)) :
    T.ValidApp appIndex ∧ 1 ≤ place.2.1 ∧
      c.configApiAddTableRow T appIndex rowIndex val = .done (c.addRowAt T appIndex a rowEnd val place) := by
  unfold addSpot at h
  unfold configApiAddTableRow
  split at h
  · rename_i hvalid
    rw [if_pos hvalid]
    split at h
    · rename_i b hfind
      rw [hfind]
      split at h
      · rename_i rowMaxnum rowEnd' htable
        split at h
        · cases h
        · rename_i hrange
          split at h
          · rename_i place' hplace
            cases h
            refine ⟨hvalid.1, rowPlace_one_le hplace, ?_⟩
            rw [Outcome.bind_done, htable]
            simp only
            rw [if_neg hrange, hplace]
            rfl
          · cases h
      · cases h
    · cases h
  · cases h

theorem linkLast_para (r : Nat) (last : Option Nat) : (c.linkLast r last).para = c.para := by
  unfold linkLast
  split_ifs
  · exact setRowLink_para ..
  · rfl

theorem linkLast_rowId (r : Nat) (last : Option Nat) (s : Nat) : ((c.linkLast r last).row s).rowId = (c.row s).rowId := by
  unfold linkLast
  split_ifs
  · exact setRowLink_rowId ..
  · rfl

/-- Adding a parameter changes the identifier of no row. -/
theorem addParaTail_rowId (next : ParaLink) (id : Int) (val : List Char) (r : Nat) :
    ((c.addParaTail T next id val).2.row r).rowId = (c.row r).rowId := by
  unfold addParaTail
  cases hfind : c.findFreePara T with
  | none => rfl
  | some found =>
    obtain ⟨p, c₁⟩ := found
    obtain ⟨-, -, rfl⟩ := findFreePara_some hfind
    simp only
    cases T.columnName id with
    | none => rfl
    | some name => exact setParaLink_rowId ..

/-- Adding the columns changes the identifier of no row. -/
theorem addColumns_rowId (next : ParaLink) (appIndex rowIndex : Int) (val : Nat → Option (List Char)) (n i r : Nat) :
    ((c.addColumns T next appIndex rowIndex val n i).2.row r).rowId = (c.row r).rowId := by
  induction n generalizing c next i with
  | zero => rfl
  | succ n ih =>
    rw [← addParaTail_rowId next (getParaId appIndex rowIndex (i + 1)) ((val i).getD []) (T := T) (c := c) r]
    unfold addColumns
    cases hadd : c.addParaTail T next (getParaId appIndex rowIndex (i + 1)) ((val i).getD []) with
    | mk found c₁ =>
      cases found with
      | none => rfl
      | some p => exact ih ..

/-- Whether a parameter can be added, and that it takes one that was free. -/
theorem addParaTail_isSome (next : ParaLink) {id : Int} (hid : id ≠ -1) (val : List Char) :
    ((c.addParaTail T next id val).1.isSome = true ↔ 0 < c.freeParaNum T ∧ (T.columnName id).isSome = true) ∧
      ((c.addParaTail T next id val).1.isSome = true →
        c.freeParaNum T = (c.addParaTail T next id val).2.freeParaNum T + 1) := by
  unfold addParaTail
  cases hfind : c.findFreePara T with
  | none =>
    have hzero := findFreePara_none hfind
    exact ⟨iff_of_false (by simp) (by omega), by simp⟩
  | some found =>
    obtain ⟨p, c₁⟩ := found
    obtain ⟨hmax, hp, rfl⟩ := findFreePara_some hfind
    have hpos : 0 < c.freeParaNum T := by
      refine List.countP_pos_iff.2 ⟨p, List.mem_range.2 hmax, ?_⟩
      simpa using hp
    simp only
    cases hname : T.columnName id with
    | none => exact ⟨iff_of_false (by simp) (by simp), by simp⟩
    | some name =>
      refine ⟨iff_of_true rfl ⟨hpos, rfl⟩, fun _ => countP_range_of_change hmax ?_ ?_ ?_⟩
      · simpa using hp
      · rw [setParaLink_paraId]
        simpa [setPara] using hid
      · intro q hq
        rw [setParaLink_paraId]
        simp [setPara, hq]

/-- All columns are added when there are free parameters and names for all of them. -/
theorem addColumns_iff (next : ParaLink) {appIndex rowIndex : Int} (happ : 0 ≤ appIndex) (hrow : 0 ≤ rowIndex)
    (val : Nat → Option (List Char)) (n i : Nat) :
    (c.addColumns T next appIndex rowIndex val n i).1 = true ↔
      n ≤ c.freeParaNum T ∧ ∀ j, j < n → (T.columnName (getParaId appIndex rowIndex ((i + j : Nat) + 1))).isSome = true := by
  induction n generalizing c next i with
  | zero => simp [addColumns]
  | succ n ih =>
    obtain ⟨hiff, hfree⟩ := addParaTail_isSome next (getParaId_ne happ hrow i) ((val i).getD []) (T := T) (c := c)
    unfold addColumns
    cases hadd : c.addParaTail T next (getParaId appIndex rowIndex (i + 1)) ((val i).getD []) with
    | mk found c₁ =>
      rw [hadd] at hiff hfree
      cases found with
      | none =>
        refine iff_of_false (by simp) ?_
        rintro ⟨hle, hall⟩
        exact absurd (hiff.2 ⟨by omega, hall 0 n.succ_pos⟩) (by simp)
      | some p =>
        obtain ⟨-, hname⟩ := hiff.1 rfl
        have hfree := hfree rfl
        simp only
        rw [ih]
        simp only at hfree
        constructor
        · rintro ⟨hle, hall⟩
          refine ⟨by omega, fun j hj => ?_⟩
          cases j with
          | zero => exact hname
          | succ j =>
            have := hall j (by omega)
            rwa [show i + 1 + j = i + (j + 1) by omega] at this
        · rintro ⟨hle, hall⟩
          refine ⟨by omega, fun j hj => ?_⟩
          have := hall (j + 1) (by omega)
          rwa [show i + (j + 1) = i + 1 + j by omega] at this

/-- What adding a row at a place does: nothing when no row is free, and else it puts the row in use and succeeds if its columns
fit. -/
theorem addRowAt_iff {appIndex : Int} {a rowEnd : Nat} {val : Nat → Option (List Char)} {place : Option Nat × Int × Option Nat}
    (happ : 0 ≤ appIndex) (hrow : 0 ≤ place.2.1) :
    (c.freeRowNum T = 0 → c.addRowAt T appIndex a rowEnd val place = (-1, c)) ∧
      (0 < c.freeRowNum T → (c.addRowAt T appIndex a rowEnd val place).2 ≠ c ∧
        ((c.addRowAt T appIndex a rowEnd val place).1 = -1 ↔ ¬ColumnsFit T c appIndex place.2.1 rowEnd)) := by
  unfold addRowAt addRowTail
  cases hfind : c.findFreeRow T with
  | none =>
    have hzero := findFreeRow_none hfind
    exact ⟨fun _ => rfl, fun hpos => by omega⟩
  | some found =>
    obtain ⟨n, c₁⟩ := found
    obtain ⟨hmax, hn, rfl⟩ := findFreeRow_some hfind
    have hpos : 0 < c.freeRowNum T := by
      refine List.countP_pos_iff.2 ⟨n, List.mem_range.2 hmax, ?_⟩
      simpa using hn
    refine ⟨fun hzero => by omega, fun _ => ?_⟩
    simp only
    generalize hc₂ : (((c.setRow n { c.row n with next := none, para := none }).setRow n
      ⟨getRowId appIndex place.2.1, none, none⟩).setRowLink (placeLink a place.1) (some n)).linkLast n place.2.2 = c₂
    have hpara : c₂.para = c.para := by
      rw [← hc₂, linkLast_para, setRowLink_para]
      rfl
    have hid : (c₂.row n).rowId = getRowId appIndex place.2.1 := by
      rw [← hc₂, linkLast_rowId, setRowLink_rowId]
      simp [setRow]
    have hcount : c₂.freeParaNum T = c.freeParaNum T := by
      unfold freeParaNum
      rw [hpara]
    have hfit := addColumns_iff (T := T) (c := c₂) (.rowPara n) happ hrow val (rowEnd - 1) 0
    have hrowId := addColumns_rowId (T := T) (c := c₂) (.rowPara n) appIndex place.2.1 val (rowEnd - 1) 0 n
    rw [hcount] at hfit
    simp only [Nat.zero_add] at hfit
    rw [hid] at hrowId
    cases hadd : c₂.addColumns T (.rowPara n) appIndex place.2.1 val (rowEnd - 1) 0 with
    | mk ok c₃ =>
      rw [hadd] at hfit hrowId
      -- the row has left the free ones, whether its columns were added or not
      have hne : c₃ ≠ c := by
        rintro rfl
        rw [hn] at hrowId
        unfold getRowId at hrowId
        omega
      cases ok with
      | true => exact ⟨hne, iff_of_false (by simp) (not_not_intro (hfit.1 rfl))⟩
      | false => exact ⟨hne, iff_of_true rfl fun hcols => Bool.false_ne_true (hfit.2 hcols)⟩

end Cache

/-- **A row that cannot be added**, of a cache in any state: the call that fails leaves the cache as it was exactly when the row
would have had all of its columns, or there was no place or no free row for it. -/
theorem failed_add_unchanged_iff (T : EntityTable) (c : Cache) (appIndex rowIndex : Int) (val : Nat → Option (List Char)) :
    (∀ c', c.configApiAddTableRow T appIndex rowIndex val = .done (-1, c') → c' = c) ↔
      ∀ a rowEnd place, c.addSpot T appIndex rowIndex val = some (a, rowEnd, place) → 0 < c.freeRowNum T →
        ColumnsFit T c appIndex place.2.1 rowEnd := by
  constructor
  · intro h a rowEnd place hspot hfree
    obtain ⟨hvalid, hone, hcall⟩ := configApiAddTableRow_of_some hspot
    have hrow : 0 ≤ place.2.1 := by omega
    obtain ⟨hne, hret⟩ := (@addRowAt_iff T c appIndex a rowEnd val place (Int.le_of_lt hvalid.1) hrow).2 hfree
    by_contra hnot
    refine hne (h _ ?_)
    rw [hcall, ← hret.2 hnot]
  · intro h c' hcall
    cases hspot : c.addSpot T appIndex rowIndex val with
    | none => exact configApiAddTableRow_of_none hspot hcall
    | some spot =>
      obtain ⟨a, rowEnd, place⟩ := spot
      obtain ⟨hvalid, hone, heq⟩ := configApiAddTableRow_of_some hspot
      have hadd := Outcome.done.inj (heq.symm.trans hcall)
      have hrow : 0 ≤ place.2.1 := by omega
      obtain ⟨hzero, hpos⟩ := @addRowAt_iff T c appIndex a rowEnd val place (Int.le_of_lt hvalid.1) hrow
      rcases Nat.eq_zero_or_pos (c.freeRowNum T) with hfree | hfree
      · rw [hzero hfree] at hadd
        exact (Prod.mk.inj hadd).2.symm
      · obtain ⟨-, hret⟩ := hpos hfree
        exact absurd (h a rowEnd place hspot hfree) (hret.1 (by rw [hadd]))

/-- A table of two columns whose application has two parameters of its own in the file: a row gets one column, then the
parameters run out, and the row stays where it was put. -/
theorem failed_add_changes :
    Sound twoTables (cacheOf twoTables "[firewall]\nsourceIp=1\nsourceMask=2\n") ∧
      ∃ c', (cacheOf twoTables "[firewall]\nsourceIp=1\nsourceMask=2\n").configApiAddTableRow twoTables 1 1
          (fun _ => some "0.0.0.0".toList) = .done (-1, c') ∧
        c' ≠ cacheOf twoTables "[firewall]\nsourceIp=1\nsourceMask=2\n" := by
  refine ⟨(loaded (show buildParaTable twoTables "[firewall]\nsourceIp=1\nsourceMask=2\n".toList = .done (some _) from rfl)).2
    (by decide), _, rfl, fun h => ?_⟩
  have hrows := congrArg (fun c : Cache => (c.row 0).rowId) h
  exact absurd hrows (by decide)

end CodeFactory.Conf
