import CodeFactory.Conf.Linking
import Mathlib.Data.List.Perm.Subperm

/-!
# The searches of the library

The layout of a cache is computed by its loops. Then what the loops find in a cache that has a layout: the application, the row,
the place for a new row.
-/

namespace CodeFactory.Conf

open Cache Layout

namespace Cache

variable (T : EntityTable) (c : Cache)

/-- The loop over the applications. -/
def listedApps : List Nat := nodesFrom c.appNext (fun a => (c.app a).appId != -1) (T.gMaxAppNum + 1) (some 0)

/-- The loop over the rows of an application. -/
def listedRows (a : Nat) : List Nat := nodesFrom c.rowNext (fun r => (c.row r).rowId != -1) (T.gMaxTabNum + 1) (c.app a).row

/-- The loop over the parameters of an owner. -/
def listedParas (o : ParaOwner) : List Nat :=
  nodesFrom c.paraNext (fun p => (c.para p).paraId != -1) (T.gMaxParaNum + 1) (c.paraHead o)

/-- The layout that the loops see. -/
def layout : Layout := ⟨(c.listedApps T).length, c.listedRows T, c.listedParas T⟩

end Cache

/-- Lists of distinct numbers below a bound are no longer than the bound. -/
theorem length_le_of_lt {xs : List Nat} {n : Nat} (hn : xs.Nodup) (h : ∀ x ∈ xs, x < n) : xs.length ≤ n := by
  have hsub : xs.Subperm (List.range n) := List.subperm_of_subset hn fun x hx => List.mem_range.2 (h x hx)
  simpa using hsub.length_le

namespace Holds

variable {T : EntityTable} {c : Cache} {L : Layout}

theorem rows_length (h : Holds T c L) (a : Nat) : (L.rows a).length < T.gMaxTabNum + 1 :=
  Nat.lt_succ_of_le (length_le_of_lt (h.row_nodup a) fun r hr => (h.row_mem a r hr).2)

theorem paras_length (h : Holds T c L) (o : ParaOwner) : (L.paras o).length < T.gMaxParaNum + 1 :=
  Nat.lt_succ_of_le (length_le_of_lt (h.para_nodup o) fun p hp => (h.para_mem o p hp).2)

theorem rows_live (h : Holds T c L) (a : Nat) : ∀ r ∈ L.rows a, ((c.row r).rowId != -1) = true :=
  fun r hr => bne_iff_ne.2 ((h.row_live r).2 ⟨a, hr⟩)

theorem paras_live (h : Holds T c L) (o : ParaOwner) : ∀ p ∈ L.paras o, ((c.para p).paraId != -1) = true :=
  fun p hp => bne_iff_ne.2 ((h.para_live p).2 ⟨o, hp⟩)

/-- The applications from one on are linked in their order. -/
theorem app_chain_from (h : Holds T c L) (n k : Nat) (hk : k + n + 1 = T.gMaxAppNum) :
    ChainFrom c.appNext (some k) (List.range' k (n + 1)) := by
  induction n generalizing k with
  | zero =>
    refine ⟨rfl, ?_⟩
    show c.appNext k = none
    rw [h.app_next, if_neg (by omega)]
  | succ n ih =>
    refine ⟨rfl, ?_⟩
    rw [h.app_next, if_pos (by omega)]
    exact ih (k + 1) (by omega)

/-- The applications in use come first, then one that is not, if there is one. -/
theorem app_chain (h : Holds T c L) :
    ∃ rest, ChainFrom c.appNext (some 0) (List.range L.apps ++ rest) ∧ ∀ a ∈ rest.head?, ((c.app a).appId != -1) = false := by
  have hone := T.one_lt
  have hchain := h.app_chain_from (T.gMaxAppNum - 1) 0 (by unfold EntityTable.gMaxAppNum; omega)
  have hle := h.apps_le
  have hsplit : List.range' 0 (T.gMaxAppNum - 1 + 1) = List.range L.apps ++ List.range' L.apps (T.gMaxAppNum - L.apps) := by
    have happend := List.range'_append_1 (s := 0) (m := L.apps) (n := T.gMaxAppNum - L.apps)
    rw [Nat.zero_add] at happend
    rw [List.range_eq_range', happend]
    congr 1
    unfold EntityTable.gMaxAppNum at *
    omega
  rw [hsplit] at hchain
  refine ⟨_, hchain, ?_⟩
  intro a ha
  have hhead : a = L.apps := by
    cases hn : T.gMaxAppNum - L.apps with
    | zero => simp [hn] at ha
    | succ m =>
      rw [hn, List.range'_succ] at ha
      exact (Option.some.inj ha).symm
  have hdead := mt (h.app_live a).1 (by omega)
  simpa using hdead

/-- The loop over the applications sees those in use. -/
theorem listedApps_eq (h : Holds T c L) : c.listedApps T = List.range L.apps := by
  obtain ⟨rest, hchain, hdead⟩ := h.app_chain
  refine hchain.nodesFrom_append ?_ hdead ?_
  · intro a ha
    exact bne_iff_ne.2 ((h.app_live a).2 (List.mem_range.1 ha))
  · rw [List.length_range]
    exact Nat.lt_succ_of_le h.apps_le

theorem layout_eq (h : Holds T c L) : c.layout T = L := by
  have hrows : c.listedRows T = L.rows := by
    funext a
    exact (h.row_chain a).nodesFrom_eq (h.rows_live a) (h.rows_length a)
  have hparas : c.listedParas T = L.paras := by
    funext o
    exact (h.para_chain o).nodesFrom_eq (h.paras_live o) (h.paras_length o)
  unfold layout
  rw [hrows, hparas, h.listedApps_eq, List.length_range]

theorem listedRows_eq (h : Holds T c L) : c.listedRows T = L.rows := congrArg Layout.rows h.layout_eq

theorem listedParas_eq (h : Holds T c L) : c.listedParas T = L.paras := congrArg Layout.paras h.layout_eq

/-- The search for an application finds the first one with the identifier. -/
theorem findApp_eq (h : Holds T c L) (appIndex : Int) :
    c.findApp T appIndex = .done ((List.range L.apps).find? fun a => (c.app a).appId == appIndex) := by
  obtain ⟨rest, hchain, hdead⟩ := h.app_chain
  unfold findApp findFrom
  rw [hchain.loopFrom_append ?_ hdead ?_, ← foldlM_lookFor]
  · rfl
  · intro a ha
    exact bne_iff_ne.2 ((h.app_live a).2 (List.mem_range.1 ha))
  · rw [List.length_range]
    exact Nat.lt_succ_of_le h.apps_le

theorem findRow_eq (h : Holds T c L) (a : Nat) (rowId : Int) :
    c.findRow T a rowId = .done ((L.rows a).find? fun r => (c.row r).rowId == rowId) :=
  (h.row_chain a).findFrom_eq (h.rows_live a) (h.rows_length a) _

theorem findPara_eq (h : Holds T c L) (o : ParaOwner) (paraId : Int) :
    c.findPara T (c.paraHead o) paraId = .done ((L.paras o).find? fun p => (c.para p).paraId == paraId) :=
  (h.para_chain o).findFrom_eq (h.paras_live o) (h.paras_length o) _

end Holds

/-! ## The place of a new row -/

/-- The rows of every application have an index, and they are in the order of the indices. -/
structure Ordered (c : Cache) (L : Layout) : Prop where
  indexed : ∀ a r, r ∈ L.rows a → ∃ i : Int, 1 ≤ i ∧ (c.row r).rowId = getRowId (c.app a).appId i
  ascending : ∀ a, (L.rows a).Pairwise fun r s => (c.row r).rowId < (c.row s).rowId

theorem Ordered.rowId_inj {c : Cache} {L : Layout} (h : Ordered c L) {a q r : Nat} (hq : q ∈ L.rows a) (hr : r ∈ L.rows a)
    (heq : (c.row q).rowId = (c.row r).rowId) : q = r := by
  have hnodup : ((L.rows a).map fun r => (c.row r).rowId).Nodup :=
    List.pairwise_map.2 ((h.ascending a).imp fun hlt => Int.ne_of_lt hlt)
  exact List.inj_on_of_nodup_map hnodup hq hr heq

/-- Where a row with an index goes: the rows of the application before it and behind it. -/
structure Place (c : Cache) (appIndex : Int) (rows : List Nat) (xs : List Nat) (i : Int) (ys : List Nat) : Prop where
  split : rows = xs ++ ys
  before : ∀ r ∈ xs, (c.row r).rowId < getRowId appIndex i
  behind : ∀ r ∈ ys, getRowId appIndex i < (c.row r).rowId

/-- How a search is left that has come to the rows `ys`. -/
def leftAt {σ : Type} (done : σ) (pre : Option Nat) (i : Int) : List Nat → Except RowSearch σ
  | [] => .ok done
  | r :: _ => .error (.before pre i r)

theorem getRowId_lt {appIndex i j : Int} : getRowId appIndex i < getRowId appIndex j ↔ i < j := by
  unfold getRowId
  omega

theorem getRowId_inj {appIndex i j : Int} : getRowId appIndex i = getRowId appIndex j ↔ i = j := by
  unfold getRowId
  omega

/-- The search for the place of an index: there is a row with the index, or the search ends between smaller and greater
ones. -/
theorem foldlM_searchIndex (c : Cache) (appIndex i : Int) (xs l : List Nat)
    (h : l.Pairwise fun r s => (c.row r).rowId < (c.row s).rowId) :
    ((∃ r ∈ l, (c.row r).rowId = getRowId appIndex i) ∧ l.foldlM (c.searchIndex appIndex i) xs.getLast? = .error .taken) ∨
      ∃ zs ys, Place c appIndex l zs i ys ∧
        l.foldlM (c.searchIndex appIndex i) xs.getLast? = leftAt (xs ++ zs).getLast? (xs ++ zs).getLast? i ys := by
  induction l generalizing xs with
  | nil => exact Or.inr ⟨[], [], ⟨rfl, by simp, by simp⟩, by rw [List.append_nil]; rfl⟩
  | cons r l ih =>
    obtain ⟨hr, hl⟩ := List.pairwise_cons.1 h
    rw [List.foldlM_cons, searchIndex]
    by_cases hlt : (c.row r).rowId < getRowId appIndex i
    · rw [if_pos hlt]
      have hlast : (some r : Option Nat) = (xs ++ [r]).getLast? := by simp
      rcases ih (xs ++ [r]) hl with ⟨⟨s, hs, hid⟩, heq⟩ | ⟨zs, ys, hplace, heq⟩
      · refine Or.inl ⟨⟨s, List.mem_cons_of_mem _ hs, hid⟩, ?_⟩
        rw [hlast]
        exact heq
      · refine Or.inr ⟨r :: zs, ys, ⟨by rw [hplace.split]; rfl, ?_, hplace.behind⟩, ?_⟩
        · intro s hs
          rcases List.mem_cons.1 hs with rfl | hs
          · exact hlt
          · exact hplace.before s hs
        · rw [hlast]
          rw [List.append_assoc] at heq
          exact heq
    · rw [if_neg hlt]
      by_cases heq : (c.row r).rowId = getRowId appIndex i
      · rw [if_pos heq]
        exact Or.inl ⟨⟨r, List.mem_cons_self, heq⟩, rfl⟩
      · rw [if_neg heq]
        refine Or.inr ⟨[], r :: l, ⟨rfl, by simp, ?_⟩, by rw [List.append_nil]; rfl⟩
        intro s hs
        rcases List.mem_cons.1 hs with rfl | hs
        · omega
        · have := hr s hs
          omega

/-- The search for a gap passes the rows with the indices from the first one on, and ends in front of a row with a greater
index. -/
theorem foldlM_searchGap (c : Cache) (appIndex : Int) (xs l : List Nat) (k : Int)
    (h : l.Pairwise fun r s => (c.row r).rowId < (c.row s).rowId)
    (hidx : ∀ r ∈ l, ∃ i : Int, k ≤ i ∧ (c.row r).rowId = getRowId appIndex i) :
    ∃ zs ys, Place c appIndex l zs (k + zs.length) ys ∧
      (∀ (j : Nat) r, zs[j]? = some r → (c.row r).rowId = getRowId appIndex (k + j)) ∧
      l.foldlM (c.searchGap appIndex) (xs.getLast?, k) =
        leftAt ((xs ++ zs).getLast?, k + zs.length) (xs ++ zs).getLast? (k + zs.length) ys := by
  have hzero : ∀ k : Int, k + (([] : List Nat).length : Int) = k := fun k => by simp
  induction l generalizing xs k with
  | nil => exact ⟨[], [], ⟨rfl, by simp, by simp⟩, by simp, by rw [List.append_nil, hzero]; rfl⟩
  | cons r l ih =>
    obtain ⟨hr, hl⟩ := List.pairwise_cons.1 h
    obtain ⟨i, hki, hri⟩ := hidx r List.mem_cons_self
    rw [List.foldlM_cons, searchGap]
    by_cases heq : (c.row r).rowId = getRowId appIndex k
    · rw [if_pos heq]
      have hnext : ∀ s ∈ l, ∃ i : Int, k + 1 ≤ i ∧ (c.row s).rowId = getRowId appIndex i := by
        intro s hs
        obtain ⟨j, -, hj⟩ := hidx s (List.mem_cons_of_mem _ hs)
        have hlt := hr s hs
        rw [heq, hj, getRowId_lt] at hlt
        exact ⟨j, hlt, hj⟩
      obtain ⟨zs, ys, hplace, hzs, hfold⟩ := ih (xs ++ [r]) (k + 1) hl hnext
      have hlen : k + 1 + (zs.length : Int) = k + ((r :: zs).length : Int) := by
        rw [List.length_cons]
        push_cast
        omega
      have hlast : (some r : Option Nat) = (xs ++ [r]).getLast? := by simp
      rw [hlen, List.append_assoc] at hfold
      rw [hlen] at hplace
      refine ⟨r :: zs, ys, ⟨by rw [hplace.split]; rfl, ?_, hplace.behind⟩, ?_, ?_⟩
      · intro s hs
        rcases List.mem_cons.1 hs with rfl | hs
        · rw [heq, getRowId_lt, List.length_cons]
          push_cast
          omega
        · exact hplace.before s hs
      · intro j s hj
        cases j with
        | zero =>
          obtain rfl := Option.some.inj hj
          simpa using heq
        | succ j =>
          have := hzs j s hj
          rw [this, getRowId_inj]
          push_cast
          omega
      · rw [hlast]
        exact hfold
    · rw [if_neg heq]
      refine ⟨[], r :: l, ⟨rfl, by simp, ?_⟩, by simp, by rw [List.append_nil, hzero]; rfl⟩
      rw [hri, getRowId_inj] at heq
      have hlt : getRowId appIndex k < (c.row r).rowId := by
        rw [hri, getRowId_lt]
        omega
      intro s hs
      rw [hzero]
      rcases List.mem_cons.1 hs with rfl | hs
      · exact hlt
      · have := hr s hs
        omega

/-- The place that the library finds for a row: none when there is a row with the index, and else the place of the index, or of
the smallest index that no row has. -/
theorem Holds.rowPlace_cases {T : EntityTable} {c : Cache} {L : Layout} (h : Holds T c L) (ho : Ordered c L) {a : Nat}
    {rowIndex : Int} (hrow : 0 ≤ rowIndex) :
    (0 < rowIndex ∧ (∃ r ∈ L.rows a, (c.row r).rowId = getRowId (c.app a).appId rowIndex) ∧
      c.rowPlace T (c.app a).appId a rowIndex = .done none) ∨
    ∃ xs i ys, Place c (c.app a).appId (L.rows a) xs i ys ∧ 1 ≤ i ∧ (0 < rowIndex → i = rowIndex) ∧
      (rowIndex = 0 → i = xs.length + 1 ∧ ∀ (j : Nat) r, xs[j]? = some r → (c.row r).rowId = getRowId (c.app a).appId (1 + j)) ∧
      c.rowPlace T (c.app a).appId a rowIndex = .done (some (xs.getLast?, i, ys.head?)) := by
  unfold rowPlace
  by_cases hpos : 0 < rowIndex
  · rw [if_pos hpos, (h.row_chain a).loopFrom_eq (h.rows_live a) (h.rows_length a)]
    rcases foldlM_searchIndex c (c.app a).appId rowIndex [] (L.rows a) (ho.ascending a) with ⟨hex, heq⟩ | ⟨xs, ys, hplace, heq⟩
    · refine Or.inl ⟨hpos, hex, ?_⟩
      rw [show (none : Option Nat) = ([] : List Nat).getLast? from rfl, heq]
      rfl
    · refine Or.inr ⟨xs, rowIndex, ys, hplace, by omega, fun _ => rfl, fun h0 => by omega, ?_⟩
      rw [show (none : Option Nat) = ([] : List Nat).getLast? from rfl, heq]
      cases ys <;> rfl
  · rw [if_neg hpos, (h.row_chain a).loopFrom_eq (h.rows_live a) (h.rows_length a)]
    obtain ⟨xs, ys, hplace, hxs, heq⟩ :=
      foldlM_searchGap c (c.app a).appId [] (L.rows a) 1 (ho.ascending a) (fun r hr => ho.indexed a r hr)
    refine Or.inr ⟨xs, 1 + xs.length, ys, hplace, by omega, fun h0 => by omega, fun _ => ⟨by omega, hxs⟩, ?_⟩
    rw [show (none : Option Nat) = ([] : List Nat).getLast? from rfl, heq]
    cases ys <;> rfl

end CodeFactory.Conf
