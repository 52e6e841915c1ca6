import CodeFactory.Tr69.LookupCache
import CodeFactory.Tr69.Walk

/-!
# The walk and the lookup

The calls `walk_through_tr069` makes, each with the name it hands on and the cell it is for. Every cell of the subtree that is not
a template or below one is visited once, and where the search finds what it looks for in the arrays and lists, the name of a
visited cell leads the lookup to that cell.
-/

namespace CodeFactory.Tr69

/-- What the name of a cell ends in. -/
def Cell.text : Cell → Text
  | .node n => n.name
  | .inst i => decimal i.index

theorem childTop_eq (topName : Text) (cell : Cell) : childTop topName cell = topName ++ cell.text ++ ['.'] := by
  cases cell <;> rfl

/-- A call of the function a walk is made with: `topName`, and the cell with the pointer to it. -/
structure Visit where
  topName : Text
  pos : Pos
  cell : Cell
  deriving DecidableEq, Repr

/-- The full name of the cell. -/
def Visit.allName (v : Visit) : Text := v.topName ++ v.cell.text

/-- The arrays for names hold what is written to them for the cell: the walk's name for those below it, the full name, and the name
that a lookup from such a cache leaves in the cache. -/
def Visit.Held (t : Tr069Tree) (caches : Tr069NodeEntry → Prop) (v : Visit) : Prop :=
  (childTop v.topName v.cell).length ≤ maxTr069NameLen ∧ v.allName.length ≤ maxTr069NameLen ∧
    ∀ cache e cache', caches cache → t.getTr069NodeByName cache v.allName = .ok (e, cache') → cache'.name.length ≤ maxTr069NameLen

/-- The calls of a walk for a level of cells below `q`, the first one left out if it is a template. -/
def visitLevel (q : Pos) (topName : Text) : (template : Bool) → Forest Cell → List Visit
  | _, .nil => []
  | true, .cons _ _ _ rest => visitLevel q topName false rest
  | false, .cons key cell sub rest =>
    ⟨topName, q ++ [key], cell⟩ ::
      (visitLevel (q ++ [key]) (childTop topName cell) (cell.type = .multiObject) sub ++ visitLevel q topName false rest)

/-- The calls of `walk_through_tr069` for the cell at `p`. -/
def visits (topName : Text) (p : Pos) (cell : Cell) (sub : Forest Cell) : List Visit :=
  ⟨topName, p, cell⟩ :: visitLevel p (childTop topName cell) (cell.type = .multiObject) sub

/-- The cell at `r` is a template: the first one of an instance list. -/
def Tr069Tree.IsTemplate (t : Tr069Tree) (r : Pos) : Prop :=
  ∃ q key object list, r = q ++ [key] ∧ t.nodes.get? q = some object ∧ object.type = .multiObject ∧
    t.nodes.kids q = some list ∧ list.head?.map Prod.fst = some key

/-- The cells of the subtree at `p` that are neither templates nor below one. -/
inductive Tr069Tree.Below (t : Tr069Tree) (p : Pos) : Pos → Prop
  | self : Below t p p
  | kid {q : Pos} {key : Nat} {cell : Cell} (hq : Below t p q) (hc : t.nodes.get? (q ++ [key]) = some cell)
      (ht : ¬t.IsTemplate (q ++ [key])) : Below t p (q ++ [key])

/-! ## The calls -/

section Calls

variable {σ : Type} {func : Text → Cell → σ → Result × Cell × σ}

/-- A walk of a level is made of its calls, when they succeed. -/
theorem walkLevel_visits {q : Pos} {topName : Text} {template : Bool} {F : Forest Cell}
    (hok : ∀ v ∈ visitLevel q topName template F, ∀ x, (func v.topName v.cell x).1 = .tcmagentOk) (x : σ) :
    (walkLevel func topName template F x).1 = .tcmagentOk ∧
      (walkLevel func topName template F x).2.2 =
        (visitLevel q topName template F).foldl (fun x v => (func v.topName v.cell x).2.2) x := by
  induction F generalizing q topName template x with
  | nil => cases template <;> exact ⟨rfl, rfl⟩
  | cons key cell sub rest ihs ihr =>
    cases template with
    | true => exact ihr hok x
    | false =>
      rw [visitLevel] at hok ⊢
      have hcell : (func topName cell x).1 = .tcmagentOk := hok _ List.mem_cons_self x
      have hsub := ihs (fun v hv => hok v (List.mem_cons_of_mem _ (List.mem_append_left _ hv))) (func topName cell x).2.2
      have hrest := ihr (fun v hv => hok v (List.mem_cons_of_mem _ (List.mem_append_right _ hv)))
        (walkLevel func (childTop topName cell) (cell.type = .multiObject) sub (func topName cell x).2.2).2.2
      rw [walkLevel]
      simp only [hcell, ne_eq, not_true_eq_false, if_false, hsub.1, List.foldl_cons, List.foldl_append]
      rw [← hsub.2]
      exact hrest

/-- So is a walk. -/
theorem walkThroughTr069_visits {topName : Text} {p : Pos} {cell : Cell} {sub : Forest Cell}
    (hok : ∀ v ∈ visits topName p cell sub, ∀ x, (func v.topName v.cell x).1 = .tcmagentOk) (x : σ) :
    (walkThroughTr069 func topName cell sub x).1 = .tcmagentOk ∧
      (walkThroughTr069 func topName cell sub x).2.2 =
        (visits topName p cell sub).foldl (fun x v => (func v.topName v.cell x).2.2) x := by
  have hcell : (func topName cell x).1 = .tcmagentOk := hok _ List.mem_cons_self x
  have hbelow := walkLevel_visits (fun v hv => hok v (List.mem_cons_of_mem _ hv)) (func topName cell x).2.2
  rw [walkThroughTr069, visits]
  simp only [hcell, ne_eq, not_true_eq_false, if_false, List.foldl_cons]
  exact hbelow

end Calls

section Level

variable {q : Pos} {topName : Text} {template : Bool} {F : Forest Cell} {n : Nat} {v : Visit}

/-- A visit of a level: of a cell of it, or of one below a cell of it. -/
theorem exists_of_mem_visitLevel (h : v ∈ visitLevel q topName template F) : ∃ k ∈ F.heads.map Prod.fst, ∃ r, v.pos = q ++ k :: r := by
  induction F generalizing q topName template with
  | nil => cases template <;> cases h
  | cons key cell sub rest ihs ihr =>
    cases template with
    | true =>
      obtain ⟨k, hk, r, hr⟩ := ihr h
      exact ⟨k, List.mem_cons_of_mem _ hk, r, hr⟩
    | false =>
      rcases List.mem_cons.1 h with rfl | h
      · exact ⟨key, List.mem_cons_self, [], rfl⟩
      rcases List.mem_append.1 h with h | h
      · obtain ⟨k, _, r, hr⟩ := ihs h
        exact ⟨key, List.mem_cons_self, k :: r, by simp [hr]⟩
      · obtain ⟨k, hk, r, hr⟩ := ihr h
        exact ⟨k, List.mem_cons_of_mem _ hk, r, hr⟩

/-- No cell is visited twice. -/
theorem nodup_visitLevel (hF : F.Separate n) : ((visitLevel q topName template F).map Visit.pos).Nodup := by
  induction F generalizing q topName template with
  | nil => cases template <;> exact List.nodup_nil
  | cons key cell sub rest ihs ihr =>
    obtain ⟨_, hkey, hsub, hrest⟩ := hF
    cases template with
    | true => exact ihr hrest
    | false =>
      rw [visitLevel, List.map_cons, List.map_append, List.nodup_cons, List.nodup_append]
      refine ⟨?_, ihs hsub, ihr hrest, ?_⟩
      · intro hmem
        rcases List.mem_append.1 hmem with hmem | hmem
        · obtain ⟨v, hv, hpos⟩ := List.mem_map.1 hmem
          obtain ⟨k, _, r, hr⟩ := exists_of_mem_visitLevel hv
          exact absurd (congrArg List.length (hr.symm.trans hpos)) (by simp)
        · obtain ⟨v, hv, hpos⟩ := List.mem_map.1 hmem
          obtain ⟨k, hk, r, hr⟩ := exists_of_mem_visitLevel hv
          obtain ⟨rfl, -⟩ := List.cons.inj (List.append_cancel_left (hr.symm.trans hpos))
          exact hkey hk
      · intro a ha b hb hab
        obtain ⟨v, hv, rfl⟩ := List.mem_map.1 ha
        obtain ⟨w, hw, rfl⟩ := List.mem_map.1 hb
        obtain ⟨k, _, r, hr⟩ := exists_of_mem_visitLevel hv
        obtain ⟨k', hk', r', hr'⟩ := exists_of_mem_visitLevel hw
        have hpos : q ++ key :: k :: r = q ++ k' :: r' := by
          rw [← hr', ← hab, hr]
          simp
        obtain ⟨rfl, -⟩ := List.cons.inj (List.append_cancel_left hpos)
        exact hkey hk'

/-- The cells of a level are visited, but for the template. -/
theorem mem_visitLevel {key : Nat} {cell : Cell} (h : (key, cell) ∈ if template then F.heads.tail else F.heads) :
    ⟨topName, q ++ [key], cell⟩ ∈ visitLevel q topName template F := by
  have hlevel : ∀ F : Forest Cell, (key, cell) ∈ F.heads → ⟨topName, q ++ [key], cell⟩ ∈ visitLevel q topName false F := by
    intro F hF
    induction F with
    | nil => cases hF
    | cons key' cell' sub rest _ ihr =>
      rw [visitLevel, List.mem_cons, List.mem_append]
      rcases List.mem_cons.1 hF with heq | hF
      · obtain ⟨rfl, rfl⟩ := Prod.mk.inj heq
        exact Or.inl rfl
      · exact Or.inr (Or.inr (ihr hF))
  cases template with
  | false => exact hlevel F h
  | true =>
    cases F with
    | nil => cases h
    | cons key' cell' sub rest => exact hlevel rest h

/-- **What is below a visited cell is visited in its turn**: a visit of a level is of a cell of the forest, and the calls for the
level below it are among those of the walk. -/
theorem visitLevel_below (h : v ∈ visitLevel q topName template F) (hF : F.Separate n) :
    ∃ r sub, r ≠ [] ∧ v.pos = q ++ r ∧ F.cell? r = some (v.cell, sub) ∧
      visitLevel v.pos (childTop v.topName v.cell) (v.cell.type = .multiObject) sub ⊆ visitLevel q topName template F := by
  induction F generalizing q topName template with
  | nil => cases template <;> cases h
  | cons key cell sub rest ihs ihr =>
    obtain ⟨_, hkey, hsub, hrest⟩ := hF
    -- a visit in the rest of the level is one in the level
    have hlater : ∀ {r : Pos} {sub' : Forest Cell}, r ≠ [] → rest.cell? r = some (v.cell, sub') →
        (Forest.cons key cell sub rest).cell? r = some (v.cell, sub') := by
      intro r sub' hne hr
      obtain ⟨k, r, rfl⟩ := List.exists_cons_of_ne_nil hne
      have hk : key ≠ k := by
        rintro rfl
        rw [Forest.cell?_of_notMem hkey] at hr
        cases hr
      rw [Forest.cell?_cons, if_neg hk]
      exact hr
    cases template with
    | true =>
      obtain ⟨r, sub', hne, hpos, hr, hincl⟩ := ihr h hrest
      exact ⟨r, sub', hne, hpos, hlater hne hr, hincl⟩
    | false =>
      rcases List.mem_cons.1 h with rfl | h
      · refine ⟨[key], sub, by simp, rfl, by simp [Forest.cell?_cons], ?_⟩
        intro w hw
        exact List.mem_cons_of_mem _ (List.mem_append_left _ hw)
      rcases List.mem_append.1 h with h | h
      · obtain ⟨r, sub', hne, hpos, hr, hincl⟩ := ihs h hsub
        refine ⟨key :: r, sub', by simp, by simp [hpos], by simp [Forest.cell?_cons, hne, hr], ?_⟩
        intro w hw
        exact List.mem_cons_of_mem _ (List.mem_append_left _ (hincl hw))
      · obtain ⟨r, sub', hne, hpos, hr, hincl⟩ := ihr h hrest
        refine ⟨r, sub', hne, hpos, hlater hne hr, ?_⟩
        intro w hw
        exact List.mem_cons_of_mem _ (List.mem_append_right _ (hincl hw))

theorem pos_of_mem_visitLevel {vs : List Visit} (hvs : vs ⊆ visitLevel q topName template F) {k : Nat} {r : Pos}
    (h : q ++ k :: r ∈ vs.map Visit.pos) : k ∈ F.heads.map Prod.fst := by
  obtain ⟨v, hv, hpos⟩ := List.mem_map.1 h
  obtain ⟨k', hk, r', hr⟩ := exists_of_mem_visitLevel (hvs hv)
  obtain ⟨rfl, _⟩ := List.cons.inj (List.append_cancel_left (hr.symm.trans hpos))
  exact hk

/-- The cells a level is left with, from those it is made of. -/
theorem get?_cons_visits {f : Cell → Cell} {key : Nat} {cell : Cell} {sub sub' rest rest' : Forest Cell} {subTop restTop : Text}
    {subTemplate restTemplate : Bool} {subDone restDone : List Visit} (hkey : key ∉ rest.heads.map Prod.fst)
    (hsubDone : subDone ⊆ visitLevel (q ++ [key]) subTop subTemplate sub) (hrestDone : restDone ⊆ visitLevel q restTop restTemplate rest)
    (hsub : ∀ r, sub'.get? r = if q ++ [key] ++ r ∈ subDone.map Visit.pos then (sub.get? r).map f else sub.get? r)
    (hrest : ∀ r, rest'.get? r = if q ++ r ∈ restDone.map Visit.pos then (rest.get? r).map f else rest.get? r) (r : Pos) :
    (Forest.cons key (f cell) sub' rest').get? r =
      if q ++ r ∈ ((⟨topName, q ++ [key], cell⟩ : Visit) :: (subDone ++ restDone)).map Visit.pos then
        ((Forest.cons key cell sub rest).get? r).map f
      else (Forest.cons key cell sub rest).get? r := by
  cases r with
  | nil => simp
  | cons k r =>
    simp only [Forest.get?_cons, List.map_cons, List.map_append, List.mem_cons, List.mem_append]
    by_cases hk : key = k
    · subst hk
      have hother : q ++ key :: r ∉ restDone.map Visit.pos := fun hmem => hkey (pos_of_mem_visitLevel hrestDone hmem)
      cases r with
      | nil => simp
      | cons k' r =>
        have hpos : q ++ key :: k' :: r = q ++ [key] ++ k' :: r := by simp
        have hne : ¬q ++ key :: k' :: r = q ++ [key] := by simp
        simp only [if_true, List.cons_ne_nil, if_false, hne, false_or, hother, or_false]
        rw [hpos]
        exact hsub (k' :: r)
    · have hne : ¬q ++ k :: r = q ++ [key] := by simp [Ne.symm hk]
      have hnot : q ++ k :: r ∉ subDone.map Visit.pos := by
        intro hmem
        obtain ⟨v, hv, hpos⟩ := List.mem_map.1 hmem
        obtain ⟨k', _, r', hr⟩ := exists_of_mem_visitLevel (hsubDone hv)
        have heq := hr.symm.trans hpos
        simp only [List.append_assoc, List.cons_append, List.nil_append] at heq
        obtain ⟨rfl, _⟩ := List.cons.inj (List.append_cancel_left heq)
        exact hk rfl
      simp only [if_neg hk, hne, false_or, hnot]
      exact hrest (k :: r)

/-- **A walk of a level makes its calls up to the first error**: the cells of these calls are left as the function leaves them, all
others as they were. -/
theorem walkLevel_prefix {σ : Type} {func : Text → Cell → σ → Result × Cell × σ} {f : Cell → Cell}
    (hf : ∀ topName cell x, (func topName cell x).2.1 = f cell) (hF : F.Separate n) (q : Pos) (topName : Text) (template : Bool)
    (x : σ) :
    ∃ done, done <+: visitLevel q topName template F ∧
      ((walkLevel func topName template F x).1 = .tcmagentOk → done = visitLevel q topName template F) ∧
      ((walkLevel func topName template F x).1 ≠ .tcmagentOk → ∃ v ∈ done, ∃ x, (func v.topName v.cell x).1 ≠ .tcmagentOk) ∧
      ∀ r, (walkLevel func topName template F x).2.1.get? r =
        if q ++ r ∈ done.map Visit.pos then (F.get? r).map f else F.get? r := by
  induction F generalizing q topName template x with
  | nil =>
    refine ⟨[], List.nil_prefix, ?_, ?_, ?_⟩
    · intro _
      cases template <;> rfl
    · intro h
      cases template <;> exact absurd rfl h
    · intro r
      cases template <;> simp [walkLevel]
  | cons key cell sub rest ihs ihr =>
    obtain ⟨_, hkey, hsub, hrest⟩ := hF
    -- a call below a later cell of the level is no call below this one
    have hother : ∀ {vs : List Visit}, vs ⊆ visitLevel q topName false rest → ∀ r : Pos, q ++ key :: r ∉ vs.map Visit.pos := by
      intro vs hvs r hmem
      exact hkey (pos_of_mem_visitLevel hvs hmem)
    cases template with
    | true =>
      obtain ⟨done, hprefix, hok, hfail, hget⟩ := ihr hrest q topName false x
      refine ⟨done, hprefix, hok, hfail, ?_⟩
      intro r
      cases r with
      | nil => simp
      | cons k r =>
        have hk' := hget (k :: r)
        simp only [walkLevel, Forest.get?_cons]
        by_cases hk : key = k
        · subst hk
          simp only [if_true, hother hprefix.subset r, if_false]
        · simp only [if_neg hk]
          exact hk'
    | false =>
      by_cases hcell : (func topName cell x).1 = .tcmagentOk
      · obtain ⟨subDone, hsubPrefix, hsubOk, hsubFail, hsubGet⟩ := ihs hsub (q ++ [key]) (childTop topName cell)
          (cell.type = .multiObject) (func topName cell x).2.2
        by_cases hsubRet :
            (walkLevel func (childTop topName cell) (cell.type = .multiObject) sub (func topName cell x).2.2).1 = .tcmagentOk
        · obtain ⟨restDone, hrestPrefix, hrestOk, hrestFail, hrestGet⟩ := ihr hrest q topName false
            (walkLevel func (childTop topName cell) (cell.type = .multiObject) sub (func topName cell x).2.2).2.2
          refine ⟨⟨topName, q ++ [key], cell⟩ :: (subDone ++ restDone), ?_, ?_, ?_, ?_⟩
          · rw [visitLevel, List.cons_prefix_cons, hsubOk hsubRet]
            exact ⟨rfl, (List.prefix_append_right_inj _).2 hrestPrefix⟩
          · intro h
            simp only [walkLevel, hcell, hsubRet, ne_eq, not_true_eq_false, if_false] at h
            rw [visitLevel, hsubOk hsubRet, hrestOk h]
          · intro h
            simp only [walkLevel, hcell, hsubRet, ne_eq, not_true_eq_false, if_false] at h
            obtain ⟨v, hv, hfail⟩ := hrestFail h
            exact ⟨v, List.mem_cons_of_mem _ (List.mem_append_right _ hv), hfail⟩
          · simp only [walkLevel, hcell, hsubRet, ne_eq, not_true_eq_false, if_false, hf]
            exact get?_cons_visits hkey hsubPrefix.subset hrestPrefix.subset hsubGet hrestGet
        · refine ⟨⟨topName, q ++ [key], cell⟩ :: (subDone ++ []), ?_, ?_, ?_, ?_⟩
          · rw [visitLevel, List.cons_prefix_cons, List.append_nil]
            exact ⟨rfl, hsubPrefix.trans (List.prefix_append _ _)⟩
          · intro h
            simp only [walkLevel, hcell, ne_eq, not_true_eq_false, if_false, hsubRet, not_false_eq_true, if_true] at h
          · intro _
            obtain ⟨v, hv, hfail⟩ := hsubFail hsubRet
            exact ⟨v, List.mem_cons_of_mem _ (List.mem_append_left _ hv), hfail⟩
          · simp only [walkLevel, hcell, ne_eq, not_true_eq_false, if_false, hsubRet, not_false_eq_true, if_true, hf]
            exact get?_cons_visits hkey hsubPrefix.subset (List.nil_subset (visitLevel q topName false rest)) hsubGet (by simp)
      · refine ⟨⟨topName, q ++ [key], cell⟩ :: ([] ++ []), ?_, ?_, ?_, ?_⟩
        · rw [visitLevel, List.cons_prefix_cons]
          exact ⟨rfl, List.nil_prefix⟩
        · intro h
          simp only [walkLevel, hcell, ne_eq, not_false_eq_true, if_true] at h
        · intro _
          exact ⟨_, List.mem_cons_self, x, hcell⟩
        · simp only [walkLevel, hcell, ne_eq, not_false_eq_true, if_true, hf]
          exact get?_cons_visits hkey (List.nil_subset (visitLevel (q ++ [key]) topName false sub))
            (List.nil_subset (visitLevel q topName false rest)) (by simp) (by simp)

/-- What holds of the cells of a level, and of a cell that the walk goes to below one it holds of, holds of every visit. -/
theorem visitLevel_induction {P : Visit → Prop} (hF : F.Separate n)
    (hlevel : ∀ x ∈ if template then F.heads.tail else F.heads, P ⟨topName, q ++ [x.1], x.2⟩)
    (hbelow : ∀ w r sub, P w → w.pos = q ++ r → r ≠ [] → F.cell? r = some (w.cell, sub) →
      ∀ x ∈ if w.cell.type = .multiObject then sub.heads.tail else sub.heads,
        P ⟨childTop w.topName w.cell, w.pos ++ [x.1], x.2⟩) :
    ∀ v ∈ visitLevel q topName template F, P v := by
  induction F generalizing q topName template with
  | nil =>
    intro v hv
    cases template <;> cases hv
  | cons key cell sub rest ihs ihr =>
    obtain ⟨_, hkey, hsub, hrest⟩ := hF
    have hlater : ∀ w r sub', P w → w.pos = q ++ r → r ≠ [] → rest.cell? r = some (w.cell, sub') →
        ∀ x ∈ if w.cell.type = .multiObject then sub'.heads.tail else sub'.heads,
          P ⟨childTop w.topName w.cell, w.pos ++ [x.1], x.2⟩ := by
      intro w r sub' hw hpos hne hr
      refine hbelow w r sub' hw hpos hne ?_
      obtain ⟨k, r, rfl⟩ := List.exists_cons_of_ne_nil hne
      have hk : key ≠ k := by
        rintro rfl
        rw [Forest.cell?_of_notMem hkey] at hr
        cases hr
      rw [Forest.cell?_cons, if_neg hk]
      exact hr
    cases template with
    | true => exact ihr hrest hlevel hlater
    | false =>
      intro v hv
      have hhead : P ⟨topName, q ++ [key], cell⟩ := hlevel (key, cell) List.mem_cons_self
      rcases List.mem_cons.1 hv with rfl | hv
      · exact hhead
      rcases List.mem_append.1 hv with hv | hv
      · refine ihs hsub ?_ ?_ v hv
        · have h := hbelow _ [key] sub hhead rfl (by simp) (by simp [Forest.cell?_cons])
          simpa using h
        · intro w r sub' hw hpos hne hr
          exact hbelow w (key :: r) sub' hw (by simp [hpos]) (by simp) (by simp [Forest.cell?_cons, hne, hr])
      · refine ihr hrest ?_ hlater v hv
        intro x hx
        exact hlevel x (List.mem_cons_of_mem _ hx)

end Level

section Subtree

variable {t : Tr069Tree} {topName : Text} {p : Pos} {cell : Cell} {sub : Forest Cell}

theorem ne_nil_of_cell (hc : t.nodes.forest.cell? p = some (cell, sub)) : p ≠ [] := by
  rintro rfl
  cases hF : t.nodes.forest with
  | nil => rw [hF] at hc; cases hc
  | cons => rw [hF] at hc; cases hc

theorem get?_of_cell (hc : t.nodes.forest.cell? p = some (cell, sub)) : t.nodes.get? p = some cell := by
  rw [Memory.get?, Forest.get?, hc]
  rfl

theorem kids_of_cell (hc : t.nodes.forest.cell? p = some (cell, sub)) : t.nodes.kids p = some sub.heads := by
  rw [Memory.kids, Forest.kids, Forest.level?_of_ne (ne_nil_of_cell hc), hc]
  rfl

theorem cell?_below (hc : t.nodes.forest.cell? p = some (cell, sub)) {r : Pos} (hr : r ≠ []) :
    t.nodes.forest.cell? (p ++ r) = sub.cell? r := by
  rw [Forest.cell?_append (ne_nil_of_cell hc), if_neg hr, hc]
  rfl

/-- What holds of the cell a walk starts with, and of a cell that it goes to below one it holds of, holds of every visit. -/
theorem visits_induction {P : Visit → Prop} (hc : t.nodes.forest.cell? p = some (cell, sub)) (hstart : P ⟨topName, p, cell⟩)
    (hbelow : ∀ w sub', P w → t.nodes.forest.cell? w.pos = some (w.cell, sub') →
      ∀ x ∈ if w.cell.type = .multiObject then sub'.heads.tail else sub'.heads,
        P ⟨childTop w.topName w.cell, w.pos ++ [x.1], x.2⟩) :
    ∀ v ∈ visits topName p cell sub, P v := by
  intro v hv
  rcases List.mem_cons.1 hv with rfl | hv
  · exact hstart
  refine visitLevel_induction (t.nodes.separate.cell? hc).1 ?_ ?_ v hv
  · simpa using hbelow _ sub hstart hc
  · intro w r sub' hw hpos hr hcell
    refine hbelow w sub' hw ?_
    rw [hpos, cell?_below hc hr, hcell]

/-- The calls for the level below a visited cell are calls of the walk. -/
theorem visits_below (hc : t.nodes.forest.cell? p = some (cell, sub)) {v : Visit} (hv : v ∈ visits topName p cell sub) :
    ∃ sub', t.nodes.forest.cell? v.pos = some (v.cell, sub') ∧
      visitLevel v.pos (childTop v.topName v.cell) (v.cell.type = .multiObject) sub' ⊆ visits topName p cell sub := by
  rcases List.mem_cons.1 hv with rfl | hv
  · refine ⟨sub, hc, ?_⟩
    intro w hw
    exact List.mem_cons_of_mem _ hw
  · obtain ⟨r, sub', hr, hpos, hcell, hincl⟩ := visitLevel_below hv (t.nodes.separate.cell? hc).1
    refine ⟨sub', ?_, ?_⟩
    · rw [hpos, cell?_below hc hr, hcell]
    · intro w hw
      exact List.mem_cons_of_mem _ (hincl hw)

theorem nodup_visits (hc : t.nodes.forest.cell? p = some (cell, sub)) : ((visits topName p cell sub).map Visit.pos).Nodup := by
  rw [visits, List.map_cons, List.nodup_cons]
  refine ⟨?_, nodup_visitLevel (t.nodes.separate.cell? hc).1⟩
  intro hmem
  obtain ⟨v, hv, hpos⟩ := List.mem_map.1 hmem
  obtain ⟨k, _, r, hr⟩ := exists_of_mem_visitLevel hv
  exact absurd (congrArg List.length (hr.symm.trans hpos)) (by simp)

/-- **A walk makes its calls up to the first error**: the cells of these calls are left as the function leaves them, all others as
they were. -/
theorem walkThroughTr069_prefix {σ : Type} {func : Text → Cell → σ → Result × Cell × σ} {f : Cell → Cell}
    (hf : ∀ topName cell x, (func topName cell x).2.1 = f cell) (hc : t.nodes.forest.cell? p = some (cell, sub)) (topName : Text)
    (x : σ) :
    ∃ done, done <+: visits topName p cell sub ∧
      ((walkThroughTr069 func topName cell sub x).1 = .tcmagentOk → done = visits topName p cell sub) ∧
      ((walkThroughTr069 func topName cell sub x).1 ≠ .tcmagentOk → ∃ v ∈ done, ∃ x, (func v.topName v.cell x).1 ≠ .tcmagentOk) ∧
      ∀ r, (t.nodes.forest.update (fun cell sub => (walkThroughTr069 func topName cell sub x).2.1) p).get? r =
        if r ∈ done.map Visit.pos then (t.nodes.get? r).map f else t.nodes.get? r := by
  have hp := ne_nil_of_cell hc
  obtain ⟨below, hbelow, hok, hfail, hget⟩ := walkLevel_prefix hf (t.nodes.separate.cell? hc).1 p
    (childTop topName cell) (cell.type = .multiObject) (func topName cell x).2.2
  -- what is left of the cell and of those below it, with the calls below that were made
  have hupdate : ∀ (done : List Visit) (sub' : Forest Cell), done ⊆ visitLevel p (childTop topName cell) (cell.type = .multiObject) sub →
      (walkThroughTr069 func topName cell sub x).2.1 = (f cell, sub') →
      (∀ r, sub'.get? r = if p ++ r ∈ done.map Visit.pos then (sub.get? r).map f else sub.get? r) →
      ∀ r, (t.nodes.forest.update (fun cell sub => (walkThroughTr069 func topName cell sub x).2.1) p).get? r =
        if r ∈ ((⟨topName, p, cell⟩ : Visit) :: done).map Visit.pos then (t.nodes.get? r).map f else t.nodes.get? r := by
    intro done sub' hdone hwalk hsub r
    by_cases hpr : p <+: r
    · obtain ⟨s, rfl⟩ := hpr
      have happend := Forest.cell?_update_append (F := t.nodes.forest)
        (g := fun cell sub => (walkThroughTr069 func topName cell sub x).2.1) hp s
      rw [hc] at happend
      by_cases hs : s = []
      · subst hs
        simp only [List.append_nil] at happend ⊢
        rw [Forest.get?, happend]
        simp [hwalk, get?_of_cell hc]
      · simp only [if_neg hs, Option.bind_some, hwalk] at happend
        have hcell : t.nodes.get? (p ++ s) = sub.get? s := by
          rw [Memory.get?, Forest.get?, cell?_below hc hs, Forest.get?]
        have hne : ¬p ++ s = p := by simp [hs]
        rw [Forest.get?, happend, hcell]
        simp only [List.map_cons, List.mem_cons, hne, false_or]
        exact hsub s
    · have hnot : r ∉ ((⟨topName, p, cell⟩ : Visit) :: done).map Visit.pos := by
        intro hmem
        rcases List.mem_cons.1 hmem with rfl | hmem
        · exact hpr List.prefix_rfl
        · obtain ⟨v, hv, hpos⟩ := List.mem_map.1 hmem
          obtain ⟨k, _, r', hr⟩ := exists_of_mem_visitLevel (hdone hv)
          exact hpr (hpos ▸ hr ▸ List.prefix_append _ _)
      rw [if_neg hnot]
      exact Forest.get?_update_of_not_prefix hpr
  by_cases hcell : (func topName cell x).1 = .tcmagentOk
  · refine ⟨⟨topName, p, cell⟩ :: below, ?_, ?_, ?_, hupdate below _ hbelow.subset ?_ hget⟩
    · rw [visits, List.cons_prefix_cons]
      exact ⟨rfl, hbelow⟩
    · intro h
      simp only [walkThroughTr069, hcell, ne_eq, not_true_eq_false, if_false] at h
      rw [visits, hok h]
    · intro h
      simp only [walkThroughTr069, hcell, ne_eq, not_true_eq_false, if_false] at h
      obtain ⟨v, hv, hx⟩ := hfail h
      exact ⟨v, List.mem_cons_of_mem _ hv, hx⟩
    · simp only [walkThroughTr069, hcell, ne_eq, not_true_eq_false, if_false, hf]
  · refine ⟨[⟨topName, p, cell⟩], ?_, ?_, ?_, hupdate [] sub (List.nil_subset _) ?_ (by simp)⟩
    · rw [visits, List.cons_prefix_cons]
      exact ⟨rfl, List.nil_prefix⟩
    · intro h
      simp only [walkThroughTr069, hcell, ne_eq, not_false_eq_true, if_true] at h
    · intro _
      exact ⟨_, List.mem_singleton_self _, x, hcell⟩
    · simp only [walkThroughTr069, hcell, ne_eq, not_false_eq_true, if_true, hf]

theorem get?_walkThroughTr069 {σ : Type} {func : Text → Cell → σ → Result × Cell × σ} {f : Cell → Cell}
    (hok : ∀ topName cell x, (func topName cell x).1 = .tcmagentOk) (hf : ∀ topName cell x, (func topName cell x).2.1 = f cell)
    (hc : t.nodes.forest.cell? p = some (cell, sub)) (x : σ) (r : Pos) :
    (t.nodes.forest.update (fun cell sub => (walkThroughTr069 func topName cell sub x).2.1) p).get? r =
      if r ∈ (visits topName p cell sub).map Visit.pos then (t.nodes.get? r).map f else t.nodes.get? r := by
  obtain ⟨done, _, hall, _, hget⟩ := walkThroughTr069_prefix hf hc topName x
  rw [← hall (walkThroughTr069_visits (p := p) (fun v _ => hok v.topName v.cell) x).1]
  exact hget r

/-- A cell of a level is one the walk goes to, unless it is a template. -/
theorem mem_walked_iff (hc : t.nodes.forest.cell? p = some (cell, sub)) {key : Nat} {kid : Cell} :
    (key, kid) ∈ (if cell.type = .multiObject then sub.heads.tail else sub.heads) ↔
      t.nodes.get? (p ++ [key]) = some kid ∧ ¬t.IsTemplate (p ++ [key]) := by
  have hkids := kids_of_cell hc
  have hget := get?_of_cell hc
  have hnodup := Memory.nodup_kids hkids
  have hmem : (key, kid) ∈ sub.heads ↔ t.nodes.get? (p ++ [key]) = some kid := by
    constructor
    · exact Memory.get?_of_mem hkids
    · intro h
      rw [Memory.get?_concat, hkids, Option.bind_some] at h
      obtain ⟨x, hx, rfl⟩ := Option.map_eq_some_iff.1 h
      have hkey : x.1 = key := by simpa using List.find?_some hx
      exact hkey ▸ List.mem_of_find?_eq_some hx
  have htemplate : t.IsTemplate (p ++ [key]) ↔ cell.type = .multiObject ∧ sub.heads.head?.map Prod.fst = some key := by
    constructor
    · rintro ⟨q, key', object, list, hpos, hq, htype, hlist, hhead⟩
      obtain ⟨rfl, hkey⟩ := List.append_inj' hpos rfl
      obtain rfl : key = key' := by simpa using hkey
      obtain rfl := Option.some.inj (hget.symm.trans hq)
      obtain rfl := Option.some.inj (hkids.symm.trans hlist)
      exact ⟨htype, hhead⟩
    · rintro ⟨htype, hhead⟩
      exact ⟨p, key, cell, sub.heads, rfl, hget, htype, hkids, hhead⟩
  rw [htemplate, ← hmem]
  by_cases htype : cell.type = .multiObject
  · rw [if_pos htype]
    cases hheads : sub.heads with
    | nil => simp
    | cons x list =>
      rw [hheads, List.map_cons, List.nodup_cons] at hnodup
      simp only [List.tail_cons, List.mem_cons, List.head?_cons, Option.map_some, Option.some.injEq, htype, true_and]
      constructor
      · intro h
        refine ⟨Or.inr h, ?_⟩
        intro hkey
        exact hnodup.1 (List.mem_map.2 ⟨_, h, hkey.symm⟩)
      · rintro ⟨rfl | h, hkey⟩
        · exact absurd rfl hkey
        · exact h
  · rw [if_neg htype]
    simp [htype]

/-- **The walk is complete and visits no template.** -/
theorem mem_visits_iff (hc : t.nodes.forest.cell? p = some (cell, sub)) (r : Pos) :
    r ∈ (visits topName p cell sub).map Visit.pos ↔ t.Below p r := by
  constructor
  · intro hr
    obtain ⟨v, hv, rfl⟩ := List.mem_map.1 hr
    refine visits_induction (P := fun v => t.Below p v.pos) hc .self ?_ v hv
    intro w sub' hw hcell x hx
    obtain ⟨hget, htemplate⟩ := (mem_walked_iff hcell).1 hx
    exact .kid hw hget htemplate
  · intro hr
    induction hr with
    | self => exact List.mem_map.2 ⟨_, List.mem_cons_self, rfl⟩
    | @kid q key kid hq hget htemplate ih =>
      obtain ⟨v, hv, rfl⟩ := List.mem_map.1 ih
      obtain ⟨sub', hcell, hincl⟩ := visits_below hc hv
      have hmem := (mem_walked_iff hcell).2 ⟨hget, htemplate⟩
      have hvisit : (⟨childTop v.topName v.cell, v.pos ++ [key], kid⟩ : Visit) ∈
          visitLevel v.pos (childTop v.topName v.cell) (v.cell.type = .multiObject) sub' :=
        mem_visitLevel (by simpa using hmem)
      exact List.mem_map.2 ⟨_, hincl hvisit, rfl⟩

end Subtree

/-! ## What the search finds -/

/-- What the types of the source say: below an object and below an instance are nodes, below a multi-instance object instances, and
below a leaf is nothing. -/
def Shaped (cell : Cell) (kids : List Cell) : Prop :=
  match cell.type with
  | .object | .inst => ∀ kid ∈ kids, kid.type ≠ .inst
  | .multiObject => ∀ kid ∈ kids, kid.type = .inst
  | _ => kids = []

instance (cell : Cell) (kids : List Cell) : Decidable (Shaped cell kids) := by
  unfold Shaped
  split <;> infer_instance

/-- The names of the nodes of an array are distinct, and so are the indices of an instance list, that of the template among them. -/
def Distinct (_ : Cell) (kids : List Cell) : Prop := (kids.map Cell.label).Nodup

instance (cell : Cell) (kids : List Cell) : Decidable (Distinct cell kids) := inferInstanceAs (Decidable (List.Nodup _))

/-- In the first half of an array are the names up to the middle one, in the other half those behind it, in the order of
`strcmp`: the loader keeps its arrays in this order. -/
def Halved (names : List Text) : Prop :=
  ∀ tmp ∈ names[(names.length + 1) / 2 - 1]?,
    (∀ name ∈ names.take ((names.length + 1) / 2), ¬tmp < name) ∧ ∀ name ∈ names.drop ((names.length + 1) / 2), tmp < name

instance (names : List Text) : Decidable (Halved names) := by
  unfold Halved
  infer_instance

/-- The cell can be named: a node has a name, without a dot, and the index of an instance is not the smallest `int`. -/
def Cell.Named : Cell → Prop
  | .node n => n.name ≠ [] ∧ '.' ∉ n.name
  | .inst i => -intMax ≤ i.index ∧ i.index ≤ intMax

instance (cell : Cell) : Decidable cell.Named := by
  unfold Cell.Named
  split <;> infer_instance

/-- What the search asks of a cell and those below it. -/
def Searchable (cell : Cell) (kids : List Cell) : Prop :=
  cell.Named ∧ (cell.type ≠ .multiObject → Halved (kids.map Cell.text))

instance (cell : Cell) (kids : List Cell) : Decidable (Searchable cell kids) := inferInstanceAs (Decidable (_ ∧ _))

theorem Cell.Named.text {cell : Cell} (h : cell.Named) : cell.text ≠ [] ∧ '.' ∉ cell.text := by
  cases cell with
  | node n => exact h
  | inst i => exact ⟨decimal_ne_nil _, notMem_decimal _⟩

theorem find?_label {array : List (Nat × Label)} (hn : (array.map Prod.snd).Nodup) {x : Nat × Label} (hx : x ∈ array)
    {half : List (Nat × Label)} (hhalf : half ⊆ array) (hmem : x ∈ half) : half.find? (fun y => y.2 = x.2) = some x := by
  obtain ⟨y, hy⟩ : ∃ y, half.find? (fun y => y.2 = x.2) = some y :=
    Option.isSome_iff_exists.1 (List.find?_isSome.2 ⟨x, hmem, by simp⟩)
  have hlabel : y.2 = x.2 := by simpa using List.find?_some hy
  rw [hy, List.inj_on_of_nodup_map hn (hhalf (List.mem_of_find?_eq_some hy)) hx hlabel]

/-- The search in an array finds every name of it. -/
theorem bisearch_finds {xs : List (Nat × Text)} (hn : (xs.map Prod.snd).Nodup) (hh : Halved (xs.map Prod.snd)) {key : Nat}
    {name : Text} (hx : (key, name) ∈ xs) : bisearch name (xs.map (Prod.map id Label.name)) = .ok key := by
  have hpos : 0 < xs.length := List.length_pos_of_mem hx
  obtain ⟨⟨k, tmp⟩, hmiddle⟩ : ∃ x, xs[(xs.length + 1) / 2 - 1]? = some x := by
    rw [← Option.isSome_iff_exists, isSome_getElem?]
    omega
  obtain ⟨hle, hlt⟩ := hh tmp (by simp [hmiddle])
  rw [List.length_map, ← List.map_take] at hle
  rw [List.length_map, ← List.map_drop] at hlt
  have hlabels : ((xs.map (Prod.map id Label.name)).map Prod.snd).Nodup := by
    have hsnd : (xs.map (Prod.map id Label.name)).map Prod.snd = (xs.map Prod.snd).map Label.name := by simp
    rw [hsnd]
    exact hn.map fun a b h => Label.name.inj h
  -- the name is in the half that is gone through
  have hhalf : (key, Label.name name) ∈ if ¬tmp < name then (xs.map (Prod.map id Label.name)).take ((xs.length + 1) / 2)
      else (xs.map (Prod.map id Label.name)).drop ((xs.length + 1) / 2 - 1) := by
    rw [← List.map_take, ← List.map_drop]
    rw [← List.take_append_drop ((xs.length + 1) / 2) xs] at hx
    rcases List.mem_append.1 hx with hx | hx
    · rw [if_pos (hle name (List.mem_map.2 ⟨_, hx, rfl⟩))]
      exact List.mem_map.2 ⟨_, hx, rfl⟩
    · have hnot : ¬¬tmp < name := fun h => h (hlt name (List.mem_map.2 ⟨_, hx, rfl⟩))
      rw [if_neg hnot]
      exact List.mem_map.2 ⟨(key, name), List.drop_subset_drop_left xs (Nat.sub_le _ _) hx, rfl⟩
  have hfind := find?_label hlabels (List.mem_map.2 ⟨_, hx, rfl⟩ : (key, Label.name name) ∈ _) ?_ hhalf
  · unfold bisearch
    simp only [List.length_map, List.getElem?_map, hmiddle, Option.map_some, Prod.map, id, hfind]
  · split
    · exact List.take_subset _ _
    · exact List.drop_subset _ _

theorem label_of_type_ne {cell : Cell} (h : cell.type ≠ .inst) : cell.label = .name cell.text := by
  cases cell with
  | node n => rfl
  | inst i => exact absurd rfl h

theorem exists_inst_of_type {cell : Cell} (h : cell.type = .inst) : ∃ i, cell = .inst i := by
  cases cell with
  | inst i => exact ⟨i, rfl⟩
  | node n =>
    have hcontent : n.content.type = .inst := h
    cases hn : n.content with
    | leaf v =>
      rw [hn] at hcontent
      cases v <;> cases hcontent
    | object =>
      rw [hn] at hcontent
      cases hcontent
    | multiObject instances =>
      rw [hn] at hcontent
      cases hcontent

/-- What the search finds in the array below a cell. -/
theorem bisearch_kid {kids : List (Nat × Cell)} (hnodes : ∀ kid ∈ kids.map Prod.snd, kid.type ≠ .inst)
    (hd : ((kids.map Prod.snd).map Cell.label).Nodup) (hh : Halved ((kids.map Prod.snd).map Cell.text)) {key : Nat} {kid : Cell}
    (hk : (key, kid) ∈ kids) : bisearch kid.text (kids.map (Prod.map id Cell.label)) = .ok key := by
  have hlabel : ∀ x ∈ kids, x.2.label = .name x.2.text := by
    intro x hx
    exact label_of_type_ne (hnodes _ (List.mem_map.2 ⟨x, hx, rfl⟩))
  have hnames : kids.map (Prod.map id Cell.label) = (kids.map (Prod.map id Cell.text)).map (Prod.map id Label.name) := by
    rw [List.map_map]
    refine List.map_congr_left ?_
    intro x hx
    simp [Prod.map, hlabel x hx]
  have hsnd : (kids.map (Prod.map id Cell.text)).map Prod.snd = (kids.map Prod.snd).map Cell.text := by simp
  have hdistinct : ((kids.map Prod.snd).map Cell.text).Nodup := by
    have hmap : (kids.map Prod.snd).map Cell.label = ((kids.map Prod.snd).map Cell.text).map Label.name := by
      simp only [List.map_map]
      refine List.map_congr_left ?_
      intro x hx
      exact hlabel x hx
    rw [hmap] at hd
    exact hd.of_map _
  rw [hnames]
  exact bisearch_finds (hsnd ▸ hdistinct) (hsnd ▸ hh) (List.mem_map.2 ⟨(key, kid), hk, rfl⟩)

/-- What the search finds in the instance list below a cell. -/
theorem searchInstance_kid {kids : List (Nat × Cell)} (hinsts : ∀ kid ∈ kids.map Prod.snd, kid.type = .inst)
    (hd : ((kids.map Prod.snd).map Cell.label).Nodup) {key : Nat} {kid : Cell} (hk : (key, kid) ∈ kids) (hn : kid.Named) :
    searchInstance kid.text (kids.map (Prod.map id Cell.label)) = .ok key := by
  obtain ⟨i, rfl⟩ := exists_inst_of_type (hinsts kid (List.mem_map.2 ⟨_, hk, rfl⟩))
  have hmem : (key, Label.index i.index) ∈ kids.map (Prod.map id Cell.label) := List.mem_map.2 ⟨_, hk, rfl⟩
  have hlabels : ((kids.map (Prod.map id Cell.label)).map Prod.snd).Nodup := by
    have hsnd : (kids.map (Prod.map id Cell.label)).map Prod.snd = (kids.map Prod.snd).map Cell.label := by simp
    rw [hsnd]
    exact hd
  have hfind := find?_label hlabels hmem (List.Subset.refl _) hmem
  unfold searchInstance
  simp only [Cell.text, stringToNum_decimal hn.1 hn.2, hfind]

namespace Tr069Tree

/-- The lookup of the name from the root, with an empty cache, ends at the cell. -/
def Finds (t : Tr069Tree) (name : Text) (p : Pos) (cell : Cell) : Prop :=
  (t.getTr069NodeByName .zero name).map Prod.fst = .ok ⟨[], cell.type, some p⟩

/-- `topName` is the name of the father of the cell at `p`: it is empty or ends in a dot, and with the name of the cell it leads to
the cell. -/
def TopName (t : Tr069Tree) (topName : Text) (p : Pos) (cell : Cell) : Prop :=
  DotName topName ∧ t.Finds (topName ++ cell.text) p cell

/-- The parts of a name lead from the root to the cell, and the search goes on below it. -/
def Leads (t : Tr069Tree) (ps : List Text) (p : Pos) (cell : Cell) : Prop :=
  ∃ next : Next, t.walk (.zero, t.rootNext) ps = .ok (⟨[], cell.type, some p⟩, next.goBelow cell.type p)

variable {t : Tr069Tree} {r : Text} {k : Nat} {p : Pos} {cell : Cell} {topName : Text}

/-- A name leads the lookup to the cell if its parts lead there. -/
theorem finds_iff_leads (hs : t.rootNext.Searches) {ps : List Text} (hps : ∀ x ∈ ps, '.' ∉ x) (hn : cell.Named)
    (hp : t.nodes.get? p = some cell) : t.Finds (dotted '.' ps ++ cell.text) p cell ↔ t.Leads (ps ++ [cell.text]) p cell := by
  obtain ⟨hne, hdot⟩ := hn.text
  have hname : dotted '.' ps ++ cell.text ≠ [] := by simp [hne]
  have hparts : parts (cutDot (dotted '.' ps ++ cell.text)) = ps ++ [cell.text] := by
    rw [cutDot_of_part hdot hne]
    exact splitOn_dotted_append_part hps hdot
  rw [Finds, lookup_zero hname, hparts, resolve]
  constructor
  · intro h
    obtain ⟨d, hw, hd⟩ := map_eq_ok.1 h
    obtain ⟨q, cell', next, hget, rfl⟩ := walk_ok hs (by simp) hw
    obtain rfl : q = p := by simpa using congrArg Tr069NodeEntry.node hd
    obtain rfl := Option.some.inj (hp.symm.trans hget)
    exact ⟨next, hw⟩
  · rintro ⟨next, hw⟩
    rw [hw]
    rfl

/-- **One part further**: where the search has come to a cell, the name of a cell below leads it there. -/
theorem Leads.kid {ps : List Text} {sub : Forest Cell} (h : t.Leads ps p cell) (hc : t.nodes.forest.cell? p = some (cell, sub))
    (hshape : Shaped cell (sub.heads.map Prod.snd)) (hd : Distinct cell (sub.heads.map Prod.snd))
    (hsearch : Searchable cell (sub.heads.map Prod.snd)) {key : Nat} {kid : Cell} (hk : (key, kid) ∈ sub.heads)
    (hkid : kid.Named) : t.Leads (ps ++ [kid.text]) (p ++ [key]) kid := by
  obtain ⟨next, hw⟩ := h
  have hkids := kids_of_cell hc
  have hget := Memory.get?_of_mem hkids hk
  have hlabels : t.labels p = some (sub.heads.map (Prod.map id Cell.label)) := by
    rw [labels, hkids]
    rfl
  refine ⟨next.goBelow cell.type p, ?_⟩
  rw [walk_concat, hw]
  have hwalked : (Except.ok (⟨[], cell.type, some p⟩, next.goBelow cell.type p) >>= fun d => t.step d kid.text) =
      t.step (⟨[], cell.type, some p⟩, next.goBelow cell.type p) kid.text := rfl
  have hnil : ¬sub.heads.map Prod.snd = [] := by
    intro h
    rw [List.map_eq_nil_iff.1 h] at hk
    cases hk
  rw [hwalked]
  -- below the cell is an array or an instance list, by its type
  unfold Shaped at hshape
  unfold step
  cases htype : cell.type <;> simp only [htype] at hshape
  case object | inst =>
    have hkey := bisearch_kid hshape hd (hsearch.2 (by simp [htype])) hk
    simp only [Next.goBelow, hlabels, deref, bind, Except.bind, hkey, arrive, hget]
    rfl
  case multiObject =>
    have hkey := searchInstance_kid hshape hd hk hkid
    simp only [Next.goBelow, hlabels, deref, bind, Except.bind, hkey, arrive, hget]
    rfl
  all_goals exact absurd hshape hnil

/-- The name of the root alone leads to the root. -/
theorem Rooted.topName_root (h : t.Rooted r k) {root : Cell} (hroot : t.nodes.get? [k] = some root) (hn : root.Named) :
    t.TopName [] [k] root := by
  refine ⟨.nil, ?_⟩
  have hlevel : t.nodes.get? [k] = (t.nodes.kids []).bind fun L => (L.find? (fun x => x.1 = k)).map Prod.snd :=
    Memory.get?_concat t.nodes [] k
  obtain ⟨n, hname, hobject, hkids⟩ := h.node
  obtain rfl : root = .node n := by
    rw [hlevel, hkids] at hroot
    simpa using hroot.symm
  obtain ⟨next, hw, _⟩ := h.walk_root
  have hentry : (⟨[], .object, some [k]⟩ : Tr069NodeEntry) = ⟨[], (Cell.node n).type, some [k]⟩ := by
    rw [Cell.type, hobject]
    rfl
  obtain ⟨p, cell, next', hp, hd⟩ := walk_ok h.searches (by simp) hw
  obtain ⟨he, rfl⟩ := Prod.mk.inj hd
  have hpos : p = [k] := by simpa using (congrArg Tr069NodeEntry.node he).symm
  subst hpos
  obtain rfl := Option.some.inj (hroot.symm.trans hp)
  refine (finds_iff_leads h.searches (by simp : ∀ x ∈ ([] : List Text), '.' ∉ x) hn hroot).2 ⟨next', ?_⟩
  rw [← hname] at hw
  rw [← he]
  exact hw

/-- A walk from the cell at `p`, with the name of its father: what it gathers is gathered by calls, no cell is visited twice, those
visited are the cells of the subtree that are not templates or below one, the name of each leads the lookup to it, and no array is
written behind its end. -/
structure WalkOk (t : Tr069Tree) (topName : Text) (p : Pos) (cell : Cell) (sub : Forest Cell) : Prop where
  calls : ∀ (σ : Type) (func : Text → Cell → σ → Result × Cell × σ),
    (∀ topName cell x, (func topName cell x).1 = .tcmagentOk) → ∀ x,
      (walkThroughTr069 func topName cell sub x).2.2 =
        (visits topName p cell sub).foldl (fun x v => (func v.topName v.cell x).2.2) x
  once : ((visits topName p cell sub).map Visit.pos).Nodup
  complete : ∀ r, r ∈ (visits topName p cell sub).map Visit.pos ↔ t.Below p r
  found : ∀ v ∈ visits topName p cell sub, t.Finds v.allName v.pos v.cell
  held : ∀ v ∈ visits topName p cell sub, v.Held t (· = .zero)

/-- The name of every visited cell leads to it. -/
theorem leads_of_mem_visits (h : t.rootNext.Searches) (hshape : t.nodes.forest.All Shaped) (hd : t.nodes.forest.All Distinct)
    (hsearch : t.nodes.forest.All Searchable) {sub : Forest Cell} (hc : t.nodes.forest.cell? p = some (cell, sub))
    (htop : t.TopName topName p cell) :
    ∀ v ∈ visits topName p cell sub, t.nodes.get? v.pos = some v.cell ∧ v.cell.Named ∧
      ∃ ps, (∀ x ∈ ps, '.' ∉ x) ∧ v.topName = dotted '.' ps ∧ t.Leads (ps ++ [v.cell.text]) v.pos v.cell := by
  have hnamed : ∀ q kid, t.nodes.get? q = some kid → kid.Named := by
    intro q kid hq
    obtain ⟨⟨a, s⟩, hcell, rfl⟩ := Option.map_eq_some_iff.1 hq
    exact (hsearch.cell? hcell).1.1
  refine visits_induction hc ?_ ?_
  · have hget := get?_of_cell hc
    obtain ⟨⟨ps, hps, rfl⟩, hfinds⟩ := htop
    refine ⟨hget, hnamed p cell hget, ps, hps, rfl, ?_⟩
    exact (finds_iff_leads h hps (hnamed p cell hget) hget).1 hfinds
  · rintro w sub' ⟨hget, hw, ps, hps, htopName, hleads⟩ hcell x hx
    have hkid := (mem_walked_iff hcell).1 hx
    have hmem : x ∈ sub'.heads := by
      split at hx
      · exact List.mem_of_mem_tail hx
      · exact hx
    have hn := hnamed _ _ hkid.1
    refine ⟨hkid.1, hn, ps ++ [w.cell.text], ?_, ?_, ?_⟩
    · intro y hy
      rcases List.mem_append.1 hy with hy | hy
      · exact hps y hy
      · rw [List.mem_singleton.1 hy]
        exact hw.text.2
    · simp [childTop_eq, htopName]
    · exact hleads.kid hcell (hshape.cell? hcell).1 (hd.cell? hcell).1 (hsearch.cell? hcell).1 hmem hn

theorem found_of_mem_visits (h : t.Rooted r k) (hshape : t.nodes.forest.All Shaped) (hd : t.nodes.forest.All Distinct)
    (hsearch : t.nodes.forest.All Searchable) {sub : Forest Cell} (hc : t.nodes.forest.cell? p = some (cell, sub))
    (htop : t.TopName topName p cell) : ∀ v ∈ visits topName p cell sub, t.Finds v.allName v.pos v.cell := by
  intro v hv
  obtain ⟨hget, hn, ps, hps, htopName, hleads⟩ := leads_of_mem_visits h.searches hshape hd hsearch hc htop v hv
  rw [Visit.allName, htopName]
  exact (finds_iff_leads h.searches hps hn hget).2 hleads

theorem length_childTop (v : Visit) : (childTop v.topName v.cell).length = v.allName.length + 1 := by
  rw [childTop_eq, List.length_append]
  rfl

/-- What fits with the name of the root in front is held. -/
theorem Rooted.held (h : t.Rooted r k) {v : Visit} (hfit : t.rootNode.name.length + v.allName.length ≤ maxTr069NameLen) :
    v.Held t (· = .zero) := by
  have hroot : 1 ≤ t.rootNode.name.length := by
    rw [h.entry]
    exact List.length_pos_of_mem (List.mem_append_right r (List.mem_singleton_self '.'))
  refine ⟨?_, by omega, ?_⟩
  · rw [length_childTop]
    omega
  · rintro cache e cache' rfl hg
    exact (length_cache_le hg).trans hfit

/-- **The walk is complete, visits nothing twice, and agrees with the lookup**, in every tree in whose arrays and lists the search
finds what it looks for, with names that the arrays hold. -/
theorem walk_complete_and_found (h : t.Rooted r k) (hshape : t.nodes.forest.All Shaped) (hd : t.nodes.forest.All Distinct)
    (hsearch : t.nodes.forest.All Searchable) {sub : Forest Cell} (hc : t.nodes.forest.cell? p = some (cell, sub))
    (htop : t.TopName topName p cell)
    (hfit : ∀ v ∈ visits topName p cell sub, t.rootNode.name.length + v.allName.length ≤ maxTr069NameLen) :
    t.WalkOk topName p cell sub where
  calls := by
    intro σ func hok x
    exact (walkThroughTr069_visits (fun v _ => hok v.topName v.cell) x).2
  once := nodup_visits hc
  complete := mem_visits_iff hc
  found := found_of_mem_visits h hshape hd hsearch hc htop
  held v hv := h.held (hfit v hv)

def nodeCell (name : String) (content : Content) : Cell :=
  .node ⟨name.toList, ⟨true, true⟩, .none, .all, false, 0, 16, content⟩

def leafCell (name : String) : Cell := nodeCell name (.leaf (.string []))

/-- An instance with the index. -/
def instCell (index : Int) : Cell := .inst ⟨index, ⟨true, true⟩, .none, .all⟩

/-- `Device.Host.`, with the template and one instance, each with the leaf `Name`. -/
def hostTree : Tr069Tree where
  rootNode := ⟨"Device.".toList, .object, some [0]⟩
  nodes :=
    { forest :=
        .cons 0 (nodeCell "Device" .object)
          (.cons 0 (nodeCell "Host" (.multiObject ⟨2, 4, 1⟩))
            (.cons 0 (instCell 0) (.cons 0 (leafCell "Name") .nil .nil)
              (.cons 1 (instCell 1) (.cons 0 (leafCell "Name") .nil .nil) .nil)) .nil) .nil
      mark := 2
      separate := by decide }

theorem hostTree_rooted : hostTree.Rooted "Device".toList 0 where
  noDot := by decide
  entry := by decide
  node := ⟨_, rfl, rfl, rfl⟩

/-- Walking through the tree from its root. -/
theorem walk_complete_and_found_hosts :
    hostTree.WalkOk [] [0] (nodeCell "Device" .object)
      (.cons 0 (nodeCell "Host" (.multiObject ⟨2, 4, 1⟩))
        (.cons 0 (instCell 0) (.cons 0 (leafCell "Name") .nil .nil)
          (.cons 1 (instCell 1) (.cons 0 (leafCell "Name") .nil .nil) .nil)) .nil) :=
  walk_complete_and_found hostTree_rooted (by decide) (by decide) (by decide) (by decide)
    (hostTree_rooted.topName_root (by decide) (by decide)) (by decide +kernel)

/-- The tree of a file with the leaves `Device..` and `Device.A`: the loader takes the first one for a node below `Device` without a name.
The walk calls it `Device.`, and the lookup finds the root under this name. -/
def namelessTree : Tr069Tree where
  rootNode := ⟨"Device.".toList, .object, some [0]⟩
  nodes :=
    { forest :=
        .cons 0 (nodeCell "Device" .object) (.cons 0 (leafCell "") .nil (.cons 1 (leafCell "A") .nil .nil)) .nil
      mark := 2
      separate := by decide }

theorem namelessTree_rooted : namelessTree.Rooted "Device".toList 0 where
  noDot := by decide
  entry := by decide
  node := ⟨_, rfl, rfl, rfl⟩

/-- Distinct names and indices are not enough, even in arrays in order. -/
theorem walk_not_found :
    ¬∀ (t : Tr069Tree) (r : Text) (k : Nat), t.Rooted r k → t.nodes.forest.All Shaped → t.nodes.forest.All Distinct →
      (t.nodes.forest.All fun _ kids => Halved (kids.map Cell.text)) →
      ∀ (p : Pos) (cell : Cell) (sub : Forest Cell) (topName : Text), t.nodes.forest.cell? p = some (cell, sub) →
        t.TopName topName p cell → t.WalkOk topName p cell sub := by
  intro h
  have hwalk := h namelessTree _ _ namelessTree_rooted (by decide) (by decide) (by decide) [0] (nodeCell "Device" .object)
    (.cons 0 (leafCell "") .nil (.cons 1 (leafCell "A") .nil .nil)) [] (by decide)
    (namelessTree_rooted.topName_root (by decide) (by decide))
  have hfound := hwalk.found ⟨"Device.".toList, [0, 0], leafCell ""⟩ (by decide)
  have hroot : (namelessTree.getTr069NodeByName .zero "Device.".toList).map Prod.fst = .ok ⟨[], .object, some [0]⟩ := by decide
  rw [Finds, Visit.allName] at hfound
  have hname : "Device.".toList ++ (leafCell "").text = "Device.".toList := by decide
  rw [hname, hroot] at hfound
  cases hfound

end Tr069Tree

end CodeFactory.Tr69
