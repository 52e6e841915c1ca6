import CodeFactory.Conf.Cache

/-!
# The layout of the cache

Which nodes the lists of a cache are made of. `Holds` says that the cache has a layout: every application has its list of rows
and its list of parameters, every row its list of parameters, no node is in two lists, and the nodes in no list are free. Each
way in which the library links or frees nodes keeps such a layout.
-/

namespace CodeFactory.Conf

/-- What has a list of parameters. -/
inductive ParaOwner where
  | app (a : Nat)
  | row (r : Nat)
  deriving DecidableEq, Repr

/-- The nodes of the lists: the applications in use are the first ones of their pool. -/
structure Layout where
  apps : Nat
  rows : Nat → List Nat
  paras : ParaOwner → List Nat

namespace Layout

/-- The rows of an application are replaced. -/
def setRows (L : Layout) (a : Nat) (rows : List Nat) : Layout := { L with rows := Function.update L.rows a rows }

/-- The parameters of an owner are replaced. -/
def setParas (L : Layout) (o : ParaOwner) (paras : List Nat) : Layout := { L with paras := Function.update L.paras o paras }

/-- There is such an owner. -/
def Has (L : Layout) : ParaOwner → Prop
  | .app a => a < L.apps
  | .row r => ∃ a, r ∈ L.rows a

/-- The field that holds the first parameter of an owner. -/
def headLink : ParaOwner → ParaLink
  | .app a => .appPara a
  | .row r => .rowPara r

/-- The field that the next parameter of an owner is linked to. -/
def tailLink (L : Layout) (o : ParaOwner) : ParaLink :=
  match (L.paras o).getLast? with
  | some p => .paraNext p
  | none => headLink o

@[simp] theorem setRows_apps (L : Layout) (a : Nat) (rows : List Nat) : (L.setRows a rows).apps = L.apps := rfl

@[simp] theorem setRows_paras (L : Layout) (a : Nat) (rows : List Nat) : (L.setRows a rows).paras = L.paras := rfl

@[simp] theorem setParas_apps (L : Layout) (o : ParaOwner) (paras : List Nat) : (L.setParas o paras).apps = L.apps := rfl

@[simp] theorem setParas_rows (L : Layout) (o : ParaOwner) (paras : List Nat) : (L.setParas o paras).rows = L.rows := rfl

@[simp] theorem setRows_self (L : Layout) (a : Nat) (rows : List Nat) : (L.setRows a rows).rows a = rows :=
  Function.update_self ..

theorem setRows_of_ne (L : Layout) {a b : Nat} (h : b ≠ a) (rows : List Nat) : (L.setRows a rows).rows b = L.rows b :=
  Function.update_of_ne h ..

@[simp] theorem setParas_self (L : Layout) (o : ParaOwner) (paras : List Nat) : (L.setParas o paras).paras o = paras :=
  Function.update_self ..

theorem setParas_of_ne (L : Layout) {o o' : ParaOwner} (h : o' ≠ o) (paras : List Nat) :
    (L.setParas o paras).paras o' = L.paras o' :=
  Function.update_of_ne h ..

@[simp] theorem setParas_setParas (L : Layout) (o : ParaOwner) (ps qs : List Nat) :
    (L.setParas o ps).setParas o qs = L.setParas o qs := by
  simp [setParas]

theorem setParas_eq_self (L : Layout) (o : ParaOwner) : L.setParas o (L.paras o) = L := by
  simp [setParas]

end Layout

namespace Cache

/-- The first parameter of an owner. -/
def paraHead (c : Cache) : ParaOwner → Option Nat
  | .app a => (c.app a).para
  | .row r => (c.row r).para

variable (c : Cache)

@[simp] theorem setPara_app (p : Nat) (node : ParaNode) : (c.setPara p node).app = c.app := rfl

@[simp] theorem setPara_row (p : Nat) (node : ParaNode) : (c.setPara p node).row = c.row := rfl

@[simp] theorem setRow_app (r : Nat) (node : RowNode) : (c.setRow r node).app = c.app := rfl

@[simp] theorem setRow_para (r : Nat) (node : RowNode) : (c.setRow r node).para = c.para := rfl

@[simp] theorem setApp_row (a : Nat) (node : AppNode) : (c.setApp a node).row = c.row := rfl

@[simp] theorem setApp_para (a : Nat) (node : AppNode) : (c.setApp a node).para = c.para := rfl

theorem setPara_paraNext (p : Nat) (node : ParaNode) : (c.setPara p node).paraNext = Function.update c.paraNext p node.next := by
  funext q
  by_cases hq : q = p
  · subst hq
    simp [paraNext, setPara]
  · simp [paraNext, setPara, Function.update_of_ne hq]

theorem setRow_rowNext (r : Nat) (node : RowNode) : (c.setRow r node).rowNext = Function.update c.rowNext r node.next := by
  funext q
  by_cases hq : q = r
  · subst hq
    simp [rowNext, setRow]
  · simp [rowNext, setRow, Function.update_of_ne hq]

theorem setRowLink_appRow (a b : Nat) (q : Option Nat) :
    (c.setRowLink (.appRow a) q).app b = { c.app b with row := if b = a then q else (c.app b).row } := by
  by_cases hb : b = a
  · subst hb
    simp [setRowLink, setApp]
  · simp [setRowLink, setApp, hb]

theorem setRowLink_rowNext (r s : Nat) (q : Option Nat) :
    (c.setRowLink (.rowNext r) q).row s = { c.row s with next := if s = r then q else (c.row s).next } := by
  by_cases hs : s = r
  · subst hs
    simp [setRowLink, setRow]
  · simp [setRowLink, setRow, hs]

theorem setParaLink_appPara (a b : Nat) (q : Option Nat) :
    (c.setParaLink (.appPara a) q).app b = { c.app b with para := if b = a then q else (c.app b).para } := by
  by_cases hb : b = a
  · subst hb
    simp [setParaLink, setApp]
  · simp [setParaLink, setApp, hb]

theorem setParaLink_rowPara (r s : Nat) (q : Option Nat) :
    (c.setParaLink (.rowPara r) q).row s = { c.row s with para := if s = r then q else (c.row s).para } := by
  by_cases hs : s = r
  · subst hs
    simp [setParaLink, setRow]
  · simp [setParaLink, setRow, hs]

theorem setParaLink_paraNext (p s : Nat) (q : Option Nat) :
    (c.setParaLink (.paraNext p) q).para s = { c.para s with next := if s = p then q else (c.para s).next } := by
  by_cases hs : s = p
  · subst hs
    simp [setParaLink, setPara]
  · simp [setParaLink, setPara, hs]

/-! ## What a link of a row does not change -/

@[simp] theorem setRowLink_para (link : RowLink) (q : Option Nat) : (c.setRowLink link q).para = c.para := by
  cases link <;> rfl

@[simp] theorem setRowLink_appId (link : RowLink) (q : Option Nat) (a : Nat) :
    ((c.setRowLink link q).app a).appId = (c.app a).appId := by
  cases link with
  | appRow b => rw [setRowLink_appRow]
  | rowNext r => rfl

@[simp] theorem setRowLink_appName (link : RowLink) (q : Option Nat) (a : Nat) :
    ((c.setRowLink link q).app a).appName = (c.app a).appName := by
  cases link with
  | appRow b => rw [setRowLink_appRow]
  | rowNext r => rfl

@[simp] theorem setRowLink_appNext (link : RowLink) (q : Option Nat) : (c.setRowLink link q).appNext = c.appNext := by
  cases link with
  | appRow b =>
    funext a
    rw [appNext, setRowLink_appRow]
    rfl
  | rowNext r => rfl

@[simp] theorem setRowLink_rowId (link : RowLink) (q : Option Nat) (r : Nat) :
    ((c.setRowLink link q).row r).rowId = (c.row r).rowId := by
  cases link with
  | appRow b => rfl
  | rowNext s => rw [setRowLink_rowNext]

@[simp] theorem setRowLink_paraHead (link : RowLink) (q : Option Nat) : (c.setRowLink link q).paraHead = c.paraHead := by
  funext o
  cases link with
  | appRow b =>
    cases o with
    | row r => rfl
    | app a => rw [paraHead, setRowLink_appRow]; rfl
  | rowNext s =>
    cases o with
    | app a => rfl
    | row r => rw [paraHead, setRowLink_rowNext]; rfl

/-! ## What a link of a parameter does not change -/

@[simp] theorem setParaLink_appId (link : ParaLink) (q : Option Nat) (a : Nat) :
    ((c.setParaLink link q).app a).appId = (c.app a).appId := by
  cases link with
  | appPara b => rw [setParaLink_appPara]
  | rowPara r => rfl
  | paraNext p => rfl

@[simp] theorem setParaLink_appName (link : ParaLink) (q : Option Nat) (a : Nat) :
    ((c.setParaLink link q).app a).appName = (c.app a).appName := by
  cases link with
  | appPara b => rw [setParaLink_appPara]
  | rowPara r => rfl
  | paraNext p => rfl

@[simp] theorem setParaLink_appRow (link : ParaLink) (q : Option Nat) (a : Nat) :
    ((c.setParaLink link q).app a).row = (c.app a).row := by
  cases link with
  | appPara b => rw [setParaLink_appPara]
  | rowPara r => rfl
  | paraNext p => rfl

@[simp] theorem setParaLink_appNext (link : ParaLink) (q : Option Nat) : (c.setParaLink link q).appNext = c.appNext := by
  cases link with
  | appPara b =>
    funext a
    rw [appNext, setParaLink_appPara]
    rfl
  | rowPara r => rfl
  | paraNext p => rfl

@[simp] theorem setParaLink_rowId (link : ParaLink) (q : Option Nat) (r : Nat) :
    ((c.setParaLink link q).row r).rowId = (c.row r).rowId := by
  cases link with
  | appPara b => rfl
  | rowPara s => rw [setParaLink_rowPara]
  | paraNext p => rfl

@[simp] theorem setParaLink_rowNext (link : ParaLink) (q : Option Nat) : (c.setParaLink link q).rowNext = c.rowNext := by
  cases link with
  | appPara b => rfl
  | rowPara s =>
    funext r
    rw [rowNext, setParaLink_rowPara]
    rfl
  | paraNext p => rfl

@[simp] theorem setParaLink_paraId (link : ParaLink) (q : Option Nat) (p : Nat) :
    ((c.setParaLink link q).para p).paraId = (c.para p).paraId := by
  cases link with
  | appPara b => rfl
  | rowPara s => rfl
  | paraNext s => rw [setParaLink_paraNext]

@[simp] theorem setParaLink_paraName (link : ParaLink) (q : Option Nat) (p : Nat) :
    ((c.setParaLink link q).para p).paraName = (c.para p).paraName := by
  cases link with
  | appPara b => rfl
  | rowPara s => rfl
  | paraNext s => rw [setParaLink_paraNext]

@[simp] theorem setParaLink_paraVal (link : ParaLink) (q : Option Nat) (p : Nat) :
    ((c.setParaLink link q).para p).paraVal = (c.para p).paraVal := by
  cases link with
  | appPara b => rfl
  | rowPara s => rfl
  | paraNext s => rw [setParaLink_paraNext]

end Cache

/-! ## The layout of a cache -/

open Cache

/-- The lists of the cache are those of the layout. -/
structure Holds (T : EntityTable) (c : Cache) (L : Layout) : Prop where
  apps_le : L.apps ≤ T.gMaxAppNum
  app_next : ∀ a, c.appNext a = if a + 1 < T.gMaxAppNum then some (a + 1) else none
  app_live : ∀ a, (c.app a).appId ≠ -1 ↔ a < L.apps
  row_chain : ∀ a, ChainFrom c.rowNext (c.app a).row (L.rows a)
  row_nodup : ∀ a, (L.rows a).Nodup
  row_owner : ∀ a a' r, r ∈ L.rows a → r ∈ L.rows a' → a = a'
  row_mem : ∀ a r, r ∈ L.rows a → a < L.apps ∧ r < T.gMaxTabNum
  row_live : ∀ r, (c.row r).rowId ≠ -1 ↔ ∃ a, r ∈ L.rows a
  para_chain : ∀ o, ChainFrom c.paraNext (c.paraHead o) (L.paras o)
  para_nodup : ∀ o, (L.paras o).Nodup
  para_owner : ∀ o o' p, p ∈ L.paras o → p ∈ L.paras o' → o = o'
  para_mem : ∀ o p, p ∈ L.paras o → L.Has o ∧ p < T.gMaxParaNum
  para_live : ∀ p, (c.para p).paraId ≠ -1 ↔ ∃ o, p ∈ L.paras o

namespace Holds

variable {T : EntityTable} {c : Cache} {L : Layout}

/-- Before anything is loaded every node is free. -/
theorem initNode : Holds T (initNode T) ⟨0, fun _ => [], fun _ => []⟩ where
  apps_le := Nat.zero_le _
  app_next := fun _ => rfl
  app_live := by simp [Cache.initNode]
  row_chain := fun _ => rfl
  row_nodup := fun _ => List.nodup_nil
  row_owner := by simp
  row_mem := by simp
  row_live := by simp [Cache.initNode]
  para_chain := fun o => by cases o <;> rfl
  para_nodup := fun _ => List.nodup_nil
  para_owner := by simp
  para_mem := by simp
  para_live := by simp [Cache.initNode]

theorem row_free (h : Holds T c L) {r : Nat} (hr : (c.row r).rowId = -1) : (∀ a, r ∉ L.rows a) ∧ L.paras (.row r) = [] := by
  have hnone : ¬∃ a, r ∈ L.rows a := fun hex => (h.row_live r).2 hex hr
  refine ⟨fun a ha => hnone ⟨a, ha⟩, ?_⟩
  rw [List.eq_nil_iff_forall_not_mem]
  intro p hp
  exact hnone (h.para_mem _ p hp).1

theorem para_free (h : Holds T c L) {p : Nat} (hp : (c.para p).paraId = -1) (o : ParaOwner) : p ∉ L.paras o :=
  fun ho => (h.para_live p).2 ⟨o, ho⟩ hp

/-- A parameter that is not in use can be changed in every way that leaves it so. -/
theorem setFreePara (h : Holds T c L) {p : Nat} (hp : (c.para p).paraId = -1) (node : ParaNode) (hnode : node.paraId = -1) :
    Holds T (c.setPara p node) L where
  apps_le := h.apps_le
  app_next := h.app_next
  app_live := h.app_live
  row_chain := h.row_chain
  row_nodup := h.row_nodup
  row_owner := h.row_owner
  row_mem := h.row_mem
  row_live := h.row_live
  para_chain := fun o => by
    rw [setPara_paraNext]
    exact (h.para_chain o).update_of_notMem (h.para_free hp o) _
  para_nodup := h.para_nodup
  para_owner := h.para_owner
  para_mem := h.para_mem
  para_live := fun q => by
    rw [← h.para_live q]
    by_cases hq : q = p
    · subst hq
      simp [setPara, hnode, hp]
    · simp [setPara, hq]

/-- A row that is not in use can be changed in every way that leaves it so, without parameters. -/
theorem setFreeRow (h : Holds T c L) {r : Nat} (hr : (c.row r).rowId = -1) (node : RowNode) (hnode : node.rowId = -1)
    (hpara : node.para = none) : Holds T (c.setRow r node) L where
  apps_le := h.apps_le
  app_next := h.app_next
  app_live := h.app_live
  row_chain := fun a => by
    rw [setRow_rowNext]
    exact (h.row_chain a).update_of_notMem ((h.row_free hr).1 a) _
  row_nodup := h.row_nodup
  row_owner := h.row_owner
  row_mem := h.row_mem
  row_live := fun s => by
    rw [← h.row_live s]
    by_cases hs : s = r
    · subst hs
      simp [setRow, hnode, hr]
    · simp [setRow, hs]
  para_chain := fun o => by
    cases o with
    | app a => exact h.para_chain (.app a)
    | row s =>
      by_cases hs : s = r
      · subst hs
        rw [(h.row_free hr).2]
        show ((c.setRow s node).row s).para = none
        simp [setRow, hpara]
      · have hhead : (c.setRow r node).paraHead (.row s) = c.paraHead (.row s) := by simp [paraHead, setRow, hs]
        rw [hhead]
        exact h.para_chain (.row s)
  para_nodup := h.para_nodup
  para_owner := h.para_owner
  para_mem := h.para_mem
  para_live := h.para_live

end Holds

end CodeFactory.Conf
