import CodeFactory.Tr69.Attributes
import CodeFactory.Tr69.LeafValues
import CodeFactory.Tr69.Recount

/-!
# A subtree and its leaves

`set_tr069_attribute` has one way for a path that ends in a dot, which walks through the cells below it, and another for the name of a
leaf. `setAsLeaves_iff` says when the first does to the tree what the second does leaf by leaf: the walk never takes the mark of a
change from a leaf, setting the notification of a single leaf always does.
-/

namespace CodeFactory.Tr69

/-- The visit is of a leaf that is marked as changed. -/
def Visit.Changed (v : Visit) : Prop :=
  match v.cell with
  | .node n => n.isChanged = true
  | .inst _ => False

instance (v : Visit) : Decidable v.Changed := by
  unfold Visit.Changed
  split <;> infer_instance

namespace Tr069Tree

/-- The calls of a walk from the cell at `p`. -/
def visitsFrom (t : Tr069Tree) (topName : Text) (p : Pos) : List Visit :=
  match t.nodes.forest.cell? p with
  | none => []
  | some (cell, sub) => visits topName p cell sub

/-- The leaves below a path that ends in a dot, each with the name of its father. A path that starts with a dot is the one of the
root or of nothing, and the template of an instance list is not below the object the list is of, as in every walk. -/
def leavesBelow (t : Tr069Tree) (cache : Tr069NodeEntry) (path : Text) : List Visit :=
  let all :=
    if path = ['.'] then
      match t.rootNode.node with
      | none => []
      | some p => t.visitsFrom [] p
    else if path.head? = some '.' then []
    else
      match t.getTr069NodeByName cache path with
      | .ok (⟨_, _, some p⟩, _) => t.visitsFrom (uptoLastDot (cutDot path)) p
      | _ => []
  all.filter fun v => v.cell.type.isLeaf

/-- What the attributes of the leaf at `p` are, and whether it is marked as changed. -/
def attributesAt (t : Tr069Tree) (p : Pos) : Option (Tr069Notification × Tr069AccessList × Bool) :=
  match t.nodes.get? p with
  | some (.node n) => if n.content.type.isLeaf then some (n.notification, n.accessModule, n.isChanged) else none
  | _ => none

end Tr069Tree

/-- A request with attributes that are valid, as far as they are to be set. -/
def Accepted (notification accessList : Option Int) : Prop :=
  (readAttribute Tr069Notification.ofInt? notification).isSome ∧ (readAttribute Tr069AccessList.ofInt? accessList).isSome

instance (notification accessList : Option Int) : Decidable (Accepted notification accessList) :=
  inferInstanceAs (Decidable (_ ∧ _))

namespace TreeState

/-- `set_tr069_attribute` for one name after the other, whatever the results. -/
def setEach (notification accessList : Option Int) (s : TreeState) (names : List Text) : Option TreeState :=
  names.foldlM (fun s name => (s.setTr069Attribute name notification accessList).map Prod.snd) s

/-- Setting the attributes with the path leaves every leaf as setting them with the name of each leaf below it does. -/
def SetAsLeaves (s : TreeState) (path : Text) (notification accessList : Option Int) : Prop :=
  ∀ ret s₁, s.setTr069Attribute path notification accessList = some (ret, s₁) →
    ∃ s₂, s.setEach notification accessList ((s.tree.leavesBelow s.cache path).map Visit.allName) = some s₂ ∧
      ∀ p, s₁.tree.attributesAt p = s₂.tree.attributesAt p

/-- No mark is to go: no notification is set, or no leaf below the path is marked as changed. -/
def NoMarkToGo (s : TreeState) (path : Text) (notification accessList : Option Int) : Prop :=
  notification = none ∨ ¬Accepted notification accessList ∨ ∀ v ∈ s.tree.leavesBelow s.cache path, ¬v.Changed

end TreeState

namespace Tr069Tree

variable {t : Tr069Tree} {r : Text} {k : Nat} {cache cache' entry : Tr069NodeEntry} {path : Text} {p : Pos}
  {d d' : Tr069NodeEntry × Next}

/-! ## The leaves are found -/

/-- What a round finds in an instance list has the index asked for. -/
theorem searchInstance_index {name : Text} {list : List (Nat × Label)} {key : Nat} (h : searchInstance name list = .ok key) :
    ∃ i, stringToNum name = some i ∧ (key, Label.index i) ∈ list := by
  unfold searchInstance at h
  split at h
  · cases h
  rename_i i hi
  split at h
  · rename_i x hx
    cases h
    have hlabel : x.2 = .index i := by simpa using List.find?_some hx
    exact ⟨i, hi, hlabel ▸ List.mem_of_find?_eq_some hx⟩
  · cases h

/-- A round of the search finds the cell under the name it has, too: an index can be written in more than one way. -/
theorem step_text (hn : d.2.Searches) (hnamed : ∀ q cell, t.nodes.get? q = some cell → cell.Named) {l : Text}
    (h : t.step d l = .ok d') :
    ∃ q cell, t.nodes.get? q = some cell ∧ d' = (⟨[], cell.type, some q⟩, d.2.goBelow cell.type q) ∧
      t.step d cell.text = .ok d' := by
  unfold step at h ⊢
  cases hq : d.2.node with
  | none =>
    rw [hq] at h
    cases h
  | some q =>
    rw [hq] at h
    rcases hn with hn | hn
    all_goals
      rw [hn] at h
      obtain ⟨L, hL, h⟩ := bind_eq_ok.1 h
      obtain ⟨key, hkey, harrive⟩ := bind_eq_ok.1 h
      obtain ⟨cell, hcell, rfl⟩ := arrive_ok harrive
      refine ⟨q ++ [key], cell, hcell, rfl, ?_⟩
      simp only [hn]
      refine bind_eq_ok.2 ⟨L, hL, ?_⟩
      refine bind_eq_ok.2 ⟨key, ?_, harrive⟩
    · -- by its name
      have hlabel := label_of_mem (deref_eq_ok.1 hL) (bisearch_ok hkey) hcell
      cases cell with
      | inst i => cases hlabel
      | node n =>
        obtain rfl := Label.name.inj hlabel
        exact hkey
    · -- by its index
      obtain ⟨i, hi, hmem⟩ := searchInstance_index hkey
      have hlabel := label_of_mem (deref_eq_ok.1 hL) hmem hcell
      cases cell with
      | node n => cases hlabel
      | inst inst =>
        obtain rfl := Label.index.inj hlabel
        obtain ⟨hmin, hmax⟩ := hnamed _ _ hcell
        have hsame : searchInstance (decimal inst.index) L = searchInstance l L := by
          rw [searchInstance, stringToNum_decimal hmin hmax, searchInstance, hi]
        exact hsame.trans hkey

/-- Where a path leads is a cell, and the names of what is visited from there start with the name of its father. -/
theorem topName_of_lookup (h : t.Rooted r k) (hsearch : t.nodes.forest.All Searchable) (hs : t.Sound cache) (hne : cache.name ≠ [])
    (he : t.getTr069NodeByName cache path = .ok (entry, cache')) (hp : entry.node = some p) :
    ∃ cell sub, t.nodes.forest.cell? p = some (cell, sub) ∧ t.TopName (uptoLastDot (cutDot path)) p cell := by
  have hnamed : ∀ q cell, t.nodes.get? q = some cell → cell.Named := by
    intro q cell hq
    obtain ⟨⟨a, sub⟩, hcell, rfl⟩ := Option.map_eq_some_iff.1 hq
    exact (hsearch.cell? hcell).1.1
  have hpath : path ≠ [] := by
    rintro rfl
    cases he
  -- no node is found under the cached name itself
  have hcareful : t.Careful cache path := by
    refine ⟨?_, fun hempty => hne hempty.1⟩
    rintro ⟨_, hsame⟩
    rw [lookup_same hpath hne hsame] at he
    cases he
    cases hp
  have hagrees := hcareful.agrees h.searches hs
  obtain ⟨ps, l, hps, hl, hcut, hparts⟩ := exists_parts (cutDot path)
  rw [Agrees, lookup_zero hpath, hparts, he, resolve] at hagrees
  obtain ⟨d', hw, hd'⟩ := map_eq_ok.1 hagrees.symm
  obtain rfl : d'.1 = entry := hd'
  have hwalk := hw
  rw [walk_concat] at hw
  obtain ⟨d, hbefore, hstep⟩ := bind_eq_ok.1 hw
  obtain ⟨q, cell, hcell, rfl, htext⟩ := step_text (walk_searches h.searches hbefore) hnamed hstep
  obtain rfl := Option.some.inj hp
  obtain ⟨⟨a, sub⟩, hsub, rfl⟩ := Option.map_eq_some_iff.1 hcell
  have htop : uptoLastDot (cutDot path) = dotted '.' ps := by
    rw [hcut]
    exact rdropWhile_dotted_append hl
  refine ⟨a, sub, hsub, ⟨ps, hps, htop⟩, ?_⟩
  rw [htop, finds_iff_leads h.searches hps (hnamed _ _ hcell) hcell]
  refine ⟨d.2, ?_⟩
  rw [walk_concat, hbefore]
  exact htext

/-- The leaves below a path are visits of one walk, from a cell that is found. -/
theorem leavesBelow_eq (h : t.Rooted r k) (hsearch : t.nodes.forest.All Searchable) (hs : t.Sound cache) (hne : cache.name ≠ [])
    (path : Text) :
    t.leavesBelow cache path = [] ∨
      ∃ topName p cell sub, t.nodes.forest.cell? p = some (cell, sub) ∧ t.TopName topName p cell ∧
        t.leavesBelow cache path = (visits topName p cell sub).filter fun v => v.cell.type.isLeaf := by
  unfold leavesBelow
  simp only
  split
  · obtain ⟨n, hname, _, hkids⟩ := h.node
    have hget : t.nodes.get? [k] = some (.node n) := Memory.get?_of_mem hkids List.mem_cons_self
    obtain ⟨⟨cell, sub⟩, hcell, hroot⟩ := Option.map_eq_some_iff.1 hget
    obtain rfl : cell = .node n := hroot
    refine Or.inr ⟨[], [k], .node n, sub, hcell, h.topName_root hget (hsearch.cell? hcell).1.1, ?_⟩
    simp only [h.entry, visitsFrom, hcell]
  split
  · exact Or.inl rfl
  split
  · rename_i p cache' he
    obtain ⟨cell, sub, hcell, htop⟩ := topName_of_lookup h hsearch hs hne he rfl
    refine Or.inr ⟨_, p, cell, sub, hcell, htop, ?_⟩
    simp only [visitsFrom, hcell]
  · exact Or.inl rfl

theorem Rooted.type_of_top (h : t.Rooted r k) {key : Nat} {cell : Cell} (hp : t.nodes.get? [key] = some cell) :
    cell.type = .object := by
  obtain ⟨n, _, hobject, hkids⟩ := h.node
  rw [← List.nil_append [key], Memory.get?_concat, hkids] at hp
  by_cases hkey : k = key
  · simp only [hkey, Option.bind_some, List.find?_cons_of_pos, decide_true, Option.map_some, Option.some.injEq] at hp
    rw [← hp, Cell.type, hobject]
    rfl
  · simp [hkey] at hp

theorem Rooted.type_of_step (h : t.Rooted r k) {e : Tr069NodeEntry} {l : Text} {cell : Cell} (hstep : t.step (e, t.rootNext) l = .ok d')
    (hnode : d'.1.node = some p) (hp : t.nodes.get? p = some cell) : cell.type = .object := by
  obtain ⟨q, key, cell', hq, _, rfl⟩ := step_ok h.searches hstep
  obtain rfl : q = [] := by simpa [h.rootNext] using hq.symm
  obtain rfl : p = [key] := by simpa using hnode.symm
  exact h.type_of_top hp

theorem Rooted.ne_nil_of_leads (h : t.Rooted r k) {ps : List Text} {l : Text} {cell : Cell} (hp : t.nodes.get? p = some cell)
    (hleaf : cell.type.isLeaf = true) (hleads : t.Leads (ps ++ [l]) p cell) : ps ≠ [] := by
  rintro rfl
  obtain ⟨next, hw⟩ := hleads
  rw [List.nil_append, walk_singleton] at hw
  rw [h.type_of_step hw rfl hp] at hleaf
  cases hleaf

end Tr069Tree

/-! ## Leaf by leaf -/

section Each

variable {t : Tr069Tree} {r : Text} {k : Nat} {s : TreeState}

/-- **Several leaves set one after the other**, under the names they are visited with: each gets the attributes, and no other cell is
changed. -/
theorem setEach_visits (h : t.Rooted r k) {notification accessList : Option Int} {notification' : Option Tr069Notification}
    {accessList' : Option Tr069AccessList} (hsome : ¬(notification = none ∧ accessList = none))
    (hnotification : readAttribute Tr069Notification.ofInt? notification = some notification')
    (haccess : readAttribute Tr069AccessList.ofInt? accessList = some accessList') (vs : List Visit) (hs : s.Loading t)
    (hvs : ∀ v ∈ vs, t.nodes.get? v.pos = some v.cell ∧ v.cell.type.isLeaf = true ∧ v.cell.Named ∧
      ∃ ps, ps ≠ [] ∧ (∀ x ∈ ps, '.' ∉ x) ∧ v.topName = dotted '.' ps ∧ t.Leads (ps ++ [v.cell.text]) v.pos v.cell)
    (hnd : (vs.map Visit.pos).Nodup) :
    ∃ s', s.setEach notification accessList (vs.map Visit.allName) = some s' ∧
      (∀ v ∈ vs, ∃ n, s.tree.nodes.get? v.pos = some (.node n) ∧
        s'.tree.nodes.get? v.pos = some (.node (n.withAttributes notification' accessList'))) ∧
      ∀ p, p ∉ vs.map Visit.pos → s'.tree.nodes.get? p = s.tree.nodes.get? p := by
  induction vs generalizing s with
  | nil => exact ⟨s, rfl, by simp, fun _ _ => rfl⟩
  | cons v vs ih =>
    rw [List.map_cons, List.nodup_cons] at hnd
    obtain ⟨hcell, hleaf, hnamed, hleads⟩ := hvs v List.mem_cons_self
    obtain ⟨n, s₁, hn, hset, hs₁, hleafSet, hkeep⟩ := setTr069Attribute_visit h hs hcell hleaf hnamed hleads hsome
      hnotification haccess
    obtain ⟨s', hrest, hsets, hkeeps⟩ := ih hs₁ (fun w hw => hvs w (List.mem_cons_of_mem _ hw)) hnd.2
    refine ⟨s', ?_, ?_, ?_⟩
    · rw [TreeState.setEach, List.map_cons, List.foldlM_cons, hset]
      exact hrest
    · intro w hw
      rcases List.mem_cons.1 hw with rfl | hw
      · exact ⟨n, hn, (hkeeps _ hnd.1).trans hleafSet⟩
      · obtain ⟨m, hm, hmset⟩ := hsets w hw
        have hpos : w.pos ≠ v.pos := by
          intro heq
          exact hnd.1 (heq ▸ List.mem_map.2 ⟨w, hw, rfl⟩)
        exact ⟨m, (hkeep _ hpos).symm.trans hm, hmset⟩
    · intro p hp
      rw [List.map_cons, List.mem_cons, not_or] at hp
      rw [hkeeps p hp.2, hkeep p hp.1]

end Each

/-! ## Both ways compared -/

namespace TreeState

variable {s s₁ : TreeState} {r : Text} {k : Nat} {path : Text} {notification accessList : Option Int}
  {notification' : Option Tr069Notification} {accessList' : Option Tr069AccessList} {ret : Result} {p : Pos}

/-- What a walk leaves of the attributes of a leaf. -/
theorem attributesAt_walkAttributes (s : TreeState) (topName : Text) (q : Pos) (notification' : Option Tr069Notification)
    (accessList' : Option Tr069AccessList) (p : Pos) :
    (s.walkAttributes topName q notification' accessList').tree.attributesAt p =
      if p ∈ s.tree.visitedBelow q then
        (s.tree.attributesAt p).map fun x => (notification'.getD x.1, accessList'.getD x.2.1, x.2.2)
      else s.tree.attributesAt p := by
  unfold Tr069Tree.attributesAt
  rw [get?_walkAttributes]
  by_cases hp : p ∈ s.tree.visitedBelow q
  · simp only [if_pos hp]
    cases s.tree.nodes.get? p with
    | none => rfl
    | some cell =>
      cases cell with
      | inst i => rfl
      | node n => by_cases hleaf : n.content.type.isLeaf <;> simp [setAttributes, hleaf]
  · simp only [if_neg hp]

/-- The leaves a walk visits are those its names are of. -/
theorem mem_leaves_iff {t : Tr069Tree} (topName : Text) (q : Pos) {x : Tr069Notification × Tr069AccessList × Bool}
    (hx : t.attributesAt p = some x) :
    p ∈ ((t.visitsFrom topName q).filter fun v => v.cell.type.isLeaf).map Visit.pos ↔ p ∈ t.visitedBelow q := by
  unfold Tr069Tree.visitsFrom
  cases hc : t.nodes.forest.cell? q with
  | none => simp [Tr069Tree.visitedBelow, hc]
  | some c =>
    obtain ⟨cell, sub⟩ := c
    rw [← Tr069Tree.mem_visits_pos topName hc p]
    simp only [List.mem_map, List.mem_filter]
    constructor
    · rintro ⟨v, ⟨hv, _⟩, hpos⟩
      exact ⟨v, hv, hpos⟩
    · rintro ⟨v, hv, rfl⟩
      obtain ⟨_, hcell, _⟩ := visits_below hc hv
      unfold Tr069Tree.attributesAt at hx
      rw [get?_of_cell hcell] at hx
      refine ⟨v, ⟨hv, ?_⟩, rfl⟩
      cases hn : v.cell with
      | inst i =>
        rw [hn] at hx
        cases hx
      | node n =>
        simp only [hn] at hx
        split at hx
        · rename_i hleaf
          exact hleaf
        · cases hx

/-- **The walk for a path sets the leaves below it**, and leaves their marks. -/
theorem attributesAt_of_path (hsome : ¬(notification = none ∧ accessList = none))
    (hnotification : readAttribute Tr069Notification.ofInt? notification = some notification')
    (haccess : readAttribute Tr069AccessList.ofInt? accessList = some accessList') (hpath : path.getLast? = some '.')
    (h : s.setTr069Attribute path notification accessList = some (ret, s₁)) (p : Pos) :
    s₁.tree.attributesAt p =
      if p ∈ (s.tree.leavesBelow s.cache path).map Visit.pos then
        (s.tree.attributesAt p).map fun x => (notification'.getD x.1, accessList'.getD x.2.1, x.2.2)
      else s.tree.attributesAt p := by
  have hne : path ≠ [] := by
    rintro rfl
    cases hpath
  have hwalk : ∀ (cache : Tr069NodeEntry) (topName : Text) (q : Pos),
      (({ s with cache := cache } : TreeState).walkAttributes topName q notification' accessList').tree.attributesAt p =
        if p ∈ ((s.tree.visitsFrom topName q).filter fun v => v.cell.type.isLeaf).map Visit.pos then
          (s.tree.attributesAt p).map fun x => (notification'.getD x.1, accessList'.getD x.2.1, x.2.2)
        else s.tree.attributesAt p := by
    intro cache topName q
    rw [attributesAt_walkAttributes]
    cases hx : s.tree.attributesAt p with
    | none => simp
    | some x => simp only [mem_leaves_iff topName q hx]
  have hunchanged : s.tree.attributesAt p =
      if p ∈ (([] : List Visit).filter fun v => v.cell.type.isLeaf).map Visit.pos then
        (s.tree.attributesAt p).map fun x => (notification'.getD x.1, accessList'.getD x.2.1, x.2.2)
      else s.tree.attributesAt p := by
    simp
  unfold setTr069Attribute at h
  rw [if_neg hsome] at h
  simp only [hnotification, haccess, hne, false_or] at h
  unfold Tr069Tree.leavesBelow
  simp only
  by_cases hroot : path = ['.']
  · simp only [if_pos hroot] at h ⊢
    obtain ⟨q, hq, h⟩ := Option.map_eq_some_iff.1 h
    cases h
    simp only [hq]
    exact hwalk s.cache [] q
  rw [if_neg hroot, if_pos hpath] at h
  rw [if_neg hroot]
  by_cases hdot : path.head? = some '.'
  · rw [if_pos hdot] at h ⊢
    cases h
    exact hunchanged
  rw [if_neg hdot] at h ⊢
  rcases withNode_eq_some h with ⟨_, he, _, rfl⟩ | ⟨entry, cache, he, h⟩
  · simp only [he]
    exact hunchanged
  obtain ⟨name, type, node⟩ := entry
  cases node with
  | none =>
    cases h
    simp only [he]
    exact hunchanged
  | some q =>
    simp only at h
    split at h
    · cases h
    cases h
    simp only [he]
    exact hwalk cache _ q

/-- It is defined where there is a leaf to set. -/
theorem exists_setTr069Attribute_path (hsome : ¬(notification = none ∧ accessList = none))
    (hnotification : readAttribute Tr069Notification.ofInt? notification = some notification')
    (haccess : readAttribute Tr069AccessList.ofInt? accessList = some accessList') (hpath : path.getLast? = some '.')
    (h : s.tree.leavesBelow s.cache path ≠ []) : ∃ ret s₁, s.setTr069Attribute path notification accessList = some (ret, s₁) := by
  have hne : path ≠ [] := by
    rintro rfl
    cases hpath
  unfold setTr069Attribute
  rw [if_neg hsome]
  simp only [hnotification, haccess, hne, false_or]
  unfold Tr069Tree.leavesBelow at h
  simp only at h
  by_cases hroot : path = ['.']
  · simp only [if_pos hroot] at h ⊢
    cases hq : s.tree.rootNode.node with
    | none =>
      rw [hq] at h
      exact absurd rfl h
    | some q => exact ⟨_, _, rfl⟩
  rw [if_neg hroot] at h
  rw [if_neg hroot, if_pos hpath]
  by_cases hdot : path.head? = some '.'
  · rw [if_pos hdot] at h
    exact absurd rfl h
  rw [if_neg hdot] at h ⊢
  unfold withNode
  cases he : s.tree.getTr069NodeByName s.cache path with
  | error stop =>
    rw [he] at h
    exact absurd rfl h
  | ok found =>
    obtain ⟨⟨name, type, node⟩, cache⟩ := found
    rw [he] at h
    cases node with
    | none => exact absurd rfl h
    | some q =>
      simp only [Tr069Tree.visitsFrom] at h
      cases hc : s.tree.nodes.forest.cell? q with
      | none =>
        rw [hc] at h
        exact absurd rfl h
      | some c =>
        have hget : s.tree.nodes.get? q = some c.1 := get?_of_cell hc
        simp only [hget, Option.isNone_some, Bool.false_eq_true, if_false]
        exact ⟨_, _, rfl⟩

/-- **Setting the leaves below a path one by one** is defined, sets them, and takes their marks when a notification is set. -/
theorem attributesAt_setEach (h : s.tree.Rooted r k) (hshape : s.tree.nodes.forest.All Shaped) (hd : s.tree.nodes.forest.All Distinct)
    (hsearch : s.tree.nodes.forest.All Searchable) (hsound : s.tree.Sound s.cache) (hcached : s.cache.name ≠ [])
    (hsome : ¬(notification = none ∧ accessList = none))
    (hnotification : readAttribute Tr069Notification.ofInt? notification = some notification')
    (haccess : readAttribute Tr069AccessList.ofInt? accessList = some accessList') (path : Text) :
    ∃ s₂, s.setEach notification accessList ((s.tree.leavesBelow s.cache path).map Visit.allName) = some s₂ ∧
      ∀ p, s₂.tree.attributesAt p =
        if p ∈ (s.tree.leavesBelow s.cache path).map Visit.pos then
          (s.tree.attributesAt p).map fun x =>
            (notification'.getD x.1, accessList'.getD x.2.1, if notification'.isSome then false else x.2.2)
        else s.tree.attributesAt p := by
  rcases Tr069Tree.leavesBelow_eq h hsearch hsound hcached path with
    hnil | ⟨topName, q, cell, sub, hc, htop, hleaves⟩
  · rw [hnil]
    exact ⟨s, rfl, by simp⟩
  have hleads := Tr069Tree.leads_of_mem_visits h.searches hshape hd hsearch hc htop
  have hvs : ∀ v ∈ s.tree.leavesBelow s.cache path, s.tree.nodes.get? v.pos = some v.cell ∧ v.cell.type.isLeaf = true ∧
      v.cell.Named ∧ ∃ ps, ps ≠ [] ∧ (∀ x ∈ ps, '.' ∉ x) ∧ v.topName = dotted '.' ps ∧
        s.tree.Leads (ps ++ [v.cell.text]) v.pos v.cell := by
    intro v hv
    rw [hleaves, List.mem_filter] at hv
    obtain ⟨hget, hn, ps, hps, htopName, hlead⟩ := hleads v hv.1
    exact ⟨hget, hv.2, hn, ps, h.ne_nil_of_leads hget hv.2 hlead, hps, htopName, hlead⟩
  have hnd : ((s.tree.leavesBelow s.cache path).map Visit.pos).Nodup := by
    rw [hleaves]
    exact (List.filter_sublist.map Visit.pos).nodup (nodup_visits hc)
  obtain ⟨s₂, hset, hsets, hkeeps⟩ := setEach_visits h hsome hnotification haccess _ ⟨.refl _, hsound, hcached⟩ hvs hnd
  refine ⟨s₂, hset, ?_⟩
  intro p
  unfold Tr069Tree.attributesAt
  by_cases hp : p ∈ (s.tree.leavesBelow s.cache path).map Visit.pos
  · obtain ⟨v, hv, rfl⟩ := List.mem_map.1 hp
    obtain ⟨n, hn, hafter⟩ := hsets v hv
    obtain ⟨hget, hleaf, _⟩ := hvs v hv
    have hcontent : n.content.type.isLeaf = true := by
      rw [Option.some.inj (hget.symm.trans hn)] at hleaf
      exact hleaf
    have hkept : (n.withAttributes notification' accessList').content = n.content := rfl
    simp only [if_pos hp, hn, hafter, hkept, hcontent, if_true, Option.map_some]
    rfl
  · rw [if_neg hp, hkeeps p hp]

/-- The mark of a leaf below a path. -/
theorem attributesAt_of_changed (h : s.tree.Rooted r k) (hsearch : s.tree.nodes.forest.All Searchable)
    (hsound : s.tree.Sound s.cache) (hcached : s.cache.name ≠ []) {v : Visit} (hv : v ∈ s.tree.leavesBelow s.cache path) :
    ∃ x, s.tree.attributesAt v.pos = some x ∧ (v.Changed ↔ x.2.2 = true) := by
  rcases Tr069Tree.leavesBelow_eq h hsearch hsound hcached path with
    hnil | ⟨topName, q, cell, sub, hc, _, hleaves⟩
  · rw [hnil] at hv
    cases hv
  rw [hleaves, List.mem_filter] at hv
  obtain ⟨_, hcell, _⟩ := visits_below hc hv.1
  have hleaf : v.cell.type.isLeaf = true := by simpa using hv.2
  unfold Tr069Tree.attributesAt Visit.Changed
  rw [get?_of_cell hcell]
  cases hn : v.cell with
  | inst i =>
    rw [hn] at hleaf
    cases hleaf
  | node n =>
    rw [hn] at hleaf
    have hcontent : n.content.type.isLeaf = true := hleaf
    simp only [hcontent, if_true]
    exact ⟨_, rfl, Iff.rfl⟩

/-- A request that sets nothing, or is refused, changes nothing. -/
theorem setTr069Attribute_of_idle (h : (notification = none ∧ accessList = none) ∨ ¬Accepted notification accessList)
    (s : TreeState) (name : Text) : ∃ ret, s.setTr069Attribute name notification accessList = some (ret, s) := by
  unfold setTr069Attribute
  split
  · exact ⟨_, rfl⟩
  split
  · exact ⟨_, rfl⟩
  · exact ⟨_, rfl⟩
  · rename_i hsome _ _ _ _ hnotification haccess
    refine absurd ?_ (h.resolve_left hsome)
    rw [Accepted, hnotification, haccess]
    exact ⟨rfl, rfl⟩

/-- So the walk and the leaves do the same. -/
theorem setAsLeaves_of_idle (h : (notification = none ∧ accessList = none) ∨ ¬Accepted notification accessList) :
    s.SetAsLeaves path notification accessList := by
  have heach : ∀ names : List Text, s.setEach notification accessList names = some s := by
    intro names
    induction names with
    | nil => rfl
    | cons name names ih =>
      obtain ⟨ret, hret⟩ := setTr069Attribute_of_idle h s name
      rw [setEach, List.foldlM_cons, hret]
      exact ih
  intro ret s₁ hs₁
  obtain ⟨ret', hret⟩ := setTr069Attribute_of_idle h s path
  obtain ⟨_, rfl⟩ := Prod.mk.inj (Option.some.inj (hret.symm.trans hs₁))
  exact ⟨s, heach _, fun _ => rfl⟩

/-- **A subtree is set as its leaves are exactly when no mark is to go**: with a notification in the request, the walk leaves the mark
of a changed leaf, and the name of the leaf takes it. The tree is as the loader leaves it, and the cache holds a name that leads
to its node. -/
theorem setAsLeaves_iff (h : s.tree.Rooted r k) (hshape : s.tree.nodes.forest.All Shaped) (hd : s.tree.nodes.forest.All Distinct)
    (hsearch : s.tree.nodes.forest.All Searchable) (hsound : s.tree.Sound s.cache) (hcached : s.cache.name ≠ [])
    (hpath : path.getLast? = some '.') :
    s.SetAsLeaves path notification accessList ↔ s.NoMarkToGo path notification accessList := by
  by_cases hidle : (notification = none ∧ accessList = none) ∨ ¬Accepted notification accessList
  · refine iff_of_true (setAsLeaves_of_idle hidle) ?_
    rcases hidle with hnone | hacc
    · exact Or.inl hnone.1
    · exact Or.inr (Or.inl hacc)
  rw [not_or, not_not] at hidle
  obtain ⟨hsome, hacc⟩ := hidle
  obtain ⟨notification', hnotification⟩ := Option.isSome_iff_exists.1 hacc.1
  obtain ⟨accessList', haccess⟩ := Option.isSome_iff_exists.1 hacc.2
  obtain ⟨s₂, heach, hafter⟩ := attributesAt_setEach h hshape hd hsearch hsound hcached hsome hnotification haccess path
  have hisSome : notification'.isSome = notification.isSome := by
    rw [← map_of_readAttribute (fun _ _ => Tr069Notification.toInt_of_ofInt?) hnotification, Option.isSome_map]
  constructor
  · intro hall
    by_cases hn : notification = none
    · exact Or.inl hn
    refine Or.inr (Or.inr ?_)
    intro v hv hchanged
    obtain ⟨ret, s₁, hs₁⟩ := exists_setTr069Attribute_path hsome hnotification haccess hpath (List.ne_nil_of_mem hv)
    obtain ⟨s₂', heach', hsame⟩ := hall ret s₁ hs₁
    obtain rfl := Option.some.inj (heach.symm.trans heach')
    obtain ⟨x, hx, hmark⟩ := attributesAt_of_changed h hsearch hsound hcached hv
    have hmem : v.pos ∈ (s.tree.leavesBelow s.cache path).map Visit.pos := List.mem_map.2 ⟨v, hv, rfl⟩
    have hpos := hsame v.pos
    rw [attributesAt_of_path hsome hnotification haccess hpath hs₁, hafter, if_pos hmem, if_pos hmem, hx] at hpos
    have hset : notification'.isSome = true := by
      rw [hisSome]
      exact Option.isSome_iff_ne_none.2 hn
    rw [hmark] at hchanged
    simp [hset, hchanged] at hpos
  · intro hno ret s₁ hs₁
    refine ⟨s₂, heach, ?_⟩
    intro p
    rw [attributesAt_of_path hsome hnotification haccess hpath hs₁, hafter]
    by_cases hp : p ∈ (s.tree.leavesBelow s.cache path).map Visit.pos
    · obtain ⟨v, hv, rfl⟩ := List.mem_map.1 hp
      obtain ⟨x, hx, hmark⟩ := attributesAt_of_changed h hsearch hsound hcached hv
      rw [if_pos hp, if_pos hp, hx]
      rcases hno with rfl | hno | hno
      · cases hnotification
        rfl
      · exact absurd hacc hno
      · have hunmarked : x.2.2 = false := by
          rw [← Bool.not_eq_true, ← hmark]
          exact hno v hv
        simp [hunmarked]
    · rw [if_neg hp, if_neg hp]

instance (s : TreeState) (path : Text) (notification accessList : Option Int) : Decidable (s.NoMarkToGo path notification accessList) :=
  inferInstanceAs (Decidable (_ ∨ _ ∨ _))

/-- The leaves of `Device.Host.`, none of them changed. -/
theorem setAsLeaves_hosts : (twoLeafState "A" "B").SetAsLeaves "Device.Host.".toList (some 2) (some 1) :=
  (setAsLeaves_iff (twoLeafTree_rooted "A" "B" .none) (by decide +kernel) (by decide +kernel) (by decide +kernel)
    (twoLeafTree_rooted "A" "B" .none).sound_root (by decide) (by decide)).2 (by decide +kernel)

/-- `Device.Name`, which the local side has changed and the ACS is to be told of at the next contact. -/
def changedTree : Tr069Tree where
  rootNode := ⟨"Device.".toList, .object, some [0]⟩
  nodes :=
    { forest :=
        .cons 0 (Tr069Tree.nodeCell "Device" .object)
          (.cons 0 (.node ⟨"Name".toList, ⟨true, true⟩, .passive, .all, true, 0, 16, .leaf (.string [])⟩) .nil .nil) .nil
      mark := 1
      separate := by decide }

theorem changedTree_rooted : changedTree.Rooted "Device".toList 0 where
  noDot := by decide
  entry := by decide
  node := ⟨_, rfl, rfl, rfl⟩

/-- Active notification for all of `Device.`: the walk leaves the mark of the changed leaf. -/
theorem not_setAsLeaves :
    ¬∀ (s : TreeState) (r : Text) (k : Nat), s.tree.Rooted r k → s.tree.nodes.forest.All Shaped → s.tree.nodes.forest.All Distinct →
      s.tree.nodes.forest.All Searchable → s.tree.Sound s.cache → s.cache.name ≠ [] →
        ∀ (path : Text) (notification accessList : Option Int), path.getLast? = some '.' →
          s.SetAsLeaves path notification accessList := by
  intro h
  let s : TreeState := ⟨changedTree, ⟨"Device.".toList, .object, some [0]⟩, true⟩
  have hset := h s _ _ changedTree_rooted (by decide) (by decide) (by decide) changedTree_rooted.sound_root (by decide)
    "Device.".toList (some 2) none (by decide)
  have hwalk : (s.setTr069Attribute "Device.".toList (some 2) none).map (fun x => x.2.tree.attributesAt [0, 0]) =
      some (some (.active, .all, true)) := by decide +kernel
  have heach : (s.setEach (some 2) none ((s.tree.leavesBelow s.cache "Device.".toList).map Visit.allName)).map
      (fun s => s.tree.attributesAt [0, 0]) = some (some (.active, .all, false)) := by decide +kernel
  obtain ⟨⟨ret, s₁⟩, hs₁, hmark₁⟩ := Option.map_eq_some_iff.1 hwalk
  obtain ⟨s₂, hs₂, hmark₂⟩ := Option.map_eq_some_iff.1 heach
  obtain ⟨s₂', hs₂', hsame⟩ := hset ret s₁ hs₁
  obtain rfl := Option.some.inj (hs₂.symm.trans hs₂')
  have hmarks := (hmark₁.symm.trans (hsame [0, 0])).trans hmark₂
  cases hmarks

end TreeState

end CodeFactory.Tr69
