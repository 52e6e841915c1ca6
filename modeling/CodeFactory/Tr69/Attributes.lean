import CodeFactory.Tr69.InstanceAttributes

/-!
# Attributes of leaves

`get_tr069_attribute`, and what `set_tr069_attribute` does to the leaves: those it addresses, by their own name or by that of an
object above them, get the attributes that are to be set, and no other leaf is touched.
-/

namespace CodeFactory.Tr69

structure Tr069NameArg where
  name : Text
  accessType : Tr069AccessType
  deriving DecidableEq, Repr

structure Tr069AttributeArg where
  notification : Tr069Notification
  accessList : Tr069AccessList
  deriving DecidableEq, Repr

/-- `get_attributes`, which puts each leaf before those in `nameList` and `attributeList`. -/
def getAttributes (topName : Text) (cell : Cell) (lists : List Tr069NameArg × List Tr069AttributeArg) :
    Result × Cell × List Tr069NameArg × List Tr069AttributeArg :=
  match cell with
  | .node node =>
    if node.content.type.isLeaf then
      (.tcmagentOk, cell, ⟨topName ++ node.name, node.accessType⟩ :: lists.1, ⟨node.notification, node.accessModule⟩ :: lists.2)
    else (.tcmagentOk, cell, lists)
  | .inst _ => (.tcmagentOk, cell, lists)

namespace TreeState

/-- The walk of `get_tr069_attribute`. -/
def collectAttributes (s : TreeState) (topName : Text) (p : Pos) : Option (List Tr069NameArg × List Tr069AttributeArg) :=
  (s.tree.nodes.forest.cell? p).map fun root => (walkThroughTr069 getAttributes topName root.1 root.2 ([], [])).2.2

/-- `get_tr069_attribute`: the two lists, or an error. -/
def getTr069Attribute (s : TreeState) (name : Text) :
    Option (Except Result (List Tr069NameArg × List Tr069AttributeArg) × TreeState) :=
  if name = [] ∨ name = ['.'] then
    (s.tree.rootNode.node.bind (s.collectAttributes [])).map fun lists => (.ok lists, s)
  else if name.getLast? = some '.' then
    -- `get_tr069_father_name`
    if name.head? = some '.' then some (.error .nodeNameError, s) else
    s.withNode name .error fun entry s =>
      match entry.node with
      | none => some (.ok ([], []), s)
      | some p => (s.collectAttributes (uptoLastDot (cutDot name)) p).map fun lists => (.ok lists, s)
  else
    s.withNode name .error fun entry s =>
      if ¬entry.type.isLeaf then some (.error .nodeTypeError, s) else
      match s.node? entry.node with
      | none => none
      | some (_, node) => some (.ok ([⟨name, node.accessType⟩], [⟨node.notification, node.accessModule⟩]), s)

variable {s s' : TreeState} {name : Text} {p : Pos} {n : Tr069Node}

/-- The attributes of a leaf are got under every name that leads to it. -/
theorem getTr069Attribute_of_lookup {entry cache : Tr069NodeEntry} (hname : name ≠ []) (hdot : name.getLast? ≠ some '.')
    (he : s.tree.getTr069NodeByName s.cache name = .ok (entry, cache)) (hp : entry.node = some p)
    (htype : entry.type = (Cell.node n).type) (hn : s.tree.nodes.get? p = some (.node n)) (hleaf : n.content.type.isLeaf = true) :
    s.getTr069Attribute name =
      some (.ok ([⟨name, n.accessType⟩], [⟨n.notification, n.accessModule⟩]), { s with cache := cache }) := by
  have hroot : ¬(name = [] ∨ name = ['.']) := by
    rintro (h | h)
    · exact hname h
    · exact hdot (by simp [h])
  have hisLeaf : entry.type.isLeaf = true := by
    rw [htype]
    exact hleaf
  have hnode : ({ s with cache := cache } : TreeState).node? entry.node = some (p, n) := node?_eq_some.2 ⟨hp, hn⟩
  simp [getTr069Attribute, hroot, hdot, withNode, he, hisLeaf, hnode]

end TreeState

/-! ## The leaves a name addresses -/

namespace Tr069Tree

variable {t t' : Tr069Tree} {cache : Tr069NodeEntry} {name : Text} {p r : Pos}

/-- The cells a walk from `p` visits. -/
def visitedBelow (t : Tr069Tree) (p : Pos) : List Pos :=
  match t.nodes.forest.cell? p with
  | none => []
  | some (cell, sub) => (visits [] p cell sub).map Visit.pos

/-- The cells a name addresses: the one it leads to, or those visited from there if it is empty or ends in a dot. -/
def addressed (t : Tr069Tree) (cache : Tr069NodeEntry) (name : Text) : List Pos :=
  if name = [] ∨ name = ['.'] then
    match t.rootNode.node with
    | none => []
    | some p => t.visitedBelow p
  else
    match t.getTr069NodeByName cache name with
    | .error _ => []
    | .ok (entry, _) =>
      match entry.node with
      | none => []
      | some p => if name.getLast? = some '.' then t.visitedBelow p else [p]

/-- The cache when a name has been looked up; the empty name and the dot are not. -/
def cacheAfter (t : Tr069Tree) (cache : Tr069NodeEntry) (name : Text) : Tr069NodeEntry :=
  if name = [] ∨ name = ['.'] then cache
  else
    match t.getTr069NodeByName cache name with
    | .error _ => cache
    | .ok (_, cache') => cache'

theorem mem_visitedBelow : r ∈ t.visitedBelow p ↔ (t.nodes.get? p).isSome ∧ t.Below p r := by
  unfold visitedBelow
  cases hc : t.nodes.forest.cell? p with
  | none =>
    have hnone : t.nodes.get? p = none := by
      rw [Memory.get?, Forest.get?, hc]
      rfl
    simp [hnone]
  | some c =>
    obtain ⟨cell, sub⟩ := c
    rw [get?_of_cell hc]
    simpa using mem_visits_iff hc r

theorem mem_visits_pos (topName : Text) {cell : Cell} {sub : Forest Cell} (hc : t.nodes.forest.cell? p = some (cell, sub)) (r : Pos) :
    r ∈ (visits topName p cell sub).map Visit.pos ↔ r ∈ t.visitedBelow p := by
  rw [mem_visits_iff hc, mem_visitedBelow, get?_of_cell hc]
  simp

namespace SameSearch

theorem symm (h : t.SameSearch t') : t'.SameSearch t where
  rootNode := h.rootNode.symm
  labels := by
    intro p
    exact (h.labels p).symm
  type := by
    intro p
    exact (h.type p).symm

theorem get? (h : t.SameSearch t') {cell : Cell} (hc : t.nodes.get? p = some cell) :
    ∃ cell', t'.nodes.get? p = some cell' ∧ cell'.type = cell.type := by
  have htype := h.type p
  rw [hc] at htype
  exact Option.map_eq_some_iff.1 htype

theorem isTemplate (h : t.SameSearch t') (hr : t.IsTemplate r) : t'.IsTemplate r := by
  obtain ⟨q, key, object, list, rfl, hq, htype, hkids, hhead⟩ := hr
  obtain ⟨object', hq', htype'⟩ := h.get? hq
  have hlabels := h.labels q
  unfold Tr069Tree.labels at hlabels
  rw [hkids] at hlabels
  obtain ⟨list', hkids', hlist⟩ := Option.map_eq_some_iff.1 hlabels
  refine ⟨q, key, object', list', rfl, hq', htype'.trans htype, hkids', ?_⟩
  have hheads := congrArg (fun l : List (Nat × Label) => l.head?.map Prod.fst) hlist
  simp only [List.head?_map, Option.map_map] at hheads
  rw [← hhead]
  exact hheads

theorem below (h : t.SameSearch t') (hr : t.Below p r) : t'.Below p r := by
  induction hr with
  | self => exact .self
  | @kid q key cell _ hc ht ih =>
    obtain ⟨cell', hc', _⟩ := h.get? hc
    refine .kid ih hc' ?_
    intro ht'
    exact ht (h.symm.isTemplate ht')

theorem mem_visitedBelow (h : t.SameSearch t') (p r : Pos) : r ∈ t'.visitedBelow p ↔ r ∈ t.visitedBelow p := by
  have hsome : (t'.nodes.get? p).isSome = (t.nodes.get? p).isSome := by
    rw [← Option.isSome_map, h.type p, Option.isSome_map]
  rw [Tr069Tree.mem_visitedBelow, Tr069Tree.mem_visitedBelow, hsome]
  constructor
  · rintro ⟨hp, hr⟩
    exact ⟨hp, h.symm.below hr⟩
  · rintro ⟨hp, hr⟩
    exact ⟨hp, h.below hr⟩

/-- A name addresses the same cells in both. -/
theorem mem_addressed (h : t.SameSearch t') (cache : Tr069NodeEntry) (name : Text) (r : Pos) :
    r ∈ t'.addressed cache name ↔ r ∈ t.addressed cache name := by
  unfold addressed
  rw [h.rootNode, h.lookup]
  split
  · split
    · rfl
    · exact h.mem_visitedBelow _ _
  split
  · rfl
  split
  · rfl
  split
  · exact h.mem_visitedBelow _ _
  · rfl

theorem cacheAfter (h : t.SameSearch t') (cache : Tr069NodeEntry) (name : Text) :
    t'.cacheAfter cache name = t.cacheAfter cache name := by
  rw [Tr069Tree.cacheAfter, h.lookup, Tr069Tree.cacheAfter]

end SameSearch

end Tr069Tree

/-! ## Setting -/

theorem Tr069Notification.toInt_of_ofInt? {i : Int} {x : Tr069Notification} (h : Tr069Notification.ofInt? i = some x) :
    x.toInt = i := by
  unfold Tr069Notification.ofInt? at h
  split at h
  · cases h
    simp [Tr069Notification.toInt, *]
  split at h
  · cases h
    simp [Tr069Notification.toInt, *]
  split at h
  · cases h
    simp [Tr069Notification.toInt, *]
  · cases h

theorem Tr069AccessList.toInt_of_ofInt? {i : Int} {x : Tr069AccessList} (h : Tr069AccessList.ofInt? i = some x) :
    x.toInt = i := by
  unfold Tr069AccessList.ofInt? at h
  split at h
  · cases h
    simp [Tr069AccessList.toInt, *]
  split at h
  · cases h
    simp [Tr069AccessList.toInt, *]
  · cases h

/-- An attribute is set to what stands for the number. -/
theorem map_of_readAttribute {α : Type} {read : Int → Option α} {toInt : α → Int} (hread : ∀ i x, read i = some x → toInt x = i)
    {i : Option Int} {x : Option α} (h : readAttribute read i = some x) : x.map toInt = i := by
  cases i with
  | none =>
    cases h
    rfl
  | some i =>
    obtain ⟨y, hy, rfl⟩ := Option.map_eq_some_iff.1 h
    rw [Option.map_some, hread i y hy]

/-- The attributes of a leaf after those that are to be set have been set. -/
structure AttributesSet (n n' : Tr069Node) (notification accessList : Option Int) : Prop where
  content : n'.content = n.content
  notification : n'.notification.toInt = notification.getD n.notification.toInt
  accessModule : n'.accessModule.toInt = accessList.getD n.accessModule.toInt

theorem AttributesSet.refl (n : Tr069Node) : AttributesSet n n none none := ⟨rfl, rfl, rfl⟩

namespace TreeState

variable {s s' : TreeState} {name : Text} {p : Pos} {n : Tr069Node}

/-- What `set_attributes` leaves of a cell. -/
theorem get?_walkAttributes (s : TreeState) (topName : Text) (p : Pos) (notification : Option Tr069Notification)
    (accessList : Option Tr069AccessList) (r : Pos) :
    (s.walkAttributes topName p notification accessList).tree.nodes.get? r =
      if r ∈ s.tree.visitedBelow p then
        (s.tree.nodes.get? r).map fun cell => (setAttributes notification accessList [] cell ()).2.1
      else s.tree.nodes.get? r := by
  have hok : ∀ topName cell x, (setAttributes notification accessList topName cell x).1 = .tcmagentOk := by
    intro topName cell x
    unfold setAttributes
    split
    · split <;> rfl
    · rfl
  have hupdate : (s.walkAttributes topName p notification accessList).tree.nodes.get? r =
      (s.tree.nodes.forest.update
        (fun cell sub => (walkThroughTr069 (setAttributes notification accessList) topName cell sub ()).2.1) p).get? r := rfl
  rw [hupdate]
  cases hc : s.tree.nodes.forest.cell? p with
  | some c =>
    obtain ⟨cell, sub⟩ := c
    simp only [← Tr069Tree.mem_visits_pos topName hc r]
    exact get?_walkThroughTr069 hok (fun _ _ _ => rfl) hc () r
  | none =>
    -- a pointer that leads nowhere
    have hnil : s.tree.visitedBelow p = [] := by rw [Tr069Tree.visitedBelow, hc]
    rw [hnil, if_neg List.not_mem_nil]
    by_cases hp : p = []
    · subst hp
      rw [Forest.update_empty]
      rfl
    by_cases hpr : p <+: r
    · obtain ⟨q, rfl⟩ := hpr
      rw [Forest.get?, Forest.cell?_update_append hp, Memory.get?, Forest.get?, Forest.cell?_append hp, hc]
      split <;> rfl
    · exact Forest.get?_update_of_not_prefix hpr

/-- **What an accepted `set_tr069_attribute` has done**: nothing, a walk, or setting the attributes of one cell. -/
theorem setTr069Attribute_cases {notification accessList : Option Int}
    (h : s.setTr069Attribute name notification accessList = some (.tcmagentOk, s')) :
    (notification = none ∧ accessList = none ∧ s' = s) ∨
      ¬(notification = none ∧ accessList = none) ∧
        ∃ notification' accessList', readAttribute Tr069Notification.ofInt? notification = some notification' ∧
          readAttribute Tr069AccessList.ofInt? accessList = some accessList' ∧
          ((∃ p, (name = [] ∨ name = ['.']) ∧ s.tree.rootNode.node = some p ∧
              s' = s.walkAttributes [] p notification' accessList') ∨
            ∃ entry cache, ¬(name = [] ∨ name = ['.']) ∧ s.tree.getTr069NodeByName s.cache name = .ok (entry, cache) ∧
              ((name.getLast? = some '.' ∧ entry.node = none ∧ s' = { s with cache := cache }) ∨
                (∃ topName p, name.getLast? = some '.' ∧ entry.node = some p ∧
                  s' = { s with cache := cache }.walkAttributes topName p notification' accessList') ∨
                ∃ p cell cell', name.getLast? ≠ some '.' ∧ entry.node = some p ∧ s.tree.nodes.get? p = some cell ∧
                  setAttribute cell notification' accessList' = some cell' ∧
                  s' = { s with cache := cache }.setNodes (s.tree.nodes.modify p fun _ => cell'))) := by
  unfold setTr069Attribute at h
  split at h
  · rename_i hnone
    cases h
    exact Or.inl ⟨hnone.1, hnone.2, rfl⟩
  rename_i hsome
  split at h
  · cases h
  · cases h
  rename_i notification' accessList' hnotification haccess
  refine Or.inr ⟨hsome, notification', accessList', hnotification, haccess, ?_⟩
  split at h
  · rename_i hroot
    obtain ⟨p, hp, h⟩ := Option.map_eq_some_iff.1 h
    cases h
    exact Or.inl ⟨p, hroot, hp, rfl⟩
  rename_i hroot
  refine Or.inr ?_
  split at h
  · rename_i hdot
    split at h
    · cases h
    rcases withNode_eq_some h with ⟨_, he, hret, rfl⟩ | ⟨entry, cache, he, h⟩
    · rcases Tr069Tree.lookup_error he with rfl | rfl <;> cases hret
    refine ⟨entry, cache, hroot, he, ?_⟩
    split at h
    · rename_i hnode
      cases h
      exact Or.inl ⟨hdot, hnode, rfl⟩
    rename_i p hnode
    split at h
    · cases h
    · cases h
      exact Or.inr (Or.inl ⟨_, p, hdot, hnode, rfl⟩)
  · rename_i hdot
    rcases withNode_eq_some h with ⟨_, he, hret, rfl⟩ | ⟨entry, cache, he, h⟩
    · rcases Tr069Tree.lookup_error he with rfl | rfl <;> cases hret
    refine ⟨entry, cache, hroot, he, ?_⟩
    split at h
    · cases h
    rename_i p hnode
    split at h
    · cases h
    rename_i cell' hcell
    cases h
    obtain ⟨cell, hc, hset⟩ := Option.bind_eq_some_iff.1 hcell
    exact Or.inr (Or.inr ⟨p, cell, cell', hdot, hnode, hc, hset, rfl⟩)

/-- The cache when it is done: the name has been looked up, unless nothing was to be set. -/
theorem setTr069Attribute_cache {notification accessList : Option Int}
    (h : s.setTr069Attribute name notification accessList = some (.tcmagentOk, s')) :
    s'.cache = if notification = none ∧ accessList = none then s.cache else s.tree.cacheAfter s.cache name := by
  obtain ⟨hn, ha, rfl⟩ | ⟨hsome, _, _, _, _, hcases⟩ := setTr069Attribute_cases h
  · rw [if_pos ⟨hn, ha⟩]
  rw [if_neg hsome, Tr069Tree.cacheAfter]
  obtain ⟨p, hroot, _, rfl⟩ | ⟨entry, cache, hroot, he, hcases⟩ := hcases
  · rw [if_pos hroot]
    rfl
  rw [if_neg hroot, he]
  obtain ⟨_, _, rfl⟩ | ⟨_, _, _, _, rfl⟩ | ⟨_, _, _, _, _, _, _, rfl⟩ := hcases
  · rfl
  · rfl
  · rfl

/-- The walk sets the attributes of the leaves it visits, and of no other. -/
theorem walkAttributes_leaf {notification : Option Tr069Notification} {accessList : Option Tr069AccessList} (topName : Text)
    (r : Pos) (hn : s.tree.nodes.get? p = some (.node n)) (hleaf : n.content.type.isLeaf = true) :
    ∃ n', (s.walkAttributes topName r notification accessList).tree.nodes.get? p = some (.node n') ∧
      AttributesSet n n' (if p ∈ s.tree.visitedBelow r then notification.map Tr069Notification.toInt else none)
        (if p ∈ s.tree.visitedBelow r then accessList.map Tr069AccessList.toInt else none) := by
  rw [get?_walkAttributes]
  split
  · refine ⟨{ n with
      accessModule := accessList.getD n.accessModule
      notification := notification.getD n.notification }, ?_, ⟨rfl, ?_, ?_⟩⟩
    · rw [hn, Option.map_some]
      unfold setAttributes
      simp only [hleaf, if_true]
    · cases notification <;> rfl
    · cases accessList <;> rfl
  · exact ⟨n, hn, .refl n⟩

/-- **The leaves that are addressed get the attributes, and no other leaf does.** -/
theorem setTr069Attribute_leaf {notification accessList : Option Int}
    (h : s.setTr069Attribute name notification accessList = some (.tcmagentOk, s'))
    (hn : s.tree.nodes.get? p = some (.node n)) (hleaf : n.content.type.isLeaf = true) :
    ∃ n', s'.tree.nodes.get? p = some (.node n') ∧
      AttributesSet n n' (if p ∈ s.tree.addressed s.cache name then notification else none)
        (if p ∈ s.tree.addressed s.cache name then accessList else none) := by
  obtain ⟨rfl, rfl, rfl⟩ | ⟨_, notification', accessList', hnotification, haccess, hcases⟩ := setTr069Attribute_cases h
  · simp only [ite_self]
    exact ⟨n, hn, .refl n⟩
  rw [← map_of_readAttribute (fun _ _ => Tr069Notification.toInt_of_ofInt?) hnotification,
    ← map_of_readAttribute (fun _ _ => Tr069AccessList.toInt_of_ofInt?) haccess, Tr069Tree.addressed]
  obtain ⟨r, hroot, hr, rfl⟩ | ⟨entry, cache, hroot, he, hcases⟩ := hcases
  · simp only [if_pos hroot, hr]
    exact walkAttributes_leaf [] r hn hleaf
  simp only [if_neg hroot, he]
  obtain ⟨_, hnode, rfl⟩ | ⟨topName, r, hdot, hnode, rfl⟩ | ⟨r, cell, cell', hdot, hnode, hcell, hset, rfl⟩ := hcases
  · simp only [hnode, List.not_mem_nil, if_false]
    exact ⟨n, hn, .refl n⟩
  · simp only [hnode, if_pos hdot]
    exact walkAttributes_leaf (s := { s with cache := cache }) topName r hn hleaf
  · simp only [hnode, if_neg hdot, List.mem_singleton, setNodes_nodes, Memory.get?_modify]
    by_cases hr : p = r
    · subst hr
      obtain rfl := Option.some.inj (hcell.symm.trans hn)
      simp only [if_true, hn, Option.map_some]
      cases notification' with
      | none =>
        cases hset
        refine ⟨_, rfl, rfl, rfl, ?_⟩
        cases accessList' <;> rfl
      | some notification' =>
        cases hset
        refine ⟨_, rfl, rfl, rfl, ?_⟩
        cases accessList' <;> rfl
    · simp only [hr, if_false]
      exact ⟨n, hn, .refl n⟩

theorem sameSearch_setTr069Attribute {notification accessList : Option Int} {ret : Result}
    (h : s.setTr069Attribute name notification accessList = some (ret, s')) : s.tree.SameSearch s'.tree := by
  obtain ⟨_, hroot, _, _, hrelated⟩ := related_setTr069Attribute h
  exact .of_related (fun a b => SameButAttributes.label_type) hroot hrelated

end TreeState

end CodeFactory.Tr69
