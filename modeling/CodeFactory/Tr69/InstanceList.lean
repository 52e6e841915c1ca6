import CodeFactory.Tr69.Object
import CodeFactory.Lib.Run

/-!
# The instance lists

What should hold of every instance list: behind the template, whose index is 0, the indices are strictly ascending, and
`numOfEntries` is their number and not above the maximum. `instance_lists_ok_iff` says which runs of `add_tr069_object` and
`delete_tr069_object` keep it so. An explicit id is looked for in the list before it is used; `freeIndex` is not, and an
automatic id that an instance has already, from an explicit add, is given a second time. And a template that was given
instances itself is copied without them: the copy shares the list behind it, but has a count of its own.
-/

namespace CodeFactory.Tr69

/-- The index an instance is found by. -/
def Label.index? : Label → Option Int
  | .index i => some i
  | .name _ => none

/-- The counters of a multi-instance object. -/
def Cell.instances? : Cell → Option Tr069Instances
  | .node n => match n.content with
    | .multiObject instances => some instances
    | _ => none
  | .inst _ => none

/-- The indices in an instance list, the template's first. -/
def indices (list : List Label) : List Int := list.filterMap Label.index?

/-- An instance list as it should be, with the counters of its object. -/
structure ListOk (instances : Tr069Instances) (list : List Label) : Prop where
  template : list.head? = some (.index 0)
  isInstance : ∀ x ∈ list, x.index?.isSome
  ascending : (indices list).Pairwise (· < ·)
  count : list.length = instances.numOfEntries.toNat + 1
  bound : instances.numOfEntries ≤ instances.maxNumOfEntries

instance (instances : Tr069Instances) (list : List Label) : Decidable (ListOk instances list) :=
  decidable_of_iff
    (list.head? = some (.index 0) ∧ (∀ x ∈ list, x.index?.isSome) ∧ (indices list).Pairwise (· < ·) ∧
      list.length = instances.numOfEntries.toNat + 1 ∧ instances.numOfEntries ≤ instances.maxNumOfEntries)
    ⟨fun ⟨h1, h2, h3, h4, h5⟩ => ⟨h1, h2, h3, h4, h5⟩, fun ⟨h1, h2, h3, h4, h5⟩ => ⟨h1, h2, h3, h4, h5⟩⟩

/-- The next automatic id is one of those `add_tr069_object` goes through. -/
def FreeIndexOk (instances : Tr069Instances) : Prop := 1 ≤ instances.freeIndex ∧ instances.freeIndex ≤ 65535

instance (instances : Tr069Instances) : Decidable (FreeIndexOk instances) := inferInstanceAs (Decidable (_ ∧ _))

/-- The counters of a cell, if it has some, go with the cells below it. -/
def CellOk (R : Tr069Instances → List Label → Prop) (cell : Cell) (kids : List Cell) : Prop :=
  ∀ instances, cell.instances? = some instances → R instances (kids.map Cell.label)

instance decidableCellOk (R : Tr069Instances → List Label → Prop) [∀ i l, Decidable (R i l)] (cell : Cell)
    (kids : List Cell) : Decidable (CellOk R cell kids) :=
  match h : cell.instances? with
  | none => .isTrue fun i hi => absurd (h.symm.trans hi) (by simp)
  | some i => decidable_of_iff (R i (kids.map Cell.label)) (by simp [CellOk, h])

namespace TreeState

/-- Every multi-instance object of the tree has an instance list as it should be. -/
def InstanceListsOk (s : TreeState) : Prop := s.tree.nodes.forest.All (CellOk ListOk)

/-- And a next automatic id, as the loader leaves them. -/
def InstancesOk (s : TreeState) : Prop :=
  s.tree.nodes.forest.All (CellOk fun instances list => ListOk instances list ∧ FreeIndexOk instances)

end TreeState

/-! ## One list -/

/-- An index that is not in an ascending list is put where it belongs. -/
theorem pairwise_insert {l : List Int} {i : Int} (h : l.Pairwise (· < ·)) (hi : i ∉ l) :
    (l.takeWhile (fun j => !decide (i < j)) ++ i :: l.dropWhile (fun j => !decide (i < j))).Pairwise (· < ·) := by
  induction l with
  | nil => simp
  | cons j l ih =>
    obtain ⟨hj, hl⟩ := List.pairwise_cons.1 h
    rw [List.mem_cons, not_or] at hi
    by_cases hij : i < j
    · simp only [hij, decide_true, Bool.not_true, Bool.false_eq_true, not_false_eq_true, List.takeWhile_cons_of_neg,
        List.dropWhile_cons_of_neg, List.nil_append, List.pairwise_cons]
      refine ⟨fun x hx => ?_, hj, hl⟩
      rcases List.mem_cons.1 hx with rfl | hx
      · exact hij
      · exact Int.lt_trans hij (hj x hx)
    · have hji : j < i := by omega
      simp only [hij, decide_false, Bool.not_false, List.takeWhile_cons_of_pos, List.dropWhile_cons_of_pos,
        List.cons_append, List.pairwise_cons]
      refine ⟨fun x hx => ?_, ih hl hi.2⟩
      rw [List.mem_append, List.mem_cons] at hx
      rcases hx with hx | rfl | hx
      · exact hj x (List.takeWhile_subset _ hx)
      · exact hji
      · exact hj x (List.dropWhile_subset _ hx)

theorem indices_insert {kids : List Cell} {i : Int} {c : Cell} (hc : c.label = .index i)
    (hk : ∀ x ∈ kids.map Cell.label, x.index?.isSome) :
    indices ((kids.takeWhile (fun c => !c.comesAfter i) ++ c :: kids.dropWhile (fun c => !c.comesAfter i)).map
        Cell.label) =
      (indices (kids.map Cell.label)).takeWhile (fun j => !decide (i < j)) ++
        i :: (indices (kids.map Cell.label)).dropWhile (fun j => !decide (i < j)) := by
  induction kids with
  | nil => simp [indices, hc, Label.index?]
  | cons d kids ih =>
    rw [List.map_cons, List.forall_mem_cons] at hk
    cases d with
    | node n => exact absurd hk.1 (by simp [Cell.label, Label.index?])
    | inst d =>
      have ih := ih hk.2
      have hl : (Cell.inst d).label = .index d.index := rfl
      by_cases hd : i < d.index
      · simp [Cell.comesAfter, hd, indices, hc, hl, Label.index?]
      · simpa [Cell.comesAfter, hd, indices, hl, Label.index?] using ih

namespace ListOk

variable {instances instances' : Tr069Instances} {kids : List Cell} {list list' : List Label} {i : Int}

/-- A new instance with an index no other has. -/
theorem insert (h : ListOk instances (kids.map Cell.label)) (hi : i ∉ indices (kids.map Cell.label)) (hpos : ¬i < 0)
    {c : Cell} (hc : c.label = .index i) (hmax : instances.numOfEntries < instances.maxNumOfEntries)
    (hnum : instances'.numOfEntries = instances.numOfEntries + 1)
    (hmax' : instances'.maxNumOfEntries = instances.maxNumOfEntries) :
    ListOk instances' ((kids.takeWhile (fun c => !c.comesAfter i) ++
      c :: kids.dropWhile (fun c => !c.comesAfter i)).map Cell.label) where
  template := by
    obtain ⟨d, ks, rfl⟩ : ∃ d ks, kids = d :: ks := by
      cases kids with
      | nil => exact absurd h.template (by simp)
      | cons d ks => exact ⟨d, ks, rfl⟩
    have hd : d.label = .index 0 := by simpa using h.template
    cases d with
    | node n => exact absurd hd (by simp [Cell.label])
    | inst d =>
      have h0 : d.index = 0 := by simpa [Cell.label] using hd
      simp [Cell.comesAfter, h0, hpos, Cell.label]
  isInstance := by
    intro x hx
    rw [List.map_append, List.map_cons, List.mem_append, List.mem_cons] at hx
    rcases hx with hx | rfl | hx
    · exact h.isInstance x (List.map_subset _ (List.takeWhile_subset _) hx)
    · rw [hc]
      rfl
    · exact h.isInstance x (List.map_subset _ (List.dropWhile_subset _) hx)
  ascending := by
    rw [indices_insert hc h.isInstance]
    exact pairwise_insert h.ascending hi
  count := by
    have hlen := congrArg List.length (List.takeWhile_append_dropWhile (p := fun c => !c.comesAfter i) (l := kids))
    have hcount := h.count
    rw [List.length_append] at hlen
    rw [List.length_map] at hcount ⊢
    rw [List.length_append, List.length_cons, hnum]
    bv_omega
  bound := by
    rw [hnum, hmax']
    bv_omega

/-- An instance less. -/
theorem erase (h : ListOk instances list) (hsub : list'.Sublist list) (hhead : list'.head? = list.head?)
    (hlen : list'.length + 1 = list.length) (hnum : instances'.numOfEntries = instances.numOfEntries - 1)
    (hmax : instances'.maxNumOfEntries = instances.maxNumOfEntries) : ListOk instances' list' where
  template := hhead.trans h.template
  isInstance x hx := h.isInstance x (hsub.subset hx)
  ascending := h.ascending.sublist (hsub.filterMap _)
  count := by
    have hcount := h.count
    have hne : 0 < list'.length := by
      cases list' with
      | nil => exact absurd (hhead.trans h.template) (by simp)
      | cons => simp
    rw [hnum]
    bv_omega
  bound := by
    have hcount := h.count
    have hbound := h.bound
    have hne : 0 < list'.length := by
      cases list' with
      | nil => exact absurd (hhead.trans h.template) (by simp)
      | cons => simp
    rw [hnum, hmax]
    bv_omega

end ListOk

/-! ## Every list of a tree -/

section Nodes

variable {R : Tr069Instances → List Label → Prop}

theorem cellOk_inst (i : Tr069Instance) (kids : List Cell) : CellOk R (.inst i) kids := by
  intro instances h
  cases h

theorem cellOk_multiObject {n : Tr069Node} {instances : Tr069Instances} (hn : n.content = .multiObject instances)
    {kids : List Cell} : CellOk R (.node n) kids ↔ R instances (kids.map Cell.label) := by
  simp [CellOk, Cell.instances?, hn]

/-- Rewriting a node, under its name, where the new node goes with the new cells below it. -/
theorem all_update {F : Forest Cell} {p : Pos} {n n' : Tr069Node} {s s' : Forest Cell}
    {g : Cell → Forest Cell → Cell × Forest Cell} (h : F.All (CellOk R)) (hc : F.cell? p = some (.node n, s))
    (hg : g (.node n) s = (.node n', s')) (hname : n'.name = n.name) (hsub : s'.All (CellOk R))
    (hnew : CellOk R (.node n') (s'.heads.map Prod.snd)) : (F.update g p).All (CellOk R) := by
  refine h.update (fun a t hat _ _ => ?_) (fun a t b l r hat hb => ?_)
  · obtain ⟨rfl, rfl⟩ := Prod.mk.inj (Option.some.inj (hc.symm.trans hat))
    rw [hg]
    exact ⟨hnew, hsub⟩
  · obtain ⟨rfl, rfl⟩ := Prod.mk.inj (Option.some.inj (hc.symm.trans hat))
    rw [hg]
    -- the cell above sees the name only
    intro instances hi
    have := hb instances hi
    simpa [Cell.label, hname] using this

/-- Setting a leaf touches no instance list. -/
theorem all_setTr069Value {s s' : TreeState} {module : Tr069AccessModule} {name : Text} {value : Tr069Value}
    {ret : Result} (h : s.tree.nodes.forest.All (CellOk R)) (hs : s.setTr069Value module name value = some (ret, s')) :
    s'.tree.nodes.forest.All (CellOk R) := by
  rcases TreeState.setTr069Value_cases hs with ⟨_, _, rfl, _⟩ | ⟨_, _, p, n, n', _, _, hn, hset, rfl⟩
  · exact h
  obtain ⟨leaf, v, _, _, _, _, _, _, rfl⟩ := Tr069Node.set_eq_ok hset
  obtain ⟨⟨a, sub⟩, hc, rfl⟩ := Option.map_eq_some_iff.1 hn
  refine all_update h hc rfl rfl (h.cell? hc).2 ?_
  intro instances hi
  cases hi

theorem all_setCountLeaf {s s' : TreeState} {name : Text} {num : BitVec 32} (h : s.tree.nodes.forest.All (CellOk R))
    (hs : s.setCountLeaf name num = some s') : s'.tree.nodes.forest.All (CellOk R) := by
  obtain ⟨_, _, _, ⟨_, rfl⟩ | ⟨_, _, hset⟩⟩ := TreeState.setCountLeaf_eq_some hs
  · exact h
  · exact all_setTr069Value h hset

variable {s : TreeState} {p : Pos} {n : Tr069Node} {instances : Tr069Instances} {key : Nat} {template : Tr069Instance}
  {list : List (Nat × Cell)}

/-- The list of an object, as cells. -/
def listCells (key : Nat) (template : Tr069Instance) (list : List (Nat × Cell)) : List Cell :=
  ((key, Cell.inst template) :: list).map Prod.snd

theorem cellOk_at (h : s.tree.nodes.forest.All (CellOk R)) (ho : s.MultiObjectAt p n instances key template list) :
    R instances ((listCells key template list).map Cell.label) :=
  (cellOk_multiObject ho.content).1 (Memory.all_get h ho.ne_nil ho.node ho.kids)

theorem map_snd_insert (L : List (Nat × Cell)) (id : Int) (x : Nat × Cell) :
    (L.takeWhile (fun x => !x.2.comesAfter id) ++ x :: L.dropWhile (fun x => !x.2.comesAfter id)).map Prod.snd =
      (L.map Prod.snd).takeWhile (fun c => !c.comesAfter id) ++
        x.2 :: (L.map Prod.snd).dropWhile (fun c => !c.comesAfter id) := by
  rw [List.takeWhile_map, List.dropWhile_map, List.map_append, List.map_cons]
  rfl

/-- Adding an instance touches no list but the one it is put in. -/
theorem all_addNodes (h : s.tree.nodes.forest.All (CellOk R)) (ho : s.MultiObjectAt p n instances key template list)
    {id : Int}
    (hR : R (TreeState.added instances) (((listCells key template list).takeWhile (fun c => !c.comesAfter id) ++
      Cell.inst { template with index := id } ::
        (listCells key template list).dropWhile (fun c => !c.comesAfter id)).map Cell.label)) :
    (TreeState.addNodes s.tree.nodes p n instances key template id).forest.All (CellOk R) := by
  obtain ⟨sub, hc, hsub⟩ := Memory.exists_cell ho.ne_nil ho.node ho.kids
  simp only [TreeState.addNodes, Memory.modify, Memory.insertCopy, Forest.update_update]
  refine all_update h hc rfl rfl ?_ ?_
  · exact (h.cell? hc).2.insert (cellOk_inst _ _) (Memory.all_copyOf h _)
  · rw [cellOk_multiObject rfl, Forest.heads_insert, hsub]
    rw [map_snd_insert]
    exact hR

/-- Deleting an instance touches no list but the one it is taken from. -/
theorem all_deleteNodes (h : s.tree.nodes.forest.All (CellOk R)) (ho : s.MultiObjectAt p n instances key template list)
    {key' : Nat}
    (hR : R (TreeState.deleted instances)
      (((((key, Cell.inst template) :: list).eraseP (fun x => x.1 = key')).map Prod.snd).map Cell.label)) :
    (TreeState.deleteNodes s.tree.nodes p n instances key').forest.All (CellOk R) := by
  obtain ⟨sub, hc, hsub⟩ := Memory.exists_cell ho.ne_nil ho.node ho.kids
  simp only [TreeState.deleteNodes, Memory.modify, Memory.removeAt, Forest.update_update]
  refine all_update h hc rfl rfl ((h.cell? hc).2.remove _) ?_
  rw [cellOk_multiObject rfl, Forest.heads_remove, hsub]
  exact hR

end Nodes

/-! ## Runs of adds and deletes -/

/-- The tree as it reads, and whether two objects share an instance list. -/
structure ListState where
  state : TreeState
  shared : Bool

namespace ListState

variable {α : Type} {f : TreeState → α → Option TreeState} {copies : TreeState → α → Bool} {s s' : ListState} {call : α}

/-- A call as a step. Lists are shared from the first copy of instances on; what a call makes of a tree with shared lists is
not followed, it may be any tree. -/
def step (f : TreeState → α → Option TreeState) (copies : TreeState → α → Bool) : Step ListState α := fun s call s' =>
  s.shared = true ∧ s'.shared = true ∨
    s.shared = false ∧ f s.state call = some s'.state ∧ s'.shared = copies s.state call

/-- A step to be played: with shared lists nothing changes any more. -/
def next (f : TreeState → α → Option TreeState) (copies : TreeState → α → Bool) (s : ListState) (call : α) :
    Option ListState :=
  if s.shared then some s else (f s.state call).map fun state => ⟨state, copies s.state call⟩

theorem step_own (hown : s.shared = false) (h : step f copies s call s') :
    f s.state call = some s'.state ∧ s'.shared = copies s.state call := by
  rcases h with ⟨hshared, _⟩ | ⟨_, h⟩
  · rw [hown] at hshared
    cases hshared
  · exact h

theorem run_played (calls : List α) :
    Run (step f copies) s (play (next f copies) s calls).1 (play (next f copies) s calls).2 := by
  refine (Run.ofPlay (next f copies) s calls).mono fun s call s' h => ?_
  simp only [Step.ofOption_iff, next] at h
  split at h
  · rename_i hshared
    cases h
    exact Or.inl ⟨hshared, hshared⟩
  · rename_i hshared
    obtain ⟨state, hf, rfl⟩ := Option.map_eq_some_iff.1 h
    exact Or.inr ⟨by simpa using hshared, hf, rfl⟩

end ListState

/-- A call of one of the two operations. -/
inductive ObjectCall where
  | add (objName : Text)
  | delete (objName : Text)
  deriving DecidableEq, Repr

namespace TreeState

/-- The tree, every object with a list of its own. -/
def own (s : TreeState) : ListState := ⟨s, false⟩

/-- A call as a step of the tree, whatever it returns. -/
def objectStep (s : TreeState) : ObjectCall → Option TreeState
  | .add objName => (s.addTr069Object objName).map Prod.snd
  | .delete objName => (s.deleteTr069Object objName).map Prod.snd

/-- The call would give out an id that an instance has: it leaves the choice of the id to `add_tr069_object`, names a
multi-instance object that is not full, and an instance has the index `freeIndex` already. -/
def freeIndexTaken (s : TreeState) : ObjectCall → Bool
  | .add objName =>
    match addName objName with
    | some (.ok (name, id)) =>
      match s.tree.getTr069NodeByName s.cache name with
      | .ok (entry, _) =>
        match s.multiObject? entry.node with
        | some (_, _, instances, _, _, list) =>
          id = 0 ∧ entry.type = .multiObject ∧ instances.numOfEntries < instances.maxNumOfEntries ∧
            list.any fun x => x.2.label = .index instances.freeIndex
        | none => false
      | .error _ => false
    | _ => false
  | .delete _ => false

/-- The multi-instance object a name and an id lead to: its path, the id, the counters and the instances. -/
def namedObject (s : TreeState) : Option (Except Result (Text × Int)) →
    Option (Pos × Int × Tr069Instances × List (Nat × Cell))
  | some (.ok (name, id)) =>
    match s.tree.getTr069NodeByName s.cache name with
    | .ok (entry, _) =>
      match s.multiObject? entry.node with
      | some (p, _, instances, _, _, list) => if entry.type = .multiObject then some (p, id, instances, list) else none
      | none => none
    | .error _ => none
  | _ => none

/-- The object whose number of instances the call changes. -/
def countedObject (s : TreeState) : ObjectCall → Option Pos
  | .add objName =>
    match s.namedObject (addName objName) with
    | some (p, id, instances, list) =>
      if instances.numOfEntries < instances.maxNumOfEntries ∧ ¬(id ≠ 0 ∧ list.any fun x => x.2.label = .index id) then
        some p
      else none
    | none => none
  | .delete objName =>
    match s.namedObject (deleteName objName) with
    | some (p, id, _, list) => if list.any fun x => x.2.label = .index id then some p else none
    | none => none

/-- The call copies instances with a template: it makes a new instance of an object whose template is not `Bare`. -/
def copiesInstances (s : TreeState) : ObjectCall → Bool
  | .add objName =>
    match s.multiObject? (s.countedObject (.add objName)) with
    | some (p, _, _, key, _, _) => ¬(s.tree.nodes.copyOf (p ++ [key])).All Bare
    | none => false
  | .delete _ => false

variable {s s' : TreeState} {objName : Text}

/-- Then it makes a new instance with the id. -/
theorem adds_of_freeIndexTaken (h : s.freeIndexTaken (.add objName) = true) :
    ∃ name cache p n instances key template list,
      s.Adds objName name cache p n instances key template list instances.freeIndex ∧
        addName objName = some (.ok (name, 0)) ∧ ∃ x ∈ list, x.2.label = .index instances.freeIndex := by
  unfold freeIndexTaken at h
  simp only at h
  split at h
  · rename_i name id hname
    split at h
    · rename_i entry cache he
      split at h
      · rename_i p n instances key template list hm
        obtain ⟨hp, hm⟩ := multiObject?_eq_some.1 hm
        obtain ⟨rfl, htype, hfull, hany⟩ := of_decide_eq_true h
        obtain ⟨x, hx, hl⟩ := List.any_eq_true.1 hany
        exact ⟨name, cache, p, n, instances, key, template, list,
          ⟨⟨entry, he, htype, hp⟩, hm, hfull, Or.inl ⟨hname, rfl⟩⟩, hname, x, hx, of_decide_eq_true hl⟩
      · cases h
    · cases h
  · cases h

/-- And otherwise a new instance has an id no other has. -/
theorem fresh_of_not_freeIndexTaken (h : s.freeIndexTaken (.add objName) ≠ true) {name : Text} {cache : Tr069NodeEntry}
    {p : Pos} {n : Tr069Node} {instances : Tr069Instances} {key : Nat} {template : Tr069Instance} {list : List (Nat × Cell)}
    {id : Int} (ha : s.Adds objName name cache p n instances key template list id) :
    ∀ x ∈ list, x.2.label ≠ .index id := by
  obtain ⟨⟨entry, he, htype, hp⟩, hm, hfull, ⟨hname, rfl⟩ | ⟨_, _, hid⟩⟩ := ha
  · intro x hx hl
    refine h ?_
    have hany : list.any (fun x => x.2.label = .index instances.freeIndex) = true :=
      List.any_eq_true.2 ⟨x, hx, decide_eq_true hl⟩
    simp [freeIndexTaken, hname, he, multiObject?_eq_some.2 ⟨hp, hm⟩, htype, hfull, hany]
  · exact hid

/-- Where the id is free, a new instance leaves the lists as they should be. -/
theorem InstancesOk.add (h : s.InstancesOk) (hfree : s.freeIndexTaken (.add objName) ≠ true) {r : Result × Option Int}
    (hs : s.addTr069Object objName = some (r, s')) : s'.InstancesOk := by
  rcases addTr069Object_cases hs with ⟨cache, _, rfl⟩ | ⟨name, cache, p, n, instances, key, template, list, id, ha, hid, _, hleaf⟩
  · exact h
  have hnew := fresh_of_not_freeIndexTaken hfree ha
  obtain ⟨hok, hfi⟩ := cellOk_at h ha.object
  have h0 : template.index = 0 := by
    have := hok.template
    simpa [listCells, Cell.label] using this
  -- the id is neither the template's nor that of an instance
  have hpos : id ≠ 0 := by
    rcases ha.id with ⟨_, rfl⟩ | ⟨_, hne, _⟩
    · have := hfi.1
      omega
    · exact hne
  have hnotin : id ∉ indices ((listCells key template list).map Cell.label) := by
    intro hm
    obtain ⟨l, hl, hx⟩ := List.mem_filterMap.1 hm
    obtain ⟨c, hc, rfl⟩ := List.mem_map.1 hl
    obtain ⟨x, hx', rfl⟩ := List.mem_map.1 hc
    have hlabel : x.2.label = .index id := by
      cases hl : x.2.label with
      | name s => simp [hl, Label.index?] at hx
      | index i => simpa [hl, Label.index?] using hx
    rcases List.mem_cons.1 hx' with rfl | hx'
    · simp only [Cell.label, Label.index.injEq] at hlabel
      omega
    · exact hnew x hx' hlabel
  refine all_setCountLeaf (s := setNodes _ _) (all_addNodes h ha.object ⟨?_, ?_⟩) hleaf
  · exact hok.insert hnotin (by omega) rfl ha.notFull rfl rfl
  · unfold FreeIndexOk added nextFreeIndex
    have := hfi.1
    simp only
    split <;> omega

/-- Taking an instance away leaves them so. -/
theorem InstancesOk.delete (h : s.InstancesOk) {ret : Result} (hs : s.deleteTr069Object objName = some (ret, s')) :
    s'.InstancesOk := by
  rcases deleteTr069Object_cases hs with
    ⟨cache, _, rfl⟩ | ⟨name, cache, cache', p, n, instances, key, template, list, key', hd, _, _, hleaf⟩
  · exact h
  obtain ⟨hok, hfi⟩ := cellOk_at h hd.object
  refine all_setCountLeaf (s := setNodes _ _) (all_deleteNodes h hd.object ⟨?_, hfi⟩) hleaf
  -- the key is that of an instance, so the template stays
  obtain ⟨_, cell, _, hcell, _⟩ := hd.found
  have hne : key ≠ key' := by
    rintro rfl
    have hnd := Memory.nodup_kids hd.object.kids
    exact (List.nodup_cons.1 hnd).1 (List.mem_map.2 ⟨(key, cell), hcell, rfl⟩)
  have herase : ((key, Cell.inst template) :: list).eraseP (fun x => x.1 = key') =
      (key, Cell.inst template) :: list.eraseP (fun x => x.1 = key') := by
    rw [List.eraseP_cons_of_neg (by simpa using hne)]
  refine hok.erase ?_ ?_ ?_ rfl rfl
  · exact (List.eraseP_sublist.map _).map _
  · rw [herase]
    rfl
  · rw [herase]
    have hlen := List.length_eraseP_of_mem hcell (p := fun x => decide (x.1 = key')) (by simp)
    have := List.length_pos_of_mem hcell
    simp [listCells, hlen]
    omega

/-- What should hold after a call. -/
def ListsOk (_ : ListState) (_ : ObjectCall) (s' : ListState) : Prop := s'.state.InstanceListsOk

/-- The call gives out no id twice. -/
def GivesFreeIndex (s : ListState) (call : ObjectCall) : Prop := s.state.freeIndexTaken call = false

/-- The call copies no instances. -/
def CopiesBare (s : ListState) (call : ObjectCall) : Prop := s.state.copiesInstances call = false

theorem InstancesOk.lists (h : s.InstancesOk) : s.InstanceListsOk :=
  h.imp fun _ _ hc instances hi => (hc instances hi).1

theorem not_pairwise_insert {l : List Int} {i : Int} (hi : i ∈ l) :
    ¬(l.takeWhile (fun j => !decide (i < j)) ++ i :: l.dropWhile (fun j => !decide (i < j))).Pairwise (· < ·) := by
  intro h
  obtain ⟨_, h2, h3⟩ := List.pairwise_append.1 h
  rw [← List.takeWhile_append_dropWhile (p := fun j => !decide (i < j)) (l := l), List.mem_append] at hi
  rcases hi with hi | hi
  · exact Int.lt_irrefl i (h3 i hi i (by simp))
  · exact Int.lt_irrefl i ((List.pairwise_cons.1 h2).1 i hi)

/-- A second instance with an index breaks the list it is put in. -/
theorem not_listsOk_of_taken (h0 : s.InstancesOk) {call : ObjectCall} (h : s.freeIndexTaken call = true)
    (hs : s.objectStep call = some s') : ¬s'.InstanceListsOk := by
  cases call with
  | delete objName => cases h
  | add objName =>
    obtain ⟨⟨r, s''⟩, hr, rfl⟩ := Option.map_eq_some_iff.1 hs
    obtain ⟨name, cache, p, n, instances, key, template, list, ha, hname, x, hx, hl⟩ := adds_of_freeIndexTaken h
    have hleaf := ha.auto hname hr
    have ho := ha.object
    intro hok
    -- the list as it is afterwards
    have hlabels := (labels_setCountLeaf hleaf p).trans (labels_addNodes ho cache instances.freeIndex)
    obtain ⟨L, hL, hLl⟩ := Option.map_eq_some_iff.1 hlabels
    have hnode := get?_setCountLeaf hleaf (get?_addNodes ho instances.freeIndex) rfl
    have hlist := ((cellOk_multiObject rfl).1 (Memory.all_get hok ho.ne_nil hnode hL)).ascending
    have hcells : (L.map Prod.snd).map Cell.label =
        ((listCells key template list).takeWhile (fun c => !c.comesAfter instances.freeIndex) ++
          Cell.inst { template with index := instances.freeIndex } ::
            (listCells key template list).dropWhile (fun c => !c.comesAfter instances.freeIndex)).map Cell.label := by
      have h := congrArg (List.map Prod.snd) hLl
      simp only [List.map_map, Function.comp_def, Prod.map_snd] at h
      rw [List.map_map, Function.comp_def, h, listCells, ← map_snd_insert _ _ (s.tree.nodes.mark, _), List.map_map]
      rfl
    rw [hcells, indices_insert rfl (cellOk_at h0 ho).1.isInstance] at hlist
    refine not_pairwise_insert ?_ hlist
    refine List.mem_filterMap.2 ⟨x.2.label, List.mem_map_of_mem ?_, by rw [hl]; rfl⟩
    exact List.mem_cons_of_mem _ (List.mem_map_of_mem hx)

/-- A call that gives out no id twice keeps the lists. -/
theorem InstancesOk.step (h : s.InstancesOk) {call : ObjectCall} (hc : s.freeIndexTaken call = false)
    (hs : s.objectStep call = some s') : s'.InstancesOk := by
  cases call with
  | add objName =>
    obtain ⟨r, hr, rfl⟩ := Option.map_eq_some_iff.1 hs
    exact h.add (by rw [hc]; decide) hr
  | delete objName =>
    obtain ⟨r, hr, rfl⟩ := Option.map_eq_some_iff.1 hs
    exact h.delete hr

/-- **Instance lists stay as they should be, while no template is copied with instances, exactly as long as no automatic id is
one that an instance has already.** -/
theorem instance_lists_ok_iff {s₀ : TreeState} (h0 : s₀.InstancesOk) {tr : List (Transition ListState ObjectCall)}
    {s : ListState} (hrun : Run (ListState.step objectStep copiesInstances) s₀.own tr s) (hbare : Meets CopiesBare tr) :
    Always ListsOk tr ↔ Meets GivesFreeIndex tr := by
  refine (hrun.restrict hbare).all_iff (I := fun s => s.shared = false ∧ s.state.InstancesOk) ⟨rfl, h0⟩
    (fun s call s' ⟨hown, hs⟩ hc ⟨hl, hcopies⟩ => ?_) (fun s call s' ⟨hown, hs⟩ hc ⟨hl, _⟩ => ?_)
  · obtain ⟨hl, hshared⟩ := ListState.step_own hown hl
    have h := hs.step hc hl
    exact ⟨⟨hshared.trans hcopies, h⟩, h.lists⟩
  · exact not_listsOk_of_taken hs (by simpa [GivesFreeIndex] using hc) (ListState.step_own hown hl).1

instance (s : TreeState) : Decidable s.InstanceListsOk := inferInstanceAs (Decidable (Forest.All _ _))

instance (s : TreeState) : Decidable s.InstancesOk := inferInstanceAs (Decidable (Forest.All _ _))

instance (s : ListState) (call : ObjectCall) (s' : ListState) : Decidable (ListsOk s call s') :=
  inferInstanceAs (Decidable s'.state.InstanceListsOk)

instance (s : ListState) (call : ObjectCall) : Decidable (GivesFreeIndex s call) := inferInstanceAs (Decidable (_ = _))

instance (s : ListState) (call : ObjectCall) : Decidable (CopiesBare s call) := inferInstanceAs (Decidable (_ = _))

/-- A tree with one multi-instance object, `Device.Host.`, and the leaf that counts its instances. -/
def hostTree : TreeState where
  tree :=
    { rootNode := ⟨"Device.".toList, .object, some [0]⟩
      nodes :=
        { forest :=
            .cons 0 (.node ⟨"Device".toList, ⟨true, false⟩, .none, .all, false, 0, 0, .object⟩)
              (.cons 0 (.node ⟨"Host".toList, ⟨true, true⟩, .none, .all, false, 0, 0, .multiObject ⟨1, 8, 0⟩⟩)
                (.cons 0 (.inst ⟨0, ⟨true, true⟩, .none, .all⟩) .nil .nil)
                (.cons 1 (.node ⟨"HostNumberOfEntries".toList, ⟨true, false⟩, .none, .all, false, 0, 8,
                  .leaf (.unsigned 0)⟩) .nil .nil)) .nil
          mark := 2
          separate := by decide } }
  cache := .zero
  gInitSuccess := true

/-- Automatic ids and deletes go well. -/
theorem instance_lists_ok_auto :
    Always ListsOk (play (ListState.next objectStep copiesInstances) hostTree.own
      [.add "Device.Host.".toList, .add "Device.Host.".toList, .delete "Device.Host.1.".toList]).1 :=
  (instance_lists_ok_iff (by decide) (ListState.run_played _) (by unfold Meets; decide +kernel)).2
    (by unfold Meets; decide +kernel)

/-- An automatic id after an explicit 2 does not: `freeIndex` has become 2 as well. -/
theorem instance_lists_not_ok :
    ¬∀ s₀ : TreeState, s₀.InstancesOk → ∀ (tr : List (Transition ListState ObjectCall)) (s : ListState),
      Run (ListState.step objectStep copiesInstances) s₀.own tr s → Always ListsOk tr := by
  intro h
  have hrun : Run (ListState.step objectStep copiesInstances) hostTree.own _ _ := ListState.run_played
    [.add "Device.Host.2.".toList, .add "Device.Host.".toList]
  have hlast := h hostTree (by decide) _ _ hrun _ (List.getLast_mem (by decide +kernel))
  exact absurd hlast (by decide +kernel)

end TreeState

end CodeFactory.Tr69
