import Mathlib.Data.List.Infix
import CodeFactory.Tr69.Value

/-!
# Adding and deleting instances

`add_tr069_object` and `delete_tr069_object`. An instance list is the list of cells below a multi-instance object; its first
cell is the template, from which a new instance is copied. Both operations end with a local write of the leaf that counts the
instances, whose result nobody looks at. What they only write to files is left out.
-/

namespace CodeFactory.Tr69

/-- What `add_tr069_object` makes of the name it is given: the name of the object, and the instance id, 0 for none. There is
no result for the empty name, in which it would read the character before the first. -/
def addName (objName : Text) : Option (Except Result (Text × Int)) :=
  if objName = [] then none
  else if objName.getLast? ≠ some '.' then some (.error .nodeNameError)
  else
    let name := objName.dropLast
    if '.' ∈ name then
      match stringToNum (afterLastDot name) with
      | none => some (.ok (objName, 0))
      | some instanceID => some (.ok (uptoLastDot name, if instanceID ≤ 0 then 0 else instanceID))
    else some (.ok (name, 0))

/-- What `delete_tr069_object` makes of its name, which has to end in an instance id. -/
def deleteName (objName : Text) : Option (Except Result (Text × Int)) :=
  if objName = [] then none
  else if objName.getLast? ≠ some '.' then some (.error .nodeNameError)
  else
    let name := objName.dropLast
    if '.' ∈ name then
      match stringToNum (afterLastDot name) with
      | none => some (.error .nodeNameError)
      -- the id is unsigned here, so only 0 is not positive
      | some instanceID => if instanceID = 0 then some (.error .nodeNameError) else some (.ok (uptoLastDot name, instanceID))
    else some (.error .nodeNameError)

/-- The name of the leaf that counts the instances of the object with the given name, which ends in a dot: the part before it
gives the name of the leaf, and what is before that part, the father. There is no result without two dots. -/
def countLeafName (name : Text) : Option (Text × Text) :=
  let name := uptoLastDot name
  let object := name.dropLast
  if name ≠ [] ∧ '.' ∈ object then some (uptoLastDot object, getNumOfEntriesName (afterLastDot object)) else none

/-- `freeIndex++`, and back to 1 after 65535. -/
def nextFreeIndex (freeIndex : Int) : Int := if freeIndex + 1 > 65535 then 1 else freeIndex + 1

/-- Is the cell an instance that a new one with the given index is put before? -/
def Cell.comesAfter (index : Int) : Cell → Bool
  | .inst i => index < i.index
  | .node _ => false

/-- A multi-instance object in a template holds its own template only. `copy_tr069_node` relies on that: of a nested object it
copies the pointer to the instances and not the instances, so that with some behind it two objects share a list. -/
def Bare (cell : Cell) (kids : List Cell) : Prop := cell.type = .multiObject → kids.length ≤ 1

instance (cell : Cell) (kids : List Cell) : Decidable (Bare cell kids) := inferInstanceAs (Decidable (_ → _))

namespace TreeState

/-- The multi-instance object a pointer leads to: its path, the node, its counters, the key of the template and the template,
and the instances behind it. -/
def multiObject? (s : TreeState) (pointer : Option Pos) :
    Option (Pos × Tr069Node × Tr069Instances × Nat × Tr069Instance × List (Nat × Cell)) :=
  match s.node? pointer with
  | none => none
  | some (p, n) =>
    match n.content, s.tree.nodes.kids p with
    | .multiObject instances, some ((key, .inst template) :: list) => some (p, n, instances, key, template, list)
    | _, _ => none

/-- Write the counters of a multi-instance object. -/
def setInstances (s : TreeState) (p : Pos) (n : Tr069Node) (instances : Tr069Instances) : TreeState :=
  s.setNodes (s.tree.nodes.modify p fun _ => .node { n with content := .multiObject instances })

/-- The last part of both operations: the leaf that counts the instances is set, if there is one, and the result ignored. -/
def setCountLeaf (s : TreeState) (name : Text) (numOfEntries : BitVec 32) : Option TreeState :=
  match countLeafName name with
  | none => none
  | some (fatherName, nodeName) =>
    if nodeName = [] then some s
    else
      (s.setTr069Value .webModule (fatherName ++ nodeName) (.unsigned numOfEntries)).map Prod.snd

/-- Make a new instance: a copy of the template with its own index, before the first cell of the list with a larger one. With
a template that comes after it, the source would write through a null pointer. The tree is as it reads: instances in a template
that is not `Bare` read the same from the template and from its copy, but are there once. -/
def newInstance (s : TreeState) (p : Pos) (key : Nat) (template : Tr069Instance) (instanceID : Int) : Option TreeState :=
  if instanceID < template.index then none
  else
    some (s.setNodes (s.tree.nodes.insertCopy p (p ++ [key]) (Cell.comesAfter instanceID)
      (.inst { template with index := instanceID })))

/-- `add_tr069_object`: the result, and the index, if it is written. -/
def addTr069Object (s : TreeState) (objName : Text) : Option ((Result × Option Int) × TreeState) :=
  match addName objName with
  | none => none
  | some (.error ret) => some ((ret, none), s)
  | some (.ok (name, instanceID)) =>
    s.withNode name (fun ret => (ret, none)) fun entry s =>
      if entry.type ≠ .multiObject then some ((.nodeNameError, none), s) else
      match s.multiObject? entry.node with
      | none => none
      | some (p, n, instances, key, template, list) =>
        if instanceID ≠ 0 ∧ list.any (fun x => x.2.label = .index instanceID) then some ((.tcmagentOk, none), s)
        else if instances.maxNumOfEntries ≤ instances.numOfEntries then some ((.instancesIsFull, none), s)
        else
          -- for an explicit id the source goes through the list once more here
          let instanceID := if instanceID ≠ 0 then instanceID else instances.freeIndex
          match s.newInstance p key template instanceID with
          | none => none
          | some s =>
            let instances :=
              { instances with
                freeIndex := nextFreeIndex instances.freeIndex
                numOfEntries := instances.numOfEntries + 1 }
            let s := s.setInstances p n instances
            (s.setCountLeaf name instances.numOfEntries).map fun s => ((.tcmagentOk, some instanceID), s)

def deleteTr069Object (s : TreeState) (objName : Text) : Option (Result × TreeState) :=
  match deleteName objName with
  | none => none
  | some (.error ret) => some (ret, s)
  | some (.ok (name, instanceID)) =>
    s.withNode name id fun entry s =>
      if entry.type ≠ .multiObject then some (.nodeNameError, s) else
      match s.multiObject? entry.node with
      | none => none
      | some (p, n, instances, _, _, list) =>
        match list.find? fun x => x.2.label = .index instanceID with
        | none => some (.tcmagentOk, s)
        | some (key, _) =>
          let s := s.setNodes (s.tree.nodes.removeAt p key)
          let s := { s with cache := if objName <:+: s.cache.name then s.tree.rootNode else s.cache }
          let instances := { instances with numOfEntries := instances.numOfEntries - 1 }
          let s := s.setInstances p n instances
          (s.setCountLeaf name instances.numOfEntries).map fun s => (.tcmagentOk, s)

/-- At `p` is a multi-instance object, with its counters, the key of its template, the template, and its instances. -/
structure MultiObjectAt (s : TreeState) (p : Pos) (n : Tr069Node) (instances : Tr069Instances) (key : Nat)
    (template : Tr069Instance) (list : List (Nat × Cell)) : Prop where
  node : s.tree.nodes.get? p = some (.node n)
  content : n.content = .multiObject instances
  kids : s.tree.nodes.kids p = some ((key, .inst template) :: list)

variable {s s' : TreeState} {objName : Text} {p : Pos} {n : Tr069Node} {instances : Tr069Instances} {key : Nat}
  {template : Tr069Instance} {list : List (Nat × Cell)}

theorem multiObject?_eq_some {pointer : Option Pos} :
    s.multiObject? pointer = some (p, n, instances, key, template, list) ↔
      pointer = some p ∧ s.MultiObjectAt p n instances key template list := by
  unfold multiObject?
  constructor
  · intro h
    split at h
    · cases h
    · rename_i q m hn
      obtain ⟨hp, hn⟩ := node?_eq_some.1 hn
      split at h
      · rename_i hc hk
        cases h
        exact ⟨hp, hn, hc, hk⟩
      · cases h
  · rintro ⟨hp, hn, hc, hk⟩
    rw [node?_eq_some.2 ⟨hp, hn⟩]
    simp only [hc, hk]

theorem newInstance_eq_some {instanceID : Int} :
    s.newInstance p key template instanceID = some s' ↔
      ¬instanceID < template.index ∧
        s' = s.setNodes (s.tree.nodes.insertCopy p (p ++ [key]) (Cell.comesAfter instanceID)
          (.inst { template with index := instanceID })) := by
  unfold newInstance
  split
  · rename_i h
    constructor
    · intro he
      cases he
    · rintro ⟨hnot, _⟩
      exact absurd h hnot
  · rename_i h
    rw [Option.some.injEq, eq_comm]
    exact ⟨fun he => ⟨h, he⟩, fun he => he.2⟩

theorem MultiObjectAt.ne_nil (h : s.MultiObjectAt p n instances key template list) : p ≠ [] := by
  rintro rfl
  exact absurd h.node (by simp)

/-- The counters of an object after an instance was added. -/
def added (instances : Tr069Instances) : Tr069Instances :=
  { instances with
    freeIndex := nextFreeIndex instances.freeIndex
    numOfEntries := instances.numOfEntries + 1 }

/-- The nodes after an instance was added and the counters were written. -/
def addNodes (m : Memory Cell) (p : Pos) (n : Tr069Node) (instances : Tr069Instances) (key : Nat)
    (template : Tr069Instance) (instanceID : Int) : Memory Cell :=
  (m.insertCopy p (p ++ [key]) (Cell.comesAfter instanceID) (.inst { template with index := instanceID })).modify p
    fun _ => .node { n with content := .multiObject (added instances) }

/-- The counters of an object after an instance was deleted. -/
def deleted (instances : Tr069Instances) : Tr069Instances :=
  { instances with numOfEntries := instances.numOfEntries - 1 }

/-- The nodes after an instance was deleted and the counters were written. -/
def deleteNodes (m : Memory Cell) (p : Pos) (n : Tr069Node) (instances : Tr069Instances) (key : Nat) : Memory Cell :=
  (m.removeAt p key).modify p fun _ => .node { n with content := .multiObject (deleted instances) }

/-- An add that makes a new instance, with the id it gives it. -/
structure Adds (s : TreeState) (objName name : Text) (cache : Tr069NodeEntry) (p : Pos) (n : Tr069Node)
    (instances : Tr069Instances) (key : Nat) (template : Tr069Instance) (list : List (Nat × Cell)) (instanceID : Int) :
    Prop where
  lookup : ∃ entry, s.tree.getTr069NodeByName s.cache name = .ok (entry, cache) ∧ entry.type = .multiObject ∧
    entry.node = some p
  object : s.MultiObjectAt p n instances key template list
  notFull : instances.numOfEntries < instances.maxNumOfEntries
  id : addName objName = some (.ok (name, 0)) ∧ instanceID = instances.freeIndex ∨
    addName objName = some (.ok (name, instanceID)) ∧ instanceID ≠ 0 ∧ ∀ x ∈ list, x.2.label ≠ .index instanceID

/-- What `add_tr069_object` does: nothing but move the cache, or make a new instance and set the leaf that counts. -/
theorem addTr069Object_cases {r : Result × Option Int} (h : s.addTr069Object objName = some (r, s')) :
    (∃ cache, s.Looked cache ∧ s' = { s with cache := cache }) ∨
      ∃ name cache p n instances key template list instanceID,
        s.Adds objName name cache p n instances key template list instanceID ∧ ¬instanceID < template.index ∧
        r = (.tcmagentOk, some instanceID) ∧
        ({ s with cache := cache }.setNodes (addNodes s.tree.nodes p n instances key template instanceID)).setCountLeaf
          name (added instances).numOfEntries = some s' := by
  unfold addTr069Object at h
  split at h
  · cases h
  · cases h
    exact Or.inl ⟨s.cache, Or.inl rfl, rfl⟩
  rename_i name id hname
  rcases withNode_eq_some h with ⟨_, _, _, rfl⟩ | ⟨entry, cache, he, h⟩
  · exact Or.inl ⟨s'.cache, Or.inl rfl, rfl⟩
  split at h
  · cases h
    exact Or.inl ⟨cache, Or.inr ⟨name, entry, he⟩, rfl⟩
  rename_i htype
  rw [not_not] at htype
  split at h
  · cases h
  rename_i p n instances key template list hm
  obtain ⟨hp, hm⟩ := multiObject?_eq_some.1 hm
  split at h
  · cases h
    exact Or.inl ⟨cache, Or.inr ⟨name, entry, he⟩, rfl⟩
  rename_i hfree
  split at h
  · cases h
    exact Or.inl ⟨cache, Or.inr ⟨name, entry, he⟩, rfl⟩
  rename_i hfull
  simp only at h
  split at h
  · cases h
  rename_i s₁ hnew
  obtain ⟨s₂, hleaf, h⟩ := Option.map_eq_some_iff.1 h
  obtain ⟨rfl, rfl⟩ := Prod.mk.inj h
  obtain ⟨hindex, rfl⟩ := newInstance_eq_some.1 hnew
  refine Or.inr ⟨name, cache, p, n, instances, key, template, list, _,
    ⟨⟨entry, he, htype, hp⟩, ⟨hm.node, hm.content, hm.kids⟩, by simpa using hfull, ?_⟩, hindex, rfl, hleaf⟩
  by_cases hid : id = 0
  · subst hid
    exact Or.inl ⟨hname, rfl⟩
  · rw [if_pos hid]
    refine Or.inr ⟨hname, hid, fun x hx hl => hfree ⟨hid, ?_⟩⟩
    exact List.any_eq_true.2 ⟨x, hx, by simpa using hl⟩

/-- A delete that takes away the instance with the key `key'`. -/
structure Deletes (s : TreeState) (objName name : Text) (cache : Tr069NodeEntry) (p : Pos) (n : Tr069Node)
    (instances : Tr069Instances) (key : Nat) (template : Tr069Instance) (list : List (Nat × Cell)) (key' : Nat) : Prop where
  lookup : ∃ entry, s.tree.getTr069NodeByName s.cache name = .ok (entry, cache) ∧ entry.type = .multiObject ∧
    entry.node = some p
  object : s.MultiObjectAt p n instances key template list
  found : ∃ instanceID cell, deleteName objName = some (.ok (name, instanceID)) ∧ (key', cell) ∈ list ∧
    cell.label = .index instanceID

/-- What `delete_tr069_object` does: nothing but move the cache, or take away an instance and set the leaf that counts. -/
theorem deleteTr069Object_cases {ret : Result} (h : s.deleteTr069Object objName = some (ret, s')) :
    (∃ cache, s.Looked cache ∧ s' = { s with cache := cache }) ∨
      ∃ name cache cache' p n instances key template list key',
        s.Deletes objName name cache p n instances key template list key' ∧
        cache' = (if objName <:+: cache.name then s.tree.rootNode else cache) ∧ ret = .tcmagentOk ∧
        ({ s with cache := cache' }.setNodes (deleteNodes s.tree.nodes p n instances key')).setCountLeaf
          name (deleted instances).numOfEntries = some s' := by
  unfold deleteTr069Object at h
  split at h
  · cases h
  · cases h
    exact Or.inl ⟨s.cache, Or.inl rfl, rfl⟩
  rename_i name id hname
  rcases withNode_eq_some h with ⟨_, _, _, rfl⟩ | ⟨entry, cache, he, h⟩
  · exact Or.inl ⟨s'.cache, Or.inl rfl, rfl⟩
  split at h
  · cases h
    exact Or.inl ⟨cache, Or.inr ⟨name, entry, he⟩, rfl⟩
  rename_i htype
  rw [not_not] at htype
  split at h
  · cases h
  rename_i p n instances key template list hm
  obtain ⟨hp, hm⟩ := multiObject?_eq_some.1 hm
  split at h
  · cases h
    exact Or.inl ⟨cache, Or.inr ⟨name, entry, he⟩, rfl⟩
  rename_i key' cell hfind
  obtain ⟨s₂, hleaf, h⟩ := Option.map_eq_some_iff.1 h
  obtain ⟨rfl, rfl⟩ := Prod.mk.inj h
  exact Or.inr ⟨name, cache, _, p, n, instances, key, template, list, key',
    ⟨⟨entry, he, htype, hp⟩, ⟨hm.node, hm.content, hm.kids⟩, id, cell, hname, List.mem_of_find?_eq_some hfind,
      by simpa using List.find?_some hfind⟩, rfl, rfl, hleaf⟩

/-- What the count leaf is set to, it is set by a local write of that leaf. -/
theorem setCountLeaf_eq_some {name : Text} {numOfEntries : BitVec 32}
    (h : s.setCountLeaf name numOfEntries = some s') :
    ∃ fatherName nodeName, countLeafName name = some (fatherName, nodeName) ∧
      (nodeName = [] ∧ s' = s ∨ nodeName ≠ [] ∧
        ∃ ret, s.setTr069Value .webModule (fatherName ++ nodeName) (.unsigned numOfEntries) = some (ret, s')) := by
  unfold setCountLeaf at h
  split at h
  · cases h
  · rename_i fatherName nodeName hname
    refine ⟨fatherName, nodeName, hname, ?_⟩
    split at h
    · rename_i hn
      exact Or.inl ⟨hn, (Option.some.inj h).symm⟩
    · rename_i hn
      obtain ⟨⟨ret, s₁⟩, hs, rfl⟩ := Option.map_eq_some_iff.1 h
      exact Or.inr ⟨hn, ret, hs⟩

theorem labels_setCountLeaf {name : Text} {numOfEntries : BitVec 32} (h : s.setCountLeaf name numOfEntries = some s')
    (q : Pos) : s'.tree.labels q = s.tree.labels q := by
  obtain ⟨_, _, _, ⟨_, rfl⟩ | ⟨_, _, hset⟩⟩ := setCountLeaf_eq_some h
  · rfl
  · exact labels_setTr069Value hset q

theorem get?_setCountLeaf {name : Text} {numOfEntries : BitVec 32} {q : Pos} {c : Cell}
    (h : s.setCountLeaf name numOfEntries = some s') (hq : s.tree.nodes.get? q = some c) (hc : c.value? = none) :
    s'.tree.nodes.get? q = some c := by
  obtain ⟨_, _, _, ⟨_, rfl⟩ | ⟨_, _, hset⟩⟩ := setCountLeaf_eq_some h
  · exact hq
  · exact get?_setTr069Value hset hq hc

/-- An add that leaves the choice of the id to the object, and makes a new instance, gives it `freeIndex`. -/
theorem Adds.auto {name : Text} {cache : Tr069NodeEntry} {id : Int} {r : Result × Option Int}
    (ha : s.Adds objName name cache p n instances key template list id) (hname : addName objName = some (.ok (name, 0)))
    (h : s.addTr069Object objName = some (r, s')) :
    ({ s with cache := cache }.setNodes
      (addNodes s.tree.nodes p n instances key template instances.freeIndex)).setCountLeaf name
        (added instances).numOfEntries = some s' := by
  obtain ⟨⟨entry, he, htype, hp⟩, hm, hfull, _⟩ := ha
  have hfull' : ¬instances.maxNumOfEntries ≤ instances.numOfEntries := by simpa using hfull
  have hm' : ({ s with cache := cache } : TreeState).multiObject? entry.node =
      some (p, n, instances, key, template, list) :=
    multiObject?_eq_some.2 ⟨hp, hm.node, hm.content, hm.kids⟩
  simp only [addTr069Object, hname, withNode, he, htype, ne_eq, not_true_eq_false, if_false, hm', false_and, hfull'] at h
  split at h
  · cases h
  rename_i s₁ hnew
  obtain ⟨s₂, hleaf, hr⟩ := Option.map_eq_some_iff.1 h
  obtain ⟨_, rfl⟩ := Prod.mk.inj hr
  obtain ⟨_, rfl⟩ := newInstance_eq_some.1 hnew
  exact hleaf

theorem get?_addNodes (ho : s.MultiObjectAt p n instances key template list) (instanceID : Int) :
    (addNodes s.tree.nodes p n instances key template instanceID).get? p =
      some (.node { n with content := .multiObject (added instances) }) := by
  rw [addNodes, Memory.get?_modify, if_pos rfl, Memory.get?_insertCopy ho.ne_nil (Memory.lt_mark ho.node), ho.node]
  rfl

/-- The instance list of the object after an add, by what its cells are found by. -/
theorem labels_addNodes (ho : s.MultiObjectAt p n instances key template list) (cache : Tr069NodeEntry) (instanceID : Int) :
    ({ s with cache := cache }.setNodes (addNodes s.tree.nodes p n instances key template instanceID)).tree.labels p =
      some ((((key, Cell.inst template) :: list).takeWhile (fun x => !x.2.comesAfter instanceID) ++
        (s.tree.nodes.mark, Cell.inst { template with index := instanceID }) ::
          ((key, Cell.inst template) :: list).dropWhile (fun x => !x.2.comesAfter instanceID)).map
        (Prod.map id Cell.label)) := by
  rw [Tr069Tree.labels, setNodes_nodes, addNodes, Memory.kids_modify, Memory.kids_insertCopy _ ho.ne_nil, ho.kids]
  · rfl
  · intro a ha
    rw [Memory.get?_insertCopy ho.ne_nil (Memory.lt_mark ho.node), ho.node] at ha
    exact Option.some.inj ha ▸ rfl

end TreeState

end CodeFactory.Tr69
