import CodeFactory.Tr69.WalkLookup

/-!
# Filling the array of a father

`add_tr069_node_internal`, which the loader of the tree calls for every node of the file. The array below the father has as many slots
as the file declares and is zero at first; a node is put in its place by its name, and the nodes before it move to the front, into
the free slots. So the free slots are always the first ones, the nodes behind them are in the order of their names, and the search
of `get_tr069_node_by_name`, which goes through one half of the array, finds what going through all of it finds.
-/

namespace CodeFactory.Tr69

/-- A slot of an array of nodes: as `memset` has left it, or with a node. -/
inductive Slot where
  | free
  | node (n : Tr069Node)
  deriving DecidableEq, Repr

/-- The name in a slot; a free one has the empty name. -/
def Slot.name : Slot → Text
  | .free => []
  | .node n => n.name

/-- What `init_tr069_node` builds for an instance: the `Tr069Instances` with the template, and the array below it. -/
structure Template where
  instances : Tr069Instances
  defaultInstance : Tr069Instance
  subNode : List Slot
  deriving DecidableEq, Repr

/-- The node of the entry that is added. -/
inductive Added where
  | node (n : Tr069Node)
  | instances (template : Template)
  deriving DecidableEq, Repr

/-- The fathers with an array. -/
inductive ArrayOwner where
  | object | inst
  deriving DecidableEq, Repr

/-- The node of the father's entry, by its type. -/
inductive Father where
  | multiObject (instances : Template)
  | array (owner : ArrayOwner) (subNode : List Slot)
  | leaf
  deriving DecidableEq, Repr

/-- The loop that looks for the place of a name: the index it stops at, the number of slots if it does not stop before the end. It
gives up at the last slot if none has been free. -/
def findPlace (name : Text) : (haveFree : Bool) → List Slot → Option Nat
  | _, [] => some 0
  | haveFree, slot :: rest =>
    let haveFree := haveFree || slot.name = []
    if rest = [] ∧ haveFree = false then none
    else if name < slot.name then some 0
    else (findPlace name haveFree rest).map (· + 1)

/-- The loop that moves the slots before the index `i`, but for the first, one to the front. -/
def moveToFront (subNode : List Slot) (i : Nat) : List Slot :=
  (List.range' 1 (i - 1)).foldl (fun subNode j => subNode.set (j - 1) (subNode.getD j .free)) subNode

/-- A node is added to an array. An array without slots has no first one to look at, and no index is before the first slot. -/
def addToArray (node : Tr069Node) (subNode : List Slot) : Option (Result × List Slot) :=
  match subNode.head? with
  | none => none
  | some first =>
    if first.name ≠ [] then some (.nodeNumError, subNode) else
    match findPlace node.name false subNode with
    | none => some (.nodeNumError, subNode)
    | some i =>
      if i = 0 then none else
      let destIndex := if i = subNode.length then subNode.length - 1 else i - 1
      some (.tcmagentOk, (moveToFront subNode i).set destIndex (.node node))

/-- `add_tr069_node_internal`: the result and the father. -/
def addTr069NodeInternal (entry : Option Added) (fatherEntry : Option Father) : Option (Result × Option Father) :=
  match entry, fatherEntry with
  | some (.instances node), some (.multiObject _) => some (.tcmagentOk, some (.multiObject node))
  | some (.node _), some (.multiObject _) => some (.nodeTypeError, fatherEntry)
  | some (.instances _), some (.array _ _) => some (.nodeTypeError, fatherEntry)
  | some (.node node), some (.array owner subNode) =>
    (addToArray node subNode).map fun x => (x.1, some (.array owner x.2))
  | some _, some .leaf => some (.nodeTypeError, fatherEntry)
  | _, _ => some (.nodeNotFound, fatherEntry)

/-- A sequence of calls for one father. -/
def addEach : List Added → Option Father → Option (List Result × Option Father)
  | [], fatherEntry => some ([], fatherEntry)
  | entry :: entries, fatherEntry =>
    (addTr069NodeInternal (some entry) fatherEntry).bind fun x =>
      (addEach entries x.2).map fun y => (x.1 :: y.1, y.2)

/-- What the search finds the slots by, each under its index. -/
def slotLabels (subNode : List Slot) : List (Nat × Label) := subNode.zipIdx.map fun x => (x.2, .name x.1.name)

/-- Going through the whole array. -/
def linearScan (name : Text) (array : List (Nat × Label)) : Except Stop Nat :=
  match array.find? fun x => x.2 = .name name with
  | some x => .ok x.1
  | none => .error (.endret .nodeNotFound)

/-- The array with the nodes that have been added: the free slots, then the nodes in the order of their names, and the search in one
half finds what there is. -/
structure Filled (num : Nat) (nodes : List Tr069Node) (subNode : List Slot) : Prop where
  sorted : ∃ children : List Tr069Node, children.Perm nodes ∧ children.Pairwise (fun a b => a.name < b.name) ∧
    subNode = List.replicate (num - nodes.length) .free ++ children.map .node
  search : ∀ name, bisearch name (slotLabels subNode) = linearScan name (slotLabels subNode)

/-! ## The search -/

/-- **In an array in order the search in one half is the search in all of it.** -/
theorem bisearch_eq_linearScan {xs : List (Nat × Text)} (hne : xs ≠ []) (hsorted : xs.Pairwise fun a b => ¬b.2 < a.2) (name : Text) :
    bisearch name (xs.map (Prod.map id Label.name)) = linearScan name (xs.map (Prod.map id Label.name)) := by
  have hpos : 0 < xs.length := List.length_pos_iff.2 hne
  obtain ⟨middle, hmiddle⟩ : ∃ m, (xs.length + 1) / 2 = m + 1 := ⟨(xs.length + 1) / 2 - 1, by omega⟩
  obtain ⟨⟨key, tmp⟩, hget⟩ : ∃ x, xs[middle]? = some x := by
    rw [← Option.isSome_iff_exists, isSome_getElem?]
    omega
  have hdrop : xs.drop middle = (key, tmp) :: xs.drop (middle + 1) := List.drop_eq_getElem?_toList_append.trans (by simp [hget])
  -- the names before the middle one and those behind it
  rw [← List.take_append_drop middle xs, List.pairwise_append, hdrop, List.pairwise_cons] at hsorted
  obtain ⟨_, ⟨hbehind, _⟩, hbefore⟩ := hsorted
  have hfind : ∀ ys : List (Nat × Text), (ys.map (Prod.map id Label.name)).find? (fun x => x.2 = .name name) =
      (ys.find? fun x => x.2 = name).map (Prod.map id Label.name) := by
    intro ys
    rw [List.find?_map]
    congr 2
    funext x
    simp
  have hwhole : xs.find? (fun x => x.2 = name) =
      if ¬tmp < name then (xs.take (middle + 1)).find? fun x => x.2 = name else (xs.drop middle).find? fun x => x.2 = name := by
    split
    · rename_i hle
      conv_lhs => rw [← List.take_append_drop (middle + 1) xs]
      rw [List.find?_append]
      cases hlater : (xs.drop (middle + 1)).find? fun x => x.2 = name with
      | none => simp
      | some x =>
        -- the name is the middle one, which is in the first half
        have hx : x.2 = name := by simpa using List.find?_some hlater
        have hnot := hbehind x (List.mem_of_find?_eq_some hlater)
        rw [hx] at hnot
        have htmp : tmp = name := List.le_antisymm (List.not_lt.1 hnot) (List.not_lt.1 hle)
        have hmem : (key, tmp) ∈ xs.take (middle + 1) := List.mem_of_getElem? (i := middle) (by simp [hget])
        obtain ⟨y, hy⟩ := Option.isSome_iff_exists.1
          (List.find?_isSome.2 ⟨_, hmem, by simp [htmp]⟩ : ((xs.take (middle + 1)).find? fun x => x.2 = name).isSome)
        rw [hy]
        rfl
    · rename_i hlt
      rw [not_not] at hlt
      conv_lhs => rw [← List.take_append_drop middle xs]
      rw [List.find?_append]
      have hnone : (xs.take middle).find? (fun x => x.2 = name) = none := by
        rw [List.find?_eq_none]
        intro x hx hname
        have hname' : x.2 = name := by simpa using hname
        exact hbefore x hx (key, tmp) List.mem_cons_self (hname' ▸ hlt)
      rw [hnone]
      rfl
  unfold bisearch linearScan
  simp only [List.length_map, hmiddle, Nat.add_sub_cancel, List.getElem?_map, hget, Option.map_some, Prod.map, id]
  by_cases hle : ¬tmp < name
  · simp only [if_pos hle] at hwhole ⊢
    rw [← List.map_take]
    cases hfound : (xs.take (middle + 1)).find? fun x => x.2 = name <;> simp only [hfind, hwhole, hfound, Option.map_none, Option.map_some]
  · simp only [if_neg hle] at hwhole ⊢
    rw [← List.map_drop]
    cases hfound : (xs.drop middle).find? fun x => x.2 = name <;> simp only [hfind, hwhole, hfound, Option.map_none, Option.map_some]

/-! ## The insertion -/

/-- The slots are moved to the front, up to the one before the index. -/
theorem moveToFront_eq {subNode : List Slot} {i : Nat} (hi : i < subNode.length) :
    moveToFront subNode (i + 1) = subNode.tail.take i ++ subNode.drop i := by
  induction i with
  | zero => rfl
  | succ i ih =>
    have hbefore := ih (by omega)
    have hlength : (subNode.tail.take i).length = i := by
      rw [List.length_take, List.length_tail]
      omega
    have hdrop : subNode.drop i = subNode[i] :: subNode[i + 1] :: subNode.drop (i + 2) := by
      rw [List.drop_eq_getElem_cons (by omega : i < subNode.length), List.drop_eq_getElem_cons hi]
    have htake : subNode.tail.take (i + 1) = subNode.tail.take i ++ [subNode[i + 1]] := by
      rw [List.take_succ_eq_append_getElem (by rw [List.length_tail]; omega), List.getElem_tail]
    unfold moveToFront at hbefore ⊢
    simp only [Nat.add_sub_cancel] at hbefore ⊢
    have hround : ∀ front : List Slot, front.length = i → ∀ rest,
        (front ++ subNode[i] :: subNode[i + 1] :: rest).set i
          ((front ++ subNode[i] :: subNode[i + 1] :: rest).getD (i + 1) .free) =
            front ++ subNode[i + 1] :: subNode[i + 1] :: rest := by
      rintro front rfl rest
      simp [List.set_append_right, List.getD_eq_getElem?_getD]
    have hlast : 1 + 1 * i = i + 1 := by omega
    rw [List.range'_concat, List.foldl_append, hbefore, hdrop, htake, List.foldl_cons, List.foldl_nil, hlast, Nat.add_sub_cancel,
      hround _ hlength, List.drop_eq_getElem_cons hi, List.append_assoc]
    rfl

/-- The loop stops behind the names that are not after the one looked for, if a slot is free. -/
theorem findPlace_eq {name : Text} {haveFree : Bool} {subNode : List Slot}
    (h : haveFree = true ∨ ∃ slot ∈ subNode.head?, slot.name = []) :
    findPlace name haveFree subNode = some (subNode.takeWhile fun slot => ¬name < slot.name).length := by
  induction subNode generalizing haveFree with
  | nil => rfl
  | cons slot rest ih =>
    have hfree : (haveFree || slot.name = []) = true := by
      rcases h with h | ⟨first, hfirst, hname⟩
      · simp [h]
      · obtain rfl : slot = first := by simpa using hfirst
        simp [hname]
    unfold findPlace
    simp only [hfree, Bool.true_eq_false, and_false, if_false]
    by_cases hlt : name < slot.name
    · simp [hlt]
    · rw [if_neg hlt, ih (Or.inl rfl), List.takeWhile_cons_of_pos (by simpa using hlt)]
      rfl

/-- The children with one more, in its place. -/
def insertChild (node : Tr069Node) (children : List Tr069Node) : List Tr069Node :=
  (children.takeWhile fun c => ¬node.name < c.name) ++ node :: children.dropWhile fun c => ¬node.name < c.name

/-- **A node is put in its place, and takes a free slot.** -/
theorem addToArray_eq (node : Tr069Node) (free : Nat) (children : List Tr069Node) :
    addToArray node (List.replicate (free + 1) .free ++ children.map .node) =
      some (.tcmagentOk, List.replicate free .free ++ (insertChild node children).map .node) := by
  obtain ⟨before, behind, hbefore, hbehind, hsplit⟩ : ∃ before behind,
      (children.takeWhile fun c => ¬node.name < c.name) = before ∧ (children.dropWhile fun c => ¬node.name < c.name) = behind ∧
        children = before ++ behind := ⟨_, _, rfl, rfl, List.takeWhile_append_dropWhile.symm⟩
  rw [insertChild, hbefore, hbehind]
  generalize hsubNode : List.replicate (free + 1) Slot.free ++ children.map Slot.node = subNode
  have hparts : subNode = Slot.free :: (List.replicate free .free ++ before.map .node) ++ behind.map .node := by
    rw [← hsubNode, hsplit, List.replicate_succ]
    simp
  have hwhile : (subNode.takeWhile fun slot => ¬node.name < slot.name) = List.replicate (free + 1) .free ++ before.map .node := by
    rw [← hsubNode, List.takeWhile_append_of_pos, List.takeWhile_map, ← hbefore]
    · rfl
    · intro slot hslot
      rw [List.eq_of_mem_replicate hslot]
      simp [Slot.name]
  have hplace : findPlace node.name false subNode = some (free + before.length + 1) := by
    rw [findPlace_eq (Or.inr ⟨.free, by simp [hparts], rfl⟩), hwhile]
    simp
    omega
  have hlength : subNode.length = free + before.length + 1 + behind.length := by
    rw [hparts]
    simp
    omega
  have hmove : moveToFront subNode (free + before.length + 1) =
      (List.replicate free .free ++ before.map .node) ++ subNode.drop (free + before.length) := by
    rw [moveToFront_eq (by omega), hparts, List.cons_append, List.tail_cons, List.take_left' (by simp)]
  have hdest : (if free + before.length + 1 = subNode.length then subNode.length - 1 else free + before.length + 1 - 1) =
      free + before.length := by
    split <;> omega
  have hrest : (Slot.free :: (List.replicate free .free ++ before.map Slot.node)).drop (free + before.length) ++ behind.map .node =
      subNode.drop (free + before.length) := by
    rw [hparts, List.drop_append_of_le_length (by simp)]
  obtain ⟨last, hlast⟩ : ∃ last, (Slot.free :: (List.replicate free .free ++ before.map Slot.node)).drop (free + before.length) =
      [last] := by
    rw [← List.length_eq_one_iff, List.length_drop]
    simp
  unfold addToArray
  have hhead : subNode.head? = some .free := by simp [hparts]
  simp only [hhead, Slot.name, ne_eq, not_true_eq_false, if_false, hplace, Nat.add_one_ne_zero, hdest, hmove, ← hrest, hlast]
  rw [List.set_append_right _ _ (by simp)]
  simp

theorem perm_insertChild (node : Tr069Node) (children : List Tr069Node) : (insertChild node children).Perm (node :: children) := by
  have hsplit : (children.takeWhile fun c => ¬node.name < c.name) ++ (children.dropWhile fun c => ¬node.name < c.name) = children :=
    List.takeWhile_append_dropWhile
  rw [insertChild]
  refine List.perm_middle.trans ?_
  rw [hsplit]

/-- The order is kept, if the name is a new one. -/
theorem pairwise_insertChild {node : Tr069Node} {children : List Tr069Node} (h : children.Pairwise fun a b => a.name < b.name)
    (hnew : ∀ c ∈ children, c.name ≠ node.name) : (insertChild node children).Pairwise fun a b => a.name < b.name := by
  induction children with
  | nil => simp [insertChild]
  | cons c children ih =>
    obtain ⟨hc, hchildren⟩ := List.pairwise_cons.1 h
    by_cases hlt : node.name < c.name
    · -- the new node is the first
      have hfirst : insertChild node (c :: children) = node :: c :: children := by
        rw [insertChild, List.takeWhile_cons_of_neg (by simpa using hlt), List.dropWhile_cons_of_neg (by simpa using hlt)]
        rfl
      rw [hfirst, List.pairwise_cons]
      refine ⟨?_, h⟩
      intro x hx
      rcases List.mem_cons.1 hx with rfl | hx
      · exact hlt
      · exact List.lt_trans hlt (hc x hx)
    · have hlater : insertChild node (c :: children) = c :: insertChild node children := by
        rw [insertChild, List.takeWhile_cons_of_pos (by simpa using hlt), List.dropWhile_cons_of_pos (by simpa using hlt)]
        rfl
      rw [hlater, List.pairwise_cons]
      refine ⟨?_, ih hchildren fun x hx => hnew x (List.mem_cons_of_mem _ hx)⟩
      intro x hx
      rcases List.mem_cons.1 ((perm_insertChild node children).subset hx) with rfl | hx
      · have hle : ¬x.name < c.name := hlt
        have hne := hnew c List.mem_cons_self
        by_contra hnot
        exact hne (List.le_antisymm (List.not_lt.1 hle) (List.not_lt.1 hnot))
      · exact hc x hx

/-! ## A sequence of calls -/

/-- An array in which the free slots are the first, and the nodes behind them in order, is in order. -/
theorem pairwise_slotNames (free : Nat) {children : List Tr069Node} (h : children.Pairwise fun a b => a.name < b.name) :
    (List.replicate free Slot.free ++ children.map Slot.node).Pairwise fun a b => ¬b.name < a.name := by
  rw [List.pairwise_append]
  refine ⟨?_, ?_, ?_⟩
  · refine List.pairwise_replicate.2 (Or.inr ?_)
    exact List.not_lt_nil _
  · rw [List.pairwise_map]
    refine h.imp ?_
    intro a b hab hba
    exact List.lt_irrefl _ (List.lt_trans hab hba)
  · intro a ha b _
    rw [List.eq_of_mem_replicate ha]
    exact List.not_lt_nil _

/-- The search in such an array finds what there is. -/
theorem bisearch_slotLabels {subNode : List Slot} (hne : subNode ≠ []) (h : subNode.Pairwise fun a b => ¬b.name < a.name)
    (name : Text) : bisearch name (slotLabels subNode) = linearScan name (slotLabels subNode) := by
  have hlabels : slotLabels subNode = (subNode.zipIdx.map fun x => (x.2, x.1.name)).map (Prod.map id Label.name) := by
    rw [List.map_map]
    rfl
  rw [hlabels]
  refine bisearch_eq_linearScan (by simpa using hne) ?_ name
  rw [List.pairwise_map]
  have hzip : (subNode.zipIdx.map Prod.fst).Pairwise fun a b => ¬b.name < a.name := by
    rw [List.zipIdx_map_fst]
    exact h
  exact List.pairwise_map.1 hzip

/-- **The calls for a father**, from an array with so many free slots and the children before them in order. -/
theorem addEach_children (owner : ArrayOwner) {nodes children : List Tr069Node} (free : Nat)
    (h : children.Pairwise fun a b => a.name < b.name) (hd : ((children ++ nodes).map Tr069Node.name).Nodup) :
    ∃ children' : List Tr069Node, children'.Perm (children ++ nodes) ∧ (children'.Pairwise fun a b => a.name < b.name) ∧
      addEach (nodes.map .node) (some (.array owner (List.replicate (free + nodes.length) .free ++ children.map .node))) =
        some (List.replicate nodes.length .tcmagentOk, some (.array owner (List.replicate free .free ++ children'.map .node))) := by
  induction nodes generalizing children with
  | nil => exact ⟨children, by simp, h, rfl⟩
  | cons node nodes ih =>
    have hperm : (insertChild node children ++ nodes).Perm (children ++ node :: nodes) :=
      ((perm_insertChild node children).append_right nodes).trans List.perm_middle.symm
    have hnew : ∀ c ∈ children, c.name ≠ node.name := by
      intro c hc
      rw [List.map_append, List.nodup_append] at hd
      exact hd.2.2 _ (List.mem_map.2 ⟨c, hc, rfl⟩) _ (List.mem_map.2 ⟨node, List.mem_cons_self, rfl⟩)
    obtain ⟨children', hperm', hsorted, hadd⟩ := ih (pairwise_insertChild h hnew) ((hperm.map Tr069Node.name).nodup_iff.2 hd)
    refine ⟨children', hperm'.trans hperm, hsorted, ?_⟩
    rw [List.map_cons, addEach, List.length_cons, ← Nat.add_assoc]
    simp only [addTr069NodeInternal, addToArray_eq, Option.map_some, Option.bind_some, hadd]
    rfl

/-- **The array is filled from its end, in order**: whatever the order in which the nodes come, as long as they fit and have distinct
names, every call succeeds, the nodes stand behind the free slots in the order of their names, and the search in one half of the
array finds a name where going through the array does. -/
theorem addEach_filled {num : Nat} (hnum : 0 < num) (owner : ArrayOwner) {nodes : List Tr069Node} (hfit : nodes.length ≤ num)
    (hd : (nodes.map Tr069Node.name).Nodup) :
    ∃ subNode, addEach (nodes.map .node) (some (.array owner (List.replicate num .free))) =
        some (List.replicate nodes.length .tcmagentOk, some (.array owner subNode)) ∧ Filled num nodes subNode := by
  obtain ⟨children, hperm, hsorted, hadd⟩ := addEach_children owner (num - nodes.length) List.Pairwise.nil hd
  rw [Nat.sub_add_cancel hfit, List.map_nil, List.append_nil] at hadd
  refine ⟨_, hadd, ⟨children, hperm, hsorted, rfl⟩, ?_⟩
  intro name
  refine bisearch_slotLabels ?_ (pairwise_slotNames _ hsorted) name
  have hlength : children.length = nodes.length := hperm.length_eq
  rw [← List.length_pos_iff, List.length_append, List.length_replicate, List.length_map]
  omega

def leafNode (name : String) : Tr069Node := ⟨name.toList, ⟨true, true⟩, .none, .all, false, 0, 16, .leaf (.string [])⟩

/-- Two nodes, not in the order of their names, for an array of three slots. -/
theorem addEach_filled_two :
    ∃ subNode, addEach ([leafNode "Name", leafNode "Host"].map .node) (some (.array .object (List.replicate 3 .free))) =
        some (List.replicate 2 .tcmagentOk, some (.array .object subNode)) ∧ Filled 3 [leafNode "Name", leafNode "Host"] subNode :=
  addEach_filled (by decide) .object (by decide) (by decide)

example : (addEach ([leafNode "Name", leafNode "Host"].map .node) (some (.array .object (List.replicate 3 .free)))).map Prod.snd =
    some (some (.array .object [.free, .node (leafNode "Host"), .node (leafNode "Name")])) := by decide

end CodeFactory.Tr69
