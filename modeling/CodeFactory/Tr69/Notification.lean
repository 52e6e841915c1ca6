import CodeFactory.Tr69.Attributes
import CodeFactory.Tr69.LeafValues

/-!
# Notifications

`get_tr069_notification_node` collects the leaves that are marked as changed, and clears their marks on the way.
-/

namespace CodeFactory.Tr69

/-- The cell is a leaf that is marked as changed. -/
def Cell.isChanged : Cell → Bool
  | .node n => match n.content with
    | .leaf _ => n.isChanged
    | _ => false
  | .inst _ => false

/-- The cell without a mark. -/
def Cell.unmarked : Cell → Cell
  | .node n => match n.content with
    | .leaf _ => .node { n with isChanged := false }
    | _ => .node n
  | .inst i => .inst i

/-- `get_notification_node`, which puts each leaf before those in `nameList` and `valueList`. There is memory for a leaf if `malloc`
says so of its name. -/
def getNotificationNode (malloc : Text → Bool) (topName : Text) (cell : Cell) (lists : List Tr069NameArg × List Tr069Value) :
    Result × Cell × List Tr069NameArg × List Tr069Value :=
  match cell with
  | .node node =>
    match node.content with
    | .leaf value =>
      if node.isChanged then
        -- the mark goes first
        let cell := .node { node with isChanged := false }
        if malloc (topName ++ node.name) then
          (.tcmagentOk, cell, ⟨topName ++ node.name, node.accessType⟩ :: lists.1, value :: lists.2)
        else (.mallocFailure, cell, lists)
      else (.tcmagentOk, cell, lists)
    | _ => (.tcmagentOk, cell, lists)
  | .inst _ => (.tcmagentOk, cell, lists)

/-- The names in the two lists, as far as both go. -/
def listed (lists : List Tr069NameArg × List Tr069Value) : List Text := (lists.1.zip lists.2).map fun entry => entry.1.name

theorem Cell.isChanged_unmarked (cell : Cell) : cell.unmarked.isChanged = false := by
  cases cell with
  | node n =>
    obtain ⟨name, accessType, notification, accessModule, isChanged, min, max, content⟩ := n
    cases content <;> rfl
  | inst i => rfl

/-- A cell without a mark is left as it is. -/
theorem Cell.unmarked_of_not {cell : Cell} (h : cell.isChanged = false) : cell.unmarked = cell := by
  cases cell with
  | node n =>
    obtain ⟨name, accessType, notification, accessModule, isChanged, min, max, content⟩ := n
    cases content with
    | leaf value =>
      obtain rfl : isChanged = false := h
      rfl
    | object => rfl
    | multiObject instances => rfl
  | inst i => rfl

theorem sameButAttributes_unmarked (cell : Cell) : SameButAttributes cell cell.unmarked := by
  cases cell with
  | node n =>
    obtain ⟨name, accessType, notification, accessModule, isChanged, min, max, content⟩ := n
    cases content <;> rfl
  | inst i => rfl

/-- The results that say that the ACS is to be notified. -/
def NeedsNotification (ret : Result) : Prop := ret = .nodeNeedNotification ∨ ret = .nodeNeedNotificationPassive

instance (ret : Result) : Decidable (NeedsNotification ret) := inferInstanceAs (Decidable (_ ∨ _))

/-- It is when a local module has set a leaf with a notification. -/
theorem needsNotification_set {n n' : Tr069Node} {gInitSuccess : Bool} {module : Tr069AccessModule} {arg : Tr069Value} {ret : Result}
    (h : n.set gInitSuccess module arg = .ok (ret, n')) :
    NeedsNotification ret ↔ module = .webModule ∧ n.notification ≠ .none := by
  unfold Tr069Node.set at h
  split at h
  · split at h
    · cases h
    split at h
    · cases h
    split at h
    · cases h
    simp only at h
    split at h
    · rename_i hweb
      obtain ⟨rfl, _⟩ := Prod.mk.inj (Except.ok.inj h)
      refine iff_of_true ?_ hweb
      split
      · exact Or.inl rfl
      · exact Or.inr rfl
    · rename_i hweb
      obtain ⟨rfl, _⟩ := Prod.mk.inj (Except.ok.inj h)
      refine iff_of_false ?_ hweb
      decide
  · cases h

section Node

variable {malloc : Text → Bool} {topName : Text} {cell : Cell} {lists : List Tr069NameArg × List Tr069Value}

/-- The mark is cleared, whatever becomes of the lists. -/
theorem getNotificationNode_cell : (getNotificationNode malloc topName cell lists).2.1 = cell.unmarked := by
  cases hchanged : cell.isChanged with
  | false =>
    rw [Cell.unmarked_of_not hchanged]
    unfold getNotificationNode
    split
    · rename_i node
      split
      · rename_i value hvalue
        have hnot : node.isChanged = false := by simpa [Cell.isChanged, hvalue] using hchanged
        simp [hnot]
      · rfl
    · rfl
  | true =>
    cases cell with
    | node node =>
      unfold Cell.isChanged at hchanged
      simp only at hchanged
      split at hchanged
      · rename_i value hvalue
        simp only [getNotificationNode, hvalue, hchanged, if_true, Cell.unmarked]
        split <;> rfl
      · cases hchanged
    | inst i => cases hchanged

/-- There is an error when the memory runs out at a leaf that was marked. -/
theorem getNotificationNode_error (h : (getNotificationNode malloc topName cell lists).1 ≠ .tcmagentOk) :
    cell.isChanged = true ∧ malloc (topName ++ cell.text) = false := by
  unfold getNotificationNode at h
  split at h
  · rename_i node
    split at h
    · rename_i value hvalue
      split at h
      · rename_i hchanged
        simp only at h
        split at h
        · exact absurd rfl h
        · rename_i hmalloc
          refine ⟨?_, by simpa [Cell.text] using hmalloc⟩
          simp only [Cell.isChanged, hvalue]
          exact hchanged
      · exact absurd rfl h
    · exact absurd rfl h
  · exact absurd rfl h

/-- A call puts a name into the list or leaves it. -/
theorem listed_getNotificationNode (malloc : Text → Bool) (v : Visit) (lists : List Tr069NameArg × List Tr069Value) :
    listed (getNotificationNode malloc v.topName v.cell lists).2.2 = listed lists ∨
      listed (getNotificationNode malloc v.topName v.cell lists).2.2 = v.allName :: listed lists := by
  obtain ⟨topName, pos, cell⟩ := v
  cases cell with
  | node node =>
    unfold getNotificationNode
    simp only
    split
    · split
      · split
        · exact Or.inr rfl
        · exact Or.inl rfl
      · exact Or.inl rfl
    · exact Or.inl rfl
  | inst i => exact Or.inl rfl

/-- It puts the name of a marked leaf there if there is memory. -/
theorem listed_of_changed {v : Visit} (hchanged : v.cell.isChanged = true) (hmalloc : malloc v.allName = true) :
    listed (getNotificationNode malloc v.topName v.cell lists).2.2 = v.allName :: listed lists := by
  obtain ⟨topName, pos, cell⟩ := v
  cases cell with
  | node n =>
    unfold Cell.isChanged at hchanged
    simp only at hchanged
    split at hchanged
    · rename_i value hvalue
      have hname : malloc (topName ++ n.name) = true := hmalloc
      simp only [getNotificationNode, hvalue, hchanged, hname, if_true]
      rfl
    · cases hchanged
  | inst i => cases hchanged

end Node

namespace Tr069Tree

variable {t t' : Tr069Tree}

theorem visited_pos {p : Pos} (hp : t.rootNode.node = some p) : t.visited.map Visit.pos = t.visitedBelow p := by
  unfold visited visitedBelow
  rw [hp, Option.bind_some]
  cases t.nodes.forest.cell? p with
  | none => rfl
  | some root => rfl

theorem get?_of_mem_visited {v : Visit} (hv : v ∈ t.visited) : t.nodes.get? v.pos = some v.cell := by
  unfold visited at hv
  split at hv
  · cases hv
  · rename_i p cell sub hroot
    obtain ⟨_, _, h⟩ := Option.bind_eq_some_iff.1 hroot
    obtain ⟨_, hc, h⟩ := Option.map_eq_some_iff.1 h
    cases h
    obtain ⟨_, hcell, _⟩ := visits_below hc hv
    exact get?_of_cell hcell

/-- Trees that are searched alike have their visited cells in the same places. -/
theorem SameSearch.mem_visited (h : t.SameSearch t') (r : Pos) : r ∈ t'.visited.map Visit.pos ↔ r ∈ t.visited.map Visit.pos := by
  cases hp : t.rootNode.node with
  | none =>
    have hp' : t'.rootNode.node = none := by rw [h.rootNode, hp]
    rw [visited, visited, hp, hp']
    rfl
  | some p =>
    have hp' : t'.rootNode.node = some p := by rw [h.rootNode, hp]
    rw [visited_pos hp, visited_pos hp']
    exact h.mem_visitedBelow p r

end Tr069Tree

namespace TreeState

/-- The tree after the walk of `get_tr069_notification_node` from `p`. -/
def walkNotifications (s : TreeState) (malloc : Text → Bool) (p : Pos) : TreeState :=
  s.setNodes (s.tree.nodes.replace
    (s.tree.nodes.forest.update (fun cell sub => (walkThroughTr069 (getNotificationNode malloc) [] cell sub ([], [])).2.1) p)
    (Forest.Related.update SameButAttributes.refl fun cell sub _ =>
      related_walkThroughTr069 SameButAttributes.refl
        (fun _ cell _ => getNotificationNode_cell ▸ sameButAttributes_unmarked cell) [] cell sub ([], [])))

/-- `get_tr069_notification_node`: the two lists, or the error, which leaves the marks that were cleared as they are. -/
def getTr069NotificationNode (s : TreeState) (malloc : Text → Bool) :
    Option (Except Result (List Tr069NameArg × List Tr069Value) × TreeState) :=
  s.tree.rootNode.node.bind fun p => (s.tree.nodes.forest.cell? p).map fun root =>
    let (ret, _, lists) := walkThroughTr069 (getNotificationNode malloc) [] root.1 root.2 ([], [])
    (if ret = .tcmagentOk then .ok lists else .error ret, s.walkNotifications malloc p)

/-- The leaf at `p` is marked as changed. -/
def changedAt (s : TreeState) (p : Pos) : Bool := ((s.tree.nodes.get? p).map Cell.isChanged).getD false

variable {s s' : TreeState} {malloc : Text → Bool} {ret : Except Result (List Tr069NameArg × List Tr069Value)}

theorem changedAt_of_mem_visited {v : Visit} (hv : v ∈ s.tree.visited) : s.changedAt v.pos = v.cell.isChanged := by
  rw [changedAt, Tr069Tree.get?_of_mem_visited hv]
  rfl

/-- The walk that is made. -/
theorem getTr069NotificationNode_eq_some (h : s.getTr069NotificationNode malloc = some (ret, s')) :
    ∃ p root sub, s.tree.nodes.forest.cell? p = some (root, sub) ∧ s.tree.visited = visits [] p root sub ∧
      ret = (if (walkThroughTr069 (getNotificationNode malloc) [] root sub ([], [])).1 = .tcmagentOk then
          .ok (walkThroughTr069 (getNotificationNode malloc) [] root sub ([], [])).2.2
        else .error (walkThroughTr069 (getNotificationNode malloc) [] root sub ([], [])).1) ∧
      s' = s.walkNotifications malloc p := by
  obtain ⟨p, hp, h⟩ := Option.bind_eq_some_iff.1 h
  obtain ⟨⟨root, sub⟩, hc, h⟩ := Option.map_eq_some_iff.1 h
  simp only [Prod.mk.injEq] at h
  refine ⟨p, root, sub, hc, ?_, h.1.symm, h.2.symm⟩
  rw [Tr069Tree.visited, hp]
  simp only [Option.bind_some, hc, Option.map_some]

/-- **Collecting the marked leaves** clears the marks of the cells that are visited, up to one for which there is no memory. -/
theorem changedAt_getTr069NotificationNode (h : s.getTr069NotificationNode malloc = some (ret, s')) :
    ∃ done, done <+: s.tree.visited ∧ (∀ lists, ret = .ok lists → done = s.tree.visited) ∧
      (∀ e, ret = .error e → ∃ v ∈ done, v.cell.isChanged = true ∧ malloc v.allName = false) ∧
      ∀ p, s'.changedAt p = if p ∈ done.map Visit.pos then false else s.changedAt p := by
  obtain ⟨p, root, sub, hc, hvisited, hret, rfl⟩ := getTr069NotificationNode_eq_some h
  have hcell : ∀ topName cell lists, (getNotificationNode malloc topName cell lists).2.1 = cell.unmarked := by
    intro topName cell lists
    exact getNotificationNode_cell
  obtain ⟨done, hprefix, hok, hfail, hget⟩ := walkThroughTr069_prefix hcell hc [] ([], [])
  rw [hvisited]
  refine ⟨done, hprefix, ?_, ?_, ?_⟩
  · rintro lists rfl
    refine hok ?_
    by_contra hnot
    rw [if_neg hnot] at hret
    cases hret
  · rintro e rfl
    have hnot : (walkThroughTr069 (getNotificationNode malloc) [] root sub ([], [])).1 ≠ .tcmagentOk := by
      intro hok
      rw [if_pos hok] at hret
      cases hret
    obtain ⟨v, hv, x, hx⟩ := hfail hnot
    exact ⟨v, hv, getNotificationNode_error hx⟩
  · intro r
    have hr : (s.walkNotifications malloc p).tree.nodes.get? r = _ := hget r
    rw [changedAt, hr]
    split
    · cases hcell : s.tree.nodes.get? r with
      | none => rfl
      | some cell => simp [Cell.isChanged_unmarked]
    · rfl

theorem sameSearch_getTr069NotificationNode (h : s.getTr069NotificationNode malloc = some (ret, s')) :
    s.tree.SameSearch s'.tree := by
  obtain ⟨p, _, _, _, _, _, rfl⟩ := getTr069NotificationNode_eq_some h
  refine .of_related (fun _ _ => SameButAttributes.label_type) rfl ?_
  exact Forest.Related.update SameButAttributes.refl fun cell sub _ =>
    related_walkThroughTr069 SameButAttributes.refl
      (fun _ cell _ => getNotificationNode_cell ▸ sameButAttributes_unmarked cell) [] cell sub ([], [])

/-- The calls for the marked leaves put their names into the list, and no call takes one out. -/
theorem mem_listed_foldl {vs : List Visit}
    (hmalloc : ∀ v ∈ vs, v.cell.isChanged = true → malloc v.allName = true) (lists : List Tr069NameArg × List Tr069Value) {name : Text}
    (h : name ∈ listed lists ∨ ∃ v ∈ vs, v.cell.isChanged = true ∧ v.allName = name) :
    name ∈ listed (vs.foldl (fun lists v => (getNotificationNode malloc v.topName v.cell lists).2.2) lists) := by
  induction vs generalizing lists with
  | nil =>
    rcases h with h | ⟨v, hv, _⟩
    · exact h
    · cases hv
  | cons v vs ih =>
    refine ih (fun w hw => hmalloc w (List.mem_cons_of_mem _ hw)) _ ?_
    rcases h with h | ⟨w, hw, hchanged, rfl⟩
    · left
      rcases listed_getNotificationNode malloc v lists with hnames | hnames
      · rw [hnames]
        exact h
      · rw [hnames]
        exact List.mem_cons_of_mem _ h
    rcases List.mem_cons.1 hw with rfl | hw
    · left
      rw [listed_of_changed hchanged (hmalloc w List.mem_cons_self hchanged)]
      exact List.mem_cons_self
    · exact Or.inr ⟨w, hw, hchanged, rfl⟩

/-- While there is memory for them, the names of all marked leaves that are visited are in the list. -/
theorem listed_getTr069NotificationNode
    (hmalloc : ∀ v ∈ s.tree.visited, v.cell.isChanged = true → malloc v.allName = true)
    (h : s.getTr069NotificationNode malloc = some (ret, s')) :
    ∃ lists, ret = .ok lists ∧ ∀ v ∈ s.tree.visited, v.cell.isChanged = true → v.allName ∈ listed lists := by
  obtain ⟨p, root, sub, hc, hvisited, hret, _⟩ := getTr069NotificationNode_eq_some h
  rw [hvisited] at hmalloc ⊢
  have hok : ∀ v ∈ visits [] p root sub, ∀ lists, (getNotificationNode malloc v.topName v.cell lists).1 = .tcmagentOk := by
    intro v hv lists
    by_contra hnot
    obtain ⟨hchanged, hfalse⟩ := getNotificationNode_error hnot
    rw [← Visit.allName, hmalloc v hv hchanged] at hfalse
    cases hfalse
  obtain ⟨hwalk, hlists⟩ := walkThroughTr069_visits hok ([], [])
  refine ⟨_, by rw [hret, if_pos hwalk], ?_⟩
  intro v hv hchanged
  rw [hlists]
  exact mem_listed_foldl hmalloc _ (Or.inr ⟨v, hv, hchanged, rfl⟩)

/-- **Setting a value marks the leaf** if the result is that the ACS is to be notified and the agent has started; nothing else is
marked, and no mark is cleared. -/
theorem changedAt_setTr069Value {module : Tr069AccessModule} {name : Text} {arg : Tr069Value} {ret : Result}
    (h : s.setTr069Value module name arg = some (ret, s')) (p : Pos) :
    s'.changedAt p = (s.changedAt p ||
      decide (NeedsNotification ret ∧ s.gInitSuccess = true ∧ s.tree.leadsTo s.cache name = some p)) := by
  rcases setTr069Value_cases h with ⟨_, _, rfl, hret⟩ | ⟨entry, cache, q, n, n', he, hq, hn, hset, rfl⟩
  · have hnot : ¬NeedsNotification ret := by
      rintro (rfl | rfl)
      · exact hret (Or.inr (Or.inl rfl))
      · exact hret (Or.inr (Or.inr rfl))
    simp only [hnot, false_and, decide_false, Bool.or_false]
    rfl
  have hneeds := needsNotification_set hset
  obtain ⟨leaf, value, hleaf, _, _, _, _, _, rfl⟩ := Tr069Node.set_eq_ok hset
  have hleads : s.tree.leadsTo s.cache name = some q := by
    rw [Tr069Tree.leadsTo, he]
    exact hq
  rw [changedAt, setNodes_nodes, Memory.get?_modify, hleads]
  by_cases hp : p = q
  · subst hp
    have hold : s.changedAt p = n.isChanged := by
      rw [changedAt, hn]
      simp [Cell.isChanged, hleaf]
    rw [if_pos rfl, hold, hn]
    simp only [Option.map_some, Option.getD_some, Cell.isChanged, hneeds, and_true, Bool.decide_and, Bool.decide_eq_true,
      Bool.and_assoc]
  · have hne : ¬some q = some p := fun heq => hp (Option.some.inj heq).symm
    simp only [if_neg hp, hne, and_false, decide_false, Bool.or_false]
    rfl

end TreeState

end CodeFactory.Tr69
