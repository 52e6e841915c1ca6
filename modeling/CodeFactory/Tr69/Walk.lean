import CodeFactory.Tr69.Value

/-!
# Walking through the tree

`walk_through_tr069` calls a function for a cell and everything below it, in the order of the arrays and lists, but not for
the templates. `set_attributes` is such a function, and `set_tr069_attribute` uses it for a name that ends in a dot.
-/

namespace CodeFactory.Tr69

/-- The name of what is below a cell starts with this. -/
def childTop (topName : Text) : Cell → Text
  | .node n => topName ++ n.name ++ ['.']
  | .inst i => topName ++ decimal i.index ++ ['.']

section Walk

variable {σ : Type} (func : Text → Cell → σ → Result × Cell × σ)

/-- The recursive calls of `walk_through_tr069` for a level of cells, the first one left out if it is a template: the result of
the last call, the cells as they are left, and what the calls have gathered. The first error ends the walk. -/
def walkLevel (topName : Text) : (template : Bool) → Forest Cell → σ → Result × Forest Cell × σ
  | _, .nil, x => (.tcmagentOk, .nil, x)
  | true, .cons key cell sub rest, x =>
    let (ret, rest, x) := walkLevel topName false rest x
    (ret, .cons key cell sub rest, x)
  | false, .cons key cell sub rest, x =>
    let (ret, cell', x) := func topName cell x
    if ret ≠ .tcmagentOk then (ret, .cons key cell' sub rest, x) else
    let (ret, sub', x) := walkLevel (childTop topName cell) (cell.type = .multiObject) sub x
    if ret ≠ .tcmagentOk then (ret, .cons key cell' sub' rest, x) else
    let (ret, rest', x) := walkLevel topName false rest x
    (ret, .cons key cell' sub' rest', x)

/-- `walk_through_tr069` for one cell. -/
def walkThroughTr069 (topName : Text) (cell : Cell) (sub : Forest Cell) (x : σ) : Result × (Cell × Forest Cell) × σ :=
  let (ret, cell', x) := func topName cell x
  if ret ≠ .tcmagentOk then (ret, (cell', sub), x) else
  let (ret, sub', x) := walkLevel func (childTop topName cell) (cell.type = .multiObject) sub x
  (ret, (cell', sub'), x)

variable {func} {R : Cell → Cell → Prop}

/-- A function that leaves a related cell makes a walk that leaves related cells. -/
theorem related_walkLevel (hR : ∀ c, R c c) (hf : ∀ top c x, R c (func top c x).2.1) (topName : Text) (template : Bool)
    (F : Forest Cell) (x : σ) : F.Related R (walkLevel func topName template F x).2.1 := by
  induction F generalizing topName template x with
  | nil => cases template <;> trivial
  | cons key cell sub rest ihs ihr =>
    cases template with
    | true => exact ⟨rfl, hR cell, Forest.Related.refl hR sub, ihr _ _ _⟩
    | false =>
      have hc := hf topName cell x
      unfold walkLevel
      simp only
      split
      · exact ⟨rfl, hc, Forest.Related.refl hR sub, Forest.Related.refl hR rest⟩
      split
      · exact ⟨rfl, hc, ihs _ _ _, Forest.Related.refl hR rest⟩
      · exact ⟨rfl, hc, ihs _ _ _, ihr _ _ _⟩

theorem related_walkThroughTr069 (hR : ∀ c, R c c) (hf : ∀ top c x, R c (func top c x).2.1) (topName : Text) (cell : Cell)
    (sub : Forest Cell) (x : σ) :
    R cell (walkThroughTr069 func topName cell sub x).2.1.1 ∧
      sub.Related R (walkThroughTr069 func topName cell sub x).2.1.2 := by
  unfold walkThroughTr069
  simp only
  split
  · exact ⟨hf _ _ _, Forest.Related.refl hR sub⟩
  · exact ⟨hf _ _ _, related_walkLevel hR hf _ _ _ _⟩

end Walk

/-! ## Attributes -/

/-- The notification a number stands for; others are not valid (`IS_VALID_NOTIFICATION`). -/
def Tr069Notification.ofInt? (i : Int) : Option Tr069Notification :=
  if i = 0 then some .none else if i = 1 then some .passive else if i = 2 then some .active else Option.none

/-- The access list a number stands for; others are not valid (`IS_VALID_ACCESSLIST`). -/
def Tr069AccessList.ofInt? (i : Int) : Option Tr069AccessList :=
  if i = 1 then some .acs else if i = 2 then some .all else none

/-- An attribute to be set or not, read with `read`; no result if it is to be set to something that is not valid. -/
def readAttribute {α : Type} (read : Int → Option α) : Option Int → Option (Option α)
  | none => some none
  | some i => (read i).map some

/-- `set_attributes`, with the globals `gNotification` and `gAccessList`: both are set in leaves only. -/
def setAttributes (notification : Option Tr069Notification) (accessList : Option Tr069AccessList) (_topName : Text)
    (cell : Cell) (_ : Unit) : Result × Cell × Unit :=
  match cell with
  | .node n =>
    if n.content.type.isLeaf then
      (.tcmagentOk, .node { n with
        accessModule := accessList.getD n.accessModule
        notification := notification.getD n.notification }, ())
    else (.tcmagentOk, .node n, ())
  | .inst i => (.tcmagentOk, .inst i, ())

/-- Two cells that differ in their attributes at most. -/
def SameButAttributes : Cell → Cell → Prop
  | .node n, .node n' =>
    n' = { n with accessModule := n'.accessModule, notification := n'.notification, isChanged := n'.isChanged }
  | .inst i, .inst i' => i' = { i with accessModule := i'.accessModule, notification := i'.notification }
  | _, _ => False

theorem SameButAttributes.refl (c : Cell) : SameButAttributes c c := by
  cases c <;> rfl

theorem sameButAttributes_setAttributes (notification : Option Tr069Notification) (accessList : Option Tr069AccessList)
    (topName : Text) (cell : Cell) (x : Unit) :
    SameButAttributes cell (setAttributes notification accessList topName cell x).2.1 := by
  unfold setAttributes
  split
  · split <;> rfl
  · rfl

namespace TreeState

/-- The walk of `set_tr069_attribute`. -/
def walkAttributes (s : TreeState) (topName : Text) (p : Pos) (notification : Option Tr069Notification)
    (accessList : Option Tr069AccessList) : TreeState :=
  s.setNodes (s.tree.nodes.replace
    (s.tree.nodes.forest.update
      (fun cell sub => (walkThroughTr069 (setAttributes notification accessList) topName cell sub ()).2.1) p)
    (Forest.Related.update SameButAttributes.refl fun cell sub _ =>
      related_walkThroughTr069 SameButAttributes.refl (sameButAttributes_setAttributes notification accessList)
        topName cell sub ()))

/-- The attributes of a single cell. Setting the notification of an instance also writes through the pointer `isChanged`,
which is not initialised then. -/
def setAttribute (cell : Cell) (notification : Option Tr069Notification) (accessList : Option Tr069AccessList) :
    Option Cell :=
  match cell, notification with
  | .node n, none => some (.node { n with accessModule := accessList.getD n.accessModule })
  | .node n, some notification =>
    some (.node { n with
      notification := notification
      isChanged := false
      accessModule := accessList.getD n.accessModule })
  | .inst i, none => some (.inst { i with accessModule := accessList.getD i.accessModule })
  | .inst _, some _ => none

/-- `set_tr069_attribute`. An attribute that is not to be set is `none`. -/
def setTr069Attribute (s : TreeState) (name : Text) (notification accessList : Option Int) :
    Option (Result × TreeState) :=
  if notification = none ∧ accessList = none then some (.tcmagentOk, s) else
  match readAttribute Tr069Notification.ofInt? notification, readAttribute Tr069AccessList.ofInt? accessList with
  | none, _ => some (.attributeNotificationError, s)
  | some _, none => some (.attributeAccesslistError, s)
  | some notification, some accessList =>
    if name = [] ∨ name = ['.'] then
      s.tree.rootNode.node.map fun p => (.tcmagentOk, s.walkAttributes [] p notification accessList)
    else if name.getLast? = some '.' then
      -- `get_tr069_father_name`
      if name.head? = some '.' then some (.nodeNameError, s) else
      s.withNode name id fun entry s =>
        match entry.node with
        | none => some (.tcmagentOk, s)
        | some p =>
          if (s.tree.nodes.get? p).isNone then none
          else some (.tcmagentOk, s.walkAttributes (uptoLastDot (cutDot name)) p notification accessList)
    else
      s.withNode name id fun entry s =>
        match entry.node with
        | none => none
        | some p =>
          match (s.tree.nodes.get? p).bind fun cell => setAttribute cell notification accessList with
          | none => none
          | some cell => some (.tcmagentOk, s.setNodes (s.tree.nodes.modify p fun _ => cell))

variable {s s' : TreeState}

theorem sameButAttributes_setAttribute {cell cell' : Cell} {notification : Option Tr069Notification}
    {accessList : Option Tr069AccessList} (h : setAttribute cell notification accessList = some cell') :
    SameButAttributes cell cell' := by
  unfold setAttribute at h
  split at h
  all_goals
    cases h
    try rfl

/-- The attributes of the cell that is found are set, when the name does not end in a dot. -/
theorem setTr069Attribute_of_lookup {name : Text} {notification accessList : Option Int}
    {notification' : Option Tr069Notification} {accessList' : Option Tr069AccessList} {entry cache : Tr069NodeEntry} {p : Pos}
    {cell cell' : Cell} (hsome : ¬(notification = none ∧ accessList = none))
    (hnotification : readAttribute Tr069Notification.ofInt? notification = some notification')
    (haccess : readAttribute Tr069AccessList.ofInt? accessList = some accessList') (hname : name ≠ [])
    (hdot : name.getLast? ≠ some '.') (he : s.tree.getTr069NodeByName s.cache name = .ok (entry, cache))
    (hp : entry.node = some p) (hcell : s.tree.nodes.get? p = some cell)
    (hset : setAttribute cell notification' accessList' = some cell') :
    s.setTr069Attribute name notification accessList =
      some (.tcmagentOk, { s with cache := cache }.setNodes (s.tree.nodes.modify p fun _ => cell')) := by
  have hroot : ¬(name = [] ∨ name = ['.']) := by
    rintro (h | h)
    · exact hname h
    · exact hdot (by simp [h])
  unfold setTr069Attribute
  rw [if_neg hsome]
  simp only [hnotification, haccess, if_neg hroot, if_neg hdot, withNode, he, hp, hcell, Option.bind_some, hset]

/-- `set_tr069_attribute` changes attributes, and nothing else of the tree. -/
theorem related_setTr069Attribute {name : Text} {notification accessList : Option Int} {ret : Result}
    (h : s.setTr069Attribute name notification accessList = some (ret, s')) :
    s.Looked s'.cache ∧ s'.tree.rootNode = s.tree.rootNode ∧ s'.gInitSuccess = s.gInitSuccess ∧ s'.tree.nodes.mark = s.tree.nodes.mark ∧
      s.tree.nodes.forest.Related SameButAttributes s'.tree.nodes.forest := by
  have hrefl := Forest.Related.refl SameButAttributes.refl s.tree.nodes.forest
  have hwalk (s : TreeState) (topName : Text) (p : Pos) (notification : Option Tr069Notification)
      (accessList : Option Tr069AccessList) :
      s.tree.nodes.forest.Related SameButAttributes
        (s.walkAttributes topName p notification accessList).tree.nodes.forest :=
    Forest.Related.update SameButAttributes.refl fun cell sub _ =>
      related_walkThroughTr069 SameButAttributes.refl (sameButAttributes_setAttributes notification accessList)
        topName cell sub ()
  unfold setTr069Attribute at h
  split at h
  · cases h
    exact ⟨Or.inl rfl, rfl, rfl, rfl, hrefl⟩
  split at h
  · cases h
    exact ⟨Or.inl rfl, rfl, rfl, rfl, hrefl⟩
  · cases h
    exact ⟨Or.inl rfl, rfl, rfl, rfl, hrefl⟩
  split at h
  · obtain ⟨p, _, h⟩ := Option.map_eq_some_iff.1 h
    cases h
    exact ⟨Or.inl rfl, rfl, rfl, rfl, hwalk _ _ _ _ _⟩
  split at h
  · split at h
    · cases h
      exact ⟨Or.inl rfl, rfl, rfl, rfl, hrefl⟩
    rcases withNode_eq_some h with ⟨_, _, _, rfl⟩ | ⟨entry, cache, he, h⟩
    · exact ⟨Or.inl rfl, rfl, rfl, rfl, hrefl⟩
    have hlooked : s.Looked cache := Or.inr ⟨name, entry, he⟩
    split at h
    · cases h
      exact ⟨hlooked, rfl, rfl, rfl, hrefl⟩
    split at h
    · cases h
    · cases h
      exact ⟨hlooked, rfl, rfl, rfl, hwalk { s with cache := cache } _ _ _ _⟩
  · rcases withNode_eq_some h with ⟨_, _, _, rfl⟩ | ⟨entry, cache, he, h⟩
    · exact ⟨Or.inl rfl, rfl, rfl, rfl, hrefl⟩
    have hlooked : s.Looked cache := Or.inr ⟨name, entry, he⟩
    split at h
    · cases h
    split at h
    · cases h
    · rename_i p _ _ cell hcell
      cases h
      obtain ⟨cell', hc, hset⟩ := Option.bind_eq_some_iff.1 hcell
      refine ⟨hlooked, rfl, rfl, rfl, Memory.related_modify SameButAttributes.refl fun a ha => ?_⟩
      obtain rfl := Option.some.inj (hc.symm.trans ha)
      exact sameButAttributes_setAttribute hset

end TreeState

end CodeFactory.Tr69
