import CodeFactory.Soap.Element
import CodeFactory.Tr69.SameSearch

/-!
# Saving the attributes of instances

`write_instance_attributes` walks through the tree and writes a line for each leaf whose name says that it is below an instance.
`load_instance_attributes` reads the lines back and hands each to `set_tr069_attribute`, before the agent has started: no file is
written meanwhile.
-/

namespace CodeFactory.Tr69

open Soap (isSpace)

/-- The number of a `Tr069Notification`. -/
def Tr069Notification.toInt : Tr069Notification → Int
  | .none => 0
  | .passive => 1
  | .active => 2

/-- The number of a `Tr069AccessList`. -/
def Tr069AccessList.toInt : Tr069AccessList → Int
  | .acs => 1
  | .all => 2

@[simp] theorem Tr069Notification.ofInt?_toInt (n : Tr069Notification) : ofInt? n.toInt = some n := by
  cases n <;> rfl

@[simp] theorem Tr069AccessList.ofInt?_toInt (a : Tr069AccessList) : ofInt? a.toInt = some a := by
  cases a <;> rfl

/-- `is_multi_instance`: one of the parts that have a dot behind them is a number. -/
def isMultiInstance (name : Text) : Bool := (parts name).dropLast.any fun part => (stringToNum part).isSome

/-! ## Writing -/

/-- The line `fprintf` writes for a leaf, without the line feed. -/
def attributeLine (allName : Text) (node : Tr069Node) : Text :=
  allName ++ ' ' :: (decimal node.notification.toInt ++ ' ' :: decimal node.accessModule.toInt)

/-- `write_instance_attribute`, which appends to the file. -/
def writeInstanceAttribute (topName : Text) (cell : Cell) (file : Text) : Result × Cell × Text :=
  match cell with
  | .node node =>
    if node.content.type.isLeaf ∧ isMultiInstance (topName ++ node.name) then
      (.tcmagentOk, cell, file ++ (attributeLine (topName ++ node.name) node ++ ['\n']))
    else (.tcmagentOk, cell, file)
  | .inst _ => (.tcmagentOk, cell, file)

/-- `write_instance_attributes`: the new file. There is no walk where `rootNode` leads nowhere. -/
def writeInstanceAttributes (t : Tr069Tree) : Option Text :=
  (t.rootNode.node.bind t.nodes.forest.cell?).map fun root => (walkThroughTr069 writeInstanceAttribute [] root.1 root.2 []).2.2

/-! ## Reading -/

/-- `%s` of `sscanf`: a word, and what is behind it. -/
def scanWord (s : Text) : Option (Text × Text) :=
  let s := s.dropWhile isSpace
  let word := s.takeWhile (!isSpace ·)
  if word = [] then none else some (word, s.dropWhile (!isSpace ·))

/-- `%d` of `sscanf`: a number, and what is behind it. -/
def scanInt (s : Text) : Option (Int × Text) :=
  let s := s.dropWhile isSpace
  let digits := if s.head? = some '-' ∨ s.head? = some '+' then s.tail else s
  if digits.takeWhile Char.isDigit = [] then none
  else
    let value := atoi (digits.takeWhile Char.isDigit)
    some (if s.head? = some '-' then -value else value, digits.dropWhile Char.isDigit)

/-- The three items `sscanf` reads from a line. -/
def scanLine (line : Text) : Option (Text × Int × Int) :=
  match scanWord line with
  | none => none
  | some (name, rest) =>
    match scanInt rest with
    | none => none
    | some (notification, rest) => (scanInt rest).map fun accessList => (name, notification, accessList.1)

/-- What is done with a line: one from which not all three items can be read is passed over, and what `set_tr069_attribute`
returns is not looked at. -/
def TreeState.loadLine (s : TreeState) (line : Text) : Option TreeState :=
  match scanLine line with
  | none => some s
  | some (name, notification, accessList) => (s.setTr069Attribute name (some notification) (some accessList)).map Prod.snd

/-- `load_instance_attributes`. The buffer of `fgets` holds the longest name with its attributes, so that a line is read whole, but
for a line feed that is then read, and passed over, as a line of its own. -/
def TreeState.loadInstanceAttributes (s : TreeState) (file : Text) : Option TreeState :=
  (file.splitOn '\n').foldlM TreeState.loadLine s

example : scanLine "Device.Host.1.Name 2 1".toList = some ("Device.Host.1.Name".toList, 2, 1) := by decide
example : scanLine "Device.Host.1.My Name 2 1".toList = none := by decide

/-! ## Lines -/

/-- A name that `%s` reads whole. -/
def OneWord (name : Text) : Prop := name ≠ [] ∧ ∀ c ∈ name, isSpace c = false

/-- What is written of a leaf is read back. -/
theorem scanLine_attributeLine {allName : Text} (h : OneWord allName) (node : Tr069Node) :
    scanLine (attributeLine allName node) = some (allName, node.notification.toInt, node.accessModule.toInt) := by
  obtain ⟨hne, hword⟩ := h
  obtain ⟨c, rest, rfl⟩ := List.exists_cons_of_ne_nil hne
  have hscan : ∀ tail, scanWord (c :: rest ++ ' ' :: tail) = some (c :: rest, ' ' :: tail) := by
    intro tail
    have hhead : (c :: rest ++ ' ' :: tail).dropWhile isSpace = c :: rest ++ ' ' :: tail := by
      simp [hword c List.mem_cons_self]
    have hpos : ∀ x ∈ c :: rest, (!isSpace x) = true := by
      intro x hx
      rw [hword x hx]
      rfl
    have hspace : (!isSpace ' ') = false := by decide
    unfold scanWord
    simp only [hhead, List.takeWhile_append_of_pos hpos, List.dropWhile_append_of_pos hpos,
      List.takeWhile_cons, List.dropWhile_cons, hspace]
    simp
  have hnotification : ∀ (n : Tr069Notification) (a : Tr069AccessList),
      scanInt (' ' :: (decimal n.toInt ++ ' ' :: decimal a.toInt)) = some (n.toInt, ' ' :: decimal a.toInt) := by
    intro n a
    cases n <;> cases a <;> decide
  have haccess : ∀ a : Tr069AccessList, scanInt (' ' :: decimal a.toInt) = some (a.toInt, []) := by
    intro a
    cases a <;> decide
  unfold scanLine attributeLine
  simp only [hscan, hnotification, haccess, Option.map_some]

theorem newline_notMem_attributeLine {allName : Text} (h : OneWord allName) (node : Tr069Node) :
    '\n' ∉ attributeLine allName node := by
  have hname : '\n' ∉ allName := by
    intro hmem
    exact absurd (h.2 _ hmem) (by decide)
  have hnotification : '\n' ∉ decimal node.notification.toInt := by
    cases node.notification <;> decide
  have haccess : '\n' ∉ decimal node.accessModule.toInt := by
    cases node.accessModule <;> decide
  simp [attributeLine, hname, hnotification, haccess]

/-- The line that is written at a visit, if one is. -/
def Visit.line (v : Visit) : Option Text :=
  match v.cell with
  | .node node =>
    if node.content.type.isLeaf ∧ isMultiInstance v.allName then some (attributeLine v.allName node) else none
  | .inst _ => none

/-- A call appends the line of the visit. -/
theorem writeInstanceAttribute_visit (v : Visit) (file : Text) :
    writeInstanceAttribute v.topName v.cell file =
      (.tcmagentOk, v.cell, file ++ dotted '\n' v.line.toList) := by
  obtain ⟨topName, pos, cell⟩ := v
  cases cell with
  | inst i => simp [writeInstanceAttribute, Visit.line]
  | node node =>
    unfold writeInstanceAttribute Visit.line Visit.allName Cell.text
    simp only
    split <;> simp [dotted]

theorem foldl_writeInstanceAttribute (vs : List Visit) (file : Text) :
    vs.foldl (fun file v => (writeInstanceAttribute v.topName v.cell file).2.2) file =
      file ++ dotted '\n' (vs.filterMap Visit.line) := by
  induction vs generalizing file with
  | nil => simp
  | cons v vs ih =>
    rw [List.foldl_cons, ih, writeInstanceAttribute_visit]
    cases hline : v.line <;> simp [hline]

theorem writeInstanceAttributes_eq {t : Tr069Tree} {p : Pos} {cell : Cell} {sub : Forest Cell} (hroot : t.rootNode.node = some p)
    (hc : t.nodes.forest.cell? p = some (cell, sub)) :
    writeInstanceAttributes t = some (dotted '\n' ((visits [] p cell sub).filterMap Visit.line)) := by
  have hok : ∀ topName cell x, (writeInstanceAttribute topName cell x).1 = .tcmagentOk := by
    intro topName cell x
    rw [writeInstanceAttribute_visit ⟨topName, [], cell⟩ x]
  rw [writeInstanceAttributes, hroot, Option.bind_some, hc, Option.map_some,
    (walkThroughTr069_visits (p := p) (fun v _ => hok v.topName v.cell) []).2, foldl_writeInstanceAttribute, List.nil_append]

/-! ## Loading a line -/

/-- A node with the attributes that are to be set. Setting the notification takes the mark of a change from it. -/
def Tr069Node.withAttributes (n : Tr069Node) (notification : Option Tr069Notification) (accessList : Option Tr069AccessList) :
    Tr069Node :=
  { n with
    notification := notification.getD n.notification
    isChanged := if notification.isSome then false else n.isChanged
    accessModule := accessList.getD n.accessModule }

theorem setAttribute_node (n : Tr069Node) (notification : Option Tr069Notification) (accessList : Option Tr069AccessList) :
    TreeState.setAttribute (.node n) notification accessList = some (.node (n.withAttributes notification accessList)) := by
  cases notification <;> rfl

/-- A leaf with the saved attributes of another. -/
def Tr069Node.restored (n saved : Tr069Node) : Tr069Node :=
  { n with notification := saved.notification, isChanged := false, accessModule := saved.accessModule }

/-- The visit of a leaf that the search finds in the tree, below the root, under a name that is read whole. -/
structure Visit.Loadable (t : Tr069Tree) (v : Visit) : Prop where
  cell : t.nodes.get? v.pos = some v.cell
  leaf : v.cell.type.isLeaf = true
  named : v.cell.Named
  word : OneWord v.allName
  leads : ∃ ps, ps ≠ [] ∧ (∀ x ∈ ps, '.' ∉ x) ∧ v.topName = dotted '.' ps ∧ t.Leads (ps ++ [v.cell.text]) v.pos v.cell

/-- The state while the lines are loaded: the tree is searched as the first one was, from a sound cache that is not empty. -/
structure TreeState.Loading (t : Tr069Tree) (s : TreeState) : Prop where
  same : t.SameSearch s.tree
  sound : t.Sound s.cache
  cached : s.cache.name ≠ []

theorem SameButAttributes.label_type {a b : Cell} (h : SameButAttributes a b) : a.label = b.label ∧ a.type = b.type := by
  cases a with
  | node n =>
    cases b with
    | node n' =>
      rw [SameButAttributes] at h
      rw [h]
      exact ⟨rfl, rfl⟩
    | inst i' => exact h.elim
  | inst i =>
    cases b with
    | node n' => exact h.elim
    | inst i' =>
      rw [SameButAttributes] at h
      rw [h]
      exact ⟨rfl, rfl⟩

section Load

variable {t : Tr069Tree} {r : Text} {k : Nat} {s : TreeState} {v : Visit}

/-- **Setting the attributes of a leaf under the name it is visited with** sets those of this leaf, and keeps the search as it is. -/
theorem setTr069Attribute_visit (h : t.Rooted r k) (hs : s.Loading t) (hcell : t.nodes.get? v.pos = some v.cell)
    (hleaf : v.cell.type.isLeaf = true) (hnamed : v.cell.Named)
    (hleads : ∃ ps, ps ≠ [] ∧ (∀ x ∈ ps, '.' ∉ x) ∧ v.topName = dotted '.' ps ∧ t.Leads (ps ++ [v.cell.text]) v.pos v.cell)
    {notification accessList : Option Int} {notification' : Option Tr069Notification} {accessList' : Option Tr069AccessList}
    (hsome : ¬(notification = none ∧ accessList = none))
    (hnotification : readAttribute Tr069Notification.ofInt? notification = some notification')
    (haccess : readAttribute Tr069AccessList.ofInt? accessList = some accessList') :
    ∃ n s', s.tree.nodes.get? v.pos = some (.node n) ∧
      s.setTr069Attribute v.allName notification accessList = some (.tcmagentOk, s') ∧ s'.Loading t ∧
      s'.tree.nodes.get? v.pos = some (.node (n.withAttributes notification' accessList')) ∧
      ∀ p, p ≠ v.pos → s'.tree.nodes.get? p = s.tree.nodes.get? p := by
  obtain ⟨ps, hpsne, hps, htopName, next, hw⟩ := hleads
  obtain ⟨hne, hdot⟩ := hnamed.text
  -- the leaf is still there
  obtain ⟨n, hn⟩ : ∃ n, s.tree.nodes.get? v.pos = some (.node n) := by
    have htype := hs.same.type v.pos
    rw [hcell] at htype
    obtain ⟨c, hc, hctype⟩ := Option.map_eq_some_iff.1 htype
    cases c with
    | node n => exact ⟨n, hc⟩
    | inst i =>
      rw [← hctype] at hleaf
      cases hleaf
  -- and is looked up
  have hresolve : t.resolve (ps ++ [v.cell.text]) = .ok ⟨[], v.cell.type, some v.pos⟩ := by
    rw [Tr069Tree.resolve, hw]
    rfl
  obtain ⟨cache', hlookup, hsound, hcached⟩ := hs.sound.lookup h hs.cached hps hpsne hdot hne hresolve
  have hname : v.allName = dotted '.' ps ++ v.cell.text := by rw [Visit.allName, htopName]
  rw [← hname, ← hs.same.lookup] at hlookup
  have hlast : v.allName.getLast? ≠ some '.' := by
    rw [hname, List.getLast?_append_of_ne_nil _ hne]
    intro hlast
    exact hdot (List.mem_of_getLast? hlast)
  have hnonempty : v.allName ≠ [] := by simp [Visit.allName, hne]
  have hset := TreeState.setTr069Attribute_of_lookup hsome hnotification haccess hnonempty hlast hlookup rfl hn
    (setAttribute_node n notification' accessList')
  refine ⟨n, _, hn, hset, ⟨?_, hsound, hcached⟩, ?_, ?_⟩
  · refine hs.same.trans (.of_related (fun a b => SameButAttributes.label_type) rfl ?_)
    refine Memory.related_modify SameButAttributes.refl fun a ha => ?_
    obtain rfl := Option.some.inj (hn.symm.trans ha)
    rfl
  · simp [Memory.get?_modify, hn]
  · intro p hp
    simp [Memory.get?_modify, hp]

/-- **A line is loaded into the leaf it was written for.** -/
theorem loadLine_attributeLine (h : t.Rooted r k) (hs : s.Loading t) (hv : v.Loadable t) (saved : Tr069Node) :
    ∃ n s', s.tree.nodes.get? v.pos = some (.node n) ∧ s.loadLine (attributeLine v.allName saved) = some s' ∧ s'.Loading t ∧
      s'.tree.nodes.get? v.pos = some (.node (n.restored saved)) ∧
      ∀ p, p ≠ v.pos → s'.tree.nodes.get? p = s.tree.nodes.get? p := by
  have hnotification : readAttribute Tr069Notification.ofInt? (some saved.notification.toInt) = some (some saved.notification) := by
    simp [readAttribute]
  have haccess : readAttribute Tr069AccessList.ofInt? (some saved.accessModule.toInt) = some (some saved.accessModule) := by
    simp [readAttribute]
  obtain ⟨n, s', hn, hset, hs', hleaf, hother⟩ := setTr069Attribute_visit h hs hv.cell hv.leaf hv.named hv.leads (by simp)
    hnotification haccess
  refine ⟨n, s', hn, ?_, hs', hleaf, hother⟩
  unfold TreeState.loadLine
  rw [scanLine_attributeLine hv.word]
  simp only [hset, Option.map_some]

/-- The lines of several leaves are loaded, each into its leaf, and nothing else is changed. -/
theorem loadLines (h : t.Rooted r k) (es : List (Visit × Tr069Node)) (hs : s.Loading t) (hes : ∀ e ∈ es, e.1.Loadable t)
    (hnd : (es.map fun e => e.1.pos).Nodup) :
    ∃ s', (es.map fun e => attributeLine e.1.allName e.2).foldlM TreeState.loadLine s = some s' ∧
      (∀ e ∈ es, ∃ n : Tr069Node, s'.tree.nodes.get? e.1.pos = some (.node (n.restored e.2))) ∧
      ∀ p, (∀ e ∈ es, p ≠ e.1.pos) → s'.tree.nodes.get? p = s.tree.nodes.get? p := by
  induction es generalizing s with
  | nil => exact ⟨s, rfl, by simp, fun _ _ => rfl⟩
  | cons e es ih =>
    rw [List.map_cons, List.nodup_cons] at hnd
    obtain ⟨n, s₁, _, hload, hs₁, hset, hkeep⟩ := loadLine_attributeLine h hs (hes e List.mem_cons_self) e.2
    obtain ⟨s', hrest, hsets, hkeeps⟩ := ih hs₁ (fun x hx => hes x (List.mem_cons_of_mem _ hx)) hnd.2
    have hfresh : ∀ x ∈ es, e.1.pos ≠ x.1.pos := by
      intro x hx heq
      exact hnd.1 (List.mem_map.2 ⟨x, hx, heq.symm⟩)
    refine ⟨s', ?_, ?_, ?_⟩
    · rw [List.map_cons, List.foldlM_cons, hload]
      exact hrest
    · intro x hx
      rcases List.mem_cons.1 hx with rfl | hx
      · exact ⟨n, (hkeeps _ hfresh).trans hset⟩
      · exact hsets x hx
    · intro p hp
      rw [hkeeps p fun x hx => hp x (List.mem_cons_of_mem _ hx)]
      exact hkeep p (hp e List.mem_cons_self)

end Load

/-! ## Instances -/

namespace Tr069Tree

/-- The visits of a walk through the whole tree. -/
def visited (t : Tr069Tree) : List Visit :=
  match t.rootNode.node.bind fun p => (t.nodes.forest.cell? p).map fun c => (p, c) with
  | none => []
  | some (p, cell, sub) => visits [] p cell sub

/-- The cell at `p` is below an instance. -/
def UnderInstance (t : Tr069Tree) (p : Pos) : Prop := ∃ q i, q <+: p ∧ q ≠ p ∧ t.nodes.get? q = some (.inst i)

/-- The two trees have, in the same order, cells with the same names and of the same types, templates and what is below them apart.
So they have the same instances. -/
def SameShape (t t' : Tr069Tree) : Prop :=
  t.visited.map (fun v => (v.allName, v.cell.type)) = t'.visited.map fun v => (v.allName, v.cell.type)

end Tr069Tree

/-- A node has a name without a space; if it is no leaf, the name is not a number. -/
def PlainName (cell : Cell) (_ : List Cell) : Prop :=
  match cell with
  | .node n => (∀ c ∈ n.name, isSpace c = false) ∧ (n.content.type.isLeaf = false → stringToNum n.name = none)
  | .inst _ => True

instance (cell : Cell) (kids : List Cell) : Decidable (PlainName cell kids) :=
  match cell with
  -- the characters of the name, rather than all there are
  | .node n => @instDecidableAnd _ _ (List.decidableBAll (fun c => isSpace c = false) n.name) inferInstance
  | .inst _ => .isTrue trivial

theorem isSpace_decimal (i : Int) : ∀ c ∈ decimal i, isSpace c = false := by
  have hdigits : ∀ n, ∀ c ∈ Nat.toDigits 10 n, isSpace c = false := by
    intro n c hc
    have hdigit : c.isDigit = true := Nat.isDigit_of_mem_toDigits (by decide) (by decide) hc
    have hval : 48 ≤ c.toNat := by
      simp only [Char.isDigit, Bool.and_eq_true, decide_eq_true_eq] at hdigit
      exact hdigit.1
    simp only [isSpace, Bool.or_eq_false_iff, decide_eq_false_iff_not]
    refine ⟨⟨⟨⟨⟨?_, ?_⟩, ?_⟩, ?_⟩, by omega⟩, by omega⟩ <;>
      · rintro rfl
        exact absurd hval (by decide)
  cases i with
  | ofNat n => exact hdigits n
  | negSucc n =>
    intro c hc
    rcases List.mem_cons.1 hc with rfl | hc
    · decide
    · exact hdigits _ c hc

theorem PlainName.isSpace_text {cell : Cell} {kids : List Cell} (h : PlainName cell kids) :
    ∀ c ∈ cell.text, isSpace c = false := by
  cases cell with
  | node n => exact h.1
  | inst i => exact isSpace_decimal i.index

namespace Tr069Tree

variable {t : Tr069Tree} {r : Text} {k : Nat}

/-- A rooted tree is visited from its root. -/
theorem Rooted.visited (h : t.Rooted r k) :
    ∃ root sub, t.nodes.forest.cell? [k] = some (root, sub) ∧ t.visited = visits [] [k] root sub := by
  obtain ⟨n, _, _, hkids⟩ := h.node
  have hget : t.nodes.get? [k] = some (.node n) := by
    have hlevel : t.nodes.get? ([] ++ [k]) = _ := Memory.get?_concat t.nodes [] k
    rw [hkids] at hlevel
    simpa using hlevel
  obtain ⟨⟨root, sub⟩, hc, _⟩ := Option.map_eq_some_iff.1 hget
  refine ⟨root, sub, hc, ?_⟩
  rw [Tr069Tree.visited, h.entry]
  simp only [Option.bind_some, hc, Option.map_some]

theorem Rooted.writeInstanceAttributes (h : t.Rooted r k) :
    writeInstanceAttributes t = some (dotted '\n' (t.visited.filterMap Visit.line)) := by
  obtain ⟨root, sub, hc, hvisited⟩ := h.visited
  rw [hvisited]
  exact writeInstanceAttributes_eq (by rw [h.entry]) hc

/-- Below a cell of the tree is under an instance what is below one that is, or below an instance. -/
theorem underInstance_concat {p : Pos} {key : Nat} {cell : Cell} (hp : t.nodes.get? p = some cell) :
    t.UnderInstance (p ++ [key]) ↔ t.UnderInstance p ∨ cell.type = .inst := by
  constructor
  · rintro ⟨q, i, hpre, hne, hq⟩
    have hqp : q <+: p := (List.prefix_concat_iff.1 hpre).resolve_left hne
    by_cases heq : q = p
    · subst heq
      obtain rfl := Option.some.inj (hp.symm.trans hq)
      exact Or.inr rfl
    · exact Or.inl ⟨q, i, hqp, heq, hq⟩
  · rintro (⟨q, i, hpre, hne, hq⟩ | htype)
    · refine ⟨q, i, hpre.trans (List.prefix_append _ _), ?_, hq⟩
      rintro rfl
      exact absurd hpre.length_le (by simp)
    · obtain ⟨i, rfl⟩ := exists_inst_of_type htype
      exact ⟨p, i, List.prefix_append _ _, by simp, hp⟩

/-- What the name of a visited cell says: it has no space before its last part, and a part with a dot behind it is a number exactly
if the cell is under an instance. -/
theorem topName_of_mem_visited (h : t.Rooted r k) (hsearch : t.nodes.forest.All Searchable)
    (hplain : t.nodes.forest.All PlainName) (hnoLeaf : t.nodes.forest.All Shaped) :
    ∀ v ∈ t.visited, (∀ c ∈ v.topName, isSpace c = false) ∧
      ∃ ps, (∀ x ∈ ps, '.' ∉ x) ∧ v.topName = dotted '.' ps ∧
        ((∃ x ∈ ps, (stringToNum x).isSome = true) ↔ t.UnderInstance v.pos) := by
  obtain ⟨root, sub, hc, hvisited⟩ := h.visited
  rw [hvisited]
  refine visits_induction hc ⟨by simp, [], by simp, rfl, ?_⟩ ?_
  · -- above the root there is nothing
    refine iff_of_false (by simp) ?_
    rintro ⟨q, i, hpre, hne, hq⟩
    have hnil : q = [] := by
      rcases List.prefix_cons_iff.1 hpre with hnil | ⟨q', hq', hpre'⟩
      · exact hnil
      · rw [hq', List.prefix_nil.1 hpre'] at hne
        exact absurd rfl hne
    rw [hnil, Memory.get?_empty] at hq
    cases hq
  · rintro w sub' ⟨hspace, ps, hps, htopName, hiff⟩ hcell x hx
    have hget := get?_of_cell hcell
    have hnamed := (hsearch.cell? hcell).1.1
    have hshape := (hnoLeaf.cell? hcell).1
    have hmem : x ∈ sub'.heads := by
      split at hx
      · exact List.mem_of_mem_tail hx
      · exact hx
    have hname := (hplain.cell? hcell).1
    have hwords := hname.isSpace_text
    have htext : (stringToNum w.cell.text).isSome = true ↔ w.cell.type = .inst := by
      cases hw : w.cell with
      | inst i =>
        rw [hw] at hnamed
        refine iff_of_true ?_ rfl
        simp [Cell.text, stringToNum_decimal hnamed.1 hnamed.2]
      | node n =>
        rw [hw] at hname hshape
        have hnotInst : (Cell.node n).type ≠ .inst := by
          intro htype
          obtain ⟨i, hi⟩ := exists_inst_of_type htype
          cases hi
        have hnotLeaf : n.content.type.isLeaf = false := by
          by_contra hleaf
          unfold Shaped Cell.type at hshape
          cases htype : n.content.type <;> simp only [htype] at hshape hleaf <;> first
            | exact absurd hshape (by
                intro hnil
                rw [List.map_eq_nil_iff.1 hnil] at hmem
                cases hmem)
            | exact hleaf rfl
        refine iff_of_false ?_ hnotInst
        simp [Cell.text, hname.2 hnotLeaf]
    refine ⟨?_, ps ++ [w.cell.text], ?_, by simp [childTop_eq, htopName], ?_⟩
    · intro c hc
      rw [childTop_eq] at hc
      rcases List.mem_append.1 hc with hc | hc
      · rcases List.mem_append.1 hc with hc | hc
        · exact hspace c hc
        · exact hwords c hc
      · rw [List.mem_singleton.1 hc]
        decide
    · intro y hy
      rcases List.mem_append.1 hy with hy | hy
      · exact hps y hy
      · rw [List.mem_singleton.1 hy]
        exact hnamed.text.2
    · rw [underInstance_concat hget, ← hiff, ← htext]
      simp [or_and_right, exists_or]

/-- The names of the visited cells are distinct, as each leads to its cell. -/
theorem nodup_allName (h : t.Rooted r k) (hshape : t.nodes.forest.All Shaped) (hd : t.nodes.forest.All Distinct)
    (hsearch : t.nodes.forest.All Searchable) : (t.visited.map Visit.allName).Nodup := by
  obtain ⟨root, sub, hc, hvisited⟩ := h.visited
  have hget := get?_of_cell hc
  have hwalk := found_of_mem_visits h hshape hd hsearch hc (h.topName_root hget (hsearch.cell? hc).1.1)
  rw [hvisited]
  have hpos : ((visits [] [k] root sub).map Visit.pos).Nodup := nodup_visits hc
  refine (hpos.of_map _).map_on ?_
  intro v hv w hw hname
  refine List.inj_on_of_nodup_map hpos hv hw ?_
  have hfound := hwalk v hv
  rw [hname] at hfound
  have hentry := Except.ok.inj (hfound.symm.trans (hwalk w hw))
  exact Option.some.inj (Tr069NodeEntry.mk.inj hentry).2.2

end Tr069Tree

/-! ## Saving and loading -/

/-- The leaves of the second walk below instances, each with the node the first one has visited in its place. -/
def savedPairs : List Visit → List Visit → List (Visit × Tr069Node)
  | w :: ws, v :: vs =>
    match v.cell with
    | .node n => if n.content.type.isLeaf ∧ isMultiInstance v.allName then (w, n) :: savedPairs ws vs else savedPairs ws vs
    | .inst _ => savedPairs ws vs
  | _, _ => []

/-- The visits with the same names and types. -/
def Visit.key (v : Visit) : Text × Tr069Type := (v.allName, v.cell.type)

section Pairs

variable {ws vs : List Visit}

theorem savedPairs_cons (w v : Visit) (ws vs : List Visit) : savedPairs (w :: ws) (v :: vs) =
    match v.cell with
    | .node n => if n.content.type.isLeaf ∧ isMultiInstance v.allName then (w, n) :: savedPairs ws vs else savedPairs ws vs
    | .inst _ => savedPairs ws vs := rfl

theorem lines_savedPairs (h : vs.map Visit.key = ws.map Visit.key) :
    vs.filterMap Visit.line = (savedPairs ws vs).map fun e => attributeLine e.1.allName e.2 := by
  induction ws generalizing vs with
  | nil =>
    rw [List.map_eq_nil_iff.1 h]
    rfl
  | cons w ws ih =>
    cases vs with
    | nil => rfl
    | cons v vs =>
      obtain ⟨hkey, hrest⟩ := List.cons.inj h
      have hname : v.allName = w.allName := congrArg Prod.fst hkey
      rw [savedPairs_cons]
      cases hcell : v.cell with
      | inst i => simp [Visit.line, hcell, ih hrest]
      | node n =>
        by_cases hline : n.content.type.isLeaf ∧ isMultiInstance v.allName
        · have hv : v.line = some (attributeLine v.allName n) := by
            rw [Visit.line, hcell]
            exact if_pos hline
          rw [List.filterMap_cons_some hv, ih hrest]
          simp only
          rw [if_pos hline, List.map_cons, hname]
        · have hv : v.line = none := by
            rw [Visit.line, hcell]
            exact if_neg hline
          rw [List.filterMap_cons_none hv, ih hrest]
          simp only [if_neg hline]

theorem sublist_savedPairs (ws vs : List Visit) : ((savedPairs ws vs).map Prod.fst).Sublist ws := by
  induction ws generalizing vs with
  | nil => exact List.nil_sublist _
  | cons w ws ih =>
    cases vs with
    | nil => exact List.nil_sublist _
    | cons v vs =>
      rw [savedPairs_cons]
      split
      · split
        · exact (ih vs).cons_cons w
        · exact (ih vs).cons w
      · exact (ih vs).cons w

theorem of_mem_savedPairs (h : vs.map Visit.key = ws.map Visit.key) {e : Visit × Tr069Node} (he : e ∈ savedPairs ws vs) :
    e.1.cell.type.isLeaf = true ∧ isMultiInstance e.1.allName = true := by
  induction ws generalizing vs with
  | nil => cases he
  | cons w ws ih =>
    cases vs with
    | nil => cases he
    | cons v vs =>
      obtain ⟨hkey, hrest⟩ := List.cons.inj h
      rw [savedPairs_cons] at he
      split at he
      · rename_i n hcell
        split at he
        · rename_i hline
          rcases List.mem_cons.1 he with rfl | he
          · have hname : v.allName = w.allName := congrArg Prod.fst hkey
            have htype : v.cell.type = w.cell.type := congrArg Prod.snd hkey
            rw [hcell] at htype
            exact ⟨htype ▸ hline.1, hname ▸ hline.2⟩
          · exact ih hrest he
        · exact ih hrest he
      · exact ih hrest he

/-- Leaves of the same name are paired. -/
theorem mem_savedPairs (h : vs.map Visit.key = ws.map Visit.key) (hn : (ws.map Visit.allName).Nodup) {w v : Visit}
    (hw : w ∈ ws) (hv : v ∈ vs) (hname : w.allName = v.allName) {n : Tr069Node} (hcell : v.cell = .node n)
    (hleaf : n.content.type.isLeaf = true) (hmulti : isMultiInstance v.allName = true) : (w, n) ∈ savedPairs ws vs := by
  induction ws generalizing vs with
  | nil => cases hw
  | cons w₀ ws ih =>
    cases vs with
    | nil => cases hv
    | cons v₀ vs =>
      obtain ⟨hkey, hrest⟩ := List.cons.inj h
      have hname₀ : v₀.allName = w₀.allName := congrArg Prod.fst hkey
      have hnames : vs.map Visit.allName = ws.map Visit.allName := by
        have := congrArg (List.map Prod.fst) hrest
        simpa [Visit.key, Function.comp_def] using this
      rw [List.map_cons, List.nodup_cons] at hn
      -- a pair of later visits is in the rest of the list
      have hlater : (w, n) ∈ savedPairs ws vs → (w, n) ∈ savedPairs (w₀ :: ws) (v₀ :: vs) := by
        intro hmem
        rw [savedPairs_cons]
        split
        · split
          · exact List.mem_cons_of_mem _ hmem
          · exact hmem
        · exact hmem
      rcases List.mem_cons.1 hv with rfl | hv
      · rcases List.mem_cons.1 hw with rfl | hw
        · rw [savedPairs_cons, hcell]
          simp only
          rw [if_pos ⟨hleaf, hmulti⟩]
          exact List.mem_cons_self
        · exact absurd (List.mem_map.2 ⟨w, hw, hname.trans hname₀⟩) hn.1
      · rcases List.mem_cons.1 hw with rfl | hw
        · refine absurd ?_ hn.1
          rw [← hnames]
          exact List.mem_map.2 ⟨v, hv, hname.symm⟩
        · exact hlater (ih hrest hn.2 hw hv)

end Pairs

/-- Loading what was saved of the first tree restores the attributes of every leaf below an instance, and leaves what is not below
one as it is. The arrays hold the names, and the buffer of `fgets` every line. -/
structure Restores (saved : Tr069Tree) (s s' : TreeState) : Prop where
  inside : ∀ v ∈ saved.visited, ∀ w ∈ s.tree.visited, w.allName = v.allName → ∀ m : Tr069Node, v.cell = .node m →
    m.content.type.isLeaf = true → s.tree.UnderInstance w.pos →
      ∃ n : Tr069Node, s'.tree.nodes.get? w.pos = some (.node n) ∧ n.notification = m.notification ∧ n.accessModule = m.accessModule
  outside : ∀ p, ¬s.tree.UnderInstance p → s'.tree.nodes.get? p = s.tree.nodes.get? p
  held : ∀ v ∈ saved.visited, v.Held s.tree (·.name ≠ []) ∧ ∀ line ∈ v.line, line.length ≤ maxTr069NameLen + 4

/-- The attributes saved of the first tree are loaded into the other, and restored. -/
def SavedAndRestored (saved : Tr069Tree) (s : TreeState) : Prop :=
  ∃ file s', writeInstanceAttributes saved = some file ∧ s.loadInstanceAttributes file = some s' ∧ Restores saved s s'

theorem Visit.length_line {v : Visit} {line : Text} (h : line ∈ v.line) : line.length = v.allName.length + 4 := by
  have hnotification : ∀ n : Tr069Notification, (decimal n.toInt).length = 1 := by intro n; cases n <;> decide
  have haccess : ∀ a : Tr069AccessList, (decimal a.toInt).length = 1 := by intro a; cases a <;> decide
  unfold Visit.line at h
  split at h
  · split at h
    · cases h
      rw [attributeLine, List.length_append, List.length_cons, List.length_append, List.length_cons, hnotification, haccess]
    · cases h
  · cases h

/-- **Attributes survive saving and loading**, in a tree that is searched as the loader leaves it, with names that can be read as one
word, are numbers for instances only and are not too long, from a cache in which there is a name and the cell it leads to. -/
theorem instance_attributes_restored {saved : Tr069Tree} {s : TreeState} {r r' : Text} {k k' : Nat} (hsaved : saved.Rooted r' k')
    (h : s.tree.Rooted r k) (hsame : saved.SameShape s.tree) (hshape : s.tree.nodes.forest.All Shaped)
    (hd : s.tree.nodes.forest.All Distinct) (hsearch : s.tree.nodes.forest.All Searchable)
    (hplain : s.tree.nodes.forest.All PlainName) (hsound : s.tree.Sound s.cache) (hcached : s.cache.name ≠ [])
    (hfit : ∀ v ∈ s.tree.visited, v.allName.length < maxTr069NameLen) : SavedAndRestored saved s := by
  have hkeys : saved.visited.map Visit.key = s.tree.visited.map Visit.key := hsame
  have hnames := Tr069Tree.nodup_allName h hshape hd hsearch
  have htop := Tr069Tree.topName_of_mem_visited h hsearch hplain hshape
  obtain ⟨root, sub, hc, hvisited⟩ := h.visited
  have hget := get?_of_cell hc
  have hleads := Tr069Tree.leads_of_mem_visits h.searches hshape hd hsearch hc (h.topName_root hget (hsearch.cell? hc).1.1)
  rw [← hvisited] at hleads
  -- a name says that it is below an instance exactly if its cell is
  have hmulti : ∀ w ∈ s.tree.visited, isMultiInstance w.allName = true ↔ s.tree.UnderInstance w.pos := by
    intro w hw
    obtain ⟨_, ps, hps, htopName, hiff⟩ := htop w hw
    obtain ⟨_, hnamed, _⟩ := hleads w hw
    have hparts : parts w.allName = ps ++ [w.cell.text] := by
      rw [Visit.allName, htopName]
      exact splitOn_dotted_append_part hps hnamed.text.2
    rw [isMultiInstance, hparts, List.dropLast_concat, List.any_eq_true, hiff]
  have hloadable : ∀ e ∈ savedPairs s.tree.visited saved.visited, e.1.Loadable s.tree ∧ s.tree.UnderInstance e.1.pos := by
    intro e he
    have hw : e.1 ∈ s.tree.visited := (sublist_savedPairs _ _).subset (List.mem_map.2 ⟨e, he, rfl⟩)
    obtain ⟨hleaf, hm⟩ := of_mem_savedPairs hkeys he
    obtain ⟨hcell, hnamed, ps, hps, htopName, hlead⟩ := hleads e.1 hw
    obtain ⟨hspace, ps', hps', htopName', hiff⟩ := htop e.1 hw
    have hunder := (hmulti e.1 hw).1 hm
    have hpsne : ps ≠ [] := by
      rintro rfl
      obtain ⟨x, hx, _⟩ := hiff.2 hunder
      have hnil : dotted '.' ps' = [] := htopName'.symm.trans htopName
      rw [dotted_eq_nil_iff.1 hnil] at hx
      cases hx
    refine ⟨⟨hcell, hleaf, hnamed, ⟨?_, ?_⟩, ps, hpsne, hps, htopName, hlead⟩, hunder⟩
    · simp [Visit.allName, hnamed.text.1]
    · intro c hmem
      rcases List.mem_append.1 hmem with hmem | hmem
      · exact hspace c hmem
      · obtain ⟨⟨a, s'⟩, hcell', ha⟩ := Option.map_eq_some_iff.1 hcell
        have hname := (hplain.cell? hcell').1.isSpace_text
        rw [← ha] at hmem
        exact hname c hmem
  have hnd : ((savedPairs s.tree.visited saved.visited).map fun e => e.1.pos).Nodup := by
    have hpos : (s.tree.visited.map Visit.pos).Nodup := by
      rw [hvisited]
      exact nodup_visits hc
    have hsub := ((sublist_savedPairs s.tree.visited saved.visited).map Visit.pos).nodup hpos
    rwa [List.map_map] at hsub
  obtain ⟨s', hload, hsets, hkeeps⟩ := loadLines h _ ⟨.refl _, hsound, hcached⟩ (fun e he => (hloadable e he).1) hnd
  rw [← lines_savedPairs hkeys] at hload
  refine ⟨_, s', hsaved.writeInstanceAttributes, ?_, ?_, ?_, ?_⟩
  · -- behind the last line feed the file ends
    have hlines : ∀ l ∈ saved.visited.filterMap Visit.line, '\n' ∉ l := by
      rw [lines_savedPairs hkeys]
      intro l hl
      obtain ⟨e, he, rfl⟩ := List.mem_map.1 hl
      exact newline_notMem_attributeLine (hloadable e he).1.word e.2
    have hsplit : (dotted '\n' (saved.visited.filterMap Visit.line)).splitOn '\n' =
        saved.visited.filterMap Visit.line ++ [[]] := by
      rw [← splitOn_dotted_append_part hlines (List.not_mem_nil), List.append_nil]
    rw [TreeState.loadInstanceAttributes, hsplit, List.foldlM_append, hload]
    rfl
  · intro v hv w hw hname m hcell hleaf hunder
    have hm : isMultiInstance v.allName = true := hname ▸ (hmulti w hw).2 hunder
    obtain ⟨n, hn⟩ := hsets _ (mem_savedPairs hkeys hnames hw hv hname hcell hleaf hm)
    exact ⟨_, hn, rfl, rfl⟩
  · intro p hp
    refine hkeeps p ?_
    rintro e he rfl
    exact hp (hloadable e he).2
  · intro v hv
    obtain ⟨w, hw, hkey⟩ := List.mem_map.1 (hkeys ▸ List.mem_map_of_mem (f := Visit.key) hv)
    have hname : w.allName = v.allName := congrArg Prod.fst hkey
    have hlength := hfit w hw
    rw [hname] at hlength
    refine ⟨⟨?_, hlength.le, ?_⟩, ?_⟩
    · rwa [Tr069Tree.length_childTop]
    · intro cache e cache' hne hg
      have hcache := Tr069Tree.length_cache_le hg
      rw [if_neg hne, Nat.zero_add] at hcache
      exact hcache.trans hlength.le
    · intro line hline
      rw [Visit.length_line hline]
      omega

/-- `Device.Host.1.` with two leaves, whose values the ACS is notified of as told. -/
def twoLeafTree (first second : String) (notification : Tr069Notification) : Tr069Tree where
  rootNode := ⟨"Device.".toList, .object, some [0]⟩
  nodes :=
    { forest :=
        .cons 0 (Tr069Tree.nodeCell "Device" .object)
          (.cons 0 (Tr069Tree.nodeCell "Host" (.multiObject ⟨2, 4, 1⟩))
            (.cons 0 (Tr069Tree.instCell 0) .nil
              (.cons 1 (Tr069Tree.instCell 1)
                (.cons 0 (.node ⟨first.toList, ⟨true, true⟩, notification, .all, false, 0, 16, .leaf (.string [])⟩) .nil
                  (.cons 1 (.node ⟨second.toList, ⟨true, true⟩, notification, .all, false, 0, 16, .leaf (.string [])⟩) .nil .nil))
                .nil)) .nil) .nil
      mark := 2
      separate := by simp [Forest.Separate, Forest.heads] }

theorem twoLeafTree_rooted (first second : String) (notification : Tr069Notification) :
    (twoLeafTree first second notification).Rooted "Device".toList 0 where
  noDot := by decide
  entry := rfl
  node := ⟨_, rfl, rfl, rfl⟩

/-- The tree as it is loaded into, from a cache that holds the root. -/
def twoLeafState (first second : String) : TreeState :=
  ⟨twoLeafTree first second .none, ⟨"Device.".toList, .object, some [0]⟩, false⟩

/-- Leaves in the order of their names are restored. -/
theorem instance_attributes_restored_ordered : SavedAndRestored (twoLeafTree "A" "B" .active) (twoLeafState "A" "B") :=
  instance_attributes_restored (twoLeafTree_rooted "A" "B" .active) (twoLeafTree_rooted "A" "B" .none) rfl
    (by decide +kernel) (by decide +kernel) (by decide +kernel) (by decide +kernel)
    (twoLeafTree_rooted "A" "B" .none).sound_root (by decide) (by decide +kernel)

/-- `Device.5.Name`, a leaf of an object whose name is a number. -/
def numberedTree (notification : Tr069Notification) : Tr069Tree where
  rootNode := ⟨"Device.".toList, .object, some [0]⟩
  nodes :=
    { forest :=
        .cons 0 (Tr069Tree.nodeCell "Device" .object)
          (.cons 0 (Tr069Tree.nodeCell "5" .object)
            (.cons 0 (.node ⟨"Name".toList, ⟨true, true⟩, notification, .all, false, 0, 16, .leaf (.string [])⟩) .nil .nil)
            .nil) .nil
      mark := 1
      separate := by simp [Forest.Separate, Forest.heads] }

theorem numberedTree_rooted (notification : Tr069Notification) : (numberedTree notification).Rooted "Device".toList 0 where
  noDot := by decide
  entry := rfl
  node := ⟨_, rfl, rfl, rfl⟩

/-- A number with a dot behind it is taken for the index of an instance: a leaf that is below none is saved, and changed. -/
theorem instance_attributes_not_restored :
    ¬∀ (saved : Tr069Tree) (s : TreeState) (r r' : Text) (k k' : Nat), saved.Rooted r' k' → s.tree.Rooted r k →
      saved.SameShape s.tree → s.tree.nodes.forest.All Shaped → s.tree.nodes.forest.All Distinct →
        s.tree.nodes.forest.All Searchable → s.tree.Sound s.cache → s.cache.name ≠ [] → SavedAndRestored saved s := by
  intro h
  let s : TreeState := ⟨numberedTree .none, ⟨"Device.".toList, .object, some [0]⟩, false⟩
  obtain ⟨file, s', hfile, hload, hrestores⟩ := h (numberedTree .active) s _ _ _ _ (numberedTree_rooted .active)
    (numberedTree_rooted .none) rfl (by decide +kernel) (by decide +kernel) (by decide +kernel) (numberedTree_rooted .none).sound_root
    (by decide)
  have hchanged : ((writeInstanceAttributes (numberedTree .active)).bind s.loadInstanceAttributes).bind
      (fun s => s.tree.nodes.get? [0, 0, 0]) ≠ (numberedTree .none).nodes.get? [0, 0, 0] := by
    decide +kernel
  rw [hfile, Option.bind_some, hload, Option.bind_some] at hchanged
  refine hchanged (hrestores.outside [0, 0, 0] ?_)
  rintro ⟨q, i, hpre, -, hq⟩
  have hnone : ∀ n ≤ 3, ∀ cell ∈ (numberedTree .none).nodes.get? ([0, 0, 0].take n), cell.type ≠ .inst := by decide +kernel
  rw [List.prefix_iff_eq_take.1 hpre] at hq
  exact hnone q.length hpre.length_le _ hq rfl

end CodeFactory.Tr69
