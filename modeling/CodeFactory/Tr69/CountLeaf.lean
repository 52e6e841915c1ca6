import CodeFactory.Tr69.InstanceList
import CodeFactory.Tr69.Recount
import CodeFactory.Tr69.Walk

/-!
# The leaf that counts the instances

The leaf `XNumberOfEntries` beside a multi-instance object `X` says how many instances the object has. `add_tr069_object` and
`delete_tr069_object` set it as a local module would, and do not look whether it could be set. `count_leaf_in_step` says in
which runs it stays in step; `count_leaf_not_in_step` is a run in which it does not, because its access list was changed.
-/

namespace CodeFactory.Tr69

/-- A leaf with the value says the number `n`: in its 32 bits, or as a text, as `%d` prints them. -/
def Tr069Value.Says (n : Nat) : Tr069Value → Prop
  | .int v | .unsigned v | .bool v => v.toNat = n
  | .string s => s = decimal (BitVec.ofNat 32 n).toInt

/-- The range of a leaf admits the number: it admits every value of the leaf's type that says it. -/
def Tr069Node.Admits (leaf : Tr069Node) (n : Nat) : Prop :=
  ∀ value : Tr069Value, value.type = leaf.content.type → value.Says n → value.inRange leaf.min leaf.max

/-- A number is taken over by every type. -/
theorem Tr069Value.convert_unsigned (value : Tr069Value) (n : BitVec 32) :
    ∃ v, value.convert (.unsigned n) = .ok v ∧ v.Says n.toNat := by
  cases value with
  | int _ => exact ⟨_, rfl, rfl⟩
  | unsigned _ => exact ⟨_, rfl, rfl⟩
  | bool _ => exact ⟨_, rfl, rfl⟩
  | string _ => exact ⟨_, rfl, by simp [Says, bits]⟩

theorem setValue_of_admits {leaf : Tr069Node} {value : Tr069Value} {n : BitVec 32} (hc : leaf.content = .leaf value)
    (ha : leaf.Admits n.toNat) : ∃ v, setValue leaf.min leaf.max value (.unsigned n) = .ok v ∧ v.Says n.toNat := by
  obtain ⟨v, hv, hsay⟩ := value.convert_unsigned n
  have htype : v.type = leaf.content.type := by
    rw [Tr069Value.type_convert hv, hc]
    rfl
  exact ⟨v, setValue_eq_ok.2 ⟨hv, ha v htype hsay⟩, hsay⟩

/-- A call of a run. -/
inductive CountCall where
  | object (call : ObjectCall)
  | setAttribute (name : Text) (notification accessList : Option Int)
  deriving DecidableEq, Repr

namespace TreeState

/-- A call as a step of the tree, whatever it returns. -/
def countStep (s : TreeState) : CountCall → Option TreeState
  | .object call => s.objectStep call
  | .setAttribute name notification accessList => (s.setTr069Attribute name notification accessList).map Prod.snd

/-- As in `copiesInstances`. -/
def countCopies (s : TreeState) : CountCall → Bool
  | .object call => s.copiesInstances call
  | .setAttribute .. => false

/-- The call keeps the leaf at `q ++ [l]` in step with the object at `q ++ [x]`: when it changes the number of instances of
an object in the array at `q` whose count leaf this is, the object is the one at `q ++ [x]`, and a local module may write the
leaf. -/
def keepsCountLeaf (q : Pos) (x l : Nat) (s : TreeState) : CountCall → Bool
  | .object call =>
    match s.countedObject call with
    | some p =>
      match s.tree.nodes.get? p, s.tree.nodes.get? (q ++ [l]) with
      | some (.node object), some (.node leaf) =>
        decide (p.dropLast = q → getNumOfEntriesName object.name = leaf.name →
          p = q ++ [x] ∧ leaf.accessModule = .all)
      | _, _ => true
    | none => true
  | .setAttribute .. => true

/-- The object at `q ++ [x]` has the leaf at `q ++ [l]` for its count leaf: a sibling with the name, which the search in the
array finds, whose value is the number of its instances, and whose range admits every number of them. -/
structure HasCountLeaf (s : TreeState) (q : Pos) (x l : Nat) (object leaf : Tr069Node) (instances : Tr069Instances) :
    Prop where
  node : s.tree.nodes.get? (q ++ [x]) = some (.node object)
  content : object.content = .multiObject instances
  list : ∃ L, s.tree.labels (q ++ [x]) = some L ∧ L.length = instances.numOfEntries.toNat + 1
  bound : instances.numOfEntries ≤ instances.maxNumOfEntries
  leafNode : s.tree.nodes.get? (q ++ [l]) = some (.node leaf)
  name : leaf.name = getNumOfEntriesName object.name
  named : leaf.name ≠ []
  array : ∃ L, s.tree.labels q = some L ∧ (∀ e ∈ L, ∃ name, e.2 = .name name) ∧ bisearch leaf.name L = .ok l
  value : ∃ value, leaf.content = .leaf value ∧ value.Says instances.numOfEntries.toNat
  admits : ∀ n ≤ instances.maxNumOfEntries.toNat, leaf.Admits n

variable {s s' : TreeState} {q p : Pos} {x l : Nat} {object leaf n : Tr069Node} {instances instances' : Tr069Instances}
  {objName name : Text} {cache : Tr069NodeEntry} {key key' : Nat} {template : Tr069Instance} {list : List (Nat × Cell)}
  {nodes : Memory Cell}

/-! ## Which object a call counts -/

theorem namedObject_eq_some {entry : Tr069NodeEntry} {id : Int}
    (he : s.tree.getTr069NodeByName s.cache name = .ok (entry, cache)) (htype : entry.type = .multiObject)
    (hp : entry.node = some p) (ho : s.MultiObjectAt p n instances key template list) :
    s.namedObject (some (.ok (name, id))) = some (p, id, instances, list) := by
  simp [namedObject, he, multiObject?_eq_some.2 ⟨hp, ho⟩, htype]

theorem Adds.counted {instanceID : Int} (ha : s.Adds objName name cache p n instances key template list instanceID) :
    s.countedObject (.add objName) = some p := by
  obtain ⟨⟨entry, he, htype, hp⟩, ho, hfull, ⟨hname, rfl⟩ | ⟨hname, hne, hid⟩⟩ := ha
  · simp [countedObject, hname, namedObject_eq_some he htype hp ho, hfull]
  · have hany : (list.any fun x => x.2.label = .index instanceID) = false := by
      rw [List.any_eq_false]
      intro x hx
      simpa using hid x hx
    simp only [countedObject, hname, namedObject_eq_some he htype hp ho, hany, hfull]
    simp

theorem Deletes.counted (hd : s.Deletes objName name cache p n instances key template list key') :
    s.countedObject (.delete objName) = some p := by
  obtain ⟨⟨entry, he, htype, hp⟩, ho, id, cell, hname, hmem, hlabel⟩ := hd
  have hany : (list.any fun x => x.2.label = .index id) = true :=
    List.any_eq_true.2 ⟨_, hmem, by simpa using hlabel⟩
  simp only [countedObject, hname, namedObject_eq_some he htype hp ho, hany]
  simp

/-! ## What one call does -/

/-- What the calls keep: the object has its count leaf, or is gone. -/
structure CountsOk (s : TreeState) (q : Pos) (x l : Nat) : Prop where
  ready : s.Ready
  mark : ∀ k ∈ q ++ [x], k < s.tree.nodes.mark
  counts : s.tree.nodes.get? (q ++ [x]) = none ∨ ∃ object leaf instances, s.HasCountLeaf q x l object leaf instances

namespace HasCountLeaf

theorem ne (h : s.HasCountLeaf q x l object leaf instances) : q ++ [l] ≠ q ++ [x] := by
  intro he
  obtain ⟨value, hv, _⟩ := h.value
  obtain rfl := Cell.node.inj (Option.some.inj (h.leafNode.symm.trans (he ▸ h.node)))
  rw [h.content] at hv
  cases hv

theorem set_ok (h : s.HasCountLeaf q x l object leaf instances) (hall : leaf.accessModule = .all) {num : BitVec 32}
    (hnum : num ≤ instances.maxNumOfEntries) : ∃ r, leaf.set s.gInitSuccess .webModule (.unsigned num) = .ok r := by
  obtain ⟨value, hc, _⟩ := h.value
  obtain ⟨v, hv, _⟩ := setValue_of_admits hc (h.admits num.toNat hnum)
  exact Tr069Node.set_ok_of hc hv (by simp [hall]) (by simp)

theorem of_set (h : s.HasCountLeaf q x l object leaf instances) {num : BitVec 32} {ret : Result} {leaf' : Tr069Node}
    (hnum : num ≤ instances.maxNumOfEntries)
    (hset : leaf.set s.gInitSuccess .webModule (.unsigned num) = .ok (ret, leaf')) :
    leaf'.name = leaf.name ∧ (∃ value, leaf'.content = .leaf value ∧ value.Says num.toNat) ∧
      ∀ n, leaf.Admits n → leaf'.Admits n := by
  obtain ⟨value, v, hc, hv, _, _, _, _, rfl⟩ := Tr069Node.set_eq_ok hset
  obtain ⟨v', hv', hsay⟩ := setValue_of_admits hc (h.admits num.toNat hnum)
  obtain rfl := Except.ok.inj (hv'.symm.trans hv)
  refine ⟨rfl, ⟨v', rfl, hsay⟩, fun n hn w hw hsay => hn w (hw.trans ?_) hsay⟩
  rw [hc]
  exact Tr069Value.type_convert (setValue_eq_ok.1 hv).1

/-- An instance of the object is added or deleted, and the leaf is set. -/
theorem own (h : s.HasCountLeaf q x l object leaf instances) (hall : leaf.accessModule = .all)
    {ins ins' : Tr069Instances} (hr : s.Recount nodes (q ++ [x]) n ins ins') {L : List (Nat × Label)}
    (hL : s.tree.labels q = some L) (hlabels : ∀ r, s'.tree.labels r = (s.setNodes nodes).tree.labels r)
    (hs : (∃ w m ret m', bisearch (getNumOfEntriesName n.name) L = .ok w ∧ nodes.get? (q ++ [w]) = some (.node m) ∧
        m.set s.gInitSuccess .webModule (.unsigned ins'.numOfEntries) = .ok (ret, m') ∧
        s'.tree.nodes = nodes.modify (q ++ [w]) fun _ => .node m') ∨
      ∀ w m r, getNumOfEntriesName n.name ≠ [] → bisearch (getNumOfEntriesName n.name) L = .ok w →
        nodes.get? (q ++ [w]) = some (.node m) → m.set s.gInitSuccess .webModule (.unsigned ins'.numOfEntries) ≠ .ok r) :
    ∃ object' leaf', s'.HasCountLeaf q x l object' leaf' ins' := by
  obtain rfl := Cell.node.inj (Option.some.inj (hr.node.symm.trans h.node))
  obtain rfl := Content.multiObject.inj (hr.content.symm.trans h.content)
  obtain ⟨L₀, hL₀, hnames, hfind⟩ := h.array
  obtain rfl := Option.some.inj (hL₀.symm.trans hL)
  rw [h.name] at hfind
  -- the object's new counters
  obtain ⟨K, K', hK, hK', hstep⟩ := hr.list
  obtain ⟨K₀, hK₀, hlen⟩ := h.list
  obtain rfl := Option.some.inj (hK₀.symm.trans hK)
  obtain ⟨hlen', hbound'⟩ := hstep hlen h.bound
  have hnum : ins'.numOfEntries ≤ ins.maxNumOfEntries := hr.max ▸ hbound'
  -- the leaf is where it was
  have hleaf : nodes.get? (q ++ [l]) = some (.node leaf) := by
    rw [(hr.sameAt (fun hpre => (hpre.eq_of_length (by simp)).symm) h.ne (Memory.lt_mark h.leafNode)).1, h.leafNode]
  have hlabelsq : s'.tree.labels q = some L₀ := by
    obtain ⟨Kq, hKq, _⟩ := Option.map_eq_some_iff.1 hL
    rw [hlabels, (hr.sameAt (fun hpre => absurd hpre.length_le (by simp)) (fun he => absurd (congrArg List.length he) (by simp))
      (Memory.lt_mark_of_kids hKq)).2, hL]
  have hnamed : getNumOfEntriesName n.name ≠ [] := h.name ▸ h.named
  rcases hs with ⟨w, m, ret, m', hw, hm, hset, hs⟩ | hnot
  · obtain rfl : l = w := Except.ok.inj (hfind.symm.trans hw)
    obtain rfl := Cell.node.inj (Option.some.inj (hleaf.symm.trans hm))
    obtain ⟨hname, hvalue, hadmits⟩ := h.of_set hnum hset
    refine ⟨{ n with content := .multiObject ins' }, m', ?_, rfl, ⟨K', (hlabels _).trans hK', hlen'⟩, hbound', ?_, ?_,
      hname ▸ h.named, ⟨L₀, hlabelsq, hnames, ?_⟩, hvalue, fun i hi => hadmits i (h.admits i (hr.max ▸ hi))⟩
    · rw [hs, Memory.get?_modify, if_neg h.ne.symm, hr.node']
    · rw [hs, Memory.get?_modify, if_pos rfl, hleaf]
      rfl
    · rw [hname, h.name]
    · rw [hname, h.name, hfind]
  · obtain ⟨r, hr⟩ := h.set_ok hall hnum
    exact absurd hr (hnot l leaf r hnamed hfind hleaf)

theorem other (h : s.HasCountLeaf q x l object leaf instances) (hnode : s'.tree.nodes.get? (q ++ [x]) = some (.node object))
    (hleaf : s'.tree.nodes.get? (q ++ [l]) = some (.node leaf)) (hq : s'.tree.labels q = s.tree.labels q)
    (hx : s'.tree.labels (q ++ [x]) = s.tree.labels (q ++ [x])) : s'.HasCountLeaf q x l object leaf instances := by
  obtain ⟨L, hL, hlen⟩ := h.list
  obtain ⟨K, hK, hnames, hfind⟩ := h.array
  exact ⟨hnode, h.content, ⟨L, hx.trans hL, hlen⟩, h.bound, hleaf, h.name, h.named, ⟨K, hq.trans hK, hnames, hfind⟩, h.value,
    h.admits⟩

end HasCountLeaf

/-- What is deleted with an instance takes the object with it, when it takes a sibling. -/
theorem gone_or_sameAt (h : s.HasCountLeaf q x l object leaf instances) {ins ins' : Tr069Instances}
    (hr : s.Recount nodes p n ins ins') (hne : p ≠ q ++ [x]) :
    nodes.get? (q ++ [x]) = none ∨
      s.SameAt nodes (q ++ [x]) ∧ s.SameAt nodes (q ++ [l]) ∧ s.SameAt nodes q := by
  obtain ⟨L, hL, hnames, _⟩ := h.array
  obtain ⟨Kq, hKq, _⟩ := Option.map_eq_some_iff.1 hL
  have hpq : q ≠ p := by
    rintro rfl
    obtain ⟨key, i, K, hK⟩ := hr.template
    obtain rfl := Option.some.inj (hK.symm.trans hL)
    obtain ⟨name, hname⟩ := hnames _ List.mem_cons_self
    cases hname
  have hpl : q ++ [l] ≠ p := by
    rintro rfl
    obtain ⟨value, hv, _⟩ := h.value
    obtain rfl := Cell.node.inj (Option.some.inj (hr.node.symm.trans h.leafNode))
    rw [hr.content] at hv
    cases hv
  have hmarkx := Memory.lt_mark h.node
  have hmarkl := Memory.lt_mark h.leafNode
  have hmarkq := Memory.lt_mark_of_kids hKq
  rcases hr.others with hsame | ⟨key, i, hinst, hothers⟩
  · exact Or.inr ⟨hsame _ (Ne.symm hne) hmarkx, hsame _ hpl hmarkl, hsame _ hpq hmarkq⟩
  -- neither of the two is the instance itself
  have hbelow : ∀ {k : Nat} {m : Tr069Node}, s.tree.nodes.get? (q ++ [k]) = some (.node m) → p ++ [key] <+: q ++ [k] →
      p ++ [key] <+: q := by
    intro k m hm hpre
    refine (List.prefix_concat_iff.1 hpre).resolve_left fun he => ?_
    rw [he, hm] at hinst
    cases hinst
  rcases hothers _ (Ne.symm hne) hmarkx with ⟨_, hgone⟩ | ⟨hx, hsamex⟩
  · exact Or.inl hgone
  have hq : ¬p ++ [key] <+: q := fun hpre => hx (hpre.trans (List.prefix_append _ _))
  refine Or.inr ⟨hsamex, ?_, ?_⟩
  · exact ((hothers _ hpl hmarkl).resolve_left fun hl => hq (hbelow h.leafNode hl.1)).2
  · exact ((hothers _ hpq hmarkq).resolve_left fun hl => hq hl.1).2

theorem CountsOk.looked (h : s.CountsOk q x l) (hlooked : s.Looked cache) :
    ({ s with cache := cache } : TreeState).CountsOk q x l := by
  refine ⟨h.ready.looked hlooked rfl rfl, h.mark, h.counts.imp_right ?_⟩
  rintro ⟨object, leaf, instances, hc⟩
  exact ⟨object, leaf, instances, hc.other hc.node hc.leafNode rfl rfl⟩

/-- **An add or a delete keeps the leaf in step**, if it keeps to the condition. -/
theorem CountsOk.recount (h : s.CountsOk q x l) {e : Tr069NodeEntry} {ins ins' : Tr069Instances}
    (hguard : ∀ leaf, s.tree.nodes.get? (q ++ [l]) = some (.node leaf) → p.dropLast = q →
      getNumOfEntriesName n.name = leaf.name → p = q ++ [x] ∧ leaf.accessModule = .all)
    (hl : s.tree.getTr069NodeByName s.cache name = .ok (e, cache)) (he : e.node = some p) (hname : DotName name ∨ '.' ∉ name)
    (hr : s.Recount nodes p n ins ins')
    (hset : ({ s with cache := cache }.setNodes nodes).setCountLeaf name ins'.numOfEntries = some s') :
    s'.CountsOk q x l := by
  have hlabels := labels_setCountLeaf hset
  obtain ⟨q', L, k, cache', rfl, hL, hk, hlooked, hs⟩ := setCountLeaf_cases h.ready hl he hname hr hset
  have hready : s'.Ready := by
    have hready₁ : ({ s with cache := cache }.setNodes nodes).Ready := h.ready.looked (Or.inr ⟨name, e, hl⟩) rfl rfl
    rcases hs with ⟨_, _, _, _, _, _, _, rfl⟩ | ⟨rfl, _⟩ <;> exact hready₁.looked hlooked rfl rfl
  have hmark : s'.tree.nodes.mark = nodes.mark := by
    rcases hs with ⟨_, _, _, _, _, _, _, rfl⟩ | ⟨rfl, _⟩ <;> rfl
  have hnone : ∀ r, nodes.get? r = none → s'.tree.nodes.get? r = none := by
    intro r hr
    rcases hs with ⟨w, _, _, _, _, _, _, rfl⟩ | ⟨rfl, _⟩
    · rw [setNodes_nodes, Memory.get?_modify]
      split <;> simp [hr]
    · exact hr
  refine ⟨hready, fun k hk => hmark ▸ Nat.lt_of_lt_of_le (h.mark k hk) hr.mark, ?_⟩
  rcases h.counts with hgone | ⟨object, leaf, instances, hc⟩
  · refine Or.inl (hnone _ ?_)
    have hne : q ++ [x] ≠ q' ++ [k] := by
      intro he
      rw [he, hr.node] at hgone
      cases hgone
    rcases hr.others with hsame | ⟨_, _, _, hothers⟩
    · rw [(hsame _ hne h.mark).1, hgone]
    · rcases hothers _ hne h.mark with ⟨_, hnone⟩ | ⟨_, hsame, _⟩
      · exact hnone
      · rw [hsame, hgone]
  by_cases hp : q' ++ [k] = q ++ [x]
  · right
    obtain ⟨rfl, hkx⟩ := List.append_inj' hp rfl
    obtain rfl : k = x := by simpa using hkx
    obtain rfl := Cell.node.inj (Option.some.inj (hr.node.symm.trans hc.node))
    have hall := (hguard leaf hc.leafNode (by simp) hc.name.symm).2
    obtain ⟨object', leaf', hown⟩ := hc.own hall hr hL hlabels (hs.imp
      (fun ⟨w, m, ret, m', hw, hm, hset, hs⟩ => ⟨w, m, ret, m', hw, hm, hset, by rw [hs, setNodes_nodes]⟩) (fun hs => hs.2))
    exact ⟨object', leaf', ins', hown⟩
  · rcases gone_or_sameAt hc hr hp with hgone | ⟨hx, hl', hq⟩
    · exact Or.inl (hnone _ hgone)
    have hkeep : ∀ r m, nodes.get? r = some (.node m) → (∀ w, r = q' ++ [w] →
        bisearch (getNumOfEntriesName n.name) L = .ok w → m.content.type.isLeaf → False) →
          s'.tree.nodes.get? r = some (.node m) := by
      intro r m hm hr
      rcases hs with ⟨w, m', _, _, hw, hm', hset, rfl⟩ | ⟨rfl, _⟩
      · rw [setNodes_nodes, Memory.get?_modify, if_neg, hm]
        rintro rfl
        obtain rfl := Cell.node.inj (Option.some.inj (hm.symm.trans hm'))
        obtain ⟨value, _, hc, _⟩ := Tr069Node.set_eq_ok hset
        refine hr w rfl hw ?_
        rw [hc]
        cases value <;> rfl
      · exact hm
    right
    refine ⟨object, leaf, instances, hc.other (hkeep _ _ (hx.1.trans hc.node) ?_) (hkeep _ _ (hl'.1.trans hc.leafNode) ?_)
      ((hlabels q).trans hq.2) ((hlabels _).trans hx.2)⟩
    · intro w _ _ hleaf
      rw [hc.content] at hleaf
      cases hleaf
    · intro w he hw _
      obtain ⟨rfl, hlw⟩ := List.append_inj' he rfl
      obtain rfl : l = w := by simpa using hlw
      have hlabel := Tr069Tree.label_of_mem hL (Tr069Tree.bisearch_ok hw) hc.leafNode
      exact hp (hguard leaf hc.leafNode (by simp) (Label.name.inj hlabel).symm).1

/-- Attributes are changed: the leaf may get another access list, and nothing else of the two changes. -/
theorem CountsOk.setAttribute (h : s.CountsOk q x l) {notification accessList : Option Int} {ret : Result}
    (hs : s.setTr069Attribute name notification accessList = some (ret, s')) : s'.CountsOk q x l := by
  obtain ⟨hlooked, hroot, _, hmark, hrel⟩ := related_setTr069Attribute hs
  have hlabels : ∀ r, s'.tree.labels r = s.tree.labels r := by
    intro r
    refine (hrel.kids (fun a b hab => ?_) r).symm
    cases a with
    | node a =>
      cases b with
      | node b =>
        rw [hab]
        rfl
      | inst b => exact hab.elim
    | inst a =>
      cases b with
      | node b => exact hab.elim
      | inst b =>
        rw [hab]
        rfl
  have hget : ∀ r, Option.Rel SameButAttributes (s.tree.nodes.get? r) (s'.tree.nodes.get? r) := hrel.get?
  have hnode : ∀ {r n}, s.tree.nodes.get? r = some (.node n) →
      ∃ n', s'.tree.nodes.get? r = some (.node n') ∧ SameButAttributes (.node n) (.node n') := by
    intro r n hn
    have hr := hget r
    rw [hn] at hr
    cases hr' : s'.tree.nodes.get? r with
    | none =>
      rw [hr'] at hr
      cases hr
    | some c =>
      rw [hr'] at hr
      cases hr with
      | some hab =>
        cases c with
        | node n' => exact ⟨n', rfl, hab⟩
        | inst i => exact hab.elim
  refine ⟨h.ready.looked hlooked hroot rfl, hmark ▸ h.mark, ?_⟩
  rcases h.counts with hnone | ⟨object, leaf, instances, hc⟩
  · left
    have hr := hget (q ++ [x])
    rw [hnone] at hr
    cases hr' : s'.tree.nodes.get? (q ++ [x]) with
    | none => rfl
    | some c =>
      rw [hr'] at hr
      cases hr
  · right
    obtain ⟨object', hobject', hsame⟩ := hnode hc.node
    obtain ⟨leaf', hleaf', hsame'⟩ := hnode hc.leafNode
    simp only [SameButAttributes] at hsame hsame'
    have hname : object'.name = object.name := by rw [hsame]
    have hcontent : object'.content = object.content := by rw [hsame]
    have hname' : leaf'.name = leaf.name := by rw [hsame']
    have hcontent' : leaf'.content = leaf.content := by rw [hsame']
    have hmin : leaf'.min = leaf.min := by rw [hsame']
    have hmax : leaf'.max = leaf.max := by rw [hsame']
    refine ⟨object', leaf', instances, hobject', hcontent.trans hc.content, ?_, hc.bound, hleaf', ?_, hname' ▸ hc.named, ?_,
      hcontent' ▸ hc.value, fun n hn value htype hsay => ?_⟩
    · rw [hlabels]
      exact hc.list
    · rw [hname', hname, hc.name]
    · rw [hlabels, hname']
      exact hc.array
    · rw [hmin, hmax]
      exact hc.admits n hn value (hcontent' ▸ htype) hsay

/-! ## Runs -/

/-- What should hold after a call: while there is an object at `q ++ [x]`, the leaf at `q ++ [l]` says how many instances are
in its list behind the template. -/
def CountInStep (q : Pos) (x l : Nat) (_ : ListState) (_ : CountCall) (s' : ListState) : Prop :=
  ∀ list, s'.state.tree.labels (q ++ [x]) = some list →
    ∃ value, (s'.state.tree.nodes.get? (q ++ [l])).bind Cell.value? = some value ∧ value.Says (list.length - 1)

/-- The call keeps to the condition. -/
def KeepsCountLeaf (q : Pos) (x l : Nat) (s : TreeState) (call : CountCall) : Prop := keepsCountLeaf q x l s call = true

/-- And it copies no instances. -/
def CountsAlone (q : Pos) (x l : Nat) (s : ListState) (call : CountCall) : Prop :=
  KeepsCountLeaf q x l s.state call ∧ s.state.countCopies call = false

theorem CountsOk.inStep {s s' : ListState} (h : s'.state.CountsOk q x l) {call : CountCall} :
    CountInStep q x l s call s' := by
  intro list hlist
  rcases h.counts with hnone | ⟨object, leaf, instances, hc⟩
  · obtain ⟨K, hK, _⟩ := Option.map_eq_some_iff.1 hlist
    have hsome := s'.state.tree.nodes.isSome_kids (p := q ++ [x]) (by simp)
    rw [hK, hnone] at hsome
    cases hsome
  · obtain ⟨L, hL, hlen⟩ := hc.list
    obtain rfl := Option.some.inj (hL.symm.trans hlist)
    obtain ⟨value, hv, hsay⟩ := hc.value
    refine ⟨value, ?_, ?_⟩
    · simp [hc.leafNode, Cell.value?, hv]
    · rw [hlen]
      exact hsay

theorem keepsCountLeaf_of_counted {call : ObjectCall} (h : KeepsCountLeaf q x l s (.object call))
    (hp : s.countedObject call = some p) (hn : s.tree.nodes.get? p = some (.node n)) :
    ∀ leaf, s.tree.nodes.get? (q ++ [l]) = some (.node leaf) → p.dropLast = q →
      getNumOfEntriesName n.name = leaf.name → p = q ++ [x] ∧ leaf.accessModule = .all := by
  intro leaf hleaf
  unfold KeepsCountLeaf keepsCountLeaf at h
  simp only [hp, hn, hleaf] at h
  exact of_decide_eq_true h

/-- A call that keeps to the condition keeps the leaf in step. -/
theorem CountsOk.step (h : s.CountsOk q x l) {call : CountCall} (hc : KeepsCountLeaf q x l s call)
    (hs : s.countStep call = some s') : s'.CountsOk q x l := by
  cases call with
  | setAttribute name notification accessList =>
    obtain ⟨⟨ret, s''⟩, hr, rfl⟩ := Option.map_eq_some_iff.1 hs
    exact h.setAttribute hr
  | object call =>
    cases call with
    | add objName =>
      obtain ⟨⟨r, s''⟩, hr, rfl⟩ := Option.map_eq_some_iff.1 hs
      rcases addTr069Object_cases hr with
        ⟨cache, hlooked, rfl⟩ | ⟨name, cache, p, n, instances, key, template, list, id, ha, _, _, hleaf⟩
      · exact h.looked hlooked
      obtain ⟨entry, he, _, hp⟩ := ha.lookup
      have hname : DotName name ∨ '.' ∉ name := by
        rcases ha.id with ⟨hname, _⟩ | ⟨hname, _⟩ <;> exact addName_ok hname
      exact h.recount (keepsCountLeaf_of_counted hc ha.counted ha.object.node) he hp hname
        (recount_addNodes ha.object ha.notFull) hleaf
    | delete objName =>
      obtain ⟨⟨r, s''⟩, hr, rfl⟩ := Option.map_eq_some_iff.1 hs
      rcases deleteTr069Object_cases hr with
        ⟨cache, hlooked, rfl⟩ | ⟨name, cache, cache', p, n, instances, key, template, list, key', hd, hcache, _, hleaf⟩
      · exact h.looked hlooked
      obtain ⟨entry, he, _, hp⟩ := hd.lookup
      obtain ⟨id, _, hname, _⟩ := hd.found
      obtain ⟨hdot, hcount⟩ := deleteName_ok hname
      have hrecount := recount_deleteNodes hd
      rw [if_neg (not_infix_cache h.ready he hp hrecount hdot hcount)] at hcache
      subst hcache
      exact h.recount (keepsCountLeaf_of_counted hc hd.counted hd.object.node) he hp (Or.inl hdot)
        hrecount hleaf

/-- **The count leaf stays in step**, in every run whose calls keep to the condition. -/
theorem count_leaf_in_step {s₀ : TreeState} (hready : s₀.Ready) (h0 : s₀.HasCountLeaf q x l object leaf instances)
    {tr : List (Transition ListState CountCall)} {s : ListState}
    (hrun : Run (ListState.step countStep countCopies) s₀.own tr s) (hkeeps : Meets (CountsAlone q x l) tr) :
    Always (CountInStep q x l) tr := by
  have hcounts : s₀.CountsOk q x l := ⟨hready, Memory.lt_mark h0.node, Or.inr ⟨object, leaf, instances, h0⟩⟩
  refine hrun.always (I := fun s => s.shared = false ∧ s.state.CountsOk q x l) ⟨rfl, hcounts⟩
    (fun s call s' ⟨hown, hs⟩ ⟨hc, hcopies⟩ hl => ?_) hkeeps
  obtain ⟨hl, hshared⟩ := ListState.step_own hown hl
  have h := hs.step hc hl
  exact ⟨⟨hshared.trans hcopies, h⟩, h.inStep⟩

instance (q : Pos) (x l : Nat) (s : ListState) (call : CountCall) : Decidable (CountsAlone q x l s call) :=
  inferInstanceAs (Decidable (_ = true ∧ _))

theorem hostTree_ready : hostTree.Ready := ⟨⟨"Device".toList, 0, by decide, rfl⟩, DotName.nil⟩

theorem hostTree_countLeaf :
    hostTree.HasCountLeaf [0] 0 1
      ⟨"Host".toList, ⟨true, true⟩, .none, .all, false, 0, 0, .multiObject ⟨1, 8, 0⟩⟩
      ⟨"HostNumberOfEntries".toList, ⟨true, false⟩, .none, .all, false, 0, 8, .leaf (.unsigned 0)⟩ ⟨1, 8, 0⟩ where
  node := rfl
  content := rfl
  list := ⟨[(0, .index 0)], rfl, rfl⟩
  bound := by decide
  leafNode := rfl
  name := by decide
  named := by decide
  array := ⟨[(0, .name "Host".toList), (1, .name "HostNumberOfEntries".toList)], rfl, by simp, by decide⟩
  value := ⟨_, rfl, rfl⟩
  admits := by
    intro n hn value htype hsay
    cases value with
    | unsigned v =>
      have h8 : (8 : BitVec 32).toNat = 8 := rfl
      simp only [Tr069Value.Says] at hsay
      rw [h8, ← hsay] at hn
      simpa [Tr069Value.inRange, Tr069Value.unsignedBound] using hn
    | int _ => cases htype
    | bool _ => cases htype
    | string _ => cases htype

/-- The leaf follows adds and deletes, also when its access list is set to what it was. -/
theorem count_leaf_in_step_all :
    Always (CountInStep [0] 0 1) (play (ListState.next countStep countCopies) hostTree.own
      [.object (.add "Device.Host.".toList), .setAttribute "Device.HostNumberOfEntries".toList (some 2) (some 2),
        .object (.add "Device.Host.5.".toList), .object (.delete "Device.Host.1.".toList)]).1 :=
  count_leaf_in_step hostTree_ready hostTree_countLeaf (ListState.run_played _) (by unfold Meets; decide +kernel)

/-- Once only the server may write the leaf, it does not. -/
theorem count_leaf_not_in_step :
    ¬∀ (s₀ : TreeState) (q : Pos) (x l : Nat) (object leaf : Tr069Node) (instances : Tr069Instances), s₀.Ready →
      s₀.HasCountLeaf q x l object leaf instances → ∀ (tr : List (Transition ListState CountCall)) (s : ListState),
        Run (ListState.step countStep countCopies) s₀.own tr s → Always (CountInStep q x l) tr := by
  intro h
  have hrun : Run (ListState.step countStep countCopies) hostTree.own _ _ := ListState.run_played
    [.setAttribute "Device.HostNumberOfEntries".toList none (some 1), .object (.add "Device.Host.".toList)]
  have hlast := h hostTree _ _ _ _ _ _ hostTree_ready hostTree_countLeaf _ _ hrun _ (List.getLast_mem (by decide +kernel))
  obtain ⟨value, hv, hsay⟩ := hlast [(0, .index 0), (2, .index 1)] (by decide +kernel)
  have hzero : value = .unsigned 0 := Option.some.inj (hv.symm.trans (by decide +kernel))
  rw [hzero] at hsay
  cases hsay

end TreeState

end CodeFactory.Tr69
