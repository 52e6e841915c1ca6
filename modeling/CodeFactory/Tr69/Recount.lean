import CodeFactory.Tr69.Object
import CodeFactory.Tr69.SiblingLookup

/-!
# What an add or a delete leaves, and which leaf it sets

Adding and deleting an instance both change the counters of one object and one instance list, and leave every other cell as it
is, except what is deleted with an instance (`Recount`). The leaf they set then is a sibling of the object, the one with the
name `get_num_of_entries_name` makes of the object's.
-/

namespace CodeFactory.Tr69

/-! ## Names -/

/-- The father and the name of the count leaf, for the name of an object with a dot at its end. -/
theorem countLeafName_dotted {ps : List Text} {l : Text} (hps : ∀ x ∈ ps, '.' ∉ x) (hl : '.' ∉ l) :
    countLeafName (dotted '.' (ps ++ [l])) = if ps = [] then none else some (dotted '.' ps, getNumOfEntriesName l) := by
  have hupto : uptoLastDot (dotted '.' (ps ++ [l])) = dotted '.' ps ++ l ++ ['.'] := by
    rw [← dotted_concat]
    exact (congrArg uptoLastDot (List.append_nil _)).symm.trans (rdropWhile_dotted_append List.not_mem_nil)
  have hdot : '.' ∈ dotted '.' ps ++ l ↔ ps ≠ [] := by
    rw [← List.count_pos_iff, List.count_append, count_dotted hps, List.count_eq_zero.2 hl, Nat.add_zero,
      List.length_pos_iff]
  have hfather : uptoLastDot (dotted '.' ps ++ l) = dotted '.' ps := rdropWhile_dotted_append hl
  have hlast : afterLastDot (dotted '.' ps ++ l) = l := rtakeWhile_dotted_append hl
  rw [countLeafName]
  simp only [hupto, List.dropLast_concat, hdot, hfather, hlast]
  by_cases h : ps = [] <;> simp [h]

/-- There is none for a name without a dot. -/
theorem countLeafName_of_notMem {name : Text} (h : '.' ∉ name) : countLeafName name = none := by
  have hupto : uptoLastDot name = [] := by
    rw [uptoLastDot, List.rdropWhile_eq_nil_iff]
    intro x hx
    have hne : x ≠ '.' := by
      rintro rfl
      exact h hx
    simpa using hne
  rw [countLeafName]
  simp [hupto]

theorem dotName_uptoLastDot (name : Text) : DotName (uptoLastDot name) := by
  obtain ⟨ps, l, hps, hl, rfl, _⟩ := exists_parts name
  exact ⟨ps, hps, rdropWhile_dotted_append hl⟩

theorem dotName_of_getLast? {name : Text} (h : name.getLast? = some '.') : DotName name := by
  obtain ⟨ps, l, hps, hl, rfl, _⟩ := exists_parts name
  by_cases hl' : l = []
  · exact ⟨ps, hps, by rw [hl', List.append_nil]⟩
  · rw [List.getLast?_append_of_ne_nil _ hl', List.getLast?_eq_some_getLast hl'] at h
    exact absurd (Option.some.inj h ▸ List.getLast_mem hl') hl

/-- The name of the object an instance is added to ends in a dot, or has none. -/
theorem addName_ok {objName name : Text} {id : Int} (h : addName objName = some (.ok (name, id))) :
    DotName name ∨ '.' ∉ name := by
  unfold addName at h
  split at h
  · cases h
  split at h
  · cases h
  rename_i hlast
  simp only at h
  split at h
  · split at h
    · cases h
      exact Or.inl (dotName_of_getLast? (not_not.1 hlast))
    · cases h
      exact Or.inl (dotName_uptoLastDot _)
  · rename_i hdot
    cases h
    exact Or.inr hdot

/-- The name of an instance has one part more than the name of its object. -/
theorem deleteName_ok {objName name : Text} {id : Int} (h : deleteName objName = some (.ok (name, id))) :
    DotName name ∧ objName.count '.' = name.count '.' + 1 := by
  unfold deleteName at h
  split at h
  · cases h
  split at h
  · cases h
  rename_i hne hlast
  simp only at h
  split at h
  · split at h
    · cases h
    · split at h
      · cases h
      · cases h
        refine ⟨dotName_uptoLastDot _, ?_⟩
        obtain ⟨ps, l, hps, hl, hname, _⟩ := exists_parts objName.dropLast
        have hobj : objName = objName.dropLast ++ ['.'] := by
          obtain ⟨init, hinit⟩ := List.getLast?_eq_some_iff.1 (not_not.1 hlast)
          rw [hinit, List.dropLast_concat]
        have hcut : uptoLastDot objName.dropLast = dotted '.' ps := by
          rw [hname]
          exact rdropWhile_dotted_append hl
        rw [hcut, hobj, hname]
        simp [List.count_append, List.count_eq_zero.2 hl]
  · cases h

namespace TreeState

/-- Ready for lookups: `rootNode` as the loader sets it, and a cache with a name as a lookup leaves it. -/
structure Ready (s : TreeState) : Prop where
  root : ∃ r k, '.' ∉ r ∧ s.tree.rootNode = ⟨r ++ ['.'], .object, some [k]⟩
  cache : DotName s.cache.name

/-- At `r`, `nodes` are the nodes of `s`. -/
def SameAt (s : TreeState) (nodes : Memory Cell) (r : Pos) : Prop :=
  nodes.get? r = s.tree.nodes.get? r ∧ (s.setNodes nodes).tree.labels r = s.tree.labels r

/-- From the nodes of `s` to `nodes`, the counters of the multi-instance object at `p` change from `instances` to `instances'`,
in step with its list. Every other cell stays, or an instance of the object is deleted with what is below it. -/
structure Recount (s : TreeState) (nodes : Memory Cell) (p : Pos) (n : Tr069Node) (instances instances' : Tr069Instances) :
    Prop where
  node : s.tree.nodes.get? p = some (.node n)
  content : n.content = .multiObject instances
  node' : nodes.get? p = some (.node { n with content := .multiObject instances' })
  mark : s.tree.nodes.mark ≤ nodes.mark
  max : instances'.maxNumOfEntries = instances.maxNumOfEntries
  template : ∃ key i L, s.tree.labels p = some ((key, .index i) :: L)
  list : ∃ L L', s.tree.labels p = some L ∧ (s.setNodes nodes).tree.labels p = some L' ∧
    (L.length = instances.numOfEntries.toNat + 1 → instances.numOfEntries ≤ instances.maxNumOfEntries →
      L'.length = instances'.numOfEntries.toNat + 1 ∧ instances'.numOfEntries ≤ instances'.maxNumOfEntries)
  others : (∀ r, r ≠ p → (∀ k ∈ r, k < s.tree.nodes.mark) → s.SameAt nodes r) ∨
    ∃ key i, s.tree.nodes.get? (p ++ [key]) = some (.inst i) ∧ ∀ r, r ≠ p → (∀ k ∈ r, k < s.tree.nodes.mark) →
      p ++ [key] <+: r ∧ nodes.get? r = none ∨ ¬p ++ [key] <+: r ∧ s.SameAt nodes r

variable {s s' : TreeState} {objName name : Text} {p : Pos} {n : Tr069Node} {instances instances' : Tr069Instances}
  {key key' : Nat} {template : Tr069Instance} {list : List (Nat × Cell)} {cache cache' : Tr069NodeEntry}
  {nodes : Memory Cell}

theorem recount_addNodes (ho : s.MultiObjectAt p n instances key template list) {instanceID : Int}
    (hfull : instances.numOfEntries < instances.maxNumOfEntries) :
    s.Recount (addNodes s.tree.nodes p n instances key template instanceID) p n instances (added instances) where
  node := ho.node
  content := ho.content
  node' := get?_addNodes ho instanceID
  mark := by simp [addNodes]
  max := rfl
  template := ⟨key, template.index, _, congrArg (Option.map _) ho.kids⟩
  list := by
    refine ⟨_, _, congrArg (Option.map _) ho.kids, labels_addNodes ho s.cache instanceID, fun hlen _ => ?_⟩
    have hsplit := congrArg List.length (List.takeWhile_append_dropWhile (p := fun x => !x.2.comesAfter instanceID)
      (l := (key, Cell.inst template) :: list))
    rw [List.length_append] at hsplit
    rw [List.length_map] at hlen ⊢
    rw [List.length_append, List.length_cons]
    simp only [added]
    constructor <;> bv_omega
  others := by
    left
    intro r hr hmark
    constructor
    · rw [addNodes, Memory.get?_modify, if_neg hr, Memory.get?_insertCopy ho.ne_nil hmark]
    · rw [Tr069Tree.labels, setNodes_nodes, addNodes, Memory.kids_modify,
        Memory.kids_insertCopy_of_ne ho.ne_nil hmark hr]
      · rfl
      · intro a ha
        rw [Memory.get?_insertCopy ho.ne_nil (Memory.lt_mark ho.node), ho.node] at ha
        exact Option.some.inj ha ▸ rfl

theorem get?_removeAt_self (ho : s.MultiObjectAt p n instances key template list) (key' : Nat) :
    (s.tree.nodes.removeAt p key').get? p = some (.node n) := by
  rw [Memory.get?_removeAt ho.ne_nil, if_neg, ho.node]
  intro hpre
  exact absurd hpre.length_le (by simp)

theorem labels_deleteNodes (ho : s.MultiObjectAt p n instances key template list) (cache : Tr069NodeEntry) (key' : Nat) :
    ({ s with cache := cache }.setNodes (deleteNodes s.tree.nodes p n instances key')).tree.labels p =
      some ((((key, Cell.inst template) :: list).eraseP fun x => x.1 = key').map (Prod.map id Cell.label)) := by
  rw [Tr069Tree.labels, setNodes_nodes, deleteNodes, Memory.kids_modify, Memory.kids_removeAt _ ho.ne_nil, ho.kids]
  · rfl
  · intro a ha
    obtain rfl := Option.some.inj ((get?_removeAt_self ho key').symm.trans ha)
    rfl

theorem recount_deleteNodes (hd : s.Deletes objName name cache p n instances key template list key') :
    s.Recount (deleteNodes s.tree.nodes p n instances key') p n instances (deleted instances) := by
  have ho := hd.object
  obtain ⟨_, cell, _, hmem, hlabel⟩ := hd.found
  have hmem' : (key', cell) ∈ (key, Cell.inst template) :: list := List.mem_cons_of_mem _ hmem
  have hget := Memory.get?_of_mem ho.kids hmem'
  have hinst : ∃ j, cell = .inst j := by
    cases cell with
    | node m => cases hlabel
    | inst j => exact ⟨j, rfl⟩
  obtain ⟨j, rfl⟩ := hinst
  have hself := get?_removeAt_self ho key'
  have hview : ∀ a, (s.tree.nodes.removeAt p key').get? p = some a →
      Cell.label (.node { n with content := .multiObject (deleted instances) }) = a.label := by
    intro a ha
    obtain rfl := Option.some.inj (hself.symm.trans ha)
    rfl
  refine ⟨ho.node, ho.content, ?_, le_rfl, rfl, ⟨key, template.index, _, congrArg (Option.map _) ho.kids⟩, ?_, ?_⟩
  · rw [deleteNodes, Memory.get?_modify, if_pos rfl, hself]
    rfl
  · refine ⟨_, _, congrArg (Option.map _) ho.kids, labels_deleteNodes ho s.cache key', fun hlen hmax => ?_⟩
    have herase := List.length_eraseP_of_mem hmem' (p := fun x => decide (x.1 = key')) (by simp)
    have hpos := List.length_pos_of_mem hmem
    rw [List.length_map] at hlen ⊢
    rw [List.length_cons] at hlen herase
    rw [herase]
    simp only [deleted]
    constructor <;> bv_omega
  · refine Or.inr ⟨key', j, hget, fun r hr hmark => ?_⟩
    have hgone : (s.tree.nodes.removeAt p key').get? r =
        if p ++ [key'] <+: r then none else s.tree.nodes.get? r := Memory.get?_removeAt ho.ne_nil key'
    by_cases hpre : p ++ [key'] <+: r
    · left
      rw [if_pos hpre] at hgone
      exact ⟨hpre, by rw [deleteNodes, Memory.get?_modify, if_neg hr, hgone]⟩
    · right
      rw [if_neg hpre] at hgone
      refine ⟨hpre, by rw [deleteNodes, Memory.get?_modify, if_neg hr, hgone], ?_⟩
      rw [Tr069Tree.labels, setNodes_nodes, deleteNodes, Memory.kids_modify hview,
        Memory.kids_removeAt_of_ne ho.ne_nil hr hpre]
      rfl

/-- Above and beside the object the nodes stay. -/
theorem Recount.sameAt (h : s.Recount nodes p n instances instances') {r : Pos} (hr : p <+: r → r = p) (hne : r ≠ p)
    (hmark : ∀ k ∈ r, k < s.tree.nodes.mark) : s.SameAt nodes r := by
  rcases h.others with hsame | ⟨key, i, _, hothers⟩
  · exact hsame r hne hmark
  · rcases hothers r hne hmark with ⟨hpre, _⟩ | ⟨_, hsame⟩
    · exact absurd (hr ((List.prefix_append p [key]).trans hpre)) hne
    · exact hsame

/-- A search sees the change at and below the object only. -/
theorem Recount.sameOutside (h : s.Recount nodes p n instances instances') :
    s.tree.SameOutside (s.setNodes nodes).tree p where
  rootNode := rfl
  labels := by
    intro r L hr hL
    obtain ⟨K, hK, _⟩ := Option.map_eq_some_iff.1 hL
    have hne : r ≠ p := fun he => hr (he ▸ List.prefix_rfl)
    rw [(h.sameAt (fun hpre => absurd hpre hr) hne (Memory.lt_mark_of_kids hK)).2, hL]
  type := by
    intro r cell hr hc
    by_cases hrp : r = p
    · subst hrp
      refine ⟨_, h.node', ?_⟩
      obtain rfl := Option.some.inj (h.node.symm.trans hc)
      simp [Cell.type, Content.type, h.content]
    · exact ⟨cell, (h.sameAt hr hrp (Memory.lt_mark hc)).1.trans hc, rfl⟩

namespace Ready

theorem dotName (h : s.Ready) : DotName s.tree.rootNode.name := by
  obtain ⟨r, k, hr, he⟩ := h.root
  rw [he]
  exact ⟨[r], by simpa using hr, by simp⟩

theorem ne_nil (h : s.Ready) : s.tree.rootNode.name ≠ [] := by
  obtain ⟨r, k, _, he⟩ := h.root
  simp [he]

theorem count (h : s.Ready) : s.tree.rootNode.name.count '.' = 1 := by
  obtain ⟨r, k, hr, he⟩ := h.root
  simp [he, List.count_append, List.count_eq_zero.2 hr]

theorem searches (h : s.Ready) : s.tree.rootNext.Searches := by
  obtain ⟨r, k, _, he⟩ := h.root
  rw [Tr069Tree.rootNext, he]
  exact Or.inl rfl

theorem looked (h : s.Ready) {cache : Tr069NodeEntry} (hc : s.Looked cache) (hroot : s'.tree.rootNode = s.tree.rootNode)
    (hcache : s'.cache = cache) : s'.Ready := by
  refine ⟨hroot ▸ h.root, hcache ▸ ?_⟩
  rcases hc with rfl | ⟨name, e, he⟩
  · exact h.cache
  · exact Tr069Tree.dotName_lookup h.dotName h.cache he

end Ready

/-- After the counters of the object at `p` have changed, a lookup of a name below the same father searches the array the
object is in. -/
theorem lookup_beside {e : Tr069NodeEntry} (hready : s.Ready) (hl : s.tree.getTr069NodeByName s.cache name = .ok (e, cache))
    (he : e.node = some p) (h : s.Recount nodes p n instances instances') :
    ∃ ps q L k next, (∀ x ∈ ps, '.' ∉ x) ∧ '.' ∉ n.name ∧ cutDot name = dotted '.' ps ++ n.name ∧ p = q ++ [k] ∧
      s.tree.labels q = some L ∧ bisearch n.name L = .ok k ∧ cache.name.count '.' ≤ ps.length + 1 ∧
      (ps ≠ [] → ∀ l, '.' ∉ l → l ≠ [] →
        ((s.setNodes nodes).tree.getTr069NodeByName cache (dotted '.' ps ++ l)).map Prod.fst =
          (bisearch l L >>= fun key => (s.setNodes nodes).tree.arrive next (q ++ [key])).map Prod.fst) := by
  have hsame := h.sameOutside
  obtain ⟨ps, l, d, d', hps, hdl, hcut, hn, hstep, hde, hcount, hsibling⟩ :=
    Tr069Tree.lookup_sibling hsame hready.searches hready.dotName hready.ne_nil hready.cache hl he
  obtain ⟨q, L, k, hq, htype, hL, hk, rfl, rfl⟩ := Tr069Tree.step_node hn hstep (hde ▸ he) h.node
  have hL' := hsame.labels q L (fun hpq => absurd hpq.length_le (by simp)) hL
  rw [hready.count] at hcount
  refine ⟨ps, q, L, k, d.2, hps, hdl, hcut, rfl, hL, hk, by omega, fun hpsne l hl hne => ?_⟩
  rw [hsibling hpsne l hl hne, Tr069Tree.step_array hq htype hL']

/-- The name of an instance is not in the name of the cache, once its object has been looked up. -/
theorem not_infix_cache {e : Tr069NodeEntry} (hready : s.Ready) (hl : s.tree.getTr069NodeByName s.cache name = .ok (e, cache))
    (he : e.node = some p) (h : s.Recount nodes p n instances instances') (hname : DotName name)
    (hcount : objName.count '.' = name.count '.' + 1) : ¬objName <:+: cache.name := by
  obtain ⟨ps, _, _, _, _, hps, hdl, hcut, _, _, _, hcache, _⟩ := lookup_beside hready hl he h
  have hn : name ≠ [] := by
    rintro rfl
    cases hl
  obtain ⟨qs, hqs, rfl⟩ := hname
  obtain ⟨rs, x, rfl⟩ := (List.eq_nil_or_concat' qs).resolve_left fun hnil => hn (by rw [hnil]; rfl)
  rw [dotted_concat, cutDot_append_dot] at hcut
  rw [dotted_concat, hcut, List.count_append, List.count_append, count_dotted hps, List.count_eq_zero.2 hdl] at hcount
  intro hinfix
  have := hinfix.sublist.count_le '.'
  simp only [List.count_cons_self, List.count_nil] at hcount
  omega

/-- **Which leaf is set.** After the counters of the object at `p` have changed, the search in the array the object is in
finds the count leaf, and the leaf is set if it can be; otherwise nothing but the cache changes. -/
theorem setCountLeaf_cases {e : Tr069NodeEntry} {num : BitVec 32} (hready : s.Ready)
    (hl : s.tree.getTr069NodeByName s.cache name = .ok (e, cache)) (he : e.node = some p)
    (hname : DotName name ∨ '.' ∉ name) (h : s.Recount nodes p n instances instances')
    (hset : ({ s with cache := cache }.setNodes nodes).setCountLeaf name num = some s') :
    ∃ q L k cache', p = q ++ [k] ∧ s.tree.labels q = some L ∧ (k, Label.name n.name) ∈ L ∧
      ({ s with cache := cache }.setNodes nodes).Looked cache' ∧
      ((∃ w leaf ret leaf', bisearch (getNumOfEntriesName n.name) L = .ok w ∧ nodes.get? (q ++ [w]) = some (.node leaf) ∧
          leaf.set s.gInitSuccess .webModule (.unsigned num) = .ok (ret, leaf') ∧
          s' = { s with cache := cache' }.setNodes (nodes.modify (q ++ [w]) fun _ => .node leaf')) ∨
        s' = { s with cache := cache' }.setNodes nodes ∧
          ∀ w leaf r, getNumOfEntriesName n.name ≠ [] → bisearch (getNumOfEntriesName n.name) L = .ok w →
            nodes.get? (q ++ [w]) = some (.node leaf) → leaf.set s.gInitSuccess .webModule (.unsigned num) ≠ .ok r) := by
  obtain ⟨ps, q, L, k, next, hps, hdl, hcut, rfl, hL, hk, _, hsibling⟩ := lookup_beside hready hl he h
  obtain ⟨fatherName, nodeName, hleafName, hleaf⟩ := setCountLeaf_eq_some hset
  -- the name has a dot at its end, and a father
  have hname' : name = dotted '.' (ps ++ [n.name]) := by
    rcases hname with ⟨qs, hqs, rfl⟩ | hnot
    · cases qs using List.reverseRecOn with
      | nil => cases hleafName
      | append_singleton qs x => rw [dotted_concat, dotted_concat, ← hcut, dotted_concat, cutDot_append_dot]
    · rw [countLeafName_of_notMem hnot] at hleafName
      cases hleafName
  rw [hname', countLeafName_dotted hps hdl] at hleafName
  split at hleafName
  · cases hleafName
  rename_i hpsne
  obtain ⟨rfl, rfl⟩ := Prod.mk.inj (Option.some.inj hleafName)
  rcases hleaf with ⟨hempty, rfl⟩ | ⟨hne, ret, hset⟩
  · refine ⟨q, L, k, cache, rfl, hL, Tr069Tree.bisearch_ok hk, Or.inl rfl, Or.inr ⟨rfl, fun w leaf r hne => ?_⟩⟩
    exact absurd hempty hne
  have hlookup := hsibling hpsne _ (notMem_getNumOfEntriesName hdl) hne
  rcases setTr069Value_cases hset with ⟨cache', hlooked, rfl, hnot⟩ | ⟨e', cache', p', leaf, leaf', he', hp', hc, hleaf, rfl⟩
  · refine ⟨q, L, k, cache', rfl, hL, Tr069Tree.bisearch_ok hk, hlooked, Or.inr ⟨rfl, fun w leaf r _ hw hc hr => hnot ?_⟩⟩
    -- the lookup finds the leaf, and the write succeeds
    have harrive : (s.setNodes nodes).tree.arrive next (q ++ [w]) =
        .ok (⟨[], (Cell.node leaf).type, some (q ++ [w])⟩, next.goBelow (Cell.node leaf).type (q ++ [w])) := by
      simp only [Tr069Tree.arrive, setNodes_nodes, hc, deref, bind, Except.bind]
      rfl
    rw [hw] at hlookup
    obtain ⟨⟨e', cache''⟩, he', hfst⟩ := map_eq_ok.1 (hlookup.trans (congrArg (Except.map Prod.fst) harrive))
    obtain ⟨ret', leaf'⟩ := r
    have hdone : ({ s with cache := cache }.setNodes nodes).setTr069Value .webModule _ _ = some (ret', _) :=
      setTr069Value_of_lookup he' (congrArg (·.node) hfst) hc (congrArg (·.type) hfst) hr
    obtain ⟨rfl, _⟩ := Prod.mk.inj (Option.some.inj (hset.symm.trans hdone))
    obtain ⟨_, _, _, _, _, _, hisSet, _⟩ := Tr069Node.set_eq_ok hr
    exact hisSet
  · obtain ⟨d'', harrive, hfst⟩ := map_eq_ok.1 (hlookup.symm.trans (congrArg (Except.map Prod.fst) he'))
    obtain ⟨w, hw, harrive⟩ := bind_eq_ok.1 harrive
    obtain ⟨cell, _, rfl⟩ := Tr069Tree.arrive_ok harrive
    simp only at hfst
    obtain rfl : q ++ [w] = p' := by
      rw [← hfst] at hp'
      exact Option.some.inj hp'
    exact ⟨q, L, k, cache', rfl, hL, Tr069Tree.bisearch_ok hk, Or.inr ⟨_, _, he'⟩, Or.inl ⟨w, leaf, ret, leaf', hw, hc, hleaf, rfl⟩⟩

end TreeState

end CodeFactory.Tr69
