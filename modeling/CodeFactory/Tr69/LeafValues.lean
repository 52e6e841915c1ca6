import CodeFactory.Tr69.SameSearch

/-!
# Values of leaves

What `set_tr069_value` does to the values in the tree: the leaf its name leads to gets the value, and nothing else changes. Where a
name leads depends on the lookup cache, which every lookup moves.
-/

namespace CodeFactory.Tr69

theorem Tr069Value.convert_congr {leaf leaf' : Tr069Value} (h : leaf.type = leaf'.type) (arg : Tr069Value) :
    leaf.convert arg = leaf'.convert arg := by
  cases arg <;> cases leaf <;> cases leaf' <;> first | rfl | cases h

namespace Tr069Tree

variable {t t' : Tr069Tree} {cache : Tr069NodeEntry} {name : Text} {p : Pos}

/-- The value of the leaf at `p`. -/
def valueAt (t : Tr069Tree) (p : Pos) : Option Tr069Value := (t.nodes.get? p).bind Cell.value?

/-- Where a name leads to. -/
def leadsTo (t : Tr069Tree) (cache : Tr069NodeEntry) (name : Text) : Option Pos :=
  match t.getTr069NodeByName cache name with
  | .ok (entry, _) => entry.node
  | .error _ => none

/-- The cache when a name has been looked up. -/
def cacheLookedUp (t : Tr069Tree) (cache : Tr069NodeEntry) (name : Text) : Tr069NodeEntry :=
  match t.getTr069NodeByName cache name with
  | .ok (_, cache') => cache'
  | .error _ => cache

/-- The cache when names have been looked up one after the other, with values for them. -/
def cacheAfterWrites (t : Tr069Tree) (cache : Tr069NodeEntry) (writes : List (Text × Tr069Value)) : Tr069NodeEntry :=
  writes.foldl (fun cache write => t.cacheLookedUp cache write.1) cache

/-- Of names that are looked up one after the other, one leads to `p`. -/
def WrittenTo (t : Tr069Tree) (p : Pos) : Tr069NodeEntry → List (Text × Tr069Value) → Prop
  | _, [] => False
  | cache, write :: writes => t.leadsTo cache write.1 = some p ∨ WrittenTo t p (t.cacheLookedUp cache write.1) writes

/-- The leaf at `p` holds the argument, as a value of the type it has. -/
def HoldsAt (t : Tr069Tree) (p : Pos) (arg : Tr069Value) : Prop := ∃ v, t.valueAt p = some v ∧ v.convert arg = .ok v

theorem cacheAfterWrites_append (writes writes' : List (Text × Tr069Value)) :
    t.cacheAfterWrites cache (writes ++ writes') = t.cacheAfterWrites (t.cacheAfterWrites cache writes) writes' :=
  List.foldl_append

theorem writtenTo_append {writes writes' : List (Text × Tr069Value)} :
    t.WrittenTo p cache (writes ++ writes') ↔
      t.WrittenTo p cache writes ∨ t.WrittenTo p (t.cacheAfterWrites cache writes) writes' := by
  induction writes generalizing cache with
  | nil => simp [WrittenTo, cacheAfterWrites]
  | cons write writes ih =>
    rw [List.cons_append, WrittenTo, WrittenTo, ih, or_assoc]
    rfl

namespace SameSearch

theorem leadsTo (h : t.SameSearch t') (cache : Tr069NodeEntry) (name : Text) : t'.leadsTo cache name = t.leadsTo cache name := by
  rw [Tr069Tree.leadsTo, h.lookup, Tr069Tree.leadsTo]

theorem cacheLookedUp (h : t.SameSearch t') (cache : Tr069NodeEntry) (name : Text) :
    t'.cacheLookedUp cache name = t.cacheLookedUp cache name := by
  rw [Tr069Tree.cacheLookedUp, h.lookup, Tr069Tree.cacheLookedUp]

theorem cacheAfterWrites (h : t.SameSearch t') (cache : Tr069NodeEntry) (writes : List (Text × Tr069Value)) :
    t'.cacheAfterWrites cache writes = t.cacheAfterWrites cache writes := by
  unfold Tr069Tree.cacheAfterWrites
  simp only [h.cacheLookedUp]

theorem writtenTo (h : t.SameSearch t') {p : Pos} {cache : Tr069NodeEntry} {writes : List (Text × Tr069Value)} :
    t'.WrittenTo p cache writes ↔ t.WrittenTo p cache writes := by
  induction writes generalizing cache with
  | nil => exact Iff.rfl
  | cons write writes ih => rw [WrittenTo, WrittenTo, h.leadsTo, h.cacheLookedUp, ih]

end SameSearch

end Tr069Tree

namespace TreeState

variable {s s' : TreeState} {module : Tr069AccessModule} {name : Text} {arg : Tr069Value} {ret : Result}

/-- The cache is left as the lookup leaves it. -/
theorem cache_setTr069Value (h : s.setTr069Value module name arg = some (ret, s')) :
    s'.cache = s.tree.cacheLookedUp s.cache name := by
  unfold Tr069Tree.cacheLookedUp
  rcases withNode_eq_some h with ⟨_, he, _, rfl⟩ | ⟨entry, cache, he, h⟩
  · rw [he]
  rw [he]
  split at h
  · cases h
    rfl
  split at h
  · cases h
  split at h
  · cases h
    rfl
  · cases h
    rfl

/-- **Setting a value** writes the leaf the name leads to, or leaves the tree as it was and says so. -/
theorem valueAt_setTr069Value (h : s.setTr069Value module name arg = some (ret, s')) :
    (¬IsSet ret ∧ s'.tree = s.tree) ∨
      IsSet ret ∧ ∃ p, s.tree.leadsTo s.cache name = some p ∧ s'.tree.HoldsAt p arg ∧
        ∀ q, q ≠ p → s'.tree.valueAt q = s.tree.valueAt q := by
  rcases setTr069Value_cases h with ⟨_, _, rfl, hret⟩ | ⟨entry, cache, p, n, n', he, hp, hn, hset, rfl⟩
  · exact Or.inl ⟨hret, rfl⟩
  obtain ⟨leaf, value, hleaf, hvalue, _, _, hret, _, rfl⟩ := Tr069Node.set_eq_ok hset
  obtain ⟨hconvert, _⟩ := setValue_eq_ok.1 hvalue
  refine Or.inr ⟨hret, p, ?_, ⟨value, ?_, ?_⟩, ?_⟩
  · rw [Tr069Tree.leadsTo, he]
    exact hp
  · rw [Tr069Tree.valueAt, setNodes_nodes, Memory.get?_modify, if_pos rfl, hn]
    rfl
  · rw [Tr069Value.convert_congr (Tr069Value.type_convert hconvert)]
    exact hconvert
  · intro q hq
    rw [Tr069Tree.valueAt, setNodes_nodes, Memory.get?_modify, if_neg hq]
    rfl

/-- The tree is searched as before. -/
theorem sameSearch_setTr069Value (h : s.setTr069Value module name arg = some (ret, s')) : s.tree.SameSearch s'.tree := by
  refine ⟨?_, labels_setTr069Value h, ?_⟩
  · rcases setTr069Value_cases h with ⟨_, _, rfl, _⟩ | ⟨_, _, _, _, _, _, _, _, _, rfl⟩
    · rfl
    · rfl
  · intro q
    rcases setTr069Value_cases h with ⟨_, _, rfl, _⟩ | ⟨_, _, p, n, n', _, _, hn, hset, rfl⟩
    · rfl
    obtain ⟨leaf, value, hleaf, hvalue, _, _, _, _, rfl⟩ := Tr069Node.set_eq_ok hset
    rw [setNodes_nodes, Memory.get?_modify]
    split
    · rename_i hq
      have htype := Tr069Value.type_convert (setValue_eq_ok.1 hvalue).1
      rw [hq, hn]
      simp only [Option.map_some, Cell.type, Content.type, hleaf, htype]
    · rfl

end TreeState

end CodeFactory.Tr69
