import CodeFactory.Tr69.Lookup

/-!
# Setting the value of a leaf

`set_value` and `set_tr069_value`. A value of another type than the leaf's is converted as far as the source does it: text to
numbers, numbers to text, and between the numeric types the 32 bits are taken over as they are.
-/

namespace CodeFactory.Tr69

/-- `Tr069AccessModule`: who calls. -/
inductive Tr069AccessModule where
  | acsModule | webModule
  deriving DecidableEq, Repr

/-- The tree with the global variables that go with it: the lookup cache, and `gInitSuccess`, set once the agent has started. -/
structure TreeState where
  tree : Tr069Tree
  cache : Tr069NodeEntry
  gInitSuccess : Bool

namespace Tr069Value

/-- The 32 bits of a number. -/
def bits : Tr069Value → BitVec 32
  | int v | unsigned v | bool v => v
  | string _ => 0

/-- A value of the type of `like` with the given bits, or with the given text. -/
def ofBits (like : Tr069Value) (b : BitVec 32) : Tr069Value :=
  match like with
  | int _ => int b
  | unsigned _ => unsigned b
  | bool _ => bool b
  | string s => string s

/-- The number a text stands for. -/
def textBits (s : Text) : Option (BitVec 32) :=
  if sameWord s "true".toList then some 1
  else if sameWord s "false".toList then some 0
  else (stringToNum s).map (BitVec.ofInt 32)

/-- The conversion at the head of `set_value`: an argument as a value of the type of the leaf's value. -/
def convert (leaf arg : Tr069Value) : Except Result Tr069Value :=
  match leaf, arg with
  | string _, string s => .ok (string s)
  | string _, arg => .ok (string (decimal arg.bits.toInt))
  | leaf, string s =>
    match textBits s with
    | some b => .ok (leaf.ofBits b)
    | none => .error .nodeValueError
  | leaf, arg => .ok (leaf.ofBits arg.bits)

/-- The bound of a range as the unsigned number it is compared as. -/
def unsignedBound (bound : Int) : Nat := (BitVec.ofInt 32 bound).toNat

/-- The range check of `set_value`, in the signedness of each comparison. -/
def inRange (min max : Int) : Tr069Value → Bool
  | int v | bool v => min ≤ v.toInt ∧ v.toInt ≤ max
  | unsigned v => unsignedBound min ≤ v.toNat ∧ v.toNat ≤ unsignedBound max
  | string s => unsignedBound min ≤ s.length ∧ s.length ≤ unsignedBound max

end Tr069Value

/-- `set_value`, on the value of a leaf with the given range: the new value. -/
def setValue (min max : Int) (leaf arg : Tr069Value) : Except Result Tr069Value :=
  match leaf.convert arg with
  | .error ret => .error ret
  | .ok value => if value.inRange min max then .ok value else .error .nodeValueError

/-- The part of `set_tr069_value` after the lookup, on the node that was found: what is returned, and the node as it is left.
An error leaves it unchanged. -/
def Tr069Node.set (n : Tr069Node) (gInitSuccess : Bool) (module : Tr069AccessModule) (arg : Tr069Value) :
    Except Result (Result × Tr069Node) :=
  match n.content with
  | .leaf leaf =>
    if n.accessModule = .acs ∧ module = .webModule then .error .nodeAccesslistCheckError
    else if module = .acsModule ∧ ¬n.accessType.write then .error .nodeAccessError
    else
      match setValue n.min n.max leaf arg with
      | .error ret => .error ret
      | .ok value =>
        let n := { n with content := .leaf value }
        if module = .webModule ∧ n.notification ≠ .none then
          .ok (if n.notification = .active then .nodeNeedNotification else .nodeNeedNotificationPassive,
            { n with isChanged := n.isChanged || gInitSuccess })
        else .ok (.tcmagentOk, n)
  | _ => .error .nodeTypeError

namespace Tr069Value

theorem type_ofBits (like : Tr069Value) (b : BitVec 32) : (like.ofBits b).type = like.type := by
  cases like <;> rfl

/-- A converted argument has the type of the leaf. -/
theorem type_convert {leaf arg value : Tr069Value} (h : leaf.convert arg = .ok value) : value.type = leaf.type := by
  unfold convert at h
  split at h
  · cases h
    rfl
  · cases h
    rfl
  · split at h
    · cases h
      exact type_ofBits _ _
    · cases h
  · cases h
    exact type_ofBits _ _

theorem convert_error {leaf arg : Tr069Value} {ret : Result} (h : leaf.convert arg = .error ret) :
    ret = .nodeValueError := by
  unfold convert at h
  split at h
  · cases h
  · cases h
  · split at h
    · cases h
    · cases h
      rfl
  · cases h

end Tr069Value

/-- The value that is set: the argument converted, and in the range. -/
theorem setValue_eq_ok {min max : Int} {leaf arg value : Tr069Value} :
    setValue min max leaf arg = .ok value ↔ leaf.convert arg = .ok value ∧ value.inRange min max := by
  unfold setValue
  cases leaf.convert arg with
  | error ret => simp
  | ok v =>
    simp only [Except.ok.injEq]
    split
    · rename_i hr
      constructor
      · intro h
        cases h
        exact ⟨rfl, hr⟩
      · rintro ⟨rfl, _⟩
        rfl
    · rename_i hr
      constructor
      · intro h
        cases h
      · rintro ⟨rfl, h⟩
        exact absurd h hr

theorem setValue_error {min max : Int} {leaf arg : Tr069Value} {ret : Result}
    (h : setValue min max leaf arg = .error ret) : ret = .nodeValueError := by
  unfold setValue at h
  split at h
  · rename_i e he
    cases h
    exact Tr069Value.convert_error he
  · split at h
    · cases h
    · cases h
      rfl

/-- The results that say that the value was set. -/
def IsSet (ret : Result) : Prop :=
  ret = .tcmagentOk ∨ ret = .nodeNeedNotification ∨ ret = .nodeNeedNotificationPassive

instance (ret : Result) : Decidable (IsSet ret) := inferInstanceAs (Decidable (_ ∨ _ ∨ _))

namespace Tr069Node

variable {n n' : Tr069Node} {gInitSuccess : Bool} {module : Tr069AccessModule} {arg : Tr069Value} {ret : Result}

/-- A node that was set is a leaf the caller may write, with the new value; a local write of a leaf with a notification marks
it. -/
theorem set_eq_ok (h : n.set gInitSuccess module arg = .ok (ret, n')) :
    ∃ leaf value, n.content = .leaf leaf ∧ setValue n.min n.max leaf arg = .ok value ∧
      ¬(n.accessModule = .acs ∧ module = .webModule) ∧ ¬(module = .acsModule ∧ ¬n.accessType.write) ∧ IsSet ret ∧
      (module = .acsModule → ret = .tcmagentOk) ∧
      n' = { n with
        content := .leaf value
        isChanged := n.isChanged || (decide (module = .webModule ∧ n.notification ≠ .none) && gInitSuccess) } := by
  unfold set at h
  split at h
  · rename_i leaf hleaf
    split at h
    · cases h
    rename_i hacs
    split at h
    · cases h
    rename_i hwrite
    split at h
    · cases h
    rename_i value hv
    refine ⟨leaf, value, hleaf, hv, hacs, hwrite, ?_⟩
    simp only at h
    split at h
    · rename_i hweb
      obtain ⟨rfl, rfl⟩ := Prod.mk.inj (Except.ok.inj h)
      refine ⟨?_, fun hm => absurd (hm ▸ hweb.1) (by decide), by simp [hweb]⟩
      split
      · exact Or.inr (Or.inl rfl)
      · exact Or.inr (Or.inr rfl)
    · rename_i hweb
      obtain ⟨rfl, rfl⟩ := Prod.mk.inj (Except.ok.inj h)
      exact ⟨Or.inl rfl, fun _ => rfl, by simp [hweb]⟩
  · cases h

/-- A node that was not set: the result says so. -/
theorem set_error (h : n.set gInitSuccess module arg = .error ret) : ¬IsSet ret := by
  unfold set at h
  split at h
  · split at h
    · cases h
      decide
    split at h
    · cases h
      decide
    split at h
    · rename_i hv
      cases h
      rw [setValue_error hv]
      decide
    · simp only at h
      split at h <;> cases h
  · cases h
    decide

theorem set_ok_of {leaf value : Tr069Value} (hc : n.content = .leaf leaf)
    (hv : setValue n.min n.max leaf arg = .ok value) (hacs : ¬(n.accessModule = .acs ∧ module = .webModule))
    (hw : ¬(module = .acsModule ∧ ¬n.accessType.write)) : ∃ r, n.set gInitSuccess module arg = .ok r := by
  rw [set, hc]
  simp only [if_neg hacs, if_neg hw, hv]
  split <;> exact ⟨_, rfl⟩

end Tr069Node

/-- The value of a leaf. -/
def Cell.value? : Cell → Option Tr069Value
  | .node n => match n.content with
    | .leaf v => some v
    | _ => none
  | .inst _ => none

namespace TreeState

/-- The tree with other nodes. -/
def setNodes (s : TreeState) (nodes : Memory Cell) : TreeState := { s with tree := { s.tree with nodes := nodes } }

/-- The node a pointer leads to. -/
def node? (s : TreeState) (pointer : Option Pos) : Option (Pos × Tr069Node) :=
  match pointer with
  | none => none
  | some p =>
    match s.tree.nodes.get? p with
    | some (.node n) => some (p, n)
    | _ => none

/-- Look up a name and go on with the entry; a lookup that returns an error is the end. -/
def withNode {ρ : Type} (s : TreeState) (name : Text) (err : Result → ρ)
    (f : Tr069NodeEntry → TreeState → Option (ρ × TreeState)) : Option (ρ × TreeState) :=
  match s.tree.getTr069NodeByName s.cache name with
  | .ok (entry, cache) => f entry { s with cache := cache }
  | .error (.endret ret) => some (err ret, s)
  | .error .undefined => none

def setTr069Value (s : TreeState) (module : Tr069AccessModule) (name : Text) (value : Tr069Value) :
    Option (Result × TreeState) :=
  s.withNode name id fun entry s =>
    if ¬entry.type.isLeaf then some (.nodeTypeError, s) else
    match s.node? entry.node with
    | none => none
    | some (p, n) =>
      match n.set s.gInitSuccess module value with
      | .error ret => some (ret, s)
      | .ok (ret, n') => some (ret, s.setNodes (s.tree.nodes.modify p fun _ => .node n'))

@[simp] theorem setNodes_nodes (s : TreeState) (m : Memory Cell) : (s.setNodes m).tree.nodes = m := rfl

@[simp] theorem setNodes_cache (s : TreeState) (m : Memory Cell) : (s.setNodes m).cache = s.cache := rfl

variable {s s' : TreeState} {name : Text} {ret : Result}

/-- An operation on a named node ends with the error of the lookup, or goes on after it. -/
theorem withNode_eq_some {ρ : Type} {r : ρ} {err : Result → ρ} {f : Tr069NodeEntry → TreeState → Option (ρ × TreeState)}
    (h : s.withNode name err f = some (r, s')) :
    (∃ ret, s.tree.getTr069NodeByName s.cache name = .error (.endret ret) ∧ r = err ret ∧ s' = s) ∨
      ∃ entry cache, s.tree.getTr069NodeByName s.cache name = .ok (entry, cache) ∧
        f entry { s with cache := cache } = some (r, s') := by
  unfold withNode at h
  split at h
  · rename_i entry cache he
    exact Or.inr ⟨entry, cache, he, h⟩
  · rename_i ret he
    obtain ⟨rfl, rfl⟩ := Prod.mk.inj (Option.some.inj h)
    exact Or.inl ⟨ret, he, rfl, rfl⟩
  · cases h

/-- A cache that is still the old one, or that a lookup has left. -/
def Looked (s : TreeState) (cache : Tr069NodeEntry) : Prop :=
  cache = s.cache ∨ ∃ name entry, s.tree.getTr069NodeByName s.cache name = .ok (entry, cache)

theorem node?_eq_some {pointer : Option Pos} {p : Pos} {n : Tr069Node} :
    s.node? pointer = some (p, n) ↔ pointer = some p ∧ s.tree.nodes.get? p = some (.node n) := by
  unfold node?
  cases pointer with
  | none => simp
  | some q =>
    simp only [Option.some.injEq]
    split
    · rename_i n' hn
      simp only [Option.some.injEq, Prod.mk.injEq]
      constructor
      · rintro ⟨rfl, rfl⟩
        exact ⟨rfl, hn⟩
      · rintro ⟨rfl, hn'⟩
        exact ⟨rfl, Cell.node.inj (Option.some.inj (hn.symm.trans hn'))⟩
    · rename_i hne
      simp only [reduceCtorEq, false_iff, not_and]
      rintro rfl hn
      exact hne _ hn

/-- What `set_tr069_value` does: nothing but move the cache, or write the leaf the name leads to. -/
theorem setTr069Value_cases {module : Tr069AccessModule} {value : Tr069Value}
    (h : s.setTr069Value module name value = some (ret, s')) :
    (∃ cache, s.Looked cache ∧ s' = { s with cache := cache } ∧ ¬IsSet ret) ∨
      ∃ entry cache p n n', s.tree.getTr069NodeByName s.cache name = .ok (entry, cache) ∧ entry.node = some p ∧
        s.tree.nodes.get? p = some (.node n) ∧ n.set s.gInitSuccess module value = .ok (ret, n') ∧
        s' = { s with cache := cache }.setNodes (s.tree.nodes.modify p fun _ => .node n') := by
  rcases withNode_eq_some h with ⟨_, he, rfl, rfl⟩ | ⟨entry, cache, he, h⟩
  · refine Or.inl ⟨s'.cache, Or.inl rfl, rfl, ?_⟩
    rcases Tr069Tree.lookup_error he with rfl | rfl <;> decide
  split at h
  · obtain ⟨rfl, rfl⟩ := Prod.mk.inj (Option.some.inj h)
    exact Or.inl ⟨cache, Or.inr ⟨name, entry, he⟩, rfl, by decide⟩
  split at h
  · cases h
  rename_i p n hn
  obtain ⟨hp, hn⟩ := node?_eq_some.1 hn
  split at h
  · rename_i r hset
    obtain ⟨rfl, rfl⟩ := Prod.mk.inj (Option.some.inj h)
    exact Or.inl ⟨cache, Or.inr ⟨name, entry, he⟩, rfl, Tr069Node.set_error hset⟩
  · rename_i r n' hset
    obtain ⟨rfl, rfl⟩ := Prod.mk.inj (Option.some.inj h)
    exact Or.inr ⟨entry, cache, p, n, n', he, hp, hn, hset, rfl⟩

/-- And it does write a leaf that it finds and that can be set. -/
theorem setTr069Value_of_lookup {module : Tr069AccessModule} {value : Tr069Value} {entry cache : Tr069NodeEntry} {p : Pos}
    {n n' : Tr069Node} (he : s.tree.getTr069NodeByName s.cache name = .ok (entry, cache)) (hp : entry.node = some p)
    (hn : s.tree.nodes.get? p = some (.node n)) (htype : entry.type = (Cell.node n).type)
    (hset : n.set s.gInitSuccess module value = .ok (ret, n')) :
    s.setTr069Value module name value =
      some (ret, { s with cache := cache }.setNodes (s.tree.nodes.modify p fun _ => .node n')) := by
  obtain ⟨leaf, _, hleaf, _⟩ := Tr069Node.set_eq_ok hset
  have hisLeaf : entry.type.isLeaf = true := by
    rw [htype, Cell.type, hleaf]
    cases leaf <;> rfl
  have hnode : ({ s with cache := cache } : TreeState).node? entry.node = some (p, n) := node?_eq_some.2 ⟨hp, hn⟩
  simp [setTr069Value, withNode, he, hisLeaf, hnode, hset]

/-- Setting a leaf keeps what every cell is found by. -/
theorem labels_setTr069Value {module : Tr069AccessModule} {value : Tr069Value}
    (h : s.setTr069Value module name value = some (ret, s')) (q : Pos) : s'.tree.labels q = s.tree.labels q := by
  rcases setTr069Value_cases h with ⟨_, _, rfl, _⟩ | ⟨_, _, p, n, n', _, _, hn, hset, rfl⟩
  · rfl
  · refine Memory.kids_modify fun a ha => ?_
    obtain ⟨_, _, _, _, _, _, _, _, rfl⟩ := Tr069Node.set_eq_ok hset
    rw [hn] at ha
    exact Option.some.inj ha ▸ rfl

/-- Setting a leaf keeps every cell that is no leaf. -/
theorem get?_setTr069Value {module : Tr069AccessModule} {value : Tr069Value} {q : Pos} {c : Cell}
    (h : s.setTr069Value module name value = some (ret, s')) (hq : s.tree.nodes.get? q = some c) (hc : c.value? = none) :
    s'.tree.nodes.get? q = some c := by
  rcases setTr069Value_cases h with ⟨_, _, rfl, _⟩ | ⟨_, _, p, n, n', _, _, hn, hset, rfl⟩
  · exact hq
  · obtain ⟨leaf, _, hleaf, _⟩ := Tr069Node.set_eq_ok hset
    rw [setNodes_nodes, Memory.get?_modify, if_neg]
    · exact hq
    · rintro rfl
      obtain rfl := Option.some.inj (hn.symm.trans hq)
      simp [Cell.value?, hleaf] at hc

end TreeState

end CodeFactory.Tr69
