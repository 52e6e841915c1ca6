import CodeFactory.Lib.Memory
import CodeFactory.Tr69.Text
import CodeFactory.Result

/-!
# The parameter tree

The nodes of `tr69_tree.h` as labels of a forest. Below an object and below an instance are the nodes of its array, in the
order of the array; below a multi-instance object is its instance list, the template (`defaultInstance`) first. A pointer to a
node or an instance is its path. What nothing here reads is left out: `needReboot`, `style` and `defaultValue`, and `childNum`,
which is the number of cells below.
-/

namespace CodeFactory.Tr69

inductive Tr069Type where
  | unknown | int | unsigned | bool | string | inst | object | multiObject
  deriving DecidableEq, Repr

def Tr069Type.isLeaf : Tr069Type → Bool
  | .string | .int | .unsigned | .bool => true
  | _ => false

/-- `Tr069Value` with its type, of a leaf or of an argument (`Tr069ValueArg`): a 32-bit word, or a string. -/
inductive Tr069Value where
  | int (intv : BitVec 32)
  | unsigned (uintv : BitVec 32)
  | bool (boolv : BitVec 32)
  | string (string : Text)
  deriving DecidableEq, Repr

/-- The type of a leaf with the value. -/
def Tr069Value.type : Tr069Value → Tr069Type
  | .int _ => .int
  | .unsigned _ => .unsigned
  | .bool _ => .bool
  | .string _ => .string

/-- `Tr069AccessType`, its two bits. -/
structure Tr069AccessType where
  read : Bool
  write : Bool
  deriving DecidableEq, Repr

inductive Tr069Notification where
  | none | passive | active
  deriving DecidableEq, Repr

inductive Tr069AccessList where
  | acs | all
  deriving DecidableEq, Repr

/-- The counters of `Tr069Instances`; its instances are the cells below the node, `defaultInstance` the first. -/
structure Tr069Instances where
  freeIndex : Int
  maxNumOfEntries : BitVec 32
  numOfEntries : BitVec 32
  deriving DecidableEq, Repr

/-- What the union `c` of a node holds, by the type of the node. -/
inductive Content where
  | leaf (value : Tr069Value)
  | object
  | multiObject (instances : Tr069Instances)
  deriving DecidableEq, Repr

/-- The type of a node with the content. -/
def Content.type : Content → Tr069Type
  | .leaf v => v.type
  | .object => .object
  | .multiObject _ => .multiObject

structure Tr069Node where
  name : Text
  accessType : Tr069AccessType
  notification : Tr069Notification
  accessModule : Tr069AccessList
  isChanged : Bool
  min : Int
  max : Int
  content : Content
  deriving DecidableEq, Repr

structure Tr069Instance where
  index : Int
  accessType : Tr069AccessType
  notification : Tr069Notification
  accessModule : Tr069AccessList
  deriving DecidableEq, Repr

/-- What a pointer of the tree can lead to. -/
inductive Cell where
  | node (n : Tr069Node)
  | inst (i : Tr069Instance)
  deriving DecidableEq, Repr

/-- The type a `Tr069NodeEntry` gives for the cell. -/
def Cell.type : Cell → Tr069Type
  | .node n => n.content.type
  | .inst _ => .inst

/-- What a cell is found by: a node by its name, an instance by its index. -/
inductive Label where
  | name (s : Text)
  | index (i : Int)
  deriving DecidableEq, Repr

def Cell.label : Cell → Label
  | .node n => .name n.name
  | .inst i => .index i.index

/-- A pointer to a node or an instance. -/
abbrev Pos := List Nat

structure Tr069NodeEntry where
  name : Text
  type : Tr069Type
  node : Option Pos
  deriving DecidableEq, Repr

/-- An entry after `memset` to 0. -/
def Tr069NodeEntry.zero : Tr069NodeEntry := ⟨[], .unknown, none⟩

/-- The tree: the nodes in memory, and the global `rootNode`, which leads to the root. -/
structure Tr069Tree where
  rootNode : Tr069NodeEntry
  nodes : Memory Cell

/-- Why a function of the source stops before its end: it returns a result (`endret`), or what it does is undefined. -/
inductive Stop where
  | endret (ret : Result)
  | undefined
  deriving DecidableEq, Repr

/-- Reading what may not be there, which is undefined then. -/
def deref {α : Type} : Option α → Except Stop α
  | some a => .ok a
  | none => .error .undefined

@[simp] theorem deref_eq_ok {α : Type} {o : Option α} {a : α} : deref o = .ok a ↔ o = some a := by
  cases o <;> simp [deref]

/-- A sequence returns what its second part returns from what the first one does. -/
theorem bind_eq_ok {α β : Type} {x : Except Stop α} {f : α → Except Stop β} {b : β} :
    x >>= f = .ok b ↔ ∃ a, x = .ok a ∧ f a = .ok b := by
  cases x <;> simp [bind, Except.bind]

theorem bind_eq_error {α β : Type} {x : Except Stop α} {f : α → Except Stop β} {e : Stop} :
    x >>= f = .error e ↔ x = .error e ∨ ∃ a, x = .ok a ∧ f a = .error e := by
  cases x <;> simp [bind, Except.bind]

@[simp] theorem deref_ne_endret {α : Type} (o : Option α) (ret : Result) : deref o ≠ .error (.endret ret) := by
  cases o <;> simp [deref]

theorem map_eq_ok {α β : Type} {x : Except Stop α} {f : α → β} {b : β} :
    x.map f = .ok b ↔ ∃ a, x = .ok a ∧ f a = b := by
  cases x <;> simp [Except.map]

instance decidableExistsOk {α : Type} : (x : Except Stop α) → Decidable (∃ a, x = .ok a)
  | .ok a => .isTrue ⟨a, rfl⟩
  | .error _ => .isFalse (by simp)

/-- What the loader makes of the root of the template file: an object without a dot in its name, alone in its array, and
`rootNode` leads to it under its name with a dot. -/
structure Tr069Tree.Rooted (t : Tr069Tree) (name : Text) (k : Nat) : Prop where
  noDot : '.' ∉ name
  entry : t.rootNode = ⟨name ++ ['.'], .object, some [k]⟩
  node : ∃ n : Tr069Node, n.name = name ∧ n.content = .object ∧ t.nodes.kids [] = some [(k, .node n)]

end CodeFactory.Tr69
