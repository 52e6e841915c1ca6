import CodeFactory.Lib.Comparator
import CodeFactory.Lib.Outcome
import CodeFactory.Lib.Run
import Mathlib.Algebra.Order.Group.Multiset

/-!
# The binary search tree

`bst_insert`, `bst_delete` and `bst_search`, over whole runs. Items are pointers. Memory for an entry is always there; the destructor, which
is given the item that `bst_delete` takes out, and the traces are left out.
-/

namespace CodeFactory.DataStructure

open Outcome

universe u

/-- What a pointer to a `Bst_Entry` points to: nothing, an entry that was freed, or an entry. No entry has two pointers to it. -/
inductive BstEntry (α : Type u) where
  | null
  | freed
  | entry (item : Option α) (left right : BstEntry α)
  deriving DecidableEq, Repr

/-- The pointer of its father that an entry hangs from. -/
inductive Side where
  | left
  | right
  deriving DecidableEq, Repr

/-- What the call that is made last has returned, where its behaviour is defined, and the tree; `held` is what has been inserted and not
deleted. -/
structure Bst (α : Type u) where
  root : BstEntry α
  held : Multiset (Option α)
  ret : Option Int

inductive BstCall (α : Type u) where
  | insert (item : Option α)
  | delete (item : Option α)
  | search (item : Option α)
  deriving DecidableEq, Repr

namespace BstEntry

variable {α : Type u} (cmp : Option α → Option α → Int) (item : Option α)

def insertEntry : BstEntry α → Outcome (BstEntry α)
  | null => done (entry item null null)
  | freed => undefined
  | entry x l r => if 0 < cmp item x then (insertEntry r).map (entry x l) else (insertEntry l).map fun l => entry x l r

/-- The way from the root to `result`; its last step is the one from `father`. -/
def searchEntry : BstEntry α → Outcome (Option (List Side))
  | null => done none
  | freed => if item = none then done none else undefined
  | entry x l r =>
    if item = none then done none
    else if cmp item x = 0 then done (some [])
    else if cmp item x < 0 then (searchEntry l).map (Option.map (.left :: ·))
    else (searchEntry r).map (Option.map (.right :: ·))

/-- `tree` hangs from the right pointer of `bottom_right`, which the loop finds below an entry. -/
def hang (tree : BstEntry α) : BstEntry α → Outcome (BstEntry α)
  | null => done tree
  | freed => undefined
  | entry x l r => (hang tree r).map (entry x l)

def child : Side → BstEntry α → BstEntry α
  | .left, entry _ l _ => l
  | .right, entry _ _ r => r
  | _, _ => null

def setChild (child : BstEntry α) : Side → BstEntry α → BstEntry α
  | .left, entry x _ r => entry x child r
  | .right, entry x l _ => entry x l child
  | _, father => father

/-- `delete_entry`, for the `result` on one side of `father`: the item that is taken out, and what becomes of `father`. -/
def deleteEntry (side : Side) (father : BstEntry α) : Outcome (Option α × BstEntry α) :=
  match child side father with
  | entry x null null => done (x, setChild null side father)
  -- the only child takes the place on its own side of the father, whichever side `result` is on
  | entry x null r => done (x, setChild r .right (setChild freed side father))
  | entry x l null => done (x, setChild l .left (setChild freed side father))
  | entry x l r => (hang r l).map fun t => (x, setChild t side father)
  | _ => undefined

/-- The deletion of the entry that is found below another one. -/
def deleteBelow : Side → List Side → BstEntry α → Outcome (Option α × BstEntry α)
  | side, [], father => deleteEntry side father
  | side, next :: path, t => (deleteBelow next path (child side t)).map fun d => (d.1, setChild d.2 side t)

/-- The deletion of the root. -/
def deleteRoot : BstEntry α → Outcome (Option α × BstEntry α)
  | entry x null r => done (x, r)
  | entry x l r => (hang r l).map fun t => (x, t)
  | _ => undefined

/-- What `bst_delete` takes out, and the tree that is left. -/
def delete (root : BstEntry α) : Outcome (Option (Option α × BstEntry α)) :=
  (searchEntry cmp item root).bind fun
    | none => done none
    | some [] => (deleteRoot root).map some
    | some (side :: path) => (deleteBelow side path root).map some

/-- The items that `in_order_entry` shows. -/
def inOrderEntry : BstEntry α → Outcome (List (Option α))
  | null => done []
  | freed => undefined
  | entry x l r => (inOrderEntry l).bind fun ls => (inOrderEntry r).map fun rs => ls ++ x :: rs

/-- The items, for a tree without entries that were freed. -/
def items : BstEntry α → List (Option α)
  | entry x l r => items l ++ x :: items r
  | _ => []

/-- No entry was freed; items on the left of an entry are not greater, those on its right are. -/
def Ordered : BstEntry α → Prop
  | null => True
  | freed => False
  | entry x l r => (∀ y ∈ items l, cmp y x ≤ 0) ∧ (∀ y ∈ items r, 0 < cmp y x) ∧ Ordered l ∧ Ordered r

/-- An entry that has one child only, on the other side than the one it hangs from. -/
def Across : Side → BstEntry α → Prop
  | .left, entry _ l r => l = null ∧ r ≠ null
  | .right, entry _ l r => l ≠ null ∧ r = null
  | _, _ => False

/-- The entry is equal to the item. -/
def Equal : BstEntry α → Prop
  | entry x _ _ => cmp item x = 0
  | _ => False

/-- There is an entry that is equal to the item and has no such entry above it, but one that it hangs from on one side while its only
child hangs on the other. -/
def TopmostAcross : BstEntry α → Prop
  | entry x l r =>
    cmp item x ≠ 0 ∧ (Equal cmp item l ∧ Across .left l ∨ Equal cmp item r ∧ Across .right r ∨ TopmostAcross l ∨ TopmostAcross r)
  | _ => False

end BstEntry

namespace Bst

variable {α : Type u} [DecidableEq α] (cmp : Option α → Option α → Int)

def empty : Bst α := ⟨.null, 0, some 0⟩

/-- A call of `bst_insert`, `bst_delete` or `bst_search`. -/
def call (s : Bst α) : BstCall α → Bst α
  | .insert item =>
    match s.root.insertEntry cmp item with
    | done root => ⟨root, item ::ₘ s.held, some 0⟩
    | _ => { s with ret := none }
  | .delete item =>
    match s.root.delete cmp item with
    | done none => { s with ret := some (-1) }
    | done (some (x, root)) => ⟨root, s.held.erase x, some 0⟩
    | _ => { s with ret := none }
  | .search item =>
    match s.root.searchEntry cmp item with
    | done path => { s with ret := some (if path.isSome then 0 else -1) }
    | _ => { s with ret := none }

/-- The tree is ordered, and the items in order are what is held, sorted. -/
structure Sound (s : Bst α) : Prop where
  ordered : s.root.Ordered cmp
  inOrder : ∃ xs, s.root.inOrderEntry = done xs ∧ xs.Pairwise (fun x y => cmp x y ≤ 0) ∧ (xs : Multiset (Option α)) = s.held

/-- An item equal to the one of a call is held. -/
def Holds (s : Bst α) (item : Option α) : Prop := ∃ x ∈ s.held, cmp item x = 0

/-- What a call has to do, but for what is left behind. -/
def Answers (s : Bst α) : BstCall α → Bst α → Prop
  | .insert item, t => t.ret = some 0 ∧ t.held = item ::ₘ s.held
  | .delete item, t =>
    (t.ret = some 0 ∧ ∃ x ∈ s.held, cmp item x = 0 ∧ t.held = s.held.erase x) ∨
      (t.ret = some (-1) ∧ ¬s.Holds cmp item ∧ t.held = s.held)
  | .search item, t => (t.ret = some 0 ∧ s.Holds cmp item ∨ t.ret = some (-1) ∧ ¬s.Holds cmp item) ∧ t.held = s.held

/-- A call does what it has to. -/
def Right (s : Bst α) (a : BstCall α) (t : Bst α) : Prop := t.Sound cmp ∧ s.Answers cmp a t

/-- An item that is searched for is not the null pointer, unless nothing held is equal to it; and the entry that is deleted hangs on the
same side of its father as its only child, if it has only one. -/
def Fit (s : Bst α) : BstCall α → Prop
  | .insert _ => True
  | .delete item => (item = none → ¬s.Holds cmp none) ∧ ¬s.root.TopmostAcross cmp item
  | .search item => item = none → ¬s.Holds cmp none

/-- The calls, one after the other. -/
abbrev step : Step (Bst α) (BstCall α) := Step.ofOption fun s a => some (s.call cmp a)

end Bst

variable {α : Type u} {cmp : Option α → Option α → Int} {item x y : Option α} {l r t : BstEntry α}

/-! ## Trees -/

namespace BstEntry

theorem Ordered.inOrderEntry_eq (h : t.Ordered cmp) : t.inOrderEntry = done t.items := by
  induction t with
  | null => rfl
  | freed => exact h.elim
  | entry x l r ihl ihr =>
    obtain ⟨-, -, hl, hr⟩ := h
    rw [inOrderEntry, ihl hl, ihr hr]
    rfl

/-- The traversal is sorted. -/
theorem Ordered.pairwise (hcmp : TotalPreorder cmp) (h : t.Ordered cmp) : t.items.Pairwise fun x y => cmp x y ≤ 0 := by
  induction t with
  | null => simp [items]
  | freed => exact h.elim
  | entry x l r ihl ihr =>
    obtain ⟨hleft, hright, hl, hr⟩ := h
    have hbehind : ∀ z ∈ r.items, cmp x z ≤ 0 := fun z hz => hcmp.nonpos_iff.2 (hright z hz).le
    rw [items, List.pairwise_append, List.pairwise_cons]
    refine ⟨ihl hl, ⟨hbehind, ihr hr⟩, ?_⟩
    intro y hy z hz
    rcases List.mem_cons.1 hz with rfl | hz
    · exact hleft y hy
    · exact hcmp.trans (hleft y hy) (hbehind z hz)

/-- A subtree can give way to one with no other items. -/
theorem Ordered.changeLeft (h : (entry x l r).Ordered cmp) (ht : t.Ordered cmp) (hsub : ∀ y ∈ t.items, y ∈ l.items) :
    (entry x t r).Ordered cmp :=
  ⟨fun y hy => h.1 y (hsub y hy), h.2.1, ht, h.2.2.2⟩

@[inherit_doc Ordered.changeLeft]
theorem Ordered.changeRight (h : (entry x l r).Ordered cmp) (ht : t.Ordered cmp) (hsub : ∀ y ∈ t.items, y ∈ r.items) :
    (entry x l t).Ordered cmp :=
  ⟨h.1, fun y hy => h.2.1 y (hsub y hy), h.2.2.1, ht⟩

theorem Ordered.left_of_pos (hcmp : TotalPreorder cmp) (h : (entry x l r).Ordered cmp) (hpos : 0 < cmp item x) (hy : y ∈ l.items) :
    0 < cmp item y :=
  hcmp.pos_of_pos_of_nonneg hpos (hcmp.nonpos_iff.1 (h.1 y hy))

theorem Ordered.right_of_nonpos (hcmp : TotalPreorder cmp) (h : (entry x l r).Ordered cmp) (hneg : cmp item x ≤ 0) (hy : y ∈ r.items) :
    cmp item y < 0 :=
  hcmp.neg_of_nonpos_of_neg hneg ((hcmp.neg_iff x y).2 (h.2.1 y hy))

/-- An item is put in. -/
theorem Ordered.insertEntry (h : t.Ordered cmp) (item : Option α) :
    ∃ t', t.insertEntry cmp item = done t' ∧ t'.Ordered cmp ∧ t'.items.Perm (item :: t.items) := by
  induction t with
  | null => exact ⟨entry item null null, rfl, by simp [Ordered, items], List.Perm.refl _⟩
  | freed => exact h.elim
  | entry x l r ihl ihr =>
    obtain ⟨hleft, hright, hl, hr⟩ := h
    rw [BstEntry.insertEntry]
    split
    · rename_i hpos
      obtain ⟨r', hr', hordered, hperm⟩ := ihr hr
      refine ⟨entry x l r', by rw [hr']; rfl, ⟨hleft, ?_, hl, hordered⟩, ?_⟩
      · intro y hy
        rcases List.mem_cons.1 (hperm.mem_iff.1 hy) with rfl | hy
        · exact hpos
        · exact hright y hy
      · calc List.Perm (l.items ++ x :: r'.items) (l.items ++ x :: item :: r.items) := (hperm.cons x).append_left _
          List.Perm _ (l.items ++ item :: x :: r.items) := (List.Perm.swap item x _).append_left _
          List.Perm _ (item :: (l.items ++ x :: r.items)) := List.perm_middle
    · rename_i hnot
      obtain ⟨l', hl', hordered, hperm⟩ := ihl hl
      refine ⟨entry x l' r, by rw [hl']; rfl, ⟨?_, hright, hordered, hr⟩, hperm.append_right _⟩
      intro y hy
      rcases List.mem_cons.1 (hperm.mem_iff.1 hy) with rfl | hy
      · exact Int.not_lt.1 hnot
      · exact hleft y hy

/-- A tree that comes behind another one is hung below it. -/
theorem Ordered.hang (hl : l.Ordered cmp) (hr : r.Ordered cmp)
    (hbehind : ∀ y ∈ l.items, ∀ z ∈ r.items, 0 < cmp z y) :
    ∃ t, BstEntry.hang r l = done t ∧ t.Ordered cmp ∧ t.items = l.items ++ r.items := by
  induction l with
  | null => exact ⟨r, rfl, hr, rfl⟩
  | freed => exact hl.elim
  | entry x a b _ ihb =>
    obtain ⟨hleft, hright, ha, hb⟩ := hl
    obtain ⟨t, ht, hordered, hitems⟩ := ihb hb fun y hy => hbehind y (by simp [items, hy])
    refine ⟨entry x a t, by rw [BstEntry.hang, ht]; rfl, ⟨hleft, ?_, ha, hordered⟩, by simp [items, hitems]⟩
    intro z hz
    rw [hitems, List.mem_append] at hz
    rcases hz with hz | hz
    · exact hright z hz
    · exact hbehind x (by simp [items]) z hz

theorem Ordered.hang_children (hcmp : TotalPreorder cmp) (h : (entry x l r).Ordered cmp) :
    ∃ t, BstEntry.hang r l = done t ∧ t.Ordered cmp ∧ t.items = l.items ++ r.items := by
  refine Ordered.hang h.2.2.1 h.2.2.2 fun y hy z hz => ?_
  exact hcmp.pos_of_pos_of_nonneg (h.2.1 z hz) (hcmp.nonpos_iff.1 (h.1 y hy))

/-- A search comes to an item that is equal, if there is one. -/
theorem Ordered.searchEntry (hcmp : TotalPreorder cmp) (h : t.Ordered cmp) (hitem : item ≠ none) :
    ∃ path, t.searchEntry cmp item = done path ∧ (path.isSome ↔ ∃ y ∈ t.items, cmp item y = 0) := by
  induction t with
  | null => exact ⟨none, rfl, by simp [items]⟩
  | freed => exact h.elim
  | entry x l r ihl ihr =>
    rw [BstEntry.searchEntry, if_neg hitem]
    split
    · rename_i hzero
      exact ⟨some [], rfl, iff_of_true rfl ⟨x, by simp [items], hzero⟩⟩
    rename_i hne
    have hother : (∃ y ∈ (entry x l r).items, cmp item y = 0) ↔ (∃ y ∈ l.items, cmp item y = 0) ∨ ∃ y ∈ r.items, cmp item y = 0 := by
      simp [items, hne, or_and_right, exists_or]
    rw [hother]
    split
    · rename_i hneg
      obtain ⟨path, hpath, hiff⟩ := ihl h.2.2.1
      refine ⟨path.map (.left :: ·), by rw [hpath]; rfl, ?_⟩
      rw [Option.isSome_map, hiff, or_iff_left]
      rintro ⟨y, hy, hzero⟩
      have hbefore := h.right_of_nonpos hcmp hneg.le hy
      omega
    · rename_i hnot
      obtain ⟨path, hpath, hiff⟩ := ihr h.2.2.2
      refine ⟨path.map (.right :: ·), by rw [hpath]; rfl, ?_⟩
      rw [Option.isSome_map, hiff, or_iff_right]
      rintro ⟨y, hy, hzero⟩
      have hpos : 0 < cmp item x := lt_of_le_of_ne (Int.not_lt.1 hnot) (Ne.symm hne)
      exact absurd hzero (h.left_of_pos hcmp hpos hy).ne'

/-- A child of an entry gives way to a tree with one item less. -/
theorem Ordered.setChild {father : BstEntry α} {side : Side} (h : father.Ordered cmp) (ht : t.Ordered cmp)
    (hperm : (child side father).items.Perm (y :: t.items)) :
    (BstEntry.setChild t side father).Ordered cmp ∧ father.items.Perm (y :: (BstEntry.setChild t side father).items) := by
  have hsub : ∀ z ∈ t.items, z ∈ (child side father).items := fun z hz => hperm.mem_iff.2 (List.mem_cons_of_mem y hz)
  cases father with
  | null => cases side <;> cases hperm.length_eq
  | freed => exact h.elim
  | entry x a b =>
    cases side with
    | left => exact ⟨h.changeLeft ht hsub, hperm.append_right (x :: b.items)⟩
    | right =>
      refine ⟨h.changeRight ht hsub, ?_⟩
      calc List.Perm (a.items ++ x :: b.items) (a.items ++ x :: y :: t.items) := (hperm.cons x).append_left _
        List.Perm _ (a.items ++ y :: x :: t.items) := (List.Perm.swap y x _).append_left _
        List.Perm _ (y :: (a.items ++ x :: t.items)) := List.perm_middle

/-- The item that is taken out is equal to the one of the call, and the rest is left in order. -/
def Deletes (cmp : Option α → Option α → Int) (item : Option α) (t : BstEntry α) (d : Option α × BstEntry α) : Prop :=
  cmp item d.1 = 0 ∧ d.2.Ordered cmp ∧ t.items.Perm (d.1 :: d.2.items)

theorem Ordered.child {father : BstEntry α} (h : father.Ordered cmp) (side : Side) : (BstEntry.child side father).Ordered cmp := by
  cases father with
  | null => cases side <;> trivial
  | freed => exact h.elim
  | entry x l r =>
    cases side with
    | left => exact h.2.2.1
    | right => exact h.2.2.2

/-- An entry that keeps a pointer to one that was freed. -/
theorem not_ordered_setChild_freed {side other : Side} (hne : side ≠ other) (father : BstEntry α) (hentry : BstEntry.child side father ≠ null) :
    ¬(BstEntry.setChild t other (BstEntry.setChild freed side father)).Ordered cmp := by
  cases father with
  | null => cases side <;> exact absurd rfl hentry
  | freed => cases side <;> exact absurd rfl hentry
  | entry x l r =>
    intro h
    cases side with
    | left =>
      cases other with
      | left => exact hne rfl
      | right => exact h.2.2.1
    | right =>
      cases other with
      | left => exact h.2.2.2
      | right => exact hne rfl

theorem setChild_setChild (s t : BstEntry α) (side : Side) (father : BstEntry α) :
    BstEntry.setChild t side (BstEntry.setChild s side father) = BstEntry.setChild t side father := by
  cases father <;> cases side <;> rfl

/-- An entry below another one is taken out rightly unless its only child is on the other side. -/
theorem Ordered.deleteEntry (hcmp : TotalPreorder cmp) {father : BstEntry α} {side : Side} (h : father.Ordered cmp)
    (hequal : Equal cmp item (BstEntry.child side father)) :
    ∃ d, BstEntry.deleteEntry side father = done d ∧ (¬Across side (BstEntry.child side father) → Deletes cmp item father d) ∧
      (Across side (BstEntry.child side father) → ¬d.2.Ordered cmp) := by
  have hordered := h.child side
  unfold BstEntry.deleteEntry
  cases hchild : BstEntry.child side father with
  | null =>
    rw [hchild] at hequal
    exact hequal.elim
  | freed =>
    rw [hchild] at hequal
    exact hequal.elim
  | entry y l r =>
    rw [hchild] at hequal hordered
    have hkept : ∀ t : BstEntry α, t.Ordered cmp → t.items = l.items ++ r.items → Deletes cmp item father (y, BstEntry.setChild t side father) :=
      fun t ht hitems => ⟨hequal, h.setChild ht (by rw [hchild, hitems]; exact List.perm_middle)⟩
    have hlost : ∀ other : Side, side ≠ other → ∀ t : BstEntry α,
        ¬(BstEntry.setChild t other (BstEntry.setChild freed side father)).Ordered cmp :=
      fun other hne t => not_ordered_setChild_freed hne father (by rw [hchild]; exact nofun)
    cases l with
    | freed => exact hordered.2.2.1.elim
    | null =>
      cases r with
      | freed => exact hordered.2.2.2.elim
      | null => exact ⟨_, rfl, fun _ => hkept null trivial rfl, fun hacross => by cases side <;> simp [Across] at hacross⟩
      | entry z a b =>
        refine ⟨_, rfl, ?_, ?_⟩
        · intro hnot
          cases side with
          | left => exact absurd ⟨rfl, nofun⟩ hnot
          | right =>
            rw [setChild_setChild]
            exact hkept _ hordered.2.2.2 rfl
        · intro hacross
          cases side with
          | left => exact hlost .right nofun _
          | right => exact absurd rfl hacross.1
    | entry z a b =>
      cases r with
      | freed => exact hordered.2.2.2.elim
      | null =>
        refine ⟨_, rfl, ?_, ?_⟩
        · intro hnot
          cases side with
          | left =>
            rw [setChild_setChild]
            exact hkept _ hordered.2.2.1 (by simp [items])
          | right => exact absurd ⟨nofun, rfl⟩ hnot
        · intro hacross
          cases side with
          | left => exact absurd rfl hacross.2
          | right => exact hlost .left nofun _
      | entry z' a' b' =>
        obtain ⟨t, ht, htordered, hitems⟩ := hordered.hang_children hcmp
        refine ⟨(y, BstEntry.setChild t side father), ?_, fun _ => hkept t htordered hitems, ?_⟩
        · show (BstEntry.hang _ _).map _ = _
          rw [ht]
          rfl
        · intro hacross
          cases side with
          | left => cases hacross.1
          | right => cases hacross.2

/-- A search that goes on below an entry. -/
theorem searchEntry_entry {side : Side} {path : List Side} (h : (entry x l r).searchEntry cmp item = done (some (side :: path))) :
    cmp item x ≠ 0 ∧ (side = .left ∧ cmp item x < 0 ∧ l.searchEntry cmp item = done (some path) ∨
      side = .right ∧ 0 < cmp item x ∧ r.searchEntry cmp item = done (some path)) := by
  rw [BstEntry.searchEntry] at h
  split at h
  · cases h
  split at h
  · cases h
  rename_i hne
  refine ⟨hne, ?_⟩
  split at h
  · rename_i hneg
    obtain ⟨p, hp, hcons⟩ := map_eq_done.1 h
    cases p with
    | none => cases hcons
    | some p =>
      obtain ⟨rfl, rfl⟩ := List.cons.inj (Option.some.inj hcons)
      exact .inl ⟨rfl, hneg, hp⟩
  · rename_i hnot
    obtain ⟨p, hp, hcons⟩ := map_eq_done.1 h
    cases p with
    | none => cases hcons
    | some p =>
      obtain ⟨rfl, rfl⟩ := List.cons.inj (Option.some.inj hcons)
      exact .inr ⟨rfl, lt_of_le_of_ne (Int.not_lt.1 hnot) (Ne.symm hne), hp⟩

/-- A search that is over at once has found the item. -/
theorem equal_of_searchEntry (h : t.searchEntry cmp item = done (some [])) : Equal cmp item t := by
  cases t with
  | null => cases h
  | freed =>
    rw [BstEntry.searchEntry] at h
    split at h <;> cases h
  | entry x l r =>
    rw [BstEntry.searchEntry] at h
    split at h
    · cases h
    split at h
    · assumption
    split at h
    · obtain ⟨p, -, hcons⟩ := map_eq_done.1 h
      cases p <;> cases hcons
    · obtain ⟨p, -, hcons⟩ := map_eq_done.1 h
      cases p <;> cases hcons

theorem not_equal_of_searchEntry {side : Side} {path : List Side} (h : t.searchEntry cmp item = done (some (side :: path))) :
    ¬Equal cmp item t := by
  cases t with
  | null => cases h
  | freed => exact id
  | entry x l r => exact (searchEntry_entry h).1

theorem not_topmostAcross_of_equal (h : Equal cmp item t) : ¬TopmostAcross cmp item t := by
  cases t with
  | null => exact id
  | freed => exact id
  | entry x l r => exact fun htop => htop.1 h

theorem not_equal_of_forall (h : ∀ y ∈ t.items, cmp item y ≠ 0) : ¬Equal cmp item t := by
  cases t with
  | null => exact id
  | freed => exact id
  | entry x l r => exact h x (by simp [items])

theorem not_topmostAcross_of_forall (h : ∀ y ∈ t.items, cmp item y ≠ 0) : ¬TopmostAcross cmp item t := by
  induction t with
  | null => exact id
  | freed => exact id
  | entry x l r ihl ihr =>
    have hl : ∀ y ∈ l.items, cmp item y ≠ 0 := fun y hy => h y (by simp [items, hy])
    have hr : ∀ y ∈ r.items, cmp item y ≠ 0 := fun y hy => h y (by simp [items, hy])
    rintro ⟨-, hequal | hequal | htop | htop⟩
    · exact not_equal_of_forall hl hequal.1
    · exact not_equal_of_forall hr hequal.1
    · exact ihl hl htop
    · exact ihr hr htop

/-- Where the search goes on, the topmost entry that is equal to the item is. -/
theorem topmostAcross_iff (hcmp : TotalPreorder cmp) (h : t.Ordered cmp) {side : Side} {path : List Side}
    (hsearch : t.searchEntry cmp item = done (some (side :: path))) : TopmostAcross cmp item t ↔
      Equal cmp item (BstEntry.child side t) ∧ Across side (BstEntry.child side t) ∨ TopmostAcross cmp item (BstEntry.child side t) := by
  cases t with
  | null => cases hsearch
  | freed => exact h.elim
  | entry x l r =>
    obtain ⟨hne, ⟨rfl, hneg, -⟩ | ⟨rfl, hpos, -⟩⟩ := searchEntry_entry hsearch
    · have hr : ∀ y ∈ r.items, cmp item y ≠ 0 := fun y hy => (h.right_of_nonpos hcmp hneg.le hy).ne
      simp [TopmostAcross, BstEntry.child, hne, not_equal_of_forall hr, not_topmostAcross_of_forall hr]
    · have hl : ∀ y ∈ l.items, cmp item y ≠ 0 := fun y hy => (h.left_of_pos hcmp hpos hy).ne'
      simp [TopmostAcross, BstEntry.child, hne, not_equal_of_forall hl, not_topmostAcross_of_forall hl]

/-- The search goes on in a child. -/
theorem searchEntry_child {side : Side} {path : List Side} (h : t.searchEntry cmp item = done (some (side :: path))) :
    (BstEntry.child side t).searchEntry cmp item = done (some path) := by
  cases t with
  | null => cases h
  | freed =>
    rw [BstEntry.searchEntry] at h
    split at h <;> cases h
  | entry x l r =>
    obtain ⟨-, ⟨rfl, -, hl⟩ | ⟨rfl, -, hr⟩⟩ := searchEntry_entry h
    · exact hl
    · exact hr

/-- An entry below the root is taken out rightly unless its only child is on the other side. -/
theorem Ordered.deleteBelow (hcmp : TotalPreorder cmp) (h : t.Ordered cmp) {side : Side} {path : List Side}
    (hsearch : t.searchEntry cmp item = done (some (side :: path))) :
    ∃ d, BstEntry.deleteBelow side path t = done d ∧ (¬TopmostAcross cmp item t → Deletes cmp item t d) ∧
      (TopmostAcross cmp item t → ¬d.2.Ordered cmp) := by
  induction path generalizing t side with
  | nil =>
    have hequal := equal_of_searchEntry (searchEntry_child hsearch)
    rw [topmostAcross_iff hcmp h hsearch, or_iff_left (not_topmostAcross_of_equal hequal), and_iff_right hequal]
    exact h.deleteEntry hcmp hequal
  | cons next path ih =>
    have hchild := searchEntry_child hsearch
    have hnot := not_equal_of_searchEntry hchild
    rw [topmostAcross_iff hcmp h hsearch, or_iff_right fun hequal => hnot hequal.1]
    obtain ⟨d, hd, hdeletes, hbreaks⟩ := ih (h.child side) hchild
    refine ⟨(d.1, BstEntry.setChild d.2 side t), by rw [BstEntry.deleteBelow, hd]; rfl, ?_, ?_⟩
    · intro htop
      obtain ⟨hequal, hordered, hperm⟩ := hdeletes htop
      exact ⟨hequal, h.setChild hordered hperm⟩
    · intro htop hordered
      cases t with
      | null => cases hsearch
      | freed => exact h
      | entry x l r =>
        cases side with
        | left => exact hbreaks htop hordered.2.2.1
        | right => exact hbreaks htop hordered.2.2.2

/-- The root is always taken out rightly. -/
theorem Ordered.deleteRoot (hcmp : TotalPreorder cmp) (h : t.Ordered cmp) (hequal : Equal cmp item t) :
    ∃ d, BstEntry.deleteRoot t = done d ∧ Deletes cmp item t d := by
  cases t with
  | null => exact hequal.elim
  | freed => exact h.elim
  | entry x l r =>
    cases l with
    | freed => exact h.2.2.1.elim
    | null => exact ⟨_, rfl, hequal, h.2.2.2, List.Perm.refl _⟩
    | entry y a b =>
      obtain ⟨t, ht, hordered, hitems⟩ := h.hang_children hcmp
      refine ⟨(x, t), ?_, hequal, hordered, ?_⟩
      · show (BstEntry.hang _ _).map _ = _
        rw [ht]
        rfl
      · rw [hitems]
        exact List.perm_middle

/-- `bst_delete` of an item. -/
theorem Ordered.delete (hcmp : TotalPreorder cmp) (h : t.Ordered cmp) (hitem : item ≠ none) :
    (t.delete cmp item = done none ∧ ∀ y ∈ t.items, cmp item y ≠ 0) ∨
      ∃ d, t.delete cmp item = done (some d) ∧ (¬TopmostAcross cmp item t → Deletes cmp item t d) ∧
        (TopmostAcross cmp item t → ¬d.2.Ordered cmp) := by
  obtain ⟨path, hpath, hiff⟩ := h.searchEntry hcmp hitem
  unfold BstEntry.delete
  rw [hpath, bind_done]
  cases path with
  | none =>
    refine .inl ⟨rfl, fun y hy hzero => ?_⟩
    cases hiff.2 ⟨y, hy, hzero⟩
  | some path =>
    right
    cases path with
    | nil =>
      have hequal := equal_of_searchEntry hpath
      obtain ⟨d, hd, hdeletes⟩ := h.deleteRoot hcmp hequal
      exact ⟨d, by rw [hd]; rfl, fun _ => hdeletes, fun htop => absurd htop (not_topmostAcross_of_equal hequal)⟩
    | cons side path =>
      obtain ⟨d, hd, hrest⟩ := h.deleteBelow hcmp hpath
      refine ⟨d, ?_, hrest⟩
      show (BstEntry.deleteBelow side path t).map some = _
      rw [hd]
      rfl

theorem searchEntry_none (t : BstEntry α) : t.searchEntry cmp none = done none := by
  cases t with
  | null => rfl
  | freed => rfl
  | entry x l r => exact if_pos rfl

end BstEntry

/-! ## Runs -/

namespace Bst

variable {s t : Bst α} {item : Option α} {a : BstCall α} {tr : List (Transition (Bst α) (BstCall α))}

theorem empty_sound : (empty : Bst α).Sound cmp := ⟨trivial, [], rfl, List.Pairwise.nil, rfl⟩

theorem sound_of_ordered (hcmp : TotalPreorder cmp) (hordered : s.root.Ordered cmp) (hitems : (s.root.items : Multiset (Option α)) = s.held) :
    s.Sound cmp :=
  ⟨hordered, s.root.items, hordered.inOrderEntry_eq, hordered.pairwise hcmp, hitems⟩

namespace Sound

theorem items_eq (h : s.Sound cmp) : (s.root.items : Multiset (Option α)) = s.held := by
  obtain ⟨xs, hxs, -, hheld⟩ := h.inOrder
  rw [h.ordered.inOrderEntry_eq] at hxs
  cases hxs
  exact hheld

theorem holds_iff (h : s.Sound cmp) : s.Holds cmp item ↔ ∃ x ∈ s.root.items, cmp item x = 0 := by
  simp only [Holds, ← h.items_eq, Multiset.mem_coe]

theorem congr (h : s.Sound cmp) (hroot : t.root = s.root) (hheld : t.held = s.held) : t.Sound cmp := by
  obtain ⟨hordered, hinOrder⟩ := h
  rw [← hroot] at hordered hinOrder
  rw [← hheld] at hinOrder
  exact ⟨hordered, hinOrder⟩

variable [DecidableEq α]

theorem insert (hcmp : TotalPreorder cmp) (h : s.Sound cmp) (item : Option α) :
    s.Right cmp (.insert item) (s.call cmp (.insert item)) := by
  obtain ⟨root, hroot, hordered, hperm⟩ := h.ordered.insertEntry item
  simp only [call, hroot]
  refine ⟨sound_of_ordered hcmp hordered ?_, rfl, rfl⟩
  rw [← h.items_eq, Multiset.cons_coe, Multiset.coe_eq_coe]
  exact hperm

theorem search_iff (hcmp : TotalPreorder cmp) (h : s.Sound cmp) (item : Option α) :
    s.Right cmp (.search item) (s.call cmp (.search item)) ↔ s.Fit cmp (.search item) := by
  rcases eq_or_ne item none with rfl | hitem
  · have hret : (s.call cmp (.search none)) = { s with ret := some (-1) } := by simp [call, BstEntry.searchEntry_none]
    rw [hret]
    constructor
    · rintro ⟨-, ⟨hzero, -⟩ | ⟨-, hnot⟩, -⟩
      · cases hzero
      · exact fun _ => hnot
    · intro hfit
      exact ⟨h.congr rfl rfl, .inr ⟨rfl, hfit rfl⟩, rfl⟩
  · obtain ⟨path, hpath, hiff⟩ := h.ordered.searchEntry hcmp hitem
    rw [← h.holds_iff] at hiff
    simp only [call, hpath]
    refine iff_of_true ⟨h.congr rfl rfl, ?_, rfl⟩ fun hnone => absurd hnone hitem
    cases path with
    | none => exact .inr ⟨rfl, fun hholds => Bool.noConfusion (hiff.2 hholds)⟩
    | some path => exact .inl ⟨rfl, hiff.1 rfl⟩

theorem delete_iff (hcmp : TotalPreorder cmp) (h : s.Sound cmp) (item : Option α) :
    s.Right cmp (.delete item) (s.call cmp (.delete item)) ↔ s.Fit cmp (.delete item) := by
  have habsent : s.root.delete cmp item = done none → ¬s.Holds cmp item →
      s.Right cmp (.delete item) (s.call cmp (.delete item)) := by
    intro hdelete hnot
    simp only [call, hdelete]
    exact ⟨h.congr rfl rfl, .inr ⟨rfl, hnot, rfl⟩⟩
  rcases eq_or_ne item none with rfl | hitem
  · have hdelete : s.root.delete cmp none = done none := by rw [BstEntry.delete, BstEntry.searchEntry_none, bind_done]
    constructor
    · simp only [call, hdelete]
      rintro ⟨-, ⟨hzero, -⟩ | ⟨-, hnot, -⟩⟩
      · cases hzero
      · refine ⟨fun _ => hnot, BstEntry.not_topmostAcross_of_forall fun y hy hzero => ?_⟩
        exact hnot (h.holds_iff.2 ⟨y, hy, hzero⟩)
    · rintro ⟨hnot, -⟩
      exact habsent hdelete (hnot rfl)
  · rw [Fit, and_iff_right fun hnone => absurd hnone hitem]
    rcases h.ordered.delete hcmp hitem with ⟨hdelete, hforall⟩ | ⟨⟨x, root⟩, hdelete, hdeletes, hbreaks⟩
    · refine iff_of_true (habsent hdelete ?_) (BstEntry.not_topmostAcross_of_forall hforall)
      rw [h.holds_iff]
      rintro ⟨y, hy, hzero⟩
      exact hforall y hy hzero
    · simp only [call, hdelete]
      constructor
      · rintro ⟨hsound, -⟩ htop
        exact hbreaks htop hsound.ordered
      · intro htop
        obtain ⟨hequal, hordered, hperm⟩ := hdeletes htop
        have hheld : s.held = x ::ₘ (root.items : Multiset (Option α)) := by
          rw [← h.items_eq, Multiset.cons_coe, Multiset.coe_eq_coe]
          exact hperm
        refine ⟨sound_of_ordered hcmp hordered ?_, .inl ⟨rfl, x, ?_, hequal, rfl⟩⟩
        · rw [hheld, Multiset.erase_cons_head]
        · rw [hheld]
          exact Multiset.mem_cons_self x _

/-- **A call of a sound tree does right exactly when it is fit.** -/
theorem right_iff (hcmp : TotalPreorder cmp) (h : s.Sound cmp) : s.Right cmp a (s.call cmp a) ↔ s.Fit cmp a := by
  cases a with
  | insert item => exact iff_of_true (h.insert hcmp item) trivial
  | delete item => exact h.delete_iff hcmp item
  | search item => exact h.search_iff hcmp item

end Sound

variable [DecidableEq α]

/-- **The calls of a run all do right exactly when they are all fit.** -/
theorem runs_right_iff (hcmp : TotalPreorder cmp) (h : Run (step cmp) empty tr s) :
    Always (Right cmp) tr ↔ Meets (Fit cmp) tr := by
  refine Run.all_iff (I := Sound cmp) empty_sound ?_ ?_ h
  · rintro s a t hs hfit ⟨⟩
    have hright := (hs.right_iff hcmp).2 hfit
    exact ⟨hright.1, hright⟩
  · rintro s a t hs hfit ⟨⟩ hright
    exact hfit ((hs.right_iff hcmp).1 hright)

/-- The order of numbers, with the null pointer before them. -/
def byNumber : Option Nat → Option Nat → Int := comparing fun item => item.elim (-1) Int.ofNat

theorem runs_right_iff_three :
    Always (Right byNumber) (play (fun s a => some (s.call byNumber a)) empty [.insert (some 5), .insert (some 3), .delete (some 3)]).1 ↔
      Meets (Fit byNumber) (play (fun s a => some (s.call byNumber a)) empty [.insert (some 5), .insert (some 3), .delete (some 3)]).1 :=
  runs_right_iff (totalPreorder_comparing _) (Run.ofPlay _ _ _)

/-- 3 hangs on the left of 5 and has 4 on its right. -/
theorem not_always_right : ¬∀ (cmp : Option Nat → Option Nat → Int), TotalPreorder cmp → ∀ tr s,
    Run (step cmp) empty tr s → Always (Right cmp) tr := by
  intro hall
  have halways := hall byNumber (totalPreorder_comparing _) _ _
    (Run.ofPlay _ empty [.insert (some 5), .insert (some 3), .insert (some 4), .delete (some 3)])
  have hlast := halways _ (List.getLast_mem (List.cons_ne_nil _ _))
  exact hlast.1.ordered.2.2.1

end Bst

end CodeFactory.DataStructure
