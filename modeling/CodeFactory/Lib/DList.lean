import Mathlib.Data.List.Nodup
import Mathlib.Logic.Function.Basic

/-!
# Doubly linked lists in memory

A heap of nodes with a `next` and a `prev` link each, and lists threaded through it behind a header node that is never removed.
`Links.Linked m h xs` says that the nodes behind the header `h` are `xs`, in this order, linked both ways. Inserting behind a
node and unlinking a node are the writes a program makes; the two rules `Linked.addList` and `Linked.deleteList` say what they
do to the list, and that they leave every other node alone.
-/

namespace CodeFactory

universe u v

variable {π : Type u} [DecidableEq π]

/-- The links of the nodes of a heap; `none` is the null pointer. -/
structure Links (π : Type u) where
  next : π → Option π
  prev : π → Option π

namespace Links

/-- `p->next = q`. -/
def setNext (m : Links π) (p : π) (q : Option π) : Links π := { m with next := Function.update m.next p q }

/-- `p->prev = q`. -/
def setPrev (m : Links π) (p : π) (q : Option π) : Links π := { m with prev := Function.update m.prev p q }

/-- `q->prev = p`, if `q` is not null. -/
def setPrev? (m : Links π) (q : Option π) (p : Option π) : Links π :=
  match q with
  | some q => m.setPrev q p
  | none => m

@[simp] theorem setNext_prev (m : Links π) (p : π) (q : Option π) : (m.setNext p q).prev = m.prev := rfl

@[simp] theorem setPrev_next (m : Links π) (p : π) (q : Option π) : (m.setPrev p q).next = m.next := rfl

@[simp] theorem setPrev?_next (m : Links π) (q p : Option π) : (m.setPrev? q p).next = m.next := by
  cases q <;> rfl

theorem setNext_next (m : Links π) (p : π) (q : Option π) (r : π) :
    (m.setNext p q).next r = if r = p then q else m.next r := by
  simp [setNext, Function.update_apply]

theorem setPrev_prev (m : Links π) (p : π) (q : Option π) (r : π) :
    (m.setPrev p q).prev r = if r = p then q else m.prev r := by
  simp [setPrev, Function.update_apply]

theorem setPrev?_prev (m : Links π) (q p : Option π) (r : π) :
    (m.setPrev? q p).prev r = if q = some r then p else m.prev r := by
  cases q with
  | none => rfl
  | some q => simp [setPrev?, setPrev_prev, eq_comm]

/-- Insert a node behind another one. -/
def addList (m : Links π) (before node : π) : Links π :=
  let m := m.setPrev? (m.next before) (some node)
  let m := m.setNext node (m.next before)
  let m := m.setPrev node (some before)
  m.setNext before (some node)

/-- The writes that unlink a node from its two neighbours, the one before it being `before`. -/
def unlink (m : Links π) (before node : π) : Links π :=
  let m' := m.setNext before (m.next node)
  let m' := m'.setPrev? (m.next node) (some before)
  (m'.setNext node none).setPrev node none

/-- Unlink a node. There is no result for a node that is not in a list: the write through its null `prev` is undefined. -/
def deleteList (m : Links π) (node : π) : Option (Links π) := (m.prev node).map fun before => m.unlink before node

theorem addList_next (m : Links π) (before node r : π) :
    (m.addList before node).next r =
      if r = before then some node else if r = node then m.next before else m.next r := by
  simp only [addList, setNext_next, setPrev_next, setPrev?_next]

theorem addList_prev (m : Links π) (before node r : π) :
    (m.addList before node).prev r =
      if r = node then some before else if m.next before = some r then some node else m.prev r := by
  simp only [addList, setNext_prev, setPrev_prev, setPrev?_prev]

theorem unlink_next (m : Links π) (before node r : π) :
    (m.unlink before node).next r =
      if r = node then none else if r = before then m.next node else m.next r := by
  simp only [unlink, setNext_next, setPrev_next, setPrev?_next]

theorem unlink_prev (m : Links π) (before node r : π) :
    (m.unlink before node).prev r =
      if r = node then none else if m.next node = some r then some before else m.prev r := by
  simp only [unlink, setNext_prev, setPrev_prev, setPrev?_prev]

/-! ## Linked lists -/

/-- From `h` on, the nodes `xs` are linked both ways, and the last one ends the list. -/
def Chain (m : Links π) : π → List π → Prop
  | h, [] => m.next h = none
  | h, x :: xs => m.next h = some x ∧ m.prev x = some h ∧ Chain m x xs

/-- The list behind the header `h` is `xs`. -/
structure Linked (m : Links π) (h : π) (xs : List π) : Prop where
  chain : m.Chain h xs
  nodup : (h :: xs).Nodup

variable {m m' : Links π} {h node : π} {xs ys : List π}

omit [DecidableEq π] in
/-- A chain depends on the links of its own nodes only. -/
theorem Chain.congr (hc : m.Chain h xs) (hnext : ∀ p ∈ h :: xs, m'.next p = m.next p)
    (hprev : ∀ p ∈ xs, m'.prev p = m.prev p) : m'.Chain h xs := by
  induction xs generalizing h with
  | nil => exact (hnext h (by simp)).trans hc
  | cons x xs ih =>
    obtain ⟨h1, h2, h3⟩ := hc
    refine ⟨(hnext h (by simp)).trans h1, (hprev x (by simp)).trans h2, ih h3 (fun p hp => ?_) (fun p hp => ?_)⟩
    · exact hnext p (List.mem_cons_of_mem _ hp)
    · exact hprev p (List.mem_cons_of_mem _ hp)

omit [DecidableEq π] in
/-- Inside a chain, the last node of the first part is linked to the first of the second. -/
theorem Chain.next_getLastD (hc : m.Chain h (xs ++ ys)) : m.next (xs.getLastD h) = ys.head? := by
  induction xs generalizing h with
  | nil =>
    cases ys with
    | nil => exact hc
    | cons y ys => exact hc.1
  | cons x xs ih =>
    rw [List.getLastD_cons]
    exact ih hc.2.2

omit [DecidableEq π] in
theorem Chain.prev_head (hc : m.Chain h (xs ++ node :: ys)) : m.prev node = some (xs.getLastD h) := by
  induction xs generalizing h with
  | nil => exact hc.2.1
  | cons x xs ih =>
    rw [List.getLastD_cons]
    exact ih hc.2.2

/-- Inserting behind the last node of the first part of a chain puts the node between the parts. -/
theorem Chain.addList (hc : m.Chain h (xs ++ ys)) (hn : (h :: (xs ++ ys)).Nodup) (hnode : node ∉ h :: (xs ++ ys)) :
    (m.addList (xs.getLastD h) node).Chain h (xs ++ node :: ys) := by
  induction xs generalizing h with
  | nil =>
    have hnh : node ≠ h := fun e => hnode (e ▸ List.mem_cons_self)
    refine ⟨by simp [addList_next], by simp [addList_prev], ?_⟩
    cases ys with
    | nil => simpa [Chain, addList_next, hnh] using hc
    | cons y ys =>
      obtain ⟨h1, h2, h3⟩ := hc
      have hyh : y ≠ h := fun e => (List.nodup_cons.1 hn).1 (e ▸ List.mem_cons_self)
      have hyn : y ≠ node := fun e => hnode (e ▸ by simp)
      refine ⟨by simpa [addList_next, hnh] using h1, by simp [addList_prev, hyn, h1], h3.congr (fun p hp => ?_) (fun p hp => ?_)⟩
      · have hph : p ≠ h := fun e => (List.nodup_cons.1 hn).1 (e ▸ hp)
        have hpn : p ≠ node := fun e => hnode (e ▸ List.mem_cons_of_mem _ hp)
        simp [addList_next, hph, hpn]
      · have hpn : p ≠ node := fun e => hnode (e ▸ by simp [hp])
        have hpy : y ≠ p := fun e => (List.nodup_cons.1 (List.nodup_cons.1 hn).2).1 (e ▸ hp)
        simp [addList_prev, hpn, h1, hpy]
  | cons x xs ih =>
    obtain ⟨h1, h2, h3⟩ := hc
    obtain ⟨hh, hn⟩ := List.nodup_cons.1 hn
    rw [List.getLastD_cons]
    have hlast : xs.getLastD x ∈ x :: (xs ++ ys) := by
      have : xs.getLastD x ∈ x :: xs := List.getLastD_mem_cons
      simp only [List.mem_cons, List.mem_append] at this ⊢
      tauto
    have hhl : h ≠ xs.getLastD x := fun e => hh (e ▸ hlast)
    have hhn : h ≠ node := fun e => hnode (e ▸ List.mem_cons_self)
    have hxn : x ≠ node := fun e => hnode (e ▸ by simp)
    have hxl : m.next (xs.getLastD x) ≠ some x := by
      rw [h3.next_getLastD]
      intro e
      exact (List.nodup_cons.1 hn).1 (List.mem_append_right _ (List.mem_of_head? e))
    refine ⟨?_, ?_, ih h3 hn fun hm => hnode (List.mem_cons_of_mem _ hm)⟩
    · rw [addList_next, if_neg hhl, if_neg hhn]
      exact h1
    · rw [addList_prev, if_neg hxn, if_neg hxl]
      exact h2

/-- Away from the node, its new neighbours and the header nothing is written. -/
theorem Linked.addList_frame (hl : m.Linked h (xs ++ ys)) {r : π} (hr : r ∉ h :: (xs ++ node :: ys)) :
    (m.addList (xs.getLastD h) node).next r = m.next r ∧ (m.addList (xs.getLastD h) node).prev r = m.prev r := by
  have hrl : r ≠ xs.getLastD h := by
    rintro rfl
    have : xs.getLastD h ∈ h :: xs := List.getLastD_mem_cons
    simp only [List.mem_cons, List.mem_append] at this hr
    tauto
  have hrn : r ≠ node := fun e => hr (e ▸ by simp)
  have hnext : m.next (xs.getLastD h) ≠ some r := by
    rw [hl.chain.next_getLastD]
    intro e
    have := List.mem_of_head? e
    simp only [List.mem_cons, List.mem_append] at hr
    tauto
  rw [addList_next, addList_prev, if_neg hrl, if_neg hrn, if_neg hrn, if_neg hnext]
  exact ⟨rfl, rfl⟩

/-- **Insertion.** A new node goes in behind the last node of the first part. -/
theorem Linked.addList (hl : m.Linked h (xs ++ ys)) (hnode : node ∉ h :: (xs ++ ys)) :
    (m.addList (xs.getLastD h) node).Linked h (xs ++ node :: ys) := by
  refine ⟨hl.chain.addList hl.nodup hnode, ?_⟩
  rw [← List.cons_append]
  refine (List.perm_middle.nodup_iff).2 (List.nodup_cons.2 ⟨?_, ?_⟩)
  · simpa using hnode
  · simpa using hl.nodup

/-- Unlinking a node of a chain closes the gap it leaves. -/
theorem Chain.unlink (hc : m.Chain h (xs ++ node :: ys)) (hn : (h :: (xs ++ node :: ys)).Nodup) :
    (m.unlink (xs.getLastD h) node).Chain h (xs ++ ys) := by
  induction xs generalizing h with
  | nil =>
    obtain ⟨h1, h2, h3⟩ := hc
    obtain ⟨hh, hn⟩ := List.nodup_cons.1 hn
    have hhn : h ≠ node := fun e => hh (e ▸ List.mem_cons_self)
    cases ys with
    | nil =>
      show (m.unlink h node).next h = none
      rw [unlink_next, if_neg hhn, if_pos rfl]
      exact h3
    | cons y ys =>
      obtain ⟨h4, h5, h6⟩ := h3
      have hyn : y ≠ node := fun e => (List.nodup_cons.1 hn).1 (e ▸ List.mem_cons_self)
      refine ⟨?_, ?_, h6.congr (fun p hp => ?_) (fun p hp => ?_)⟩
      · rw [List.getLastD_nil, unlink_next, if_neg hhn, if_pos rfl]
        exact h4
      · rw [List.getLastD_nil, unlink_prev, if_neg hyn, if_pos h4]
      · have hpn : p ≠ node := fun e => (List.nodup_cons.1 hn).1 (e ▸ hp)
        have hph : p ≠ h := fun e => hh (e ▸ List.mem_cons_of_mem _ hp)
        rw [List.getLastD_nil, unlink_next, if_neg hpn, if_neg hph]
      · have hpn : p ≠ node := fun e => (List.nodup_cons.1 hn).1 (e ▸ List.mem_cons_of_mem _ hp)
        have hpy : m.next node ≠ some p := by
          rw [h4]
          intro e
          exact (List.nodup_cons.1 (List.nodup_cons.1 hn).2).1 (Option.some.inj e ▸ hp)
        rw [List.getLastD_nil, unlink_prev, if_neg hpn, if_neg hpy]
  | cons x xs ih =>
    obtain ⟨h1, h2, h3⟩ := hc
    obtain ⟨hh, hn⟩ := List.nodup_cons.1 hn
    rw [List.getLastD_cons]
    have hlast : xs.getLastD x ∈ x :: (xs ++ node :: ys) := by
      have : xs.getLastD x ∈ x :: xs := List.getLastD_mem_cons
      simp only [List.mem_cons, List.mem_append] at this ⊢
      tauto
    have hhl : h ≠ xs.getLastD x := fun e => hh (e ▸ hlast)
    have hhn : h ≠ node := fun e => hh (e ▸ by simp)
    have hxn : x ≠ node := fun e => (List.nodup_cons.1 hn).1 (e ▸ by simp)
    have hnx : m.next node ≠ some x := by
      have hnext : m.next node = ys.head? := by
        have h3' : m.Chain x ((xs ++ [node]) ++ ys) := by simpa using h3
        simpa using h3'.next_getLastD
      rw [hnext]
      intro e
      have := List.mem_of_head? e
      exact (List.nodup_cons.1 hn).1 (by simp [this])
    refine ⟨?_, ?_, ih h3 hn⟩
    · rw [unlink_next, if_neg hhn, if_neg hhl]
      exact h1
    · rw [unlink_prev, if_neg hxn, if_neg hnx]
      exact h2

/-- **Deletion.** A node of a list is unlinked; the list keeps the others in their order. -/
theorem Linked.deleteList (hl : m.Linked h (xs ++ node :: ys)) :
    m.deleteList node = some (m.unlink (xs.getLastD h) node) ∧ (m.unlink (xs.getLastD h) node).Linked h (xs ++ ys) := by
  refine ⟨by rw [Links.deleteList, hl.chain.prev_head]; rfl, hl.chain.unlink hl.nodup, ?_⟩
  refine hl.nodup.sublist ?_
  simp

/-- Away from the header and the nodes of the list nothing is written. -/
theorem Linked.unlink_frame (hl : m.Linked h (xs ++ node :: ys)) {r : π} (hr : r ∉ h :: (xs ++ node :: ys)) :
    (m.unlink (xs.getLastD h) node).next r = m.next r ∧ (m.unlink (xs.getLastD h) node).prev r = m.prev r := by
  have hrl : r ≠ xs.getLastD h := by
    rintro rfl
    have : xs.getLastD h ∈ h :: xs := List.getLastD_mem_cons
    simp only [List.mem_cons, List.mem_append] at this hr
    tauto
  have hrn : r ≠ node := fun e => hr (e ▸ by simp)
  have hnext : m.next node ≠ some r := by
    have hl' : m.Chain h ((xs ++ [node]) ++ ys) := by simpa using hl.chain
    have : m.next node = ys.head? := by simpa using hl'.next_getLastD
    rw [this]
    intro e
    have := List.mem_of_head? e
    simp only [List.mem_cons, List.mem_append] at hr
    tauto
  rw [unlink_next, unlink_prev, if_neg hrn, if_neg hrl, if_neg hrn, if_neg hnext]
  exact ⟨rfl, rfl⟩

omit [DecidableEq π] in
theorem Linked.frame (hl : m.Linked h xs) (hr : ∀ r ∈ h :: xs, m'.next r = m.next r ∧ m'.prev r = m.prev r) :
    m'.Linked h xs :=
  ⟨hl.chain.congr (fun p hp => (hr p hp).1) (fun p hp => (hr p (List.mem_cons_of_mem _ hp)).2), hl.nodup⟩

theorem filter_ne_split {p : π} (hn : (xs ++ p :: ys).Nodup) : (xs ++ p :: ys).filter (· ≠ p) = xs ++ ys := by
  have hp : p ∉ xs ++ ys := (List.nodup_cons.1 (List.perm_middle.nodup_iff.1 hn)).1
  rw [List.mem_append, not_or] at hp
  rw [List.filter_append, List.filter_cons_of_neg (by simp), List.filter_eq_self.2, List.filter_eq_self.2]
  · intro q hq
    simpa using fun e : q = p => hp.2 (e ▸ hq)
  · intro q hq
    simpa using fun e : q = p => hp.1 (e ▸ hq)

/-- **Moving a node.** Take a node out of a list and put it back behind the last node of the first part, or, should it be that
node itself, behind the one before it. The rest keeps its order, and no node outside the list is written. -/
theorem Linked.move {pre post : List π} {p : π} (hl : m.Linked h (pre ++ post)) (hp : p ∈ pre ++ post) :
    ∃ before m', (if pre.getLastD h = p then m.prev p else some (pre.getLastD h)) = some before ∧
      m.deleteList p = some m' ∧
      (m'.addList before p).Linked h (pre.filter (· ≠ p) ++ p :: post.filter (· ≠ p)) ∧
      ∀ r ∉ h :: (pre ++ post), (m'.addList before p).next r = m.next r ∧ (m'.addList before p).prev r = m.prev r := by
  have hh : h ∉ pre ++ post := (List.nodup_cons.1 hl.nodup).1
  have hn := (List.nodup_cons.1 hl.nodup).2
  -- the list is split at the node; `a` and `b` are what the first part keeps and what the second does
  suffices hsplit : ∃ xs ys, pre ++ post = xs ++ p :: ys ∧ ∃ a b, a ++ b = xs ++ ys ∧ pre.filter (· ≠ p) = a ∧
      post.filter (· ≠ p) = b ∧
      (if pre.getLastD h = p then m.prev p else some (pre.getLastD h)) = some (a.getLastD h) by
    obtain ⟨xs, ys, hxy, a, b, hab, rfl, rfl, hbefore⟩ := hsplit
    have hl' : m.Linked h (xs ++ p :: ys) := hxy ▸ hl
    have hn' : (xs ++ p :: ys).Nodup := hxy ▸ hn
    obtain ⟨hdel, hlinked⟩ := hl'.deleteList
    have hpab : p ∉ h :: (pre.filter (· ≠ p) ++ post.filter (· ≠ p)) := by
      simp only [List.mem_cons, List.mem_append, List.mem_filter, decide_not, Bool.not_eq_true', decide_eq_false_iff_not,
        not_true_eq_false, and_false, or_self, or_false]
      rintro rfl
      exact hh hp
    rw [← hab] at hlinked
    refine ⟨_, _, hbefore, hdel, hlinked.addList hpab, fun r hr => ?_⟩
    have hr' : r ∉ h :: (xs ++ p :: ys) := hxy ▸ hr
    have hr'' : r ∉ h :: (pre.filter (· ≠ p) ++ p :: post.filter (· ≠ p)) := by
      intro hm
      refine hr ?_
      simp only [List.mem_cons, List.mem_append, List.mem_filter] at hm hp ⊢
      rcases hm with rfl | hm | rfl | hm
      · exact Or.inl rfl
      · exact Or.inr (Or.inl hm.1)
      · exact Or.inr hp
      · exact Or.inr (Or.inr hm.1)
    obtain ⟨h1, h2⟩ := hlinked.addList_frame hr''
    obtain ⟨h3, h4⟩ := hl'.unlink_frame hr'
    exact ⟨h1.trans h3, h2.trans h4⟩
  rcases List.mem_append.1 hp with hp | hp
  · obtain ⟨xs, ys, rfl⟩ := List.append_of_mem hp
    refine ⟨xs, ys ++ post, by simp, xs ++ ys, post, by simp, filter_ne_split (List.nodup_append.1 hn).1,
      List.filter_eq_self.2 fun q hq => ?_, ?_⟩
    · have := (List.nodup_append.1 hn).2.2 p hp q hq
      simpa using this.symm
    · cases ys with
      | nil =>
        have hc : m.Chain h (xs ++ p :: post) := by simpa using hl.chain
        rw [List.getLastD_concat, if_pos rfl, List.append_nil, hc.prev_head]
      | cons y ys =>
        have hlast : (xs ++ p :: y :: ys).getLastD h = (xs ++ y :: ys).getLastD h := by simp
        have hne : (xs ++ y :: ys).getLastD h ≠ p := by
          intro e
          have hmem : (xs ++ y :: ys).getLastD h ∈ h :: (xs ++ y :: ys) := List.getLastD_mem_cons
          rw [e, List.mem_cons] at hmem
          rcases hmem with rfl | hmem
          · exact hh (by simp)
          · have := (List.nodup_append.1 hn).1
            exact (List.nodup_cons.1 (List.perm_middle.nodup_iff.1 this)).1 hmem
        rw [hlast, if_neg hne]
  · obtain ⟨xs, ys, rfl⟩ := List.append_of_mem hp
    refine ⟨pre ++ xs, ys, by simp, pre, xs ++ ys, by simp, List.filter_eq_self.2 fun q hq => ?_,
      filter_ne_split (List.nodup_append.1 hn).2.1, ?_⟩
    · have := (List.nodup_append.1 hn).2.2 q hq p hp
      simpa using this
    · rw [if_neg]
      intro e
      have hmem : pre.getLastD h ∈ h :: pre := List.getLastD_mem_cons
      rw [e, List.mem_cons] at hmem
      rcases hmem with rfl | hmem
      · exact hh (by simp)
      · exact (List.nodup_append.1 hn).2.2 p hmem p hp rfl

omit [DecidableEq π] in
/-- Two lists behind one header are one list. -/
theorem Chain.unique (hx : m.Chain h xs) (hy : m.Chain h ys) : xs = ys := by
  induction xs generalizing h ys with
  | nil =>
    cases ys with
    | nil => rfl
    | cons y ys => exact absurd (hx.symm.trans hy.1) nofun
  | cons x xs ih =>
    cases ys with
    | nil => exact absurd (hy.symm.trans hx.1) nofun
    | cons y ys =>
      obtain rfl := Option.some.inj (hx.1.symm.trans hy.1)
      rw [ih hx.2.2 hy.2.2]

/-! ## Walking a list -/

/-- The loop `while (p != NULL) { acc = f(acc, p); p = p->next; }`, of at most `fuel` rounds. -/
def walk {σ : Type v} (m : Links π) (f : σ → π → σ) : Nat → Option π → σ → Option σ
  | _, none, acc => some acc
  | 0, some _, _ => none
  | fuel + 1, some p, acc => m.walk f fuel (m.next p) (f acc p)

omit [DecidableEq π] in
/-- **Traversal.** A walk from the header passes it and the nodes of the list, in order, and ends. -/
theorem Chain.walk {σ : Type v} (hc : m.Chain h xs) (f : σ → π → σ) {fuel : Nat} (hf : xs.length < fuel) (acc : σ) :
    m.walk f fuel (some h) acc = some ((h :: xs).foldl f acc) := by
  induction xs generalizing h fuel acc with
  | nil =>
    obtain ⟨fuel, rfl⟩ : ∃ n, fuel = n + 1 := ⟨fuel - 1, by simp at hf; omega⟩
    rw [Links.walk, show m.next h = none from hc]
    cases fuel <;> rfl
  | cons x xs ih =>
    obtain ⟨fuel, rfl⟩ : ∃ n, fuel = n + 1 := ⟨fuel - 1, by simp at hf; omega⟩
    rw [Links.walk, hc.1, ih hc.2.2 (by simp at hf; omega)]
    rfl

end Links

end CodeFactory
