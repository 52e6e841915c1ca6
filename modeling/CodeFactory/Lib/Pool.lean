import Mathlib.Data.List.Nodup

/-!
# Records at addresses

A pool is a list of records, each at an address of its own. A new record goes to the end of the list and gets an address that no
record has had before, so that a pointer to a record that was taken out is seen when it is followed.
-/

namespace CodeFactory

universe u

/-- A list of records with distinct addresses, all below the mark from which new ones are taken. -/
structure Pool (α : Type u) where
  entries : List (Nat × α)
  mark : Nat
  nodup : (entries.map Prod.fst).Nodup
  below : ∀ x ∈ entries, x.1 < mark

namespace Pool

variable {α : Type u}

/-- No records. -/
def empty : Pool α := ⟨[], 0, List.nodup_nil, by simp⟩

/-- The record at an address. -/
def get? (m : Pool α) (p : Nat) : Option α := (m.entries.find? fun x => x.1 = p).map Prod.snd

/-- The first record that a test accepts, with its address. -/
def first (m : Pool α) (test : α → Bool) : Option (Nat × α) := m.entries.find? fun x => test x.2

/-- Put a record at the place of the one at an address. -/
def set (m : Pool α) (p : Nat) (a : α) : Pool α where
  entries := m.entries.map fun x => if x.1 = p then (p, a) else x
  mark := m.mark
  nodup := by
    rw [List.map_map]
    have heq : Prod.fst ∘ (fun x : Nat × α => if x.1 = p then (p, a) else x) = Prod.fst := by
      funext x
      rw [Function.comp_apply]
      split
      · rename_i h
        exact h.symm
      · rfl
    rw [heq]
    exact m.nodup
  below := by
    intro y hy
    obtain ⟨x, hx, rfl⟩ := List.mem_map.1 hy
    have hlt := m.below x hx
    split
    · rename_i h
      exact h ▸ hlt
    · exact hlt

/-- Put a new record at the end. -/
def append (m : Pool α) (a : α) : Pool α where
  entries := m.entries ++ [(m.mark, a)]
  mark := m.mark + 1
  nodup := by
    rw [List.map_append, List.nodup_append]
    refine ⟨m.nodup, List.nodup_singleton _, ?_⟩
    intro p hp q hq hpq
    obtain ⟨x, hx, rfl⟩ := List.mem_map.1 hp
    have hlt := m.below x hx
    have hmark : q = m.mark := List.mem_singleton.1 hq
    omega
  below := by
    intro x hx
    rcases List.mem_append.1 hx with hx | hx
    · have hlt := m.below x hx
      omega
    · rw [List.mem_singleton.1 hx]
      exact Nat.lt_succ_self _

/-- Take out the record at an address. -/
def remove (m : Pool α) (p : Nat) : Pool α where
  entries := m.entries.filter fun x => x.1 ≠ p
  mark := m.mark
  nodup := m.nodup.sublist (List.filter_sublist.map _)
  below := fun x hx => m.below x (List.mem_of_mem_filter hx)

variable {m : Pool α} {p q : Nat} {a b : α}

/-- The records are those that are found at their addresses. -/
theorem mem_iff : (p, a) ∈ m.entries ↔ m.get? p = some a := by
  rw [get?, Option.map_eq_some_iff]
  constructor
  · intro h
    refine ⟨(p, a), ?_, rfl⟩
    have hnd := m.nodup
    revert h hnd
    generalize m.entries = l
    intro h hnd
    induction l with
    | nil => cases h
    | cons x l ih =>
      rw [List.map_cons, List.nodup_cons] at hnd
      rw [List.find?_cons]
      rcases List.mem_cons.1 h with rfl | h
      · simp
      · have hx : x.1 ≠ p := fun hx => hnd.1 (hx ▸ List.mem_map.2 ⟨_, h, rfl⟩)
        simpa [hx] using ih h hnd.2
  · rintro ⟨x, hx, rfl⟩
    have hp : x.1 = p := by simpa using List.find?_some hx
    exact hp ▸ List.mem_of_find?_eq_some hx

theorem lt_mark (h : m.get? p = some a) : p < m.mark := m.below _ (mem_iff.2 h)

theorem get?_mark : m.get? m.mark = none := by
  by_contra hne
  obtain ⟨a, ha⟩ := Option.ne_none_iff_exists'.1 hne
  exact absurd (lt_mark ha) (Nat.lt_irrefl _)

@[simp] theorem get?_empty (p : Nat) : (empty : Pool α).get? p = none := rfl

@[simp] theorem entries_empty : (empty : Pool α).entries = [] := rfl

/-- Where there is no record, none is put. -/
theorem get?_set : (m.set p a).get? q = if q = p ∧ (m.get? p).isSome then some a else m.get? q := by
  refine Option.ext fun c => ?_
  rw [← mem_iff, set]
  simp only [List.mem_map]
  constructor
  · rintro ⟨⟨r, d⟩, hr, hrc⟩
    have hd := mem_iff.1 hr
    by_cases h : r = p
    · subst h
      rw [if_pos rfl] at hrc
      obtain ⟨rfl, rfl⟩ := Prod.mk.inj hrc
      rw [if_pos ⟨rfl, by rw [hd]; rfl⟩]
    · rw [if_neg h] at hrc
      obtain ⟨rfl, rfl⟩ := Prod.mk.inj hrc
      rw [if_neg fun hc => h hc.1]
      exact hd
  · split
    · rename_i h
      obtain ⟨rfl, hsome⟩ := h
      intro hc
      obtain rfl := Option.some.inj hc
      obtain ⟨d, hd⟩ := Option.isSome_iff_exists.1 hsome
      exact ⟨(q, d), mem_iff.2 hd, by rw [if_pos rfl]⟩
    · rename_i h
      intro hc
      refine ⟨(q, c), mem_iff.2 hc, ?_⟩
      rw [if_neg]
      rintro rfl
      exact h ⟨rfl, by rw [hc]; rfl⟩

theorem get?_set_self (h : m.get? p = some b) : (m.set p a).get? p = some a := by
  rw [get?_set, if_pos ⟨rfl, by rw [h]; rfl⟩]

theorem get?_set_of_ne (h : q ≠ p) : (m.set p a).get? q = m.get? q := by
  rw [get?_set, if_neg fun hc => h hc.1]

/-- A record put in the place of another one stands there, and the others stay. -/
theorem get?_set_eq (h : m.get? p = some b) : (m.set p a).get? q = if q = p then some a else m.get? q := by
  rw [get?_set, h]
  simp

/-- The new record is at the mark. -/
theorem get?_append : (m.append a).get? q = if q = m.mark then some a else m.get? q := by
  refine Option.ext fun c => ?_
  rw [← mem_iff, append]
  simp only [List.mem_append, List.mem_singleton, Prod.mk.injEq, mem_iff]
  split
  · rename_i h
    subst h
    constructor
    · rintro (hc | ⟨-, rfl⟩)
      · exact absurd (lt_mark hc) (Nat.lt_irrefl _)
      · rfl
    · rintro hc
      exact .inr ⟨rfl, (Option.some.inj hc).symm⟩
  · rename_i h
    constructor
    · rintro (hc | ⟨hq, -⟩)
      · exact hc
      · exact absurd hq h
    · exact .inl

theorem get?_remove : (m.remove p).get? q = if q = p then none else m.get? q := by
  refine Option.ext fun c => ?_
  rw [← mem_iff, remove]
  simp only [List.mem_filter, mem_iff, ne_eq, decide_not, Bool.not_eq_true', decide_eq_false_iff_not]
  split
  · rename_i h
    simp [h]
  · rename_i h
    simp [h]

@[simp] theorem mark_set : (m.set p a).mark = m.mark := rfl

@[simp] theorem mark_append : (m.append a).mark = m.mark + 1 := rfl

@[simp] theorem mark_remove : (m.remove p).mark = m.mark := rfl

theorem get?_of_first {test : α → Bool} (h : m.first test = some (p, a)) : m.get? p = some a ∧ test a = true :=
  ⟨mem_iff.1 (List.mem_of_find?_eq_some h), by simpa using List.find?_some h⟩

theorem first_eq_none {test : α → Bool} : m.first test = none ↔ ∀ p a, m.get? p = some a → test a = false := by
  rw [first, List.find?_eq_none]
  constructor
  · intro h p a hp
    simpa using h (p, a) (mem_iff.2 hp)
  · rintro h ⟨p, a⟩ hp
    simpa using h p a (mem_iff.1 hp)

/-- A test that accepts one record only finds it. -/
theorem first_eq_some {test : α → Bool} (h : m.get? p = some a) (ha : test a = true)
    (huniq : ∀ q b, m.get? q = some b → test b = true → q = p) : m.first test = some (p, a) := by
  cases hf : m.first test with
  | none => exact absurd ha (by rw [first_eq_none.1 hf p a h]; exact Bool.false_ne_true)
  | some x =>
    obtain ⟨q, b⟩ := x
    obtain ⟨hq, hb⟩ := get?_of_first hf
    obtain rfl := huniq q b hq hb
    rw [h] at hq
    rw [Option.some.inj hq]

end Pool

end CodeFactory
