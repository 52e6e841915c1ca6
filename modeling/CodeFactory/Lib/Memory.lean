import CodeFactory.Lib.Forest

/-!
# Trees in memory

`Memory` is a forest whose keys are distinct in every level and below an allocation mark, so that a new cell gets a key no
pointer has. Its three operations change a label, insert a cell and remove a cell; each comes with what it does to the label
at a path and to the cells below a path.
-/

namespace CodeFactory

universe u v

/-- A forest with distinct keys in every level, all below the mark from which new keys are taken. -/
structure Memory (α : Type u) where
  forest : Forest α
  mark : Nat
  separate : forest.Separate mark

namespace Memory

variable {α : Type u} {β : Type v}

/-- The label at a path. -/
def get? (m : Memory α) (p : List Nat) : Option α := m.forest.get? p

/-- The cells below a path. -/
def kids (m : Memory α) (p : List Nat) : Option (List (Nat × α)) := m.forest.kids p

/-- Change the label at a path. -/
def modify (m : Memory α) (p : List Nat) (f : α → α) : Memory α where
  forest := m.forest.update (fun a s => (f a, s)) p
  mark := m.mark
  separate := m.separate.update fun _ _ _ hs => hs

/-- The level below a path, nothing if the path leads nowhere. -/
def copyOf (m : Memory α) (src : List Nat) : Forest α := ((m.forest.cell? src).map Prod.snd).getD .nil

theorem separate_copyOf (m : Memory α) (src : List Nat) : (m.copyOf src).Separate m.mark := by
  unfold copyOf
  cases h : m.forest.cell? src with
  | none => trivial
  | some c => exact (m.separate.cell? h).1

/-- Put a new cell below the path `p`, before the first one whose label `before` accepts or at the end, and below it a copy of
what is below the path `src`. -/
def insertCopy (m : Memory α) (p src : List Nat) (before : α → Bool) (label : α) : Memory α where
  forest := m.forest.update (fun a s => (a, s.insert before m.mark label (m.copyOf src))) p
  mark := m.mark + 1
  separate := (m.separate.mono m.mark.le_succ).update fun _ _ hc hs =>
    hs.insert m.mark.lt_succ_self (fun hm => Nat.lt_irrefl _ ((m.separate.cell? hc).1.lt_of_mem hm))
      ((m.separate_copyOf src).mono m.mark.le_succ)

/-- Take out the cell with the key `k` below the path `p`. -/
def removeAt (m : Memory α) (p : List Nat) (k : Nat) : Memory α where
  forest := m.forest.update (fun a s => (a, s.remove k)) p
  mark := m.mark
  separate := m.separate.update fun _ _ _ hs => hs.remove k

/-- Put another forest of the same shape in its place. -/
def replace (m : Memory α) (G : Forest α) {R : α → α → Prop} (h : m.forest.Related R G) : Memory α where
  forest := G
  mark := m.mark
  separate := h.separate m.separate

variable {m : Memory α} {p q src : List Nat}

theorem lt_mark {a : α} (h : m.get? q = some a) : ∀ k ∈ q, k < m.mark := by
  obtain ⟨c, hc, rfl⟩ := Option.map_eq_some_iff.1 h
  exact (m.separate.cell? hc).2

theorem get?_concat (m : Memory α) (p : List Nat) (k : Nat) :
    m.get? (p ++ [k]) = (m.kids p).bind fun L => (L.find? (fun x => x.1 = k)).map Prod.snd :=
  m.forest.get?_concat p k

@[simp] theorem get?_empty (m : Memory α) : m.get? [] = none := m.forest.get?_empty

@[simp] theorem mark_modify (m : Memory α) (p : List Nat) (f : α → α) : (m.modify p f).mark = m.mark := rfl

@[simp] theorem mark_insertCopy (m : Memory α) (p src : List Nat) (before : α → Bool) (a : α) :
    (m.insertCopy p src before a).mark = m.mark + 1 := rfl

@[simp] theorem mark_removeAt (m : Memory α) (p : List Nat) (k : Nat) : (m.removeAt p k).mark = m.mark := rfl

theorem isSome_kids (m : Memory α) (hp : p ≠ []) : (m.kids p).isSome = (m.get? p).isSome := m.forest.isSome_kids hp

/-- The cells below a path have distinct keys. -/
theorem nodup_kids {L : List (Nat × α)} (h : m.kids p = some L) : (L.map Prod.fst).Nodup := by
  obtain ⟨s, hs, rfl⟩ := Option.map_eq_some_iff.1 h
  exact (m.separate.level? hs).nodup

theorem exists_cell {a : α} {L : List (Nat × α)} (hp : p ≠ []) (ha : m.get? p = some a) (hL : m.kids p = some L) :
    ∃ s, m.forest.cell? p = some (a, s) ∧ s.heads = L := by
  obtain ⟨⟨b, s⟩, hc, rfl⟩ := Option.map_eq_some_iff.1 ha
  refine ⟨s, hc, ?_⟩
  simpa [kids, Forest.kids, Forest.level?_of_ne hp, hc] using hL

/-- A cell among those below a path is the one its key leads to. -/
theorem get?_of_mem {L : List (Nat × α)} (hL : m.kids p = some L) {k : Nat} {a : α} (h : (k, a) ∈ L) :
    m.get? (p ++ [k]) = some a := by
  rw [get?_concat, hL, Option.bind_some]
  have hnd := nodup_kids hL
  clear hL
  induction L with
  | nil => cases h
  | cons x L ih =>
    obtain ⟨hx, hnd⟩ := List.nodup_cons.1 hnd
    rw [List.find?_cons]
    by_cases hk : x.1 = k
    · rcases List.mem_cons.1 h with rfl | h
      · simp
      · exact absurd (List.mem_map.2 ⟨_, h, rfl⟩) (hk ▸ hx)
    · have : (k, a) ∈ L := by
        rcases List.mem_cons.1 h with rfl | h
        · exact absurd rfl hk
        · exact h
      simpa [hk] using ih this hnd

/-- Where there are cells below a path, its keys are below the mark. -/
theorem lt_mark_of_kids {L : List (Nat × α)} (hL : m.kids q = some L) : ∀ k ∈ q, k < m.mark := by
  by_cases hq : q = []
  · simp [hq]
  · have h := m.isSome_kids hq
    rw [hL] at h
    obtain ⟨a, ha⟩ := Option.isSome_iff_exists.1 h.symm
    exact lt_mark ha

theorem all_get {P : α → List α → Prop} (h : m.forest.All P) {a : α} {L : List (Nat × α)} (hp : p ≠ [])
    (ha : m.get? p = some a) (hL : m.kids p = some L) : P a (L.map Prod.snd) := by
  obtain ⟨s, hc, rfl⟩ := exists_cell hp ha hL
  exact (h.cell? hc).1

theorem all_copyOf {P : α → List α → Prop} (h : m.forest.All P) (src : List Nat) : (m.copyOf src).All P := by
  unfold copyOf
  cases hc : m.forest.cell? src with
  | none => trivial
  | some c => exact (h.cell? hc).2

theorem get?_modify (m : Memory α) (p q : List Nat) (f : α → α) :
    (m.modify p f).get? q = if q = p then (m.get? q).map f else m.get? q := by
  by_cases hp : p = []
  · subst hp
    simp only [modify, Forest.update_empty, get?]
    split
    · rename_i h
      simp [h]
    · rfl
  · by_cases hpq : p <+: q
    · obtain ⟨r, rfl⟩ := hpq
      simp only [modify, get?, Forest.get?, Forest.cell?_update_append hp, Forest.cell?_append hp]
      by_cases hr : r = []
      · simp [hr, Function.comp_def]
      · simp [hr]
    · have : q ≠ p := fun h => hpq (h ▸ List.prefix_rfl)
      rw [if_neg this]
      exact Forest.get?_update_of_not_prefix hpq

/-- Changing a label keeps what `view` sees of the cells below any path, when the change does. -/
theorem kids_modify {view : α → β} {f : α → α} (hf : ∀ a, m.get? p = some a → view (f a) = view a) :
    ((m.modify p f).kids q).map (List.map (Prod.map id view)) = (m.kids q).map (List.map (Prod.map id view)) := by
  by_cases hp : p = []
  · subst hp
    simp only [modify, Forest.update_empty, kids]
  · by_cases hpq : p <+: q
    · obtain ⟨r, rfl⟩ := hpq
      have hne : p ++ r ≠ [] := by simp [hp]
      simp only [kids, Forest.kids, Forest.level?_of_ne hne, modify, Forest.cell?_update_append hp,
        Forest.cell?_append hp]
      by_cases hr : r = []
      · simp [hr, Function.comp_def]
      · simp [hr]
    · exact m.forest.kids_update_of_not_prefix view _ hpq fun a s hc => hf a (by simp [get?, Forest.get?, hc])

theorem related_modify {R : α → α → Prop} (hR : ∀ a, R a a) {f : α → α} (hf : ∀ a, m.get? p = some a → R a (f a)) :
    m.forest.Related R (m.modify p f).forest :=
  Forest.Related.update hR fun a s hc => ⟨hf a (by simp [get?, Forest.get?, hc]), Forest.Related.refl hR s⟩

/-- A path with keys below the mark leads to the same label after an insertion. -/
theorem get?_insertCopy {before : α → Bool} {a : α} (hp : p ≠ []) (hq : ∀ k ∈ q, k < m.mark) :
    (m.insertCopy p src before a).get? q = m.get? q := by
  by_cases hpq : p <+: q
  · obtain ⟨r, rfl⟩ := hpq
    simp only [insertCopy, get?, Forest.get?, Forest.cell?_update_append hp, Forest.cell?_append hp]
    cases r with
    | nil => simp [Function.comp_def]
    | cons k r =>
      have hk : k ≠ m.mark := Nat.ne_of_lt (hq k (by simp))
      simp [Forest.cell?_insert _ _ hk]
  · exact Forest.get?_update_of_not_prefix hpq

/-- Below any other path with keys below the mark an insertion changes nothing. -/
theorem kids_insertCopy_of_ne {before : α → Bool} {a : α} (hp : p ≠ []) (hq : ∀ k ∈ q, k < m.mark) (hne : q ≠ p) :
    (m.insertCopy p src before a).kids q = m.kids q := by
  by_cases hpq : p <+: q
  · obtain ⟨r, rfl⟩ := hpq
    have hpr : p ++ r ≠ [] := by simp [hp]
    cases r with
    | nil => exact absurd (List.append_nil p) hne
    | cons k r =>
      have hk : k ≠ m.mark := Nat.ne_of_lt (hq k (by simp))
      simp [kids, Forest.kids, Forest.level?_of_ne hpr, insertCopy, Forest.cell?_update_append hp,
        Forest.cell?_append hp, Forest.cell?_insert _ _ hk]
  · have := m.forest.kids_update_of_not_prefix id (fun b s => (b, s.insert before m.mark a (m.copyOf src))) hpq
      (fun _ _ _ => rfl)
    simp only [Prod.map_id, List.map_id_fun, Option.map_id_fun, id] at this
    exact this

/-- The level an insertion is made in. -/
theorem kids_insertCopy (m : Memory α) (hp : p ≠ []) (src : List Nat) (before : α → Bool) (a : α) :
    (m.insertCopy p src before a).kids p =
      (m.kids p).map fun L => L.takeWhile (fun x => !before x.2) ++ (m.mark, a) :: L.dropWhile (fun x => !before x.2) := by
  have hc := Forest.cell?_update_append (F := m.forest)
    (g := fun b s => (b, s.insert before m.mark a (m.copyOf src))) hp []
  rw [List.append_nil, if_pos rfl] at hc
  simp only [kids, Forest.kids, Forest.level?_of_ne hp, insertCopy, hc, Option.map_map]
  cases m.forest.cell? p with
  | none => rfl
  | some c => simp [Forest.heads_insert]

/-- A removal takes away the cell and everything below it, and nothing else. -/
theorem get?_removeAt (hp : p ≠ []) (k : Nat) :
    (m.removeAt p k).get? q = if p ++ [k] <+: q then none else m.get? q := by
  by_cases hpq : p <+: q
  · obtain ⟨r, rfl⟩ := hpq
    simp only [removeAt, get?, Forest.get?, Forest.cell?_update_append hp, Forest.cell?_append hp,
      List.prefix_append_right_inj]
    cases r with
    | nil => simp [Function.comp_def]
    | cons k' r =>
      simp only [List.cons_prefix_cons, List.nil_prefix, and_true, List.cons_ne_nil, if_false]
      by_cases hk : k = k'
      · subst hk
        rw [if_pos rfl]
        cases h : m.forest.cell? p with
        | none => rfl
        | some c =>
          rw [Option.bind_some, Forest.cell?_of_notMem ((m.separate.cell? h).1.notMem_remove k)]
          rfl
      · rw [if_neg hk]
        simp [Forest.cell?_remove _ _ (Ne.symm hk)]
  · rw [if_neg (fun h => hpq ((List.prefix_append p [k]).trans h))]
    exact Forest.get?_update_of_not_prefix hpq

theorem kids_removeAt_of_ne (hp : p ≠ []) {k : Nat} (hne : q ≠ p) (hq : ¬p ++ [k] <+: q) :
    (m.removeAt p k).kids q = m.kids q := by
  by_cases hpq : p <+: q
  · obtain ⟨r, rfl⟩ := hpq
    have hpr : p ++ r ≠ [] := by simp [hp]
    cases r with
    | nil => exact absurd (List.append_nil p) hne
    | cons k' r =>
      have hk : k' ≠ k := by
        rintro rfl
        simp at hq
      simp [kids, Forest.kids, Forest.level?_of_ne hpr, removeAt, Forest.cell?_update_append hp,
        Forest.cell?_append hp, Forest.cell?_remove _ _ hk]
  · have := m.forest.kids_update_of_not_prefix id (fun b s => (b, s.remove k)) hpq (fun _ _ _ => rfl)
    simp only [Prod.map_id, List.map_id_fun, Option.map_id_fun, id] at this
    exact this

theorem kids_removeAt (m : Memory α) (hp : p ≠ []) (k : Nat) :
    (m.removeAt p k).kids p = (m.kids p).map fun L => L.eraseP (fun x => x.1 = k) := by
  have hc := Forest.cell?_update_append (F := m.forest) (g := fun b s => (b, s.remove k)) hp []
  rw [List.append_nil, if_pos rfl] at hc
  simp only [kids, Forest.kids, Forest.level?_of_ne hp, removeAt, hc, Option.map_map]
  cases m.forest.cell? p with
  | none => rfl
  | some c => simp [Forest.heads_remove]

end Memory

end CodeFactory
