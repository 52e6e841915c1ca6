import Mathlib.Data.List.Basic
import Mathlib.Data.List.Nodup

/-!
# Forests of keyed cells

A forest of labelled cells. Every cell has a key, which stands for its address: a pointer to a cell is the path of keys that
leads to it, and it keeps leading there when cells are inserted or removed beside it. `Forest.update` rewrites the cell a path
leads to; the lemmas say what that does to the label at any path, to the cells below any path, and to a property of every
cell.
-/

namespace CodeFactory

universe u v

/-- A level of cells, each with its key, its label and the level below it. -/
inductive Forest (α : Type u) where
  | nil : Forest α
  | cons (key : Nat) (label : α) (sub rest : Forest α) : Forest α
  deriving DecidableEq, Repr

namespace Forest

variable {α : Type u} {β : Type v}

/-- The cells of the level itself: their keys and labels. -/
def heads : Forest α → List (Nat × α)
  | nil => []
  | cons k a _ rest => (k, a) :: rest.heads

/-- The cell a path leads to: its label and the level below it. -/
def cell? : Forest α → List Nat → Option (α × Forest α)
  | nil, _ => none
  | cons _ _ _ _, [] => none
  | cons k a sub rest, k' :: p =>
    if k = k' then if p = [] then some (a, sub) else cell? sub p else cell? rest (k' :: p)

/-- The label at a path. -/
def get? (F : Forest α) (p : List Nat) : Option α := (F.cell? p).map Prod.fst

/-- The level below a path; below the empty path is the forest itself. -/
def level? (F : Forest α) (p : List Nat) : Option (Forest α) :=
  if p = [] then some F else (F.cell? p).map Prod.snd

/-- The cells below a path. -/
def kids (F : Forest α) (p : List Nat) : Option (List (Nat × α)) := (F.level? p).map heads

/-- Rewrite the cell a path leads to. -/
def update (g : α → Forest α → α × Forest α) : Forest α → List Nat → Forest α
  | nil, _ => nil
  | cons k a sub rest, [] => cons k a sub rest
  | cons k a sub rest, k' :: p =>
    if k = k' then
      if p = [] then cons k (g a sub).1 (g a sub).2 rest else cons k a (update g sub p) rest
    else cons k a sub (update g rest (k' :: p))

/-- Put a cell before the first one whose label `before` accepts, or at the end. -/
def insert (F : Forest α) (before : α → Bool) (key : Nat) (label : α) (sub : Forest α) : Forest α :=
  match F with
  | nil => cons key label sub nil
  | cons k a s rest =>
    if before a then cons key label sub (cons k a s rest) else cons k a s (insert rest before key label sub)

/-- Take out the cell with a key. -/
def remove (key : Nat) : Forest α → Forest α
  | nil => nil
  | cons k a s rest => if k = key then rest else cons k a s (remove key rest)

/-- Every cell has the property `P`, of its label and the labels of the cells below it. -/
def All (P : α → List α → Prop) : Forest α → Prop
  | nil => True
  | cons _ a sub rest => P a (sub.heads.map Prod.snd) ∧ sub.All P ∧ rest.All P

instance decidableAll (P : α → List α → Prop) [∀ a l, Decidable (P a l)] : (F : Forest α) → Decidable (F.All P)
  | nil => .isTrue trivial
  | cons _ _ sub rest =>
    have := decidableAll P sub
    have := decidableAll P rest
    inferInstanceAs (Decidable (_ ∧ _ ∧ _))

/-- In every level the keys are distinct and below `n`. -/
def Separate (n : Nat) : Forest α → Prop
  | nil => True
  | cons k _ sub rest => k < n ∧ k ∉ rest.heads.map Prod.fst ∧ sub.Separate n ∧ rest.Separate n

instance decidableSeparate (n : Nat) : (F : Forest α) → Decidable (F.Separate n)
  | nil => .isTrue trivial
  | cons _ _ sub rest =>
    have := decidableSeparate n sub
    have := decidableSeparate n rest
    inferInstanceAs (Decidable (_ ∧ _ ∧ _ ∧ _))

@[simp] theorem heads_nil : (nil : Forest α).heads = [] := rfl

@[simp] theorem heads_cons (k : Nat) (a : α) (sub rest : Forest α) :
    (cons k a sub rest).heads = (k, a) :: rest.heads := rfl

@[simp] theorem cell?_empty (F : Forest α) : F.cell? [] = none := by
  cases F <;> rfl

@[simp] theorem get?_empty (F : Forest α) : F.get? [] = none := by
  simp [get?]

@[simp] theorem level?_empty (F : Forest α) : F.level? [] = some F := rfl

theorem level?_of_ne {F : Forest α} {p : List Nat} (hp : p ≠ []) : F.level? p = (F.cell? p).map Prod.snd := if_neg hp

theorem cell?_cons (k : Nat) (a : α) (sub rest : Forest α) (k' : Nat) (p : List Nat) :
    (cons k a sub rest).cell? (k' :: p) =
      if k = k' then if p = [] then some (a, sub) else sub.cell? p else rest.cell? (k' :: p) := rfl

/-- Below the first key of a path: the rest of the path is followed from the level below it. -/
theorem level?_cons (k : Nat) (a : α) (sub rest : Forest α) (k' : Nat) (p : List Nat) :
    (cons k a sub rest).level? (k' :: p) = if k = k' then sub.level? p else rest.level? (k' :: p) := by
  simp only [level?, List.cons_ne_nil, if_false, cell?_cons]
  split
  · split
    · simp
    · rfl
  · rfl

theorem get?_cons (k : Nat) (a : α) (sub rest : Forest α) (k' : Nat) (p : List Nat) :
    (cons k a sub rest).get? (k' :: p) =
      if k = k' then if p = [] then some a else sub.get? p else rest.get? (k' :: p) := by
  simp only [get?, cell?_cons]
  split
  · split <;> rfl
  · rfl

@[simp] theorem level?_nil_cons (k : Nat) (p : List Nat) : (nil : Forest α).level? (k :: p) = none := rfl

@[simp] theorem get?_nil (p : List Nat) : (nil : Forest α).get? p = none := rfl

@[simp] theorem kids_empty (F : Forest α) : F.kids [] = some F.heads := rfl

theorem kids_cons (k : Nat) (a : α) (sub rest : Forest α) (k' : Nat) (p : List Nat) :
    (cons k a sub rest).kids (k' :: p) = if k = k' then sub.kids p else rest.kids (k' :: p) := by
  simp only [kids, level?_cons]
  split <;> rfl

@[simp] theorem kids_nil_cons (k : Nat) (p : List Nat) : (nil : Forest α).kids (k :: p) = none := rfl

theorem isSome_kids (F : Forest α) {p : List Nat} (hp : p ≠ []) : (F.kids p).isSome = (F.get? p).isSome := by
  simp [kids, get?, level?_of_ne hp]

/-- The label at a path that ends in `k` is the one found under `k` among the cells below the rest of the path. -/
theorem get?_concat (F : Forest α) (p : List Nat) (k : Nat) :
    F.get? (p ++ [k]) = (F.kids p).bind fun L => (L.find? (fun x => x.1 = k)).map Prod.snd := by
  induction F generalizing p with
  | nil => cases p <;> simp [kids]
  | cons k₁ a sub rest ihs ihr =>
    cases p with
    | nil =>
      rw [List.nil_append, get?_cons, kids_empty, heads_cons, Option.bind_some, List.find?_cons]
      by_cases h : k₁ = k
      · simp [h]
      · have := ihr []
        simp only [List.nil_append, kids_empty, Option.bind_some] at this
        simp [h, this]
    | cons k' p =>
      rw [List.cons_append, get?_cons, kids_cons]
      by_cases h : k₁ = k'
      · simp [h, ihs p]
      · rw [if_neg h, if_neg h, ← ihr (k' :: p), List.cons_append]

/-! ## Insertion and removal in a level -/

theorem heads_insert (F : Forest α) (before : α → Bool) (key : Nat) (label : α) (sub : Forest α) :
    (F.insert before key label sub).heads =
      F.heads.takeWhile (fun x => !before x.2) ++ (key, label) :: F.heads.dropWhile (fun x => !before x.2) := by
  induction F with
  | nil => rfl
  | cons k a s rest _ ih =>
    unfold insert
    by_cases h : before a
    · simp [h]
    · simp [h, ih]

theorem heads_remove (key : Nat) (F : Forest α) : (F.remove key).heads = F.heads.eraseP (fun x => x.1 = key) := by
  induction F with
  | nil => rfl
  | cons k a s rest _ ih =>
    unfold remove
    by_cases h : k = key
    · simp [h]
    · simp [h, ih]

theorem mem_keys_insert (F : Forest α) (before : α → Bool) (key : Nat) (label : α) (sub : Forest α) (k : Nat) :
    k ∈ (F.insert before key label sub).heads.map Prod.fst ↔ k = key ∨ k ∈ F.heads.map Prod.fst := by
  induction F with
  | nil => simp [insert]
  | cons k₁ a s rest _ ih =>
    unfold insert
    split
    · simp
    · rw [heads_cons, List.map_cons, List.mem_cons, ih, heads_cons, List.map_cons, List.mem_cons]
      exact or_left_comm

theorem mem_keys_remove {key k : Nat} {F : Forest α} (h : k ∈ (F.remove key).heads.map Prod.fst) :
    k ∈ F.heads.map Prod.fst := by
  rw [heads_remove] at h
  exact ((List.eraseP_sublist (l := F.heads)).map Prod.fst).subset h

/-- A path that does not start at the new cell leads where it did. -/
theorem cell?_insert (F : Forest α) (before : α → Bool) {key k : Nat} (hk : k ≠ key) (label : α) (sub : Forest α)
    (p : List Nat) : (F.insert before key label sub).cell? (k :: p) = F.cell? (k :: p) := by
  induction F with
  | nil => rw [insert, cell?_cons, if_neg hk.symm]
  | cons k₁ a s rest _ ih =>
    unfold insert
    split
    · rw [cell?_cons, if_neg hk.symm]
    · rw [cell?_cons, cell?_cons, ih]

/-- A path that does not start at the removed cell leads where it did. -/
theorem cell?_remove (key : Nat) (F : Forest α) {k : Nat} (hk : k ≠ key) (p : List Nat) :
    (F.remove key).cell? (k :: p) = F.cell? (k :: p) := by
  induction F with
  | nil => rfl
  | cons k₁ a s rest _ ih =>
    unfold remove
    split
    · rename_i h
      rw [cell?_cons, if_neg (by omega)]
    · rw [cell?_cons, cell?_cons, ih]

/-- A path that starts at a key the level does not have leads nowhere. -/
theorem cell?_of_notMem {F : Forest α} {k : Nat} (hk : k ∉ F.heads.map Prod.fst) (p : List Nat) :
    F.cell? (k :: p) = none := by
  induction F with
  | nil => rfl
  | cons k₁ a s rest _ ih =>
    rw [heads_cons, List.map_cons, List.mem_cons, not_or] at hk
    rw [cell?_cons, if_neg (by omega), ih hk.2]

/-! ## Rewriting a cell -/

section Update

variable {g : α → Forest α → α × Forest α} {F : Forest α} {p q : List Nat}

@[simp] theorem update_empty (g : α → Forest α → α × Forest α) (F : Forest α) : F.update g [] = F := by
  cases F <;> rfl

theorem update_cons (k : Nat) (a : α) (sub rest : Forest α) (k' : Nat) (p : List Nat) :
    (cons k a sub rest).update g (k' :: p) =
      if k = k' then
        if p = [] then cons k (g a sub).1 (g a sub).2 rest else cons k a (sub.update g p) rest
      else cons k a sub (rest.update g (k' :: p)) := rfl

/-- A rewritten cell keeps its key, and so do all others. -/
theorem keys_update (g : α → Forest α → α × Forest α) (F : Forest α) (p : List Nat) :
    (F.update g p).heads.map Prod.fst = F.heads.map Prod.fst := by
  induction F with
  | nil => rfl
  | cons k a sub rest _ ih =>
    cases p with
    | nil => rfl
    | cons k' p =>
      rw [update_cons]
      split
      · split <;> rfl
      · rw [heads_cons, List.map_cons, ih, heads_cons, List.map_cons]

/-- The labels of a level after a rewriting: at most the rewritten cell has another one. -/
theorem labels_update (g : α → Forest α → α × Forest α) (F : Forest α) (p : List Nat) :
    (F.update g p).heads.map Prod.snd = F.heads.map Prod.snd ∨
      ∃ l a s r, F.cell? p = some (a, s) ∧ F.heads.map Prod.snd = l ++ a :: r ∧
        (F.update g p).heads.map Prod.snd = l ++ (g a s).1 :: r := by
  induction F with
  | nil => exact Or.inl rfl
  | cons k a sub rest _ ih =>
    cases p with
    | nil => exact Or.inl rfl
    | cons k' p =>
      rw [update_cons, cell?_cons]
      by_cases hk : k = k'
      · by_cases hp : p = []
        · rw [if_pos hk, if_pos hk, if_pos hp, if_pos hp]
          exact Or.inr ⟨[], a, sub, rest.heads.map Prod.snd, rfl, rfl, rfl⟩
        · rw [if_pos hk, if_neg hp]
          exact Or.inl rfl
      · rw [if_neg hk, if_neg hk]
        rcases ih with ih | ⟨l, b, s, r, hc, hl, hu⟩
        · left
          simp [ih]
        · right
          exact ⟨a :: l, b, s, r, hc, by simp [hl], by simp [hu]⟩

/-- Rewriting a cell keeps a property of every cell, when the rewritten cell and the levels in it have it, and no cell loses
it by the change of the label below it. -/
theorem All.update {P : α → List α → Prop} (h : F.All P)
    (hcell : ∀ a s, F.cell? p = some (a, s) → P a (s.heads.map Prod.snd) → s.All P →
      P (g a s).1 ((g a s).2.heads.map Prod.snd) ∧ (g a s).2.All P)
    (hparent : ∀ a s b l r, F.cell? p = some (a, s) → P b (l ++ a :: r) → P b (l ++ (g a s).1 :: r)) :
    (F.update g p).All P := by
  induction F generalizing p with
  | nil => exact h
  | cons k a sub rest ihs ihr =>
    obtain ⟨ha, hs, hr⟩ := h
    cases p with
    | nil => exact ⟨ha, hs, hr⟩
    | cons k' p =>
      simp only [cell?_cons] at hcell hparent
      rw [update_cons]
      by_cases hk : k = k'
      · simp only [if_pos hk] at hcell hparent ⊢
        by_cases hp : p = []
        · simp only [if_pos hp] at hcell ⊢
          obtain ⟨h1, h2⟩ := hcell a sub rfl ha hs
          exact ⟨h1, h2, hr⟩
        · simp only [if_neg hp] at hcell hparent ⊢
          refine ⟨?_, ihs hs hcell hparent, hr⟩
          -- the label of the cell itself stays; of the labels below it at most one changes
          rcases labels_update g sub p with he | ⟨l, b, s, r, hc, hl, hu⟩
          · rw [he]
            exact ha
          · rw [hu]
            exact hparent b s a l r hc (hl ▸ ha)
      · simp only [if_neg hk] at hcell hparent ⊢
        exact ⟨ha, hs, ihr hr hcell hparent⟩

theorem Separate.update {n : Nat} (h : F.Separate n)
    (hcell : ∀ a s, F.cell? p = some (a, s) → s.Separate n → (g a s).2.Separate n) : (F.update g p).Separate n := by
  induction F generalizing p with
  | nil => exact h
  | cons k a sub rest ihs ihr =>
    obtain ⟨hn, hd, hs, hr⟩ := h
    cases p with
    | nil => exact ⟨hn, hd, hs, hr⟩
    | cons k' p =>
      simp only [cell?_cons] at hcell
      rw [update_cons]
      by_cases hk : k = k'
      · simp only [if_pos hk] at hcell ⊢
        by_cases hp : p = []
        · simp only [if_pos hp] at hcell ⊢
          exact ⟨hn, hd, hcell a sub rfl hs, hr⟩
        · simp only [if_neg hp] at hcell ⊢
          exact ⟨hn, hd, ihs hs hcell, hr⟩
      · simp only [if_neg hk] at hcell ⊢
        refine ⟨hn, ?_, hs, ihr hr hcell⟩
        rwa [keys_update]

/-- Two rewritings of one cell are one. -/
theorem update_update (g g' : α → Forest α → α × Forest α) (F : Forest α) (p : List Nat) :
    (F.update g p).update g' p = F.update (fun a s => g' (g a s).1 (g a s).2) p := by
  induction F generalizing p with
  | nil => rfl
  | cons k a sub rest ihs ihr =>
    cases p with
    | nil => rfl
    | cons k' p =>
      rw [update_cons, update_cons]
      by_cases hk : k = k'
      · by_cases hp : p = []
        · rw [if_pos hk, if_pos hk, if_pos hp, if_pos hp, update_cons, if_pos hk, if_pos hp]
        · rw [if_pos hk, if_pos hk, if_neg hp, if_neg hp, update_cons, if_pos hk, if_neg hp, ihs]
      · rw [if_neg hk, if_neg hk, update_cons, if_neg hk, ihr]

/-- Following a path in two parts. -/
theorem cell?_append (hp : p ≠ []) (r : List Nat) :
    F.cell? (p ++ r) = if r = [] then F.cell? p else (F.cell? p).bind fun c => c.2.cell? r := by
  induction F generalizing p with
  | nil => simp [cell?]
  | cons k a sub rest ihs ihr =>
    obtain ⟨k', p, rfl⟩ := List.exists_cons_of_ne_nil hp
    rw [List.cons_append, cell?_cons, cell?_cons]
    by_cases hk : k = k'
    · by_cases hp : p = []
      · subst hp
        by_cases hr : r = [] <;> simp [hk, hr]
      · simp [hk, hp, ihs hp]
    · rw [if_neg hk, if_neg hk, ← List.cons_append, ihr (List.cons_ne_nil _ _)]

/-- At and below the rewritten cell. -/
theorem cell?_update_append (hp : p ≠ []) (r : List Nat) :
    (F.update g p).cell? (p ++ r) =
      if r = [] then (F.cell? p).map fun c => g c.1 c.2 else (F.cell? p).bind fun c => (g c.1 c.2).2.cell? r := by
  induction F generalizing p with
  | nil => simp [cell?, Forest.update]
  | cons k a sub rest ihs ihr =>
    obtain ⟨k', p, rfl⟩ := List.exists_cons_of_ne_nil hp
    rw [List.cons_append, update_cons, cell?_cons]
    by_cases hk : k = k'
    · by_cases hp : p = []
      · subst hp
        by_cases hr : r = [] <;> simp [hk, hr, cell?_cons]
      · simp [hk, hp, cell?_cons, ihs hp]
    · rw [if_neg hk, if_neg hk, cell?_cons, if_neg hk, ← List.cons_append, ihr (List.cons_ne_nil _ _)]

/-- Everywhere else the label is the one before. -/
theorem get?_update_of_not_prefix (h : ¬p <+: q) : (F.update g p).get? q = F.get? q := by
  induction F generalizing p q with
  | nil => rfl
  | cons k a sub rest ihs ihr =>
    cases p with
    | nil => exact absurd List.nil_prefix h
    | cons k' p =>
      cases q with
      | nil => simp
      | cons k₁ q =>
        rw [List.cons_prefix_cons, not_and] at h
        rw [update_cons, get?_cons]
        by_cases hk : k = k'
        · rw [if_pos hk]
          by_cases hp : p = []
          · have : k ≠ k₁ := fun he => h (hk ▸ he) (hp ▸ List.nil_prefix)
            rw [if_pos hp, get?_cons, if_neg this, if_neg this]
          · rw [if_neg hp, get?_cons]
            by_cases hk₁ : k = k₁
            · rw [if_pos hk₁, if_pos hk₁, ihs (h (hk ▸ hk₁))]
            · rw [if_neg hk₁, if_neg hk₁]
        · rw [if_neg hk, get?_cons, ihr (by rwa [List.cons_prefix_cons, not_and])]

/-- What a rewriting that keeps `view` of the labels leaves of the level a path leads to, when the path does not pass the
rewritten cell. -/
theorem kids_update_of_not_prefix (F : Forest α) (view : α → β) (g : α → Forest α → α × Forest α) (h : ¬p <+: q)
    (hg : ∀ a s, F.cell? p = some (a, s) → view (g a s).1 = view a) :
    ((F.update g p).kids q).map (List.map (Prod.map id view)) = (F.kids q).map (List.map (Prod.map id view)) := by
  induction F generalizing p q with
  | nil => rfl
  | cons k a sub rest ihs ihr =>
    cases p with
    | nil => exact absurd List.nil_prefix h
    | cons k' p =>
      simp only [cell?_cons] at hg
      rw [update_cons]
      by_cases hk : k = k'
      · simp only [if_pos hk] at hg ⊢
        by_cases hp : p = []
        · simp only [if_pos hp] at hg ⊢
          cases q with
          | nil => simp [hg a sub rfl]
          | cons k₁ q =>
            have : k ≠ k₁ := by
              rintro rfl
              rw [hp, hk, List.cons_prefix_cons] at h
              exact h ⟨rfl, List.nil_prefix⟩
            rw [kids_cons, kids_cons, if_neg this, if_neg this]
        · simp only [if_neg hp] at hg ⊢
          cases q with
          | nil => rfl
          | cons k₁ q =>
            rw [kids_cons, kids_cons]
            by_cases hk₁ : k = k₁
            · rw [if_pos hk₁, if_pos hk₁]
              refine ihs (fun hpq => h ?_) hg
              rw [← hk, hk₁, List.cons_prefix_cons]
              exact ⟨rfl, hpq⟩
            · rw [if_neg hk₁, if_neg hk₁]
      · simp only [if_neg hk] at hg ⊢
        cases q with
        | nil =>
          have := ihr (q := []) (p := k' :: p) (by simp) hg
          simpa using this
        | cons k₁ q => rw [kids_cons, kids_cons, apply_ite (Option.map _), apply_ite (Option.map _), ihr h hg]

end Update

/-! ## What insertion and removal keep -/

section Levels

variable {P : α → List α → Prop} {F : Forest α} {n : Nat}

theorem All.imp {Q : α → List α → Prop} (h : F.All P) (hPQ : ∀ a l, P a l → Q a l) : F.All Q := by
  induction F with
  | nil => trivial
  | cons k a s rest ihs ihr =>
    obtain ⟨h1, h2, h3⟩ := h
    exact ⟨hPQ _ _ h1, ihs h2, ihr h3⟩

theorem All.insert (h : F.All P) {before : α → Bool} {key : Nat} {label : α} {sub : Forest α}
    (hl : P label (sub.heads.map Prod.snd)) (hs : sub.All P) : (F.insert before key label sub).All P := by
  induction F with
  | nil => exact ⟨hl, hs, trivial⟩
  | cons k a s rest _ ih =>
    obtain ⟨h1, h2, h3⟩ := h
    unfold Forest.insert
    split
    · exact ⟨hl, hs, h1, h2, h3⟩
    · exact ⟨h1, h2, ih h3⟩

theorem All.remove (h : F.All P) (key : Nat) : (F.remove key).All P := by
  induction F with
  | nil => exact h
  | cons k a s rest _ ih =>
    obtain ⟨h1, h2, h3⟩ := h
    unfold Forest.remove
    split
    · exact h3
    · exact ⟨h1, h2, ih h3⟩

/-- A property of every cell is one of the cells in the level a path leads to. -/
theorem All.cell? (h : F.All P) {p : List Nat} {a : α} {s : Forest α} (hc : F.cell? p = some (a, s)) :
    P a (s.heads.map Prod.snd) ∧ s.All P := by
  induction F generalizing p with
  | nil => exact absurd hc (by simp [Forest.cell?])
  | cons k b sub rest ihs ihr =>
    obtain ⟨h1, h2, h3⟩ := h
    cases p with
    | nil => exact absurd hc (by simp)
    | cons k' p =>
      rw [cell?_cons] at hc
      split at hc
      · split at hc
        · obtain ⟨rfl, rfl⟩ := Prod.mk.inj (Option.some.inj hc)
          exact ⟨h1, h2⟩
        · exact ihs h2 hc
      · exact ihr h3 hc

theorem Separate.mono {n' : Nat} (h : F.Separate n) (hn : n ≤ n') : F.Separate n' := by
  induction F with
  | nil => trivial
  | cons k a s rest ihs ihr =>
    obtain ⟨h1, h2, h3, h4⟩ := h
    exact ⟨by omega, h2, ihs h3, ihr h4⟩

theorem Separate.insert (h : F.Separate n) {before : α → Bool} {key : Nat} {label : α} {sub : Forest α} (hk : key < n)
    (hd : key ∉ F.heads.map Prod.fst) (hs : sub.Separate n) : (F.insert before key label sub).Separate n := by
  induction F with
  | nil => exact ⟨hk, by simp, hs, trivial⟩
  | cons k a s rest _ ih =>
    obtain ⟨h1, h2, h3, h4⟩ := h
    rw [heads_cons, List.map_cons, List.mem_cons, not_or] at hd
    unfold Forest.insert
    split
    · exact ⟨hk, by simpa using hd, hs, h1, h2, h3, h4⟩
    · refine ⟨h1, ?_, h3, ih h4 hd.2⟩
      rw [mem_keys_insert, not_or]
      exact ⟨fun he => hd.1 he.symm, h2⟩

theorem Separate.remove (h : F.Separate n) (key : Nat) : (F.remove key).Separate n := by
  induction F with
  | nil => exact h
  | cons k a s rest _ ih =>
    obtain ⟨h1, h2, h3, h4⟩ := h
    unfold Forest.remove
    split
    · exact h4
    · exact ⟨h1, fun hm => h2 (mem_keys_remove hm), h3, ih h4⟩

/-- The key of a removed cell is no longer in the level. -/
theorem Separate.notMem_remove (h : F.Separate n) (key : Nat) : key ∉ (F.remove key).heads.map Prod.fst := by
  induction F with
  | nil => simp [Forest.remove]
  | cons k a s rest _ ih =>
    obtain ⟨_, h2, _, h4⟩ := h
    unfold Forest.remove
    split
    · rename_i hk
      exact hk ▸ h2
    · rename_i hk
      rw [heads_cons, List.map_cons, List.mem_cons, not_or]
      exact ⟨fun he => hk he.symm, ih h4⟩

theorem Separate.lt_of_mem (h : F.Separate n) {k : Nat} (hk : k ∈ F.heads.map Prod.fst) : k < n := by
  induction F with
  | nil => exact absurd hk (by simp)
  | cons k₁ a s rest _ ih =>
    obtain ⟨h1, _, _, h4⟩ := h
    rw [heads_cons, List.map_cons, List.mem_cons] at hk
    rcases hk with rfl | hk
    · exact h1
    · exact ih h4 hk

theorem Separate.nodup (h : F.Separate n) : (F.heads.map Prod.fst).Nodup := by
  induction F with
  | nil => exact List.nodup_nil
  | cons k a s rest _ ih =>
    obtain ⟨_, h2, _, h4⟩ := h
    exact List.nodup_cons.2 ⟨h2, ih h4⟩

theorem Separate.cell? (h : F.Separate n) {p : List Nat} {a : α} {s : Forest α} (hc : F.cell? p = some (a, s)) :
    s.Separate n ∧ ∀ k ∈ p, k < n := by
  induction F generalizing p with
  | nil => exact absurd hc (by simp [Forest.cell?])
  | cons k b sub rest ihs ihr =>
    obtain ⟨h1, _, h3, h4⟩ := h
    cases p with
    | nil => exact absurd hc (by simp)
    | cons k' p =>
      rw [cell?_cons] at hc
      by_cases hk : k = k'
      · rw [if_pos hk] at hc
        rw [List.forall_mem_cons]
        by_cases hp : p = []
        · rw [if_pos hp] at hc
          obtain ⟨rfl, rfl⟩ := Prod.mk.inj (Option.some.inj hc)
          exact ⟨h3, hk ▸ h1, by simp [hp]⟩
        · rw [if_neg hp] at hc
          exact ⟨(ihs h3 hc).1, hk ▸ h1, (ihs h3 hc).2⟩
      · rw [if_neg hk] at hc
        exact ihr h4 hc

theorem Separate.level? (h : F.Separate n) {p : List Nat} {s : Forest α} (hs : F.level? p = some s) : s.Separate n := by
  unfold Forest.level? at hs
  split at hs
  · exact Option.some.inj hs ▸ h
  · obtain ⟨c, hc, rfl⟩ := Option.map_eq_some_iff.1 hs
    exact (h.cell? hc).1

end Levels

/-! ## Forests of one shape -/

/-- Two forests with the same cells under the same keys, whose labels are related by `R` cell by cell. -/
def Related (R : α → β → Prop) : Forest α → Forest β → Prop
  | nil, nil => True
  | cons k a s r, cons k' b s' r' => k = k' ∧ R a b ∧ Related R s s' ∧ Related R r r'
  | _, _ => False

section Related

variable {R : α → β → Prop} {F : Forest α} {G : Forest β}

theorem Related.refl {R : α → α → Prop} (hR : ∀ a, R a a) (F : Forest α) : Related R F F := by
  induction F with
  | nil => trivial
  | cons k a s r ihs ihr => exact ⟨rfl, hR a, ihs, ihr⟩

theorem Related.keys (h : Related R F G) : F.heads.map Prod.fst = G.heads.map Prod.fst := by
  induction F generalizing G with
  | nil =>
    cases G with
    | nil => rfl
    | cons => exact h.elim
  | cons k a s r _ ih =>
    cases G with
    | nil => exact h.elim
    | cons k' b s' r' =>
      obtain ⟨rfl, _, _, hr⟩ := h
      simp [ih hr]

theorem Related.separate {n : Nat} (h : Related R F G) (hF : F.Separate n) : G.Separate n := by
  induction F generalizing G with
  | nil =>
    cases G with
    | nil => trivial
    | cons => exact h.elim
  | cons k a s r ihs ihr =>
    cases G with
    | nil => exact h.elim
    | cons k' b s' r' =>
      obtain ⟨rfl, _, hs, hr⟩ := h
      obtain ⟨h1, h2, h3, h4⟩ := hF
      exact ⟨h1, hr.keys ▸ h2, ihs hs h3, ihr hr h4⟩

/-- A path leads to related labels, or nowhere in both. -/
theorem Related.get? (h : Related R F G) (p : List Nat) : Option.Rel R (F.get? p) (G.get? p) := by
  induction F generalizing G p with
  | nil =>
    cases G with
    | nil => simp
    | cons => exact h.elim
  | cons k a s r ihs ihr =>
    cases G with
    | nil => exact h.elim
    | cons k' b s' r' =>
      obtain ⟨rfl, hab, hs, hr⟩ := h
      cases p with
      | nil => simp
      | cons k₁ p =>
        rw [get?_cons, get?_cons]
        split
        · split
          · exact Option.Rel.some hab
          · exact ihs hs p
        · exact ihr hr (k₁ :: p)

/-- What `view` sees of the cells below a path is the same, when related labels look the same. -/
theorem Related.kids {γ : Type*} {view : α → γ} {view' : β → γ} (hview : ∀ a b, R a b → view a = view' b)
    (h : Related R F G) (p : List Nat) :
    (F.kids p).map (List.map (Prod.map id view)) = (G.kids p).map (List.map (Prod.map id view')) := by
  induction F generalizing G p with
  | nil =>
    cases G with
    | nil => cases p <;> rfl
    | cons => exact h.elim
  | cons k a s r ihs ihr =>
    cases G with
    | nil => exact h.elim
    | cons k' b s' r' =>
      obtain ⟨rfl, hab, hs, hr⟩ := h
      cases p with
      | nil =>
        have := ihr hr []
        simp only [kids_empty, Option.map_some, Option.some.injEq] at this
        simp [hview a b hab, this]
      | cons k₁ p =>
        rw [kids_cons, kids_cons]
        split
        · exact ihs hs p
        · exact ihr hr (k₁ :: p)

/-- Rewriting a cell into a related one, above related levels, gives a related forest. -/
theorem Related.update {R : α → α → Prop} (hR : ∀ a, R a a) {F : Forest α} {g : α → Forest α → α × Forest α} {p : List Nat}
    (hg : ∀ a s, F.cell? p = some (a, s) → R a (g a s).1 ∧ Related R s (g a s).2) : Related R F (F.update g p) := by
  induction F generalizing p with
  | nil => trivial
  | cons k a s r ihs ihr =>
    cases p with
    | nil => exact Related.refl hR _
    | cons k' p =>
      simp only [cell?_cons] at hg
      rw [update_cons]
      by_cases hk : k = k'
      · simp only [if_pos hk] at hg ⊢
        by_cases hp : p = []
        · simp only [if_pos hp] at hg ⊢
          exact ⟨rfl, (hg a s rfl).1, (hg a s rfl).2, Related.refl hR r⟩
        · simp only [if_neg hp] at hg ⊢
          exact ⟨rfl, hR a, ihs hg, Related.refl hR r⟩
      · simp only [if_neg hk] at hg ⊢
        exact ⟨rfl, hR a, Related.refl hR s, ihr hg⟩

end Related

end Forest

end CodeFactory
