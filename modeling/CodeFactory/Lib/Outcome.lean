/-!
# What running a piece of C gives

A result, undefined behaviour (a null pointer that is followed), or none within the bound on the rounds of a loop.
-/

namespace CodeFactory

universe u v

/-- The outcome of running a piece of C. -/
inductive Outcome (α : Type u) where
  | done (a : α)
  | undefined
  | outOfFuel
  deriving DecidableEq, Repr

namespace Outcome

variable {α : Type u} {β : Type v}

/-- Run on with the result, if there is one. -/
def bind (x : Outcome α) (f : α → Outcome β) : Outcome β :=
  match x with
  | done a => f a
  | undefined => undefined
  | outOfFuel => outOfFuel

/-- Change the result, if there is one. -/
def map (f : α → β) (x : Outcome α) : Outcome β := x.bind fun a => done (f a)

@[simp] theorem bind_done (a : α) (f : α → Outcome β) : (done a).bind f = f a := rfl

@[simp] theorem bind_undefined (f : α → Outcome β) : undefined.bind f = undefined := rfl

@[simp] theorem bind_outOfFuel (f : α → Outcome β) : outOfFuel.bind f = outOfFuel := rfl

theorem bind_eq_done {x : Outcome α} {f : α → Outcome β} {b : β} : x.bind f = done b ↔ ∃ a, x = done a ∧ f a = done b := by
  cases x <;> simp

theorem map_eq_done {x : Outcome α} {f : α → β} {b : β} : x.map f = done b ↔ ∃ a, x = done a ∧ f a = b := by
  cases x <;> simp [map]

@[simp] theorem map_eq_undefined_iff {x : Outcome α} {f : α → β} : x.map f = undefined ↔ x = undefined := by
  cases x <;> simp [map]

/-- Run from the left to the right through a list. -/
def foldl (f : β → α → Outcome β) : β → List α → Outcome β
  | b, [] => done b
  | b, a :: as => (f b a).bind fun b => foldl f b as

/-- What every round keeps, of the value and of what is left of the list, holds at the end. -/
theorem foldl_invariant {f : β → α → Outcome β} {I : β → List α → Prop}
    (hstep : ∀ b a as b', I b (a :: as) → f b a = done b' → I b' as) {as : List α} {b c : β} (h : I b as)
    (hr : foldl f b as = done c) : I c [] := by
  induction as generalizing b with
  | nil =>
    cases hr
    exact h
  | cons a as ih =>
    obtain ⟨b', hb', hr⟩ := bind_eq_done.1 hr
    exact ih (hstep b a as b' h hb') hr

/-- The results of a loop over a list, when all are defined. -/
def mapList (f : α → Outcome β) : List α → Outcome (List β)
  | [] => done []
  | a :: as => (f a).bind fun b => (mapList f as).map fun bs => b :: bs

/-- When every round has a result, so has the loop. -/
theorem mapList_eq_done {f : α → Outcome β} {g : α → β} {as : List α} (h : ∀ a ∈ as, f a = done (g a)) :
    mapList f as = done (as.map g) := by
  induction as with
  | nil => rfl
  | cons a as ih =>
    rw [mapList, h a List.mem_cons_self, bind_done, ih fun a ha => h a (List.mem_cons_of_mem _ ha)]
    rfl

/-! ### Loops that a round can leave with a result -/

section Loops

variable {ι κ : Type u} {ε σ : Type v}

/-- Go on with the state, unless the function has returned. -/
def andThen (x : Outcome (Except ε σ)) (f : σ → Outcome (Except ε σ)) : Outcome (Except ε σ) :=
  x.bind fun
    | .ok s => f s
    | .error e => done (.error e)

@[simp] theorem andThen_ok (s : σ) (f : σ → Outcome (Except ε σ)) : (done (.ok s)).andThen f = f s := rfl

/-- A loop over a list that a round can leave with a result. -/
def forEach (f : ι → σ → Outcome (Except ε σ)) : List ι → σ → Outcome (Except ε σ)
  | [], s => done (.ok s)
  | a :: as, s => (f a s).andThen (forEach f as)

theorem andThen_done (x : Outcome (Except ε σ)) : x.andThen (fun s => done (.ok s)) = x := by
  cases x with
  | done r => cases r <;> rfl
  | undefined => rfl
  | outOfFuel => rfl

theorem andThen_assoc (x : Outcome (Except ε σ)) (f g : σ → Outcome (Except ε σ)) :
    (x.andThen f).andThen g = x.andThen fun s => (f s).andThen g := by
  cases x with
  | done r => cases r <;> rfl
  | undefined => rfl
  | outOfFuel => rfl

theorem forEach_append (f : ι → σ → Outcome (Except ε σ)) (as bs : List ι) (s : σ) :
    forEach f (as ++ bs) s = (forEach f as s).andThen (forEach f bs) := by
  induction as generalizing s with
  | nil => rfl
  | cons a as ih =>
    rw [List.cons_append, forEach, forEach, andThen_assoc]
    exact congrArg (andThen (f a s)) (funext ih)

/-- Loops with the same rounds are the same. -/
theorem forEach_congr {f g : ι → σ → Outcome (Except ε σ)} {as : List ι} (h : ∀ a ∈ as, ∀ s, f a s = g a s) (s : σ) :
    forEach f as s = forEach g as s := by
  induction as generalizing s with
  | nil => rfl
  | cons a as ih =>
    rw [forEach, forEach, h a List.mem_cons_self]
    exact congrArg (andThen (g a s)) (funext (ih fun b hb => h b (List.mem_cons_of_mem _ hb)))

/-- What loops on for all rounds of a loop, loops on for the loop. -/
theorem forEach_ok_of {f g : ι → σ → Outcome (Except ε σ)} {as : List ι}
    (h : ∀ a ∈ as, ∀ s t, f a s = done (.ok t) → g a s = done (.ok t)) {s t : σ} (hf : forEach f as s = done (.ok t)) :
    forEach g as s = done (.ok t) := by
  induction as generalizing s with
  | nil => exact hf
  | cons a as ih =>
    rw [forEach, andThen, bind_eq_done] at hf
    obtain ⟨x, hx, hf⟩ := hf
    cases x with
    | error e => cases hf
    | ok s' =>
      rw [forEach, h a List.mem_cons_self s s' hx]
      exact ih (fun b hb => h b (List.mem_cons_of_mem _ hb)) hf

/-- A loop whose rounds only append. -/
theorem forEach_flatMap {κ : Type v} {f : ι → List κ → Outcome (Except ε (List κ))} {g : ι → List κ} {as : List ι}
    (h : ∀ a ∈ as, ∀ ks, f a ks = done (.ok (ks ++ g a))) (ks : List κ) :
    forEach f as ks = done (.ok (ks ++ as.flatMap g)) := by
  induction as generalizing ks with
  | nil => rw [forEach, List.flatMap_nil, List.append_nil]
  | cons a as ih =>
    rw [forEach, h a List.mem_cons_self, andThen_ok, ih (fun b hb => h b (List.mem_cons_of_mem _ hb)), List.flatMap_cons,
      List.append_assoc]

/-- A loop in a loop is a loop. -/
theorem forEach_forEach (f : κ → σ → Outcome (Except ε σ)) (g : ι → List κ) (as : List ι) (s : σ) :
    forEach (fun a => forEach f (g a)) as s = forEach f (as.flatMap g) s := by
  induction as generalizing s with
  | nil => rfl
  | cons a as ih =>
    rw [forEach, List.flatMap_cons, forEach_append]
    exact congrArg (andThen (forEach f (g a) s)) (funext ih)

/-- Where no round returns, the loop does not. -/
theorem forEach_ne_error {f : ι → σ → Outcome (Except ε σ)} {as : List ι} (hgoes : ∀ a ∈ as, ∀ s e, f a s ≠ done (.error e))
    (s : σ) (e : ε) : forEach f as s ≠ done (.error e) := by
  induction as generalizing s with
  | nil => exact fun h => nomatch h
  | cons a as ih =>
    intro h
    rw [forEach, andThen, bind_eq_done] at h
    obtain ⟨x, hx, h⟩ := h
    cases x with
    | ok s' => exact ih (fun b hb => hgoes b (List.mem_cons_of_mem _ hb)) s' h
    | error e' => exact hgoes a List.mem_cons_self s e' hx

/-- Where no round returns, every round of a loop that is done is done. -/
theorem exists_done_of_forEach {f : ι → σ → Outcome (Except ε σ)} {as : List ι} (hgoes : ∀ a ∈ as, ∀ s e, f a s ≠ done (.error e))
    {s : σ} {r : Except ε σ} (h : forEach f as s = done r) {a : ι} (ha : a ∈ as) : ∃ s r, f a s = done r := by
  induction as generalizing s with
  | nil => cases ha
  | cons b as ih =>
    rw [forEach, andThen, bind_eq_done] at h
    obtain ⟨x, hx, h⟩ := h
    rcases List.mem_cons.1 ha with rfl | ha
    · exact ⟨s, x, hx⟩
    · cases x with
      | ok s' => exact ih (fun c hc => hgoes c (List.mem_cons_of_mem _ hc)) h ha
      | error e => exact absurd hx (hgoes b List.mem_cons_self s e)

end Loops

end Outcome

/-- What a C pointer points to; following the null pointer is undefined. -/
def follow {α : Type u} : Option α → Outcome α
  | some a => .done a
  | none => .undefined

theorem follow_eq_done {α : Type u} {p : Option α} {a : α} : follow p = .done a ↔ p = some a := by
  cases p <;> simp [follow]

end CodeFactory
