import CodeFactory.Lib.Outcome
import Mathlib.Data.List.Basic

/-!
# Writing to a buffer

A buffer is the list of what is in it. What is written to an offset is written over as much as it is long, and what does not fit in the
buffer cannot be written.
-/

namespace CodeFactory

universe u

variable {α : Type u}

/-- The buffer with `bs` written over what is at an offset. -/
def overwrite (buf : List α) (off : Nat) (bs : List α) : List α := buf.take off ++ bs ++ buf.drop (off + bs.length)

/-- `memcpy` to an offset of a buffer. -/
def writeAt (buf : List α) (off : Nat) (bs : List α) : Outcome (List α) :=
  if off + bs.length ≤ buf.length then .done (overwrite buf off bs) else .undefined

variable {buf a b bs cs : List α} {off : Nat}

theorem writeAt_of_le (h : off + bs.length ≤ buf.length) : writeAt buf off bs = .done (overwrite buf off bs) := if_pos h

/-- A write keeps the size of the buffer. -/
@[simp] theorem length_overwrite (h : off + bs.length ≤ buf.length) : (overwrite buf off bs).length = buf.length := by
  simp [overwrite]
  omega

@[simp] theorem overwrite_nil (buf : List α) (off : Nat) : overwrite buf off [] = buf := by
  simp [overwrite]

theorem overwrite_all (h : bs.length = buf.length) : overwrite buf 0 bs = bs := by
  rw [overwrite, List.take_zero, List.nil_append, Nat.zero_add, List.drop_of_length_le (Nat.le_of_eq h.symm), List.append_nil]

/-- A write of what is there already. -/
theorem overwrite_replicate (x : α) {m n : Nat} (h : off + n ≤ m) :
    overwrite (List.replicate m x) off (List.replicate n x) = List.replicate m x := by
  rw [overwrite, List.take_replicate, List.drop_replicate, List.length_replicate, List.replicate_append_replicate,
    List.replicate_append_replicate]
  congr 1
  omega

/-- A write behind the first part of a buffer is a write to the rest. -/
theorem overwrite_append_right (h : a.length ≤ off) : overwrite (a ++ b) off bs = a ++ overwrite b (off - a.length) bs := by
  rw [overwrite, overwrite, List.take_append, List.drop_append, List.take_of_length_le h, List.drop_of_length_le (by omega),
    List.nil_append, Nat.sub_add_comm h, List.append_assoc, List.append_assoc, List.append_assoc]

/-- A write to the first part of a buffer. -/
theorem overwrite_append_left (h : off + bs.length ≤ a.length) : overwrite (a ++ b) off bs = overwrite a off bs ++ b := by
  rw [overwrite, overwrite, List.take_append_of_le_length (by omega), List.drop_append_of_le_length h, List.append_assoc,
    List.append_assoc, List.append_assoc]

/-- The first part of a buffer after a write is that of this part after the write. -/
theorem take_overwrite_append (a b : List α) (off : Nat) (bs : List α) :
    (overwrite (a ++ b) off bs).take a.length = (overwrite a off bs).take a.length := by
  by_cases hoff : a.length ≤ off
  · rw [overwrite_append_right hoff, List.take_left, overwrite, List.take_of_length_le hoff, List.append_assoc, List.take_left]
  have h : off ≤ a.length := by omega
  rw [overwrite, overwrite, List.take_append_of_le_length h, List.drop_append, ← List.append_assoc]
  by_cases hlen : off + bs.length ≤ a.length
  · rw [List.take_append_of_le_length]
    simp
    omega
  · have hdrop : a.drop (off + bs.length) = [] := List.drop_of_length_le (by omega)
    rw [hdrop, List.append_nil, List.take_append_of_le_length]
    simp
    omega

theorem overwrite_length : overwrite (a ++ b) a.length bs = a ++ (bs ++ b.drop bs.length) := by
  rw [overwrite_append_right (Nat.le_refl _), Nat.sub_self, overwrite, List.take_zero, List.nil_append, Nat.zero_add]

/-! ## Parts of a buffer -/

/-- The part of a buffer of `n` elements from an offset on. -/
def slice (buf : List α) (off n : Nat) : List α := (buf.drop off).take n

variable {n i : Nat} {x : α}

theorem getD_slice (h : i < n) (buf : List α) (off : Nat) (x : α) : (slice buf off n).getD i x = buf.getD (off + i) x := by
  simp only [slice, List.getD_eq_getElem?_getD, List.getElem?_take_of_lt h, List.getElem?_drop]

theorem slice_replicate (h : off + n ≤ i) (x : α) : slice (List.replicate i x) off n = List.replicate n x := by
  rw [slice, List.drop_replicate, List.take_replicate, Nat.min_eq_left (by omega)]

/-- From inside of what has been written on, there is the rest of that, and then what was there before. -/
theorem slice_overwrite {off' : Nat} (hfits : off' + bs.length ≤ buf.length) (h : off' ≤ off) (h' : off ≤ off' + bs.length) :
    slice (overwrite buf off' bs) off n =
      (bs.drop (off - off')).take n ++ slice buf (off' + bs.length) (n - (off' + bs.length - off)) := by
  have hleft : (buf.take off').length = off' := by
    rw [List.length_take]
    omega
  have hsub : (bs.drop (off - off')).length = off' + bs.length - off := by
    rw [List.length_drop]
    omega
  have hfirst : (buf.take off').drop off = [] := List.drop_of_length_le (by rwa [hleft])
  have hsecond : (bs ++ buf.drop (off' + bs.length)).drop (off - off') = bs.drop (off - off') ++ buf.drop (off' + bs.length) :=
    List.drop_append_of_le_length (by omega)
  rw [slice, overwrite, List.append_assoc, List.drop_append, hfirst, List.nil_append, hleft, hsecond, List.take_append, hsub, slice]

/-- What has been written is there. -/
theorem slice_overwrite_self (hfits : off + bs.length ≤ buf.length) (h : bs.length = n) : slice (overwrite buf off bs) off n = bs := by
  rw [slice_overwrite hfits (Nat.le_refl _) (Nat.le_add_right ..), Nat.sub_self, List.drop_zero, ← h, List.take_length, Nat.add_sub_cancel_left,
    Nat.sub_self, slice, List.take_zero, List.append_nil]

/-- A part that a write does not touch is as before. -/
theorem slice_overwrite_of_disjoint {off' : Nat} (hfits : off' + bs.length ≤ buf.length) (h : off + n ≤ off' ∨ off' + bs.length ≤ off) :
    slice (overwrite buf off' bs) off n = slice buf off n := by
  have hleft : (buf.take off').length = off' := by
    rw [List.length_take]
    omega
  obtain h | h := h
  · rw [slice, overwrite, List.append_assoc, List.drop_append_of_le_length (by omega), List.take_append_of_le_length, List.drop_take,
      List.take_take, Nat.min_eq_left (by omega), slice]
    rw [List.length_drop]
    omega
  · have hboth : (buf.take off' ++ bs).length = off' + bs.length := by rw [List.length_append, hleft]
    have hsum : off' + bs.length + (off - (off' + bs.length)) = off := by omega
    rw [slice, overwrite, List.drop_append, List.drop_of_length_le (by omega), List.nil_append, hboth, List.drop_drop, hsum, slice]

/-- Several writes, the first one first. -/
def writes (buf : List α) (ws : List (Nat × List α)) : List α := ws.foldl (fun buf w => overwrite buf w.1 w.2) buf

/-- All writes fit in a buffer of `n` elements. -/
def AllFit (n : Nat) (ws : List (Nat × List α)) : Prop := ∀ w ∈ ws, w.1 + w.2.length ≤ n

/-- No write touches this part. -/
def Untouched (off n : Nat) (ws : List (Nat × List α)) : Prop := ∀ w ∈ ws, off + n ≤ w.1 ∨ w.1 + w.2.length ≤ off

theorem length_writes {ws : List (Nat × List α)} (h : AllFit buf.length ws) : (writes buf ws).length = buf.length := by
  induction ws generalizing buf with
  | nil => rfl
  | cons w ws ih =>
    obtain ⟨hw, hws⟩ := List.forall_mem_cons.1 h
    have hlength := length_overwrite hw
    rw [writes, List.foldl_cons, ← writes, ih (by rwa [AllFit, hlength]), hlength]

theorem slice_writes {ws : List (Nat × List α)} (hfits : AllFit buf.length ws) (h : Untouched off n ws) :
    slice (writes buf ws) off n = slice buf off n := by
  induction ws generalizing buf with
  | nil => rfl
  | cons w ws ih =>
    obtain ⟨hw, hws⟩ := List.forall_mem_cons.1 hfits
    obtain ⟨hout, hrest⟩ := List.forall_mem_cons.1 h
    have hlength := length_overwrite hw
    rw [writes, List.foldl_cons, ← writes, ih (by rwa [AllFit, hlength]) hrest, slice_overwrite_of_disjoint hw hout]

theorem writes_append (buf : List α) (ws vs : List (Nat × List α)) : writes buf (ws ++ vs) = writes (writes buf ws) vs :=
  List.foldl_append ..

theorem slice_writes_last {ws vs : List (Nat × List α)} {w : Nat × List α} (hfits : AllFit buf.length (ws ++ w :: vs))
    (h : Untouched off n vs) : slice (writes buf (ws ++ w :: vs)) off n = slice (overwrite (writes buf ws) w.1 w.2) off n := by
  obtain ⟨hws, hw, hvs⟩ : AllFit buf.length ws ∧ w.1 + w.2.length ≤ buf.length ∧ AllFit buf.length vs := by
    simpa [AllFit, or_imp, forall_and] using hfits
  have hlength := length_writes hws
  have hlength' : (overwrite (writes buf ws) w.1 w.2).length = buf.length := by
    rw [length_overwrite (by omega), hlength]
  rw [writes_append, writes, List.foldl_cons, ← writes, slice_writes (by rwa [hlength']) h]

end CodeFactory
