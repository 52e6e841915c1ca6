import CodeFactory.Lib.SList
import CodeFactory.Soap.Element

/-!
# Lists of structures

`parse_SetParameterValues_packet` and `parse_SetParameterAttributes_packet` build a list in one way: the element that opens a
structure allocates an entry, the elements in it fill the entry, and one of them, the last one the sender is expected to write, also
appends the entry to the list. So an entry comes into the list as often as that element comes. What the two do with an element is
its `Role`; the loop is `parseStructs`.
-/

namespace CodeFactory.Soap

universe u

/-- What the loop does at an element: open a structure, fill the current entry, fill it and append it to the list, copy a text that
is not there, or nothing. -/
inductive Role (ε : Type u) where
  | struct
  | field (f : ε → ε)
  | append (f : ε → ε)
  | noText
  | other

/-- The element opens a structure. -/
def Role.isStruct {ε : Type u} : Role ε → Bool
  | .struct => true
  | _ => false

/-- The heap of the loop: the entries allocated so far, by number, their links, the list, and the current entry. -/
structure Entries (ε : Type u) where
  count : Nat
  entry : Nat → ε
  next : Nat → Option Nat
  list : Option Nat
  cur : Option Nat

variable {ε : Type u}

/-- Before the loop: no entry, an empty list, a null pointer. -/
def Entries.init (zero : ε) : Entries ε := ⟨0, fun _ => zero, fun _ => none, none, none⟩

/-- `PAL_MALLOC` and `memset` of an entry. -/
def Entries.alloc (s : Entries ε) (zero : ε) : Entries ε :=
  { s with
    count := s.count + 1
    entry := Function.update s.entry s.count zero
    next := Function.update s.next s.count none
    cur := some s.count }

/-- Write to a field of an entry. -/
def Entries.fill (s : Entries ε) (p : Nat) (f : ε → ε) : Entries ε :=
  { s with entry := Function.update s.entry p (f (s.entry p)) }

/-- Append an entry: walk to the last one of the list and link it to this one. -/
def Entries.append (s : Entries ε) (fuel : Nat) (p : Nat) : Outcome (Entries ε) :=
  match s.list with
  | none => .done { s with list := some p }
  | some head =>
    match lastFrom s.next fuel head with
    | some last => .done { s with next := Function.update s.next last (some p) }
    | none => .outOfFuel

/-- One round of the loop. -/
def parseStruct (zero : ε) (fuel : Nat) (s : Entries ε) : Role ε → Outcome (Entries ε)
  | .struct => .done (s.alloc zero)
  | .field f => (follow s.cur).bind fun p => .done (s.fill p f)
  | .append f => (follow s.cur).bind fun p => (s.fill p f).append fuel p
  | .noText => .undefined
  | .other => .done s

/-- The loop, with at most `fuel` rounds for each walk to the end of the list. -/
def parseStructs (zero : ε) (fuel : Nat) (roles : List (Role ε)) : Outcome (Entries ε) :=
  Outcome.foldl (parseStruct zero fuel) (.init zero) roles

/-- Every structure is filled, and appended once before the next one opens; nothing is filled before the first opens; and no text
is missing. Here `opened` says that a structure is open, `filled` that it has been appended. -/
def OncePerStruct : (opened filled : Bool) → List (Role ε) → Prop
  | _, filled, [] => filled = true
  | opened, filled, role :: roles =>
    match role with
    | .struct => filled = true ∧ OncePerStruct true false roles
    | .field _ => opened = true ∧ OncePerStruct opened filled roles
    | .append _ => opened = true ∧ filled = false ∧ OncePerStruct opened true roles
    | .noText => False
    | .other => OncePerStruct opened filled roles

/-- The loop ends, and the list it leaves has an end and holds the entry of every structure once, in document order. -/
def ListParsed (zero : ε) (roles : List (Role ε)) : Prop :=
  ∃ fuel s, parseStructs zero fuel roles = .done s ∧ ChainFrom s.next s.list (List.range (roles.countP Role.isStruct))

/-- The entries that are appended, each as often as it is: `n` is the number of structures opened so far. -/
def appended : (n : Nat) → List (Role ε) → List Nat
  | _, [] => []
  | n, .struct :: roles => appended (n + 1) roles
  | n, .append _ :: roles => (n - 1) :: appended n roles
  | n, _ :: roles => appended n roles

/-- No null pointer is followed: nothing is filled before the first structure opens, and no text is missing. -/
def Followed : (n : Nat) → List (Role ε) → Prop
  | _, [] => True
  | n, role :: roles =>
    match role with
    | .struct => Followed (n + 1) roles
    | .field _ | .append _ => 0 < n ∧ Followed n roles
    | .noText => False
    | .other => Followed n roles

namespace Entries

variable {s t : Entries ε} {zero : ε} {role : Role ε} {fuel p : Nat} {as : List Nat}

/-- What appending an entry does: the list begins with it, or the last entry is linked to it. -/
theorem append_eq_done (h : s.append fuel p = .done t) :
    s.list = none ∧ t = { s with list := some p } ∨
      ∃ head last, s.list = some head ∧ lastFrom s.next fuel head = some last ∧
        t = { s with next := Function.update s.next last (some p) } := by
  unfold append at h
  split at h
  · rename_i hlist
    exact Or.inl ⟨hlist, (Outcome.done.inj h).symm⟩
  · rename_i head hlist
    split at h
    · rename_i last hlast
      exact Or.inr ⟨head, last, hlist, hlast, (Outcome.done.inj h).symm⟩
    · cases h

/-- The entries `as` have been appended, in this order: the list is `as`, or it has no end, when the last of them is there twice.
The current entry is the last one allocated. -/
structure Holds (s : Entries ε) (as : List Nat) : Prop where
  cur : s.cur = if 0 < s.count then some (s.count - 1) else none
  below : ∀ x ∈ as, x < s.count
  sorted : as.Pairwise (· ≤ ·)
  once : as.dropLast.Nodup
  chain : as.Nodup → ChainFrom s.next s.list as
  noEnd : ¬as.Nodup → ∀ xs, ¬ChainFrom s.next s.list xs
  free : ∀ i, i ∉ as → s.next i = none
  links : ∀ i, (s.list = some i ∨ ∃ j, s.next j = some i) → i ∈ as

namespace Holds

theorem init : (Entries.init zero).Holds [] where
  cur := rfl
  below := by simp
  sorted := .nil
  once := .nil
  chain := fun _ => rfl
  noEnd := fun h => absurd .nil h
  free := fun _ _ => rfl
  links := by simp [Entries.init]

/-- What there is of a list is what was appended, once each. -/
theorem chain_iff (h : s.Holds as) {xs : List Nat} : ChainFrom s.next s.list xs ↔ as.Nodup ∧ xs = as := by
  constructor
  · intro hxs
    have hn : as.Nodup := by
      by_contra hn
      exact h.noEnd hn xs hxs
    exact ⟨hn, hxs.unique (h.chain hn)⟩
  · rintro ⟨hn, rfl⟩
    exact h.chain hn

/-- Allocating an entry leaves the list. -/
theorem alloc (h : s.Holds as) : (s.alloc zero).Holds as := by
  have hfresh : ∀ i ∈ as, i ≠ s.count := fun i hi => (h.below i hi).ne
  have hnext : ∀ i, (s.alloc zero).next i = s.next i := by
    intro i
    by_cases hi : i = s.count
    · rw [h.free i fun hm => hfresh i hm hi, hi]
      exact Function.update_self ..
    · exact Function.update_of_ne hi ..
  have hnexts : (s.alloc zero).next = s.next := funext hnext
  refine ⟨by simp [Entries.alloc], fun x hx => Nat.lt_succ_of_lt (h.below x hx), h.sorted, h.once, ?_, ?_, ?_, ?_⟩
  · rw [hnexts]
    exact h.chain
  · rw [hnexts]
    exact h.noEnd
  · rw [hnexts]
    exact h.free
  · rw [hnexts]
    exact h.links

theorem fill (h : s.Holds as) (p : Nat) (f : ε → ε) : (s.fill p f).Holds as :=
  ⟨h.cur, h.below, h.sorted, h.once, h.chain, h.noEnd, h.free, h.links⟩

/-- The current entry, if it has been appended, is the last that was. -/
theorem last_of_mem (h : s.Holds as) {ys : List Nat} {y : Nat} (has : as = ys ++ [y]) (hm : s.count - 1 ∈ as) :
    y = s.count - 1 := by
  have hlt := h.below y (by simp [has])
  have hle : s.count - 1 ≤ y := by
    rw [has] at hm
    rcases List.mem_append.1 hm with hm | hm
    · have := h.sorted
      rw [has, List.pairwise_append] at this
      exact this.2.2 _ hm y (by simp)
    · rw [List.mem_singleton.1 hm]
  omega

/-- Appending the current entry: the walk ends only if the list does, and the entry is then behind what was there. -/
theorem append (h : s.Holds as) (hpos : 0 < s.count) (ht : s.append fuel (s.count - 1) = .done t) :
    as.Nodup ∧ t.count = s.count ∧ t.Holds (as ++ [s.count - 1]) := by
  have hn : as.Nodup := by
    by_contra hn
    rcases append_eq_done ht with ⟨hlist, -⟩ | ⟨head, last, hlist, hlast, -⟩
    · exact h.noEnd hn [] hlist
    · obtain ⟨xs, hxs⟩ := chainFrom_of_lastFrom hlast
      exact h.noEnd hn xs (hlist ▸ hxs)
  have hchain := h.chain hn
  have hbelow : ∀ x ∈ as ++ [s.count - 1], x < s.count := by
    intro x hx
    rcases List.mem_append.1 hx with hx | hx
    · exact h.below x hx
    · rw [List.mem_singleton.1 hx]
      omega
  have hsorted : (as ++ [s.count - 1]).Pairwise (· ≤ ·) := by
    refine List.pairwise_append.2 ⟨h.sorted, List.pairwise_singleton .., fun x hx y hy => ?_⟩
    have := h.below x hx
    rw [List.mem_singleton.1 hy]
    omega
  have honce : (as ++ [s.count - 1]).dropLast.Nodup := by rwa [List.dropLast_concat]
  rcases append_eq_done ht with ⟨hlist, rfl⟩ | ⟨head, last, hlist, hlast, rfl⟩
  · obtain rfl : as = [] := (hlist ▸ hchain).eq_nil_of_none
    refine ⟨hn, rfl, h.cur, hbelow, hsorted, honce, fun _ => ⟨rfl, ?_⟩, fun hno => absurd (List.nodup_singleton _) hno,
      fun i _ => h.free i (by simp), fun i hi => ?_⟩
    · exact h.free _ (by simp)
    · rcases hi with hi | ⟨j, hj⟩
      · rw [← Option.some.inj hi]
        simp
      · exact absurd (h.links i (Or.inr ⟨j, hj⟩)) (by simp)
  · obtain ⟨ys, y, rfl⟩ : ∃ ys y, as = ys ++ [y] := by
      rcases List.eq_nil_or_concat as with rfl | ⟨ys, y, rfl⟩
      · exact absurd (hlist.symm.trans hchain) nofun
      · exact ⟨ys, y, by simp⟩
    obtain rfl : last = y := (hlist ▸ hchain).eq_of_lastFrom hlast
    refine ⟨hn, rfl, h.cur, hbelow, hsorted, honce, fun hno => ?_, fun hno xs hxs => ?_, fun i hi => ?_, fun i hi => ?_⟩
    · have hfresh : s.count - 1 ∉ ys ++ [last] := fun hm => (List.nodup_append.1 hno).2.2 _ hm _ (by simp) rfl
      exact hchain.snoc hn hfresh (h.free _ hfresh)
    · -- the entry was there already: it was the last one, and is now linked to itself
      have hmem : s.count - 1 ∈ ys ++ [last] := by
        by_contra hm
        exact hno (List.nodup_append.2 ⟨hn, List.nodup_singleton _, fun a ha b hb e =>
          hm ((e.trans (List.mem_singleton.1 hb)) ▸ ha)⟩)
      have hlast := h.last_of_mem rfl hmem
      have hxs : ChainFrom (Function.update s.next last (some (s.count - 1))) s.list xs := hxs
      refine hxs.not_of_loop (hchain.mem_of_update ?_ hxs) (by rw [Function.update_self, hlast])
      exact fun hm => (List.nodup_append.1 hn).2.2 _ hm _ (by simp) rfl
    · rw [List.mem_append, not_or] at hi
      have hne : i ≠ last := fun e => hi.1 (by simp [e])
      exact (Function.update_of_ne hne ..).trans (h.free i hi.1)
    · rcases hi with hi | ⟨j, hj⟩
      · exact List.mem_append_left _ (h.links i (Or.inl hi))
      · simp only [Function.update_apply] at hj
        split at hj
        · rw [← Option.some.inj hj]
          simp
        · exact List.mem_append_left _ (h.links i (Or.inr ⟨j, hj⟩))

/-- The walk to the end of a list ends. -/
theorem append_done (h : s.Holds as) (hn : as.Nodup) (hfuel : as.length ≤ fuel) (p : Nat) : ∃ t, s.append fuel p = .done t := by
  have hchain := h.chain hn
  unfold Entries.append
  rcases List.eq_nil_or_concat as with rfl | ⟨ys, y, rfl⟩
  · have hlist : s.list = none := hchain
    simp [hlist]
  · rw [List.concat_eq_append] at hchain hfuel
    cases hlist : s.list with
    | none => exact absurd (hlist ▸ hchain).eq_nil_of_none (by simp)
    | some head =>
      have hlast : lastFrom s.next fuel head = some y := by
        refine (hlist ▸ hchain).lastFrom_eq ?_
        rw [List.length_append, List.length_singleton] at hfuel
        omega
      simp [hlast]

end Holds

end Entries

/-! ## The loop -/

section Loop

variable {s t : Entries ε} {zero : ε} {fuel : Nat} {as : List Nat} {roles : List (Role ε)}

/-- The loop, where it ends, has followed no null pointer and appended no entry behind one that was there twice. -/
theorem Entries.Holds.run (h : s.Holds as) (hr : Outcome.foldl (parseStruct zero fuel) s roles = .done t) :
    Followed s.count roles ∧ t.Holds (as ++ appended s.count roles) := by
  induction roles generalizing s as with
  | nil =>
    obtain rfl := Outcome.done.inj hr
    exact ⟨trivial, by simpa [appended] using h⟩
  | cons role roles ih =>
    obtain ⟨u, hu, hrun⟩ := Outcome.bind_eq_done.1 hr
    cases role with
    | struct =>
      obtain rfl := Outcome.done.inj hu
      exact ih h.alloc hrun
    | field f =>
      obtain ⟨p, hp, hu⟩ := Outcome.bind_eq_done.1 hu
      obtain rfl := Outcome.done.inj hu
      have hpos : 0 < s.count := by
        by_contra h0
        rw [follow_eq_done, h.cur, if_neg h0] at hp
        cases hp
      obtain ⟨hf, ht⟩ := ih (h.fill p f) hrun
      exact ⟨⟨hpos, hf⟩, ht⟩
    | append f =>
      obtain ⟨p, hp, hu⟩ := Outcome.bind_eq_done.1 hu
      rw [follow_eq_done, h.cur] at hp
      have hpos : 0 < s.count := by
        by_contra h0
        rw [if_neg h0] at hp
        cases hp
      rw [if_pos hpos] at hp
      obtain rfl := Option.some.inj hp
      obtain ⟨-, hcount, hu⟩ := (h.fill (s.count - 1) f).append hpos hu
      have hcount : u.count = s.count := hcount
      obtain ⟨hf, ht⟩ := ih hu hrun
      rw [hcount] at hf ht
      refine ⟨⟨hpos, hf⟩, ?_⟩
      rw [List.append_assoc] at ht
      exact ht
    | noText => cases hu
    | other =>
      obtain rfl := Outcome.done.inj hu
      exact ih h hrun

/-- The loop ends if no null pointer is followed and no entry is appended behind one that is there twice. -/
theorem Entries.Holds.run_done (h : s.Holds as) (hf : Followed s.count roles) (ho : (as ++ appended s.count roles).dropLast.Nodup)
    (hfuel : as.length + roles.length ≤ fuel) : ∃ t, Outcome.foldl (parseStruct zero fuel) s roles = .done t := by
  induction roles generalizing s as with
  | nil => exact ⟨s, rfl⟩
  | cons role roles ih =>
    rw [List.length_cons] at hfuel
    cases role with
    | struct => exact ih h.alloc hf ho (by omega)
    | field f =>
      obtain ⟨hpos, hf⟩ := hf
      obtain ⟨t, ht⟩ := ih (h.fill (s.count - 1) f) hf ho (by omega)
      refine ⟨t, ?_⟩
      rw [Outcome.foldl, parseStruct, h.cur, if_pos hpos]
      exact ht
    | append f =>
      obtain ⟨hpos, hf⟩ := hf
      have hn : as.Nodup := by
        have hprefix : as <+: (as ++ appended s.count (Role.append f :: roles)).dropLast := by
          rw [appended, List.dropLast_append_cons]
          exact List.prefix_append ..
        exact hprefix.sublist.nodup ho
      have hlen : as.length ≤ fuel := by omega
      obtain ⟨u, hu⟩ := (h.fill (s.count - 1) f).append_done hn hlen (s.count - 1)
      obtain ⟨-, hcount, hholds⟩ := (h.fill (s.count - 1) f).append hpos hu
      have hcount : u.count = s.count := hcount
      have hlist : as ++ appended s.count (Role.append f :: roles) = as ++ [s.count - 1] ++ appended s.count roles := by
        simp [appended]
      obtain ⟨t, ht⟩ := ih hholds (hcount ▸ hf) (by rw [hcount]; exact hlist ▸ ho) (by simp; omega)
      refine ⟨t, ?_⟩
      rw [Outcome.foldl, parseStruct, h.cur, if_pos hpos, follow, Outcome.bind_done]
      have hu : (s.fill (s.count - 1) f).append fuel (s.count - 1) = .done u := hu
      rw [hu]
      exact ht
    | noText => exact hf.elim
    | other => exact ih h hf ho (by omega)

end Loop

/-- **When the loop ends**: if no null pointer is followed, and no entry but the last that is appended is appended again. -/
theorem parseStructs_ends_iff (zero : ε) (roles : List (Role ε)) :
    (∃ fuel s, parseStructs zero fuel roles = .done s) ↔ Followed 0 roles ∧ (appended 0 roles).dropLast.Nodup := by
  constructor
  · rintro ⟨fuel, s, hs⟩
    obtain ⟨hf, hs⟩ := Entries.Holds.init.run hs
    exact ⟨hf, hs.once⟩
  · rintro ⟨hf, ho⟩
    exact ⟨roles.length, Entries.Holds.init.run_done hf ho (by simp)⟩

/-- The list is right when every entry is appended once, in document order. -/
theorem listParsed_iff_appended (zero : ε) (roles : List (Role ε)) :
    ListParsed zero roles ↔ Followed 0 roles ∧ appended 0 roles = List.range (roles.countP Role.isStruct) := by
  constructor
  · rintro ⟨fuel, s, hs, hc⟩
    obtain ⟨hf, hs⟩ := Entries.Holds.init.run hs
    exact ⟨hf, (hs.chain_iff.1 hc).2.symm⟩
  · rintro ⟨hf, ha⟩
    have hn : (appended 0 roles).Nodup := ha ▸ List.nodup_range
    obtain ⟨s, hs⟩ : ∃ s, parseStructs zero roles.length roles = .done s :=
      Entries.Holds.init.run_done hf ((List.dropLast_sublist _).nodup hn) (by simp)
    obtain ⟨-, hholds⟩ := Entries.Holds.init.run hs
    exact ⟨roles.length, s, hs, hholds.chain_iff.2 ⟨hn, ha.symm⟩⟩

/-- Only the current entry and later ones are appended. -/
theorem le_of_mem_appended {n x : Nat} {roles : List (Role ε)} (hx : x ∈ appended n roles) : n - 1 ≤ x := by
  induction roles generalizing n with
  | nil => cases hx
  | cons role roles ih =>
    cases role with
    | struct =>
      have := ih hx
      omega
    | append f =>
      rcases List.mem_cons.1 hx with rfl | hx
      · exact le_rfl
      · exact ih hx
    | field f | noText | other => exact ih hx

/-- What `OncePerStruct` says of the entries that are appended: all of them, from the current one on if it is still to be. -/
theorem oncePerStruct_iff (n : Nat) (filled : Bool) (roles : List (Role ε)) (hn : filled = false → 0 < n) :
    OncePerStruct (decide (0 < n)) filled roles ↔
      Followed n roles ∧ appended n roles =
        List.range' (if filled then n else n - 1) (roles.countP Role.isStruct + if filled then 0 else 1) := by
  induction roles generalizing n filled with
  | nil => cases filled <;> simp [OncePerStruct, Followed, appended]
  | cons role roles ih =>
    cases role with
    | struct =>
      have hstep := ih (n + 1) false fun _ => Nat.succ_pos n
      have hcount : (Role.struct :: roles).countP Role.isStruct = roles.countP Role.isStruct + 1 :=
        List.countP_cons_of_pos rfl
      rw [decide_eq_true n.succ_pos, if_neg nofun, if_neg nofun, Nat.add_sub_cancel] at hstep
      rw [hcount]
      simp only [OncePerStruct, Followed, appended, hstep]
      cases filled with
      | true => simp
      | false =>
        have hpos := hn rfl
        refine ⟨fun h => absurd h.1 nofun, fun ⟨_, ha⟩ => ?_⟩
        -- the entry before is not among those that are still to be appended
        have hmem : n - 1 ∈ appended (n + 1) roles := by
          rw [ha]
          simp [List.mem_range']
        have := le_of_mem_appended hmem
        omega
    | field f =>
      have hcount : (Role.field f :: roles).countP Role.isStruct = roles.countP Role.isStruct := by simp [Role.isStruct]
      rw [hcount]
      simp only [OncePerStruct, Followed, appended, ih n filled hn, decide_eq_true_eq, and_assoc]
    | append f =>
      have hcount : (Role.append f :: roles).countP Role.isStruct = roles.countP Role.isStruct := by simp [Role.isStruct]
      have hstep := ih n true nofun
      rw [if_pos rfl, if_pos rfl, Nat.add_zero] at hstep
      rw [hcount]
      simp only [OncePerStruct, Followed, appended, hstep, decide_eq_true_eq, and_assoc]
      refine and_congr_right fun hpos => ?_
      cases filled with
      | true =>
        refine ⟨fun h => absurd h.1 nofun, fun ⟨_, ha⟩ => ?_⟩
        have hmem : n - 1 ∈ List.range' (if true then n else n - 1) (roles.countP Role.isStruct + if true then 0 else 1) := by
          rw [← ha]
          exact List.mem_cons_self
        simp only [if_true, List.mem_range'_1] at hmem
        omega
      | false =>
        have hrange : List.range' (n - 1) (roles.countP Role.isStruct + 1) =
            (n - 1) :: List.range' n (roles.countP Role.isStruct) := by
          rw [List.range'_succ, Nat.sub_add_cancel hpos]
        rw [if_neg nofun, if_neg nofun, hrange, List.cons.injEq]
        simp
    | noText => simp [OncePerStruct, Followed]
    | other =>
      have hcount : (Role.other :: roles).countP Role.isStruct = roles.countP Role.isStruct := by simp [Role.isStruct]
      rw [hcount]
      simp only [OncePerStruct, Followed, appended, ih n filled hn]

/-- **The list is right exactly in the right order.** The loop ends with a list that has an end and holds the entry of every
structure once, in document order, exactly if every structure is appended once before the next one opens, nothing is filled
before the first one opens, and no text is missing. -/
theorem listParsed_iff (zero : ε) (roles : List (Role ε)) : ListParsed zero roles ↔ OncePerStruct false true roles := by
  have h := oncePerStruct_iff 0 true roles nofun
  rw [decide_eq_false (Nat.lt_irrefl 0), if_pos rfl, if_pos rfl, Nat.add_zero, ← List.range_eq_range'] at h
  rw [listParsed_iff_appended, h]

end CodeFactory.Soap
