import CodeFactory.Tr69.WalkLookup

/-!
# Trees that are searched alike

Attributes and values play no part in the search: in two trees of the same cells, found by the same labels and of the same types,
every lookup does the same.
-/

namespace CodeFactory.Tr69

namespace Tr069Tree

/-- The cells of the two trees are in the same places, are found by the same labels and have the same types. -/
structure SameSearch (t t' : Tr069Tree) : Prop where
  rootNode : t'.rootNode = t.rootNode
  labels : ∀ p, t'.labels p = t.labels p
  type : ∀ p, (t'.nodes.get? p).map Cell.type = (t.nodes.get? p).map Cell.type

namespace SameSearch

variable {t t' t'' : Tr069Tree}

theorem refl (t : Tr069Tree) : t.SameSearch t := ⟨rfl, fun _ => rfl, fun _ => rfl⟩

theorem trans (h : t.SameSearch t') (h' : t'.SameSearch t'') : t.SameSearch t'' where
  rootNode := h'.rootNode.trans h.rootNode
  labels := by
    intro p
    rw [h'.labels, h.labels]
  type := by
    intro p
    rw [h'.type, h.type]

/-- Related cells, in the same places, make trees that are searched alike. -/
theorem of_related {R : Cell → Cell → Prop} (hR : ∀ a b, R a b → a.label = b.label ∧ a.type = b.type)
    (hroot : t'.rootNode = t.rootNode) (h : t.nodes.forest.Related R t'.nodes.forest) : t.SameSearch t' where
  rootNode := hroot
  labels := by
    intro p
    exact (h.kids (fun a b hab => (hR a b hab).1) p).symm
  type := by
    intro p
    have hrel := h.get? p
    unfold Memory.get?
    cases ha : t.nodes.forest.get? p with
    | none =>
      rw [ha] at hrel
      cases hb : t'.nodes.forest.get? p with
      | none => rfl
      | some b =>
        rw [hb] at hrel
        cases hrel
    | some a =>
      rw [ha] at hrel
      cases hb : t'.nodes.forest.get? p with
      | none =>
        rw [hb] at hrel
        cases hrel
      | some b =>
        rw [hb] at hrel
        cases hrel with
        | some hab => simp [(hR a b hab).2]

theorem rootNext (h : t.SameSearch t') : t'.rootNext = t.rootNext := by
  rw [Tr069Tree.rootNext, h.rootNode, Tr069Tree.rootNext]

theorem arrive (h : t.SameSearch t') (next : Next) (p : Pos) : t'.arrive next p = t.arrive next p := by
  have htype := h.type p
  unfold Tr069Tree.arrive
  cases hc : t.nodes.get? p with
  | none =>
    rw [hc] at htype
    rw [Option.map_eq_none_iff.1 htype]
  | some cell =>
    rw [hc] at htype
    obtain ⟨cell', hc', hcell⟩ := Option.map_eq_some_iff.1 htype
    rw [hc']
    simp only [deref, bind, Except.bind, hcell]

theorem step (h : t.SameSearch t') (d : Tr069NodeEntry × Next) (name : Text) : t'.step d name = t.step d name := by
  unfold Tr069Tree.step
  simp only [h.labels, h.arrive]

theorem search (h : t.SameSearch t') (s : Search) (ps : List Text) : t'.search s ps = t.search s ps := by
  induction ps generalizing s with
  | nil => rfl
  | cons p ps ih =>
    unfold Tr069Tree.search
    simp only [h.step, ih]

theorem cacheNext (h : t.SameSearch t') (cache : Tr069NodeEntry) : t'.cacheNext cache = t.cacheNext cache := by
  have hbelow : ∀ p, (deref (t'.nodes.get? p) >>= fun cell : Cell =>
      if cell.type = cache.type then pure ((⟨.unknown, none⟩ : Next).goBelow cache.type p) else .error .undefined) =
      (deref (t.nodes.get? p) >>= fun cell : Cell =>
        if cell.type = cache.type then pure ((⟨.unknown, none⟩ : Next).goBelow cache.type p) else .error .undefined) := by
    intro p
    have htype := h.type p
    cases hc : t.nodes.get? p with
    | none =>
      rw [hc] at htype
      rw [Option.map_eq_none_iff.1 htype]
    | some cell =>
      rw [hc] at htype
      obtain ⟨cell', hc', hcell⟩ := Option.map_eq_some_iff.1 htype
      rw [hc']
      simp only [deref, bind, Except.bind, hcell]
  unfold Tr069Tree.cacheNext
  simp only [hbelow]

/-- **Every lookup does the same.** -/
theorem lookup (h : t.SameSearch t') (cache : Tr069NodeEntry) (name : Text) :
    t'.getTr069NodeByName cache name = t.getTr069NodeByName cache name := by
  unfold Tr069Tree.getTr069NodeByName
  simp only [h.rootNext, h.rootNode, h.search, h.cacheNext]

end SameSearch

end Tr069Tree

end CodeFactory.Tr69
