import CodeFactory.Tr69.Lookup

/-!
# Looking up a sibling

After a lookup, the cache holds the father of what was found, or a name that no name below that father starts with. So a
second lookup, of another name below the same father, searches the level the first one ended in, also when the tree has been
changed at and below the node that was found first. This is how `add_tr069_object` and `delete_tr069_object` get from the
object to the leaf that counts its instances.
-/

namespace CodeFactory.Tr69

namespace Tr069Tree

/-- `t'` differs from `t` only at and below `p`, for a search. -/
structure SameOutside (t t' : Tr069Tree) (p : Pos) : Prop where
  rootNode : t'.rootNode = t.rootNode
  labels : ∀ r L, ¬p <+: r → t.labels r = some L → t'.labels r = some L
  type : ∀ r cell, (p <+: r → r = p) → t.nodes.get? r = some cell →
    ∃ cell', t'.nodes.get? r = some cell' ∧ cell'.type = cell.type

variable {t t' : Tr069Tree} {p q : Pos} {d d' : Tr069NodeEntry × Next} {cache cache' e : Tr069NodeEntry}
  {name l l' : Text} {ps : List Text}

theorem SameOutside.rootNext (h : t.SameOutside t' p) : t'.rootNext = t.rootNext := by
  rw [Tr069Tree.rootNext, h.rootNode, Tr069Tree.rootNext]

/-- A round above `p` finds the same. -/
theorem SameOutside.step (h : t.SameOutside t' p) (hn : d.2.Searches) (hq : d.2.node = some q) (hp : ¬p <+: q)
    (hs : t.step d l = .ok d') : t'.step d l = .ok d' := by
  unfold Tr069Tree.step at hs ⊢
  rw [hq] at hs ⊢
  rcases hn with hn | hn
  all_goals
    rw [hn] at hs ⊢
    obtain ⟨L, hL, hs⟩ := bind_eq_ok.1 hs
    obtain ⟨key, hkey, hs⟩ := bind_eq_ok.1 hs
    obtain ⟨cell, hc, rfl⟩ := arrive_ok hs
    have hL' := h.labels q L hp (deref_eq_ok.1 hL)
    obtain ⟨cell', hc', htype⟩ := h.type (q ++ [key]) cell
      (fun hpq => ((List.prefix_concat_iff.1 hpq).resolve_right hp).symm) hc
    simp only [hL', deref, bind, Except.bind, hkey, arrive, hc', htype]
    rfl

/-- So does a walk that ends above `p`. -/
theorem SameOutside.walk (h : t.SameOutside t' p) (hn : d.2.Searches) (hw : t.walk d ps = .ok d')
    (hq : d'.2.node = some q) (hp : ¬p <+: q) : t'.walk d ps = .ok d' := by
  induction ps using List.reverseRecOn generalizing d' q with
  | nil => exact hw
  | append_singleton ps l ih =>
    rw [walk_concat] at hw ⊢
    obtain ⟨d₀, hw₀, hs⟩ := bind_eq_ok.1 hw
    have hn₀ := walk_searches hn hw₀
    obtain ⟨q₀, key, cell, hq₀, _, rfl⟩ := step_ok hn₀ hs
    have hne : (d₀.2.goBelow cell.type (q₀ ++ [key])).node ≠ none := fun hnone => absurd (hnone.symm.trans hq) (by simp)
    obtain rfl : q₀ ++ [key] = q := Option.some.inj ((Next.goBelow_node hne).symm.trans hq)
    have hp₀ : ¬p <+: q₀ := fun hpq => hp (hpq.trans (List.prefix_append _ _))
    rw [ih hw₀ hq₀ hp₀]
    exact h.step hn₀ hq₀ hp₀ hs

theorem SameOutside.cacheNext (h : t.SameOutside t' p) {next : Next} (hc : t.cacheNext cache = .ok next)
    (hq : next.node = some q) (hp : ¬p <+: q) : t'.cacheNext cache = .ok next := by
  obtain ⟨q', cell, hnode, hget, htype, hnext, _, hbelow⟩ := cacheNext_ok hc
  obtain rfl : q' = q := Option.some.inj (hnext.symm.trans hq)
  obtain ⟨cell', hget', htype'⟩ := h.type q' cell (fun hpq => absurd hpq hp) hget
  have hne : ((⟨.unknown, none⟩ : Next).goBelow cell'.type q').node ≠ none := by
    rw [htype', ← hbelow, hnext]
    simp
  rw [cacheNext_of_cell hget' (htype.trans htype'.symm) hnode hne, htype', hbelow]

theorem father_of_node {base : Tr069NodeEntry} (h : d.1.node ≠ none) :
    father base ps d = ⟨base.name ++ dotted '.' ps, d.1.type, d.1.node⟩ := by
  rw [father]
  exact if_pos h

/-- The name a lookup leaves in the cache is empty or ends in a dot, if the one it found there did. -/
theorem dotName_lookup (hr : DotName t.rootNode.name) (hc : DotName cache.name)
    (h : t.getTr069NodeByName cache name = .ok (e, cache')) : DotName cache'.name := by
  have hn : name ≠ [] := by
    rintro rfl
    cases h
  have hfather : ∀ {base : Tr069NodeEntry} {ps : List Text} {d : Tr069NodeEntry × Next}, DotName base.name →
      (∀ p ∈ ps, '.' ∉ p) → DotName (father base ps d).name := by
    intro base ps d hb hps
    unfold father
    simp only
    split <;> exact hb.append (DotName.dotted hps)
  obtain ⟨ps, l, hps, _, _, hp⟩ := exists_parts (cutDot name)
  by_cases hce : cache.name = []
  · rw [lookup_empty hn hp hce] at h
    obtain ⟨d, d', _, _, _, rfl⟩ := search_ok h
    exact hfather hr hps
  by_cases hpre : cache.name <+: cutDot name
  · obtain ⟨rest, hrest⟩ := hpre
    by_cases hrne : rest = []
    · subst hrne
      rw [lookup_same hn hce (by simpa using hrest.symm)] at h
      cases h
      exact hc
    obtain ⟨qs, m, hqs, _, _, hq⟩ := exists_parts rest
    rw [lookup_hit hn hce hrest.symm hrne hq] at h
    obtain ⟨next, _, h⟩ := bind_eq_ok.1 h
    obtain ⟨d, d', _, _, _, rfl⟩ := search_ok h
    exact hfather hc hqs
  · rw [lookup_miss hn hp hce hpre] at h
    obtain ⟨d, d', _, _, _, rfl⟩ := search_ok h
    exact hfather DotName.nil hps

/-- A lookup of a sibling from the father in the cache. -/
theorem lookup_of_father (hn : d.2.Searches) (hc : t.cacheNext cache = .ok d.2) (hps : ps ≠ [])
    (hname : cache.name = dotted '.' ps) (hl : '.' ∉ l) (hne : l ≠ []) :
    (t.getTr069NodeByName cache (dotted '.' ps ++ l)).map Prod.fst = (t.step d l).map Prod.fst := by
  have hcne : cache.name ≠ [] := by
    rw [hname]
    exact fun h => hps (dotted_eq_nil_iff.1 h)
  have hcut : cutDot (dotted '.' ps ++ l) = cache.name ++ l := by rw [cutDot_of_part hl hne, hname]
  have hparts : parts l = [] ++ [l] := List.splitOn_eq_singleton hl
  rw [lookup_hit (by simp [hne]) hcne hcut hne hparts, hc]
  exact (map_fst_search t (.zero, d.2) [] l _).trans (by rw [List.nil_append, walk_singleton, step_congr hn .zero d.1])

/-- **A second lookup below the same father.** The first lookup has found `p` as the last part `l` of the name; the second one,
in a tree that differs at and below `p` at most, finds what the level it was found in has for `l'`. -/
theorem lookup_sibling (h : t.SameOutside t' p) (hs : t.rootNext.Searches) (hr : DotName t.rootNode.name)
    (hrne : t.rootNode.name ≠ []) (hc : DotName cache.name) (hl : t.getTr069NodeByName cache name = .ok (e, cache'))
    (he : e.node = some p) :
    ∃ ps l d d', (∀ x ∈ ps, '.' ∉ x) ∧ '.' ∉ l ∧ cutDot name = dotted '.' ps ++ l ∧ d.2.Searches ∧
      t.step d l = .ok d' ∧ d'.1 = e ∧
      cache'.name.count '.' ≤ t.rootNode.name.count '.' + ps.length ∧
      (ps ≠ [] → ∀ l', '.' ∉ l' → l' ≠ [] →
        (t'.getTr069NodeByName cache' (dotted '.' ps ++ l')).map Prod.fst = (t'.step d l').map Prod.fst) := by
  have hn : name ≠ [] := by
    rintro rfl
    cases hl
  obtain ⟨ps, l, hps, hdl, hcut, hp⟩ := exists_parts (cutDot name)
  have hcount : ∀ {base : Tr069NodeEntry} {ps : List Text} {d : Tr069NodeEntry × Next}, (∀ x ∈ ps, '.' ∉ x) →
      (father base ps d).name.count '.' = base.name.count '.' + ps.length := by
    intro base ps d hps
    have hname : (father base ps d).name = base.name ++ dotted '.' ps := by
      unfold father
      simp only
      split <;> rfl
    rw [hname, List.count_append, count_dotted hps]
  -- what was found lies right below where the search stood
  have habove : ∀ {d d' : Tr069NodeEntry × Next}, d.2.Searches → t.step d l = .ok d' → d'.1 = e →
      ∃ q, d.2.node = some q ∧ ¬p <+: q := by
    intro d d' hn hstep hde
    obtain ⟨q, key, cell, hq, _, rfl⟩ := step_ok hn hstep
    rw [← hde] at he
    obtain rfl := Option.some.inj he
    exact ⟨q, hq, fun hpq => absurd hpq.length_le (by simp)⟩
  by_cases hce : cache.name = []
  · rw [lookup_empty hn hp hce] at hl
    obtain ⟨d, d', hw, hstep, hde, rfl⟩ := search_ok hl
    have hsd := walk_searches hs hw
    obtain ⟨q, hq, hpq⟩ := habove hsd hstep hde
    refine ⟨ps, l, d, d', hps, hdl, hcut, hsd, hstep, hde, (hcount hps).le, fun hpsne l' hl' hlne => ?_⟩
    -- the cached name says the root twice, so the second lookup starts at the root
    obtain ⟨p₀, cell, next, _, hd⟩ := walk_ok hs hpsne hw
    have hname : (father t.rootNode ps d).name = t.rootNode.name ++ dotted '.' ps := by
      rw [father_of_node (by simp [hd])]
    obtain ⟨rs, hrs, hroot⟩ := hr
    have hrsne : rs ≠ [] := fun hrs => hrne (by rw [hroot, hrs]; rfl)
    have hlen : ps.length < (rs ++ ps).length := by
      have := List.length_pos_iff.2 hrsne
      rw [List.length_append]
      omega
    have hpre : ¬(father t.rootNode ps d).name <+: cutDot (dotted '.' ps ++ l') := by
      rw [cutDot_of_part hl' hlne, hname, hroot, ← dotted_append]
      exact not_dotted_prefix (List.forall_mem_append.2 ⟨hrs, hps⟩) hps hl' hlen
    have hparts : parts (cutDot (dotted '.' ps ++ l')) = ps ++ [l'] := by
      rw [cutDot_of_part hl' hlne]
      exact splitOn_dotted_append_part hps hl'
    rw [lookup_miss (by simp [hlne]) hparts (by simp [hname, hrne]) hpre, map_fst_search, walk_concat, h.rootNext,
      h.walk hs hw hq hpq]
    rfl
  by_cases hpre : cache.name <+: cutDot name
  · obtain ⟨rest, hrest⟩ := hpre
    by_cases hrne : rest = []
    · subst hrne
      rw [lookup_same hn hce (by simpa using hrest.symm)] at hl
      cases hl
      cases he
    obtain ⟨qs, m, hqs, hm, hrd, hqp⟩ := exists_parts rest
    obtain ⟨ps₀, hps₀, hc₀⟩ := hc
    have hparts : ps ++ [l] = (ps₀ ++ qs) ++ [m] := by
      rw [← hp, ← hrest, hc₀, parts, splitOn_dotted_append hps₀, List.append_assoc, ← hqp, parts]
    obtain ⟨rfl, hlm⟩ := List.append_inj' hparts rfl
    obtain rfl : l = m := by simpa using hlm
    rw [lookup_hit hn hce hrest.symm hrne hqp] at hl
    obtain ⟨next, hnext, hl⟩ := bind_eq_ok.1 hl
    obtain ⟨_, _, _, _, _, _, hsn, _⟩ := cacheNext_ok hnext
    obtain ⟨d, d', hw, hstep, hde, rfl⟩ := search_ok hl
    have hsd := walk_searches hsn hw
    obtain ⟨q, hq, hpq⟩ := habove hsd hstep hde
    have hle : (father cache qs d).name.count '.' ≤ t.rootNode.name.count '.' + (ps₀ ++ qs).length := by
      rw [hcount hqs, hc₀, count_dotted hps₀, List.length_append]
      omega
    refine ⟨ps₀ ++ qs, l, d, d', hps, hdl, hcut, hsd, hstep, hde, hle, fun hpsne l' hl' hlne => ?_⟩
    have hfather : t.cacheNext (father cache qs d) = .ok d.2 ∧ (father cache qs d).name = dotted '.' (ps₀ ++ qs) := by
      by_cases hqne : qs = []
      · subst hqne
        obtain rfl := Except.ok.inj hw
        rw [father_nil]
        exact ⟨hnext, by simp [hc₀]⟩
      · obtain ⟨p₀, cell, next', hcell, rfl⟩ := walk_ok hsn hqne hw
        rw [father_of_node (by simp)]
        refine ⟨cacheNext_of_cell hcell rfl rfl ?_, by simp [hc₀]⟩
        exact fun hnone => absurd (hnone.symm.trans hq) (by simp)
    exact lookup_of_father hsd (h.cacheNext hfather.1 hq hpq) hpsne hfather.2 hl' hlne
  · rw [lookup_miss hn hp hce hpre] at hl
    obtain ⟨d, d', hw, hstep, hde, rfl⟩ := search_ok hl
    have hsd := walk_searches hs hw
    obtain ⟨q, hq, hpq⟩ := habove hsd hstep hde
    have hle : (father .zero ps d).name.count '.' ≤ t.rootNode.name.count '.' + ps.length := by
      rw [hcount hps]
      exact Nat.add_le_add_right (Nat.zero_le _) _
    refine ⟨ps, l, d, d', hps, hdl, hcut, hsd, hstep, hde, hle, fun hpsne l' hl' hlne => ?_⟩
    obtain ⟨p₀, cell, next', hcell, rfl⟩ := walk_ok hs hpsne hw
    have hfather : t.cacheNext (father .zero ps (⟨[], cell.type, some p₀⟩, next'.goBelow cell.type p₀)) =
        .ok (next'.goBelow cell.type p₀) := by
      rw [father_of_node (by simp)]
      refine cacheNext_of_cell hcell rfl rfl ?_
      exact fun hnone => absurd (hnone.symm.trans hq) (by simp)
    refine lookup_of_father (d := (⟨[], cell.type, some p₀⟩, _)) hsd (h.cacheNext hfather hq hpq) hpsne ?_ hl' hlne
    rw [father_of_node (by simp)]
    rfl

end Tr069Tree

end CodeFactory.Tr69
