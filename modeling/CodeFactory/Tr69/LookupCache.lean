import CodeFactory.Tr69.Lookup
import CodeFactory.Lib.Run

/-!
# The lookup cache and what it stands for

A lookup through the cache should deliver what the same lookup from the root with an empty cache delivers, and the cache it
leaves should name the node it points to. `lookups_agree_iff` says in which runs of lookups both hold throughout. They fail in
two ways: the first lookup below the root after the cache was emptied leaves the name of the root twice in the cached name,
and a lookup of exactly the cached name succeeds without a node.
-/

namespace CodeFactory.Tr69

namespace Tr069Tree

variable {t : Tr069Tree} {cache cache' : Tr069NodeEntry} {name : Text}

/-- A lookup as a step of the cache. An error leaves the cache as it is; undefined behaviour is no step. -/
def lookup (t : Tr069Tree) (cache : Tr069NodeEntry) (name : Text) : Option Tr069NodeEntry :=
  match t.getTr069NodeByName cache name with
  | .ok (_, cache') => some cache'
  | .error (.endret _) => some cache
  | .error .undefined => none

/-- The lookup delivers the result and the node the lookup with an empty cache does. -/
def Agrees (t : Tr069Tree) (cache : Tr069NodeEntry) (name : Text) : Prop :=
  (t.getTr069NodeByName cache name).map Prod.fst = (t.getTr069NodeByName .zero name).map Prod.fst

/-- A cached name that is not empty leads, from an empty cache, to the cached node. -/
def Resolves (t : Tr069Tree) (cache : Tr069NodeEntry) : Prop :=
  cache.name ≠ [] →
    (t.getTr069NodeByName .zero cache.name).map Prod.fst = .ok ⟨[], cache.type, cache.node⟩

/-- What a list of parts stands for: the node they lead to from the root. -/
def resolve (t : Tr069Tree) (ps : List Text) : Except Stop Tr069NodeEntry :=
  (t.walk (.zero, t.rootNext) ps).map Prod.fst

/-- The name leads to a node below the root. -/
def BelowRoot (t : Tr069Tree) (name : Text) : Prop :=
  name ≠ [] ∧ 2 ≤ (parts (cutDot name)).length ∧ ∃ e, t.resolve (parts (cutDot name)) = .ok e

/-- The lookup is none of the two that go wrong: it does not ask for the cached name itself (with one more dot), and if the
cache is empty, it does not find a node below the root. -/
def Careful (t : Tr069Tree) (cache : Tr069NodeEntry) (name : Text) : Prop :=
  ¬(cache.name ≠ [] ∧ cutDot name = cache.name) ∧ ¬(cache.name = [] ∧ t.BelowRoot name)

/-- The cache is empty, or its name is made of parts that lead to its node, and the search can go on there. -/
def Sound (t : Tr069Tree) (cache : Tr069NodeEntry) : Prop :=
  cache.name = [] ∨
    ∃ ps next, ps ≠ [] ∧ (∀ p ∈ ps, '.' ∉ p) ∧ cache.name = dotted '.' ps ∧
      t.walk (.zero, t.rootNext) ps = .ok (⟨[], cache.type, cache.node⟩, next) ∧ next.node ≠ none

variable {r : Text} {k : Nat}

theorem Rooted.rootNext (h : t.Rooted r k) : t.rootNext = ⟨.object, some []⟩ := by
  simp [Tr069Tree.rootNext, h.entry]

theorem Rooted.searches (h : t.Rooted r k) : t.rootNext.Searches := by
  rw [h.rootNext]
  exact Or.inl rfl

/-- The name of the root leads to the root. -/
theorem Rooted.walk_root (h : t.Rooted r k) :
    ∃ next, t.walk (.zero, t.rootNext) [r] = .ok (⟨[], .object, some [k]⟩, next) ∧ next.node ≠ none := by
  obtain ⟨n, hn, ho, hk⟩ := h.node
  have hg : t.nodes.get? ([] ++ [k]) = some (.node n) := by
    rw [Memory.get?_concat, hk]
    simp
  have hl : t.labels [] = some [(k, .name r)] := by
    simp [labels, hk, Cell.label, hn]
  have hb : bisearch r [(k, .name r)] = .ok k := by
    simp [bisearch]
  refine ⟨⟨.object, some [k]⟩, ?_, by simp⟩
  rw [h.rootNext, walk_singleton]
  simp only [step, hl, deref, bind, Except.bind, hb, arrive, hg]
  simp [Cell.type, ho, Content.type, Next.goBelow, pure, Except.pure]

theorem Rooted.sound_root (h : t.Rooted r k) : t.Sound t.rootNode := by
  obtain ⟨next, hroot, hne⟩ := h.walk_root
  refine Or.inr ⟨[r], next, by simp, by simpa using h.noDot, by simp [h.entry], ?_, hne⟩
  rw [hroot, h.entry]

theorem lookup_zero (hn : name ≠ []) :
    (t.getTr069NodeByName .zero name).map Prod.fst = t.resolve (parts (cutDot name)) := by
  obtain ⟨ps, l, _, _, _, hp⟩ := exists_parts (cutDot name)
  rw [lookup_empty hn hp rfl, map_fst_search, hp, resolve]

theorem resolves_iff {ps : List Text} {p : Text} (hps : ∀ q ∈ ps ++ [p], '.' ∉ q)
    (hc : cache.name = dotted '.' (ps ++ [p])) :
    t.Resolves cache ↔ t.resolve (ps ++ [p]) = .ok ⟨[], cache.type, cache.node⟩ := by
  have hne : cache.name ≠ [] := by
    rw [hc, dotted_concat]
    simp
  have hcut : cutDot cache.name = dotted '.' ps ++ p := by
    rw [hc, dotted_concat, cutDot_append_dot]
  have hparts : parts (dotted '.' ps ++ p) = ps ++ [p] :=
    splitOn_dotted_append_part (fun q hq => hps q (by simp [hq])) (hps p (by simp))
  rw [Resolves, lookup_zero hne, hcut, hparts]
  exact ⟨fun h => h hne, fun h _ => h⟩

theorem Sound.resolves (h : t.Sound cache) : t.Resolves cache := by
  rcases h with h | ⟨ps, next, hps, hd, hc, hw, _⟩
  · exact fun hne => absurd h hne
  · obtain ⟨ps, p, rfl⟩ := (List.eq_nil_or_concat' ps).resolve_left hps
    rw [resolves_iff hd hc, resolve, hw]
    rfl

theorem cacheNext_of_walk (hs : t.rootNext.Searches) {ps : List Text} {next : Next} (hps : ps ≠ [])
    (hw : t.walk (.zero, t.rootNext) ps = .ok (⟨[], cache.type, cache.node⟩, next)) (hne : next.node ≠ none) :
    t.cacheNext cache = .ok next := by
  obtain ⟨p, cell, next', hc, hd⟩ := walk_ok hs hps hw
  obtain ⟨he, rfl⟩ := Prod.mk.inj hd
  obtain ⟨-, htype, hnode⟩ := Tr069NodeEntry.mk.inj he
  exact cacheNext_of_cell hc htype hnode hne

theorem walk_resume (hs : t.rootNext.Searches) {ps qs : List Text} {e : Tr069NodeEntry} {next : Next}
    (hw : t.walk (.zero, t.rootNext) ps = .ok (e, next)) (hqs : qs ≠ []) :
    t.walk (.zero, t.rootNext) (ps ++ qs) = t.walk (.zero, next) qs := by
  rw [walk_append, hw]
  exact walk_congr (walk_searches hs hw) e .zero hqs

theorem sound_father (hs : t.rootNext.Searches) {base : Tr069NodeEntry} {ps qs : List Text} {l : Text}
    {d d' : Tr069NodeEntry × Next} (hd : ∀ p ∈ ps ++ qs, '.' ∉ p) (hbase : base.name = dotted '.' ps) (hqs : qs ≠ [])
    (hw : t.walk (.zero, t.rootNext) (ps ++ qs) = .ok d) (hl : t.step d l = .ok d') : t.Sound (father base qs d) := by
  have hne : ps ++ qs ≠ [] := by simp [hqs]
  obtain ⟨p, cell, next, _, rfl⟩ := walk_ok hs hne hw
  refine Or.inr ⟨ps ++ qs, next.goBelow cell.type p, hne, hd, ?_, ?_, ?_⟩
  · simp [father, hbase]
  · simpa [father] using hw
  · exact walk_node (List.cons_ne_nil l []) (by rwa [walk_singleton])

/-- A cached name that says the root twice does not resolve: its parts lead one level too deep. -/
theorem not_resolves_father (h : t.Rooted r k) {qs : List Text} {d : Tr069NodeEntry × Next} (hd : ∀ p ∈ qs, '.' ∉ p)
    (hqs : qs ≠ []) (hw : t.walk (.zero, t.rootNext) qs = .ok d) : ¬t.Resolves (father t.rootNode qs d) := by
  obtain ⟨p, cell, next, _, rfl⟩ := walk_ok h.searches hqs hw
  obtain ⟨qs, q, rfl⟩ := (List.eq_nil_or_concat' qs).resolve_left hqs
  have hnode : t.rootNext.node = some [] := by rw [h.rootNext]
  have hname : (father t.rootNode (qs ++ [q]) (⟨[], cell.type, some p⟩, next.goBelow cell.type p)).name =
      dotted '.' ((r :: qs) ++ [q]) := by
    simp [father, h.entry]
  rw [resolves_iff (by simpa [h.noDot] using hd) hname]
  intro hr
  obtain ⟨d', hw', he⟩ := map_eq_ok.1 hr
  have hd' : d'.1.node = some p := by simp [he, father]
  obtain ⟨r₁, h1, hl1⟩ := length_walk h.searches hnode hqs hw
  obtain ⟨r₂, h2, hl2⟩ := length_walk h.searches hnode (by simp) hw'
  rw [hd'] at h2
  obtain rfl : r₁ = r₂ := by simpa using h1.symm.trans h2
  simp at hl1 hl2
  omega

/-- A step of the cache is a failed lookup or a successful one. -/
theorem lookup_eq_some (hl : t.lookup cache name = some cache') :
    (∃ ret, t.getTr069NodeByName cache name = .error (.endret ret) ∧ cache' = cache) ∨
      ∃ e, t.getTr069NodeByName cache name = .ok (e, cache') := by
  unfold lookup at hl
  split at hl
  · rename_i e c he
    exact Or.inr ⟨e, Option.some.inj hl ▸ he⟩
  · rename_i ret he
    exact Or.inl ⟨ret, he, (Option.some.inj hl).symm⟩
  · cases hl

/-- A careful lookup agrees with the lookup from an empty cache. -/
theorem Careful.agrees (hr : t.rootNext.Searches) (hs : t.Sound cache) (hc : t.Careful cache name) :
    t.Agrees cache name := by
  by_cases hn : name = []
  · subst hn
    rfl
  obtain ⟨ps, l, hps, hl, hcut, hp⟩ := exists_parts (cutDot name)
  rw [Agrees, lookup_zero hn, hp, resolve]
  by_cases he : cache.name = []
  · rw [lookup_empty hn hp he, map_fst_search]
  by_cases hpre : cache.name <+: cutDot name
  · obtain ⟨rest, hrest⟩ := hpre
    obtain ⟨ps₀, next, hps₀, hd, hname, hw, hne⟩ := hs.resolve_left he
    have hrne : rest ≠ [] := by
      rintro rfl
      exact hc.1 ⟨he, by simpa using hrest.symm⟩
    obtain ⟨qs, m, _, _, _, hq⟩ := exists_parts rest
    have hparts : ps ++ [l] = ps₀ ++ (qs ++ [m]) := by
      rw [← hp, ← hrest, hname, parts, splitOn_dotted_append hd, ← hq, parts]
    rw [lookup_hit hn he hrest.symm hrne hq, cacheNext_of_walk hr hps₀ hw hne, hparts, walk_resume hr hw (by simp)]
    exact map_fst_search t _ qs m _
  · rw [lookup_miss hn hp he hpre, map_fst_search]

/-- A careful lookup keeps the cache sound. -/
theorem Careful.sound (h : t.Rooted r k) (hs : t.Sound cache) (hc : t.Careful cache name)
    (hl : t.lookup cache name = some cache') : t.Sound cache' := by
  rcases lookup_eq_some hl with ⟨_, _, rfl⟩ | ⟨e, hg⟩
  · exact hs
  have hn : name ≠ [] := by
    rintro rfl
    cases hg
  obtain ⟨ps, l, hps, _, _, hp⟩ := exists_parts (cutDot name)
  by_cases he : cache.name = []
  · rw [lookup_empty hn hp he] at hg
    obtain ⟨d, d', hw, hstep, _, rfl⟩ := search_ok hg
    -- only the root itself is looked up with an empty cache
    have : ps = [] := by
      by_contra hne
      have hlen := List.length_pos_iff.2 hne
      refine hc.2 ⟨he, hn, ?_, d'.1, ?_⟩
      · rw [hp, List.length_append, List.length_singleton]
        omega
      · rw [hp, resolve, walk_concat, hw]
        exact map_eq_ok.2 ⟨d', hstep, rfl⟩
    subst this
    rw [← Except.ok.inj hw, father_nil]
    exact h.sound_root
  by_cases hpre : cache.name <+: cutDot name
  · obtain ⟨rest, hrest⟩ := hpre
    obtain ⟨ps₀, next, hps₀, hd, hname, hroot, hne⟩ := hs.resolve_left he
    have hrne : rest ≠ [] := by
      rintro rfl
      exact hc.1 ⟨he, by simpa using hrest.symm⟩
    obtain ⟨qs, m, hqs, _, _, hq⟩ := exists_parts rest
    rw [lookup_hit hn he hrest.symm hrne hq, cacheNext_of_walk h.searches hps₀ hroot hne] at hg
    obtain ⟨d, d', hw, hstep, _, rfl⟩ := search_ok hg
    by_cases hqs₀ : qs = []
    · subst hqs₀
      rw [← Except.ok.inj hw, father_nil]
      exact hs
    · rw [← walk_resume h.searches hroot hqs₀] at hw
      exact sound_father h.searches (List.forall_mem_append.2 ⟨hd, hqs⟩) hname hqs₀ hw hstep
  · rw [lookup_miss hn hp he hpre] at hg
    obtain ⟨d, d', hw, hstep, _, rfl⟩ := search_ok hg
    by_cases hps₀ : ps = []
    · subst hps₀
      exact Or.inl (by rw [← Except.ok.inj hw, father_nil]; rfl)
    · have hd : ∀ p ∈ [] ++ ps, '.' ∉ p := hps
      exact sound_father h.searches hd rfl hps₀ hw hstep

theorem father_name (base : Tr069NodeEntry) (ps : List Text) (d : Tr069NodeEntry × Next) :
    (father base ps d).name = base.name ++ dotted '.' ps := by
  unfold father
  simp only
  split <;> rfl

/-- The name in the cache is no longer than the one that was looked up, but for that of the root, which an empty cache has in front. -/
theorem length_cache_le {e : Tr069NodeEntry} (hg : t.getTr069NodeByName cache name = .ok (e, cache')) :
    cache'.name.length ≤ (if cache.name = [] then t.rootNode.name.length else 0) + name.length := by
  have hn : name ≠ [] := by
    rintro rfl
    cases hg
  obtain ⟨ps, l, _, _, hcut, hp⟩ := exists_parts (cutDot name)
  have hle : (cutDot name).length ≤ name.length := by
    unfold cutDot
    split
    · exact (List.dropLast_sublist name).length_le
    · exact le_rfl
  have hps : (dotted '.' ps).length ≤ name.length := by
    rw [hcut, List.length_append] at hle
    omega
  by_cases he : cache.name = []
  · rw [lookup_empty hn hp he] at hg
    obtain ⟨d, d', _, _, _, rfl⟩ := search_ok hg
    rw [if_pos he, father_name, List.length_append]
    omega
  rw [if_neg he, Nat.zero_add]
  by_cases hpre : cache.name <+: cutDot name
  · obtain ⟨rest, hrest⟩ := hpre
    have hlength := congrArg List.length hrest
    rw [List.length_append] at hlength
    by_cases hrne : rest = []
    · rw [hrne, List.append_nil] at hrest
      rw [lookup_same hn he hrest.symm] at hg
      obtain rfl := (Prod.mk.inj (Except.ok.inj hg)).2
      omega
    · obtain ⟨qs, m, _, _, hcutRest, hq⟩ := exists_parts rest
      rw [lookup_hit hn he hrest.symm hrne hq] at hg
      obtain ⟨next, _, hg⟩ := bind_eq_ok.1 hg
      obtain ⟨d, d', _, _, _, rfl⟩ := search_ok hg
      rw [father_name, List.length_append]
      rw [hcutRest, List.length_append] at hlength
      omega
  · rw [lookup_miss hn hp he hpre] at hg
    obtain ⟨d, d', _, _, _, rfl⟩ := search_ok hg
    rw [father_name, List.length_append]
    exact (Nat.zero_add _).trans_le hps

/-- **A lookup from a sound cache that is not empty**: a name below the root whose parts lead somewhere is found there, and the cache
stays sound and is not emptied. -/
theorem Sound.lookup (h : t.Rooted r k) (hs : t.Sound cache) (hne : cache.name ≠ []) {ps : List Text} {l : Text}
    (hps : ∀ p ∈ ps, '.' ∉ p) (hpsne : ps ≠ []) (hl : '.' ∉ l) (hlne : l ≠ []) {e : Tr069NodeEntry}
    (he : t.resolve (ps ++ [l]) = .ok e) :
    ∃ cache', t.getTr069NodeByName cache (dotted '.' ps ++ l) = .ok (e, cache') ∧ t.Sound cache' ∧ cache'.name ≠ [] := by
  have hn : dotted '.' ps ++ l ≠ [] := by simp [hlne]
  have hcut : cutDot (dotted '.' ps ++ l) = dotted '.' ps ++ l := cutDot_of_part hl hlne
  have hp : parts (cutDot (dotted '.' ps ++ l)) = ps ++ [l] := by
    rw [hcut]
    exact splitOn_dotted_append_part hps hl
  have hcareful : t.Careful cache (dotted '.' ps ++ l) := by
    refine ⟨?_, fun hb => hne hb.1⟩
    rintro ⟨-, hsame⟩
    -- the cached name ends in a dot, the other one does not
    obtain ⟨qs, next, _, hqs, hname, _, _⟩ := hs.resolve_left hne
    have hparts : ps ++ [l] = qs ++ [[]] := by
      have hlast : (dotted '.' qs ++ []).splitOn '.' = qs ++ [[]] := splitOn_dotted_append_part hqs (by simp)
      rw [← hp, hsame, hname, ← hlast, List.append_nil, parts]
    exact hlne (by simpa using (List.append_inj' hparts rfl).2)
  have hagrees := hcareful.agrees h.searches hs
  rw [Agrees, lookup_zero hn, hp, he] at hagrees
  obtain ⟨⟨e', cache'⟩, hg, he'⟩ := map_eq_ok.1 hagrees
  obtain rfl : e' = e := he'
  have hstep : t.lookup cache (dotted '.' ps ++ l) = some cache' := by rw [Tr069Tree.lookup, hg]
  refine ⟨cache', hg, hcareful.sound h hs hstep, ?_⟩
  by_cases hpre : cache.name <+: cutDot (dotted '.' ps ++ l)
  · obtain ⟨rest, hrest⟩ := hpre
    have hrne : rest ≠ [] := by
      rintro rfl
      exact hcareful.1 ⟨hne, by simpa using hrest.symm⟩
    obtain ⟨qs, m, _, _, _, hq⟩ := exists_parts rest
    rw [lookup_hit hn hne hrest.symm hrne hq] at hg
    obtain ⟨next, _, hg⟩ := bind_eq_ok.1 hg
    obtain ⟨d, d', _, _, _, rfl⟩ := search_ok hg
    rw [father_name]
    simp [hne]
  · rw [lookup_miss hn hp hne hpre] at hg
    obtain ⟨d, d', _, _, _, rfl⟩ := search_ok hg
    rw [father_name]
    simpa [Tr069NodeEntry.zero, dotted_eq_nil_iff] using hpsne

/-- A lookup that is not careful goes wrong. -/
theorem Careful.breaks (h : t.Rooted r k) (hc : ¬t.Careful cache name) (hl : t.lookup cache name = some cache') :
    ¬(t.Agrees cache name ∧ t.Resolves cache') := by
  rintro ⟨ha, hr⟩
  by_cases hsame : cache.name ≠ [] ∧ cutDot name = cache.name
  · obtain ⟨hne, he⟩ := hsame
    have hn : name ≠ [] := by
      rintro rfl
      exact hne he.symm
    rw [Agrees, lookup_same hn hne he, lookup_zero hn, resolve] at ha
    obtain ⟨d, hw, hd⟩ := map_eq_ok.1 ha.symm
    -- the lookup from an empty cache has found a node
    obtain ⟨p, cell, next, _, rfl⟩ := walk_ok h.searches (List.splitOn_ne_nil _ _) hw
    exact absurd (congrArg Tr069NodeEntry.node hd) (by simp [Tr069NodeEntry.zero])
  · have hb : cache.name = [] ∧ t.BelowRoot name := by
      by_contra hb
      exact hc ⟨hsame, hb⟩
    obtain ⟨he, hn, hlen, e, hres⟩ := hb
    obtain ⟨ps, l, hps, _, _, hp⟩ := exists_parts (cutDot name)
    rw [hp, resolve, walk_concat] at hres
    obtain ⟨d', hw', _⟩ := map_eq_ok.1 hres
    obtain ⟨d, hw, hstep⟩ := bind_eq_ok.1 hw'
    have hps₀ : ps ≠ [] := by
      rintro rfl
      rw [hp] at hlen
      simp at hlen
    rw [lookup, lookup_empty hn hp he, hw] at hl
    simp only [bind, Except.bind, hstep, pure, Except.pure, Option.some.injEq] at hl
    exact not_resolves_father h hps hps₀ hw (hl ▸ hr)

/-- What should hold of every lookup: it agrees with the lookup from an empty cache, and the cache it leaves resolves. -/
def LookupOk (t : Tr069Tree) (cache : Tr069NodeEntry) (name : Text) (cache' : Tr069NodeEntry) : Prop :=
  t.Agrees cache name ∧ t.Resolves cache'

/-- **Cached lookups agree with uncached ones exactly as long as they are careful.** In a run of lookups from an empty cache
every lookup delivers what it would from the root, and leaves a cached name that resolves to the cached node, if and only if
no lookup asks for the cached name itself and none finds a node below the root while the cache is empty. -/
theorem lookups_agree_iff (h : t.Rooted r k) {tr : List (Transition Tr069NodeEntry Text)} {s : Tr069NodeEntry}
    (hrun : Run (Step.ofOption t.lookup) .zero tr s) : Always t.LookupOk tr ↔ Meets t.Careful tr := by
  refine hrun.all_iff (I := t.Sound) (Or.inl rfl) (fun c n c' hs hc hl => ?_) (fun c n c' _ hc hl => ?_)
  · have hs' := hc.sound h hs hl
    exact ⟨hs', hc.agrees h.searches hs, hs'.resolves⟩
  · exact Careful.breaks h hc hl

instance : Decidable (t.Agrees cache name) := inferInstanceAs (Decidable (_ = _))

instance : Decidable (t.Resolves cache) := inferInstanceAs (Decidable (_ → _))

instance : Decidable (t.LookupOk cache name cache') := inferInstanceAs (Decidable (_ ∧ _))

instance : Decidable (t.BelowRoot name) := inferInstanceAs (Decidable (_ ∧ _ ∧ _))

instance : Decidable (t.Careful cache name) := inferInstanceAs (Decidable (_ ∧ _))

/-- A tree with one leaf: `Device.Name`. -/
def deviceTree : Tr069Tree where
  rootNode := ⟨"Device.".toList, .object, some [0]⟩
  nodes :=
    { forest :=
        .cons 0 (.node ⟨"Device".toList, ⟨true, false⟩, .none, .all, false, 0, 0, .object⟩)
          (.cons 0 (.node ⟨"Name".toList, ⟨true, true⟩, .none, .all, false, 0, 16, .leaf (.string [])⟩) .nil .nil) .nil
      mark := 1
      separate := by decide }

theorem deviceTree_rooted : deviceTree.Rooted "Device".toList 0 where
  noDot := by decide
  entry := by decide
  node := ⟨_, rfl, rfl, rfl⟩

/-- Looking up the root first, and the leaf then, goes well. -/
theorem lookups_agree_rootFirst :
    Always deviceTree.LookupOk (play deviceTree.lookup .zero ["Device.".toList, "Device.Name".toList]).1 :=
  (lookups_agree_iff deviceTree_rooted (Run.ofPlay _ _ _)).2 (by unfold Meets; decide)

/-- Looking up the leaf with the empty cache does not: `Device.Device.Name` is found afterwards. -/
theorem lookups_not_agree :
    ¬∀ (t : Tr069Tree) (r : Text) (k : Nat), t.Rooted r k →
      ∀ (tr : List (Transition Tr069NodeEntry Text)) (s : Tr069NodeEntry),
        Run (Step.ofOption t.lookup) .zero tr s → Always t.LookupOk tr := by
  intro h
  have hrun := Run.ofPlay deviceTree.lookup .zero ["Device.Name".toList, "Device.Device.Name".toList]
  have hlast := h _ _ _ deviceTree_rooted _ _ hrun _ (List.getLast_mem (by decide))
  exact absurd hlast (by decide)

end Tr069Tree

end CodeFactory.Tr69
