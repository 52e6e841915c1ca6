import CodeFactory.Tr69.Tree

/-!
# Looking up a name

`get_tr069_node_by_name`: the search for a dotted name, which starts at the cached node when the cached name starts the name
asked for, and leaves the father of what it finds in the cache. `walk` is the search without the bookkeeping of the cache, and
`getTr069NodeByName_cases` says what a successful lookup has found and cached in terms of it.
-/

namespace CodeFactory.Tr69

/-- The `next` of the search: a pointer to the first cell of an array or of an instance list, as the path these cells are
below, and which of the two it is. -/
structure Next where
  type : Tr069Type
  node : Option Pos
  deriving DecidableEq, Repr

/-- Does the pointer lead to an array or to an instance list? The search leaves any other as it is. -/
def Next.Searches (next : Next) : Prop := next.type = .object ∨ next.type = .inst

/-- Where the search goes on below a cell it has found. -/
def Next.goBelow (next : Next) (type : Tr069Type) (p : Pos) : Next :=
  match type with
  | .multiObject => ⟨.inst, some p⟩
  | .object | .inst => ⟨.object, some p⟩
  | _ => { next with node := none }

theorem Next.Searches.goBelow {next : Next} (h : next.Searches) (type : Tr069Type) (p : Pos) :
    (next.goBelow type p).Searches := by
  cases type <;> first | exact h | exact Or.inl rfl | exact Or.inr rfl

/-- Below a cell the search either ends or goes on in a way that does not depend on where it came from. -/
theorem Next.goBelow_eq {next next' : Next} {type : Tr069Type} {p : Pos} (h : (next.goBelow type p).node ≠ none) :
    (type = .multiObject ∨ type = .object ∨ type = .inst) ∧ next.goBelow type p = next'.goBelow type p := by
  cases type <;> first | exact ⟨by decide, rfl⟩ | exact absurd rfl h

theorem Next.goBelow_node {next : Next} {type : Tr069Type} {p : Pos} (h : (next.goBelow type p).node ≠ none) :
    (next.goBelow type p).node = some p := by
  cases type <;> first | rfl | exact absurd rfl h

/-- The search in the array of an object: `strcmp` with the middle name tells in which half to go through. -/
def bisearch (name : Text) (array : List (Nat × Label)) : Except Stop Nat :=
  let middle := (array.length + 1) / 2
  match array[middle - 1]? with
  | some (_, .name tmp) =>
    let half := if ¬tmp < name then array.take middle else array.drop (middle - 1)
    match half.find? fun x => x.2 = .name name with
    | some x => .ok x.1
    | none => .error (.endret .nodeNotFound)
  -- the array of an object without nodes has no middle
  | _ => .error .undefined

/-- The search in an instance list, from the template on. -/
def searchInstance (name : Text) (list : List (Nat × Label)) : Except Stop Nat :=
  match stringToNum name with
  | none => .error (.endret .nodeNotFound)
  | some index =>
    match list.find? fun x => x.2 = .index index with
    | some x => .ok x.1
    | none => .error (.endret .nodeNotFound)

namespace Tr069Tree

/-- What the cells below a path are found by. -/
def labels (t : Tr069Tree) (p : Pos) : Option (List (Nat × Label)) :=
  (t.nodes.kids p).map (List.map (Prod.map id Cell.label))

/-- `dest` and `next` once the search has found the cell at `p`. -/
def arrive (t : Tr069Tree) (next : Next) (p : Pos) : Except Stop (Tr069NodeEntry × Next) := do
  let cell ← deref (t.nodes.get? p)
  return (⟨[], cell.type, some p⟩, next.goBelow cell.type p)

/-- One round of the search: the part of the name is looked for among the cells `next` leads to. -/
def step (t : Tr069Tree) (d : Tr069NodeEntry × Next) (tmpName : Text) : Except Stop (Tr069NodeEntry × Next) :=
  match d.2.node with
  | none => .error (.endret .nodeNotFound)
  | some p =>
    match d.2.type with
    | .object => do
      let array ← deref (t.labels p)
      let key ← bisearch tmpName array
      t.arrive d.2 (p ++ [key])
    | .inst => do
      let list ← deref (t.labels p)
      let key ← searchInstance tmpName list
      t.arrive d.2 (p ++ [key])
    | _ => .ok d

/-- The variables of the search loop. -/
structure Search where
  dest : Tr069NodeEntry
  next : Next
  cacheTmp : Tr069NodeEntry
  deriving DecidableEq, Repr

/-- The search loop over the parts of the name. Before the last part the father just found is noted in `cacheTmp`, before
every other one the part is added to its name. -/
def search (t : Tr069Tree) (s : Search) : List Text → Except Stop Search
  | [] => .ok s
  | tmpName :: rest => do
    let cacheTmp :=
      if rest = [] then
        if s.dest.node ≠ none then { s.cacheTmp with node := s.dest.node, type := s.dest.type } else s.cacheTmp
      else { s.cacheTmp with name := s.cacheTmp.name ++ tmpName ++ ['.'] }
    let (dest, next) ← t.step (s.dest, s.next) tmpName
    t.search ⟨dest, next, cacheTmp⟩ rest

/-- Where a search from the root starts: `rootNode` as an array of one node. -/
def rootNext (t : Tr069Tree) : Next := ⟨t.rootNode.type, t.rootNode.node.map List.dropLast⟩

/-- Where a search from the cached node starts. -/
def cacheNext (t : Tr069Tree) (cache : Tr069NodeEntry) : Except Stop Next :=
  match cache.type with
  | .multiObject | .object | .inst => do
    let p ← deref cache.node
    let cell ← deref (t.nodes.get? p)
    if cell.type = cache.type then return (⟨.unknown, none⟩ : Next).goBelow cache.type p else .error .undefined
  | _ => .error (.endret .cacheTypeError)

/-- `get_tr069_node_by_name`: the entry and the new cache. When the search stops with a result, neither is written. -/
def getTr069NodeByName (t : Tr069Tree) (cache : Tr069NodeEntry) (name : Text) :
    Except Stop (Tr069NodeEntry × Tr069NodeEntry) := do
  if name = [] then .error (.endret .nodeNotFound) else
  let tmpName := cutDot name
  if cache.name = [] then
    let s ← t.search ⟨.zero, t.rootNext, t.rootNode⟩ (parts tmpName)
    return (s.dest, s.cacheTmp)
  else if cache.name <+: tmpName then
    -- the entry is set from the cache here, but at `end` once more from `dest`, which is still zero
    if cache.name.length = tmpName.length then return (.zero, cache) else
    let next ← t.cacheNext cache
    let s ← t.search ⟨.zero, next, cache⟩ (parts (tmpName.drop cache.name.length))
    return (s.dest, s.cacheTmp)
  else
    let s ← t.search ⟨.zero, t.rootNext, .zero⟩ (parts tmpName)
    return (s.dest, s.cacheTmp)

/-! ## The search without the cache -/

/-- The search for a list of parts, with no cache to keep. -/
def walk (t : Tr069Tree) (d : Tr069NodeEntry × Next) (ps : List Text) : Except Stop (Tr069NodeEntry × Next) :=
  ps.foldlM t.step d

variable {t : Tr069Tree} {d d' : Tr069NodeEntry × Next}

@[simp] theorem walk_nil (t : Tr069Tree) (d : Tr069NodeEntry × Next) : t.walk d [] = .ok d := rfl

theorem walk_cons (t : Tr069Tree) (d : Tr069NodeEntry × Next) (p : Text) (ps : List Text) :
    t.walk d (p :: ps) = t.step d p >>= fun d => t.walk d ps := List.foldlM_cons

theorem walk_append (t : Tr069Tree) (d : Tr069NodeEntry × Next) (ps qs : List Text) :
    t.walk d (ps ++ qs) = t.walk d ps >>= fun d => t.walk d qs := List.foldlM_append

@[simp] theorem walk_singleton (t : Tr069Tree) (d : Tr069NodeEntry × Next) (p : Text) :
    t.walk d [p] = t.step d p := by
  rw [walk_cons]
  cases t.step d p <;> rfl

theorem walk_concat (t : Tr069Tree) (d : Tr069NodeEntry × Next) (ps : List Text) (l : Text) :
    t.walk d (ps ++ [l]) = t.walk d ps >>= fun d => t.step d l := by
  simp only [walk_append, walk_singleton]

/-- What the search notes in `cacheTmp`: the parts before the last one, and the father they lead to, if one was passed. -/
def father (cache : Tr069NodeEntry) (ps : List Text) (d : Tr069NodeEntry × Next) : Tr069NodeEntry :=
  let name := cache.name ++ dotted '.' ps
  if d.1.node ≠ none then ⟨name, d.1.type, d.1.node⟩ else ⟨name, cache.type, cache.node⟩

/-- The search loop is the walk, with the father in `cacheTmp`. -/
theorem search_concat (t : Tr069Tree) (s : Search) (ps : List Text) (l : Text) :
    t.search s (ps ++ [l]) = do
      let d ← t.walk (s.dest, s.next) ps
      let d' ← t.step d l
      return ⟨d'.1, d'.2, father s.cacheTmp ps d⟩ := by
  induction ps generalizing s with
  | nil =>
    cases hs : t.step (s.dest, s.next) l with
    | error e => simp [search, hs, bind, Except.bind]
    | ok d =>
      by_cases hd : s.dest.node = none <;> simp [search, hs, bind, Except.bind, pure, Except.pure, father, hd]
  | cons p ps ih =>
    rw [List.cons_append, search, walk_cons]
    cases hs : t.step (s.dest, s.next) p with
    | error e => rfl
    | ok d => simp [bind, Except.bind, ih, father, List.append_assoc]

theorem arrive_ok {next : Next} {p : Pos} (h : t.arrive next p = .ok d') :
    ∃ cell, t.nodes.get? p = some cell ∧ d' = (⟨[], cell.type, some p⟩, next.goBelow cell.type p) := by
  obtain ⟨cell, hc, hd⟩ := bind_eq_ok.1 h
  exact ⟨cell, deref_eq_ok.1 hc, (Except.ok.inj hd).symm⟩

/-- What one round finds: a cell right below where the search stands. -/
theorem step_ok (hn : d.2.Searches) {p : Text} (h : t.step d p = .ok d') :
    ∃ q key cell, d.2.node = some q ∧ t.nodes.get? (q ++ [key]) = some cell ∧
      d' = (⟨[], cell.type, some (q ++ [key])⟩, d.2.goBelow cell.type (q ++ [key])) := by
  unfold step at h
  cases hq : d.2.node with
  | none =>
    rw [hq] at h
    cases h
  | some q =>
    rw [hq] at h
    rcases hn with hn | hn
    all_goals
      rw [hn] at h
      obtain ⟨L, _, h⟩ := bind_eq_ok.1 h
      obtain ⟨key, _, h⟩ := bind_eq_ok.1 h
      obtain ⟨cell, hc, hd⟩ := arrive_ok h
      exact ⟨q, key, cell, rfl, hc, hd⟩

/-- A round depends on where the search stands, not on what it has found before. -/
theorem step_congr {next : Next} (hn : next.Searches) (e e' : Tr069NodeEntry) (p : Text) :
    t.step (e, next) p = t.step (e', next) p := by
  unfold step
  rcases hn with hn | hn <;> simp only [hn]

theorem walk_congr {next : Next} (hn : next.Searches) (e e' : Tr069NodeEntry) {ps : List Text} (hps : ps ≠ []) :
    t.walk (e, next) ps = t.walk (e', next) ps := by
  obtain ⟨p, ps, rfl⟩ := List.exists_cons_of_ne_nil hps
  rw [walk_cons, walk_cons, step_congr hn e e']

theorem walk_searches {ps : List Text} (hn : d.2.Searches) (h : t.walk d ps = .ok d') : d'.2.Searches := by
  induction ps generalizing d with
  | nil => exact Except.ok.inj h ▸ hn
  | cons p ps ih =>
    rw [walk_cons] at h
    obtain ⟨d₁, h1, h2⟩ := bind_eq_ok.1 h
    obtain ⟨_, _, _, _, _, rfl⟩ := step_ok hn h1
    exact ih (hn.goBelow _ _) h2

theorem walk_ok {ps : List Text} (hn : d.2.Searches) (hps : ps ≠ []) (h : t.walk d ps = .ok d') :
    ∃ (p : Pos) (cell : Cell) (next : Next), t.nodes.get? p = some cell ∧ d' = (⟨[], cell.type, some p⟩, next.goBelow cell.type p) := by
  obtain ⟨ps, l, rfl⟩ := (List.eq_nil_or_concat' ps).resolve_left hps
  rw [walk_concat] at h
  obtain ⟨d₁, h1, h2⟩ := bind_eq_ok.1 h
  obtain ⟨q, key, cell, _, hc, rfl⟩ := step_ok (walk_searches hn h1) h2
  exact ⟨q ++ [key], cell, d₁.2, hc, rfl⟩

theorem walk_node {ps : List Text} (hps : ps ≠ []) (h : t.walk d ps = .ok d') : d.2.node ≠ none := by
  obtain ⟨p, ps, rfl⟩ := List.exists_cons_of_ne_nil hps
  intro hd
  simp [walk_cons, step, hd, bind, Except.bind] at h

/-- The position a walk has found lies as deep as the walk has parts. -/
theorem length_walk {ps : List Text} {q : Pos} (hn : d.2.Searches) (hq : d.2.node = some q) (hps : ps ≠ [])
    (h : t.walk d ps = .ok d') : ∃ r, d'.1.node = some (q ++ r) ∧ r.length = ps.length := by
  induction ps generalizing d q with
  | nil => exact absurd rfl hps
  | cons p ps ih =>
    rw [walk_cons] at h
    obtain ⟨d₁, h1, h2⟩ := bind_eq_ok.1 h
    obtain ⟨q', key, cell, hq', _, rfl⟩ := step_ok hn h1
    obtain rfl : q = q' := Option.some.inj (hq.symm.trans hq')
    by_cases hps : ps = []
    · subst hps
      exact ⟨[key], by rw [← Except.ok.inj h2], rfl⟩
    · obtain ⟨r, hr, hl⟩ := ih (hn.goBelow _ _) (Next.goBelow_node (walk_node hps h2)) hps h2
      exact ⟨key :: r, by simp [hr], by simp [hl]⟩

theorem father_nil (base : Tr069NodeEntry) (next : Next) : father base [] (.zero, next) = base := by
  simp [father, Tr069NodeEntry.zero]

/-- What is delivered does not depend on what is cached on the way. -/
theorem map_fst_search (t : Tr069Tree) (d : Tr069NodeEntry × Next) (ps : List Text) (l : Text)
    (f : Tr069NodeEntry × Next → Tr069NodeEntry) :
    Except.map Prod.fst (t.walk d ps >>= fun d => t.step d l >>= fun d' => pure (d'.1, f d)) =
      (t.walk d (ps ++ [l])).map Prod.fst := by
  rw [walk_concat]
  cases t.walk d ps with
  | error e => rfl
  | ok d =>
    simp only [bind, Except.bind]
    cases t.step d l <;> rfl

/-- What a successful search has passed before the last part. -/
theorem search_ok {cache' : Tr069NodeEntry} {start : Tr069NodeEntry × Next} {ps : List Text} {l : Text}
    {f : Tr069NodeEntry × Next → Tr069NodeEntry} {e : Tr069NodeEntry}
    (hg : (t.walk start ps >>= fun d => t.step d l >>= fun d' => pure (d'.1, f d)) = .ok (e, cache')) :
    ∃ d d', t.walk start ps = .ok d ∧ t.step d l = .ok d' ∧ d'.1 = e ∧ cache' = f d := by
  obtain ⟨d, hw, hg⟩ := bind_eq_ok.1 hg
  obtain ⟨d', hl, hg⟩ := bind_eq_ok.1 hg
  exact ⟨d, d', hw, hl, (Prod.mk.inj (Except.ok.inj hg)).1, (Prod.mk.inj (Except.ok.inj hg)).2.symm⟩

/-! ## What a lookup does, by what is in the cache -/

variable {cache : Tr069NodeEntry} {name : Text} {ps : List Text} {l : Text}

theorem lookup_empty (hn : name ≠ []) (hp : parts (cutDot name) = ps ++ [l]) (hc : cache.name = []) :
    t.getTr069NodeByName cache name = do
      let d ← t.walk (.zero, t.rootNext) ps
      let d' ← t.step d l
      return (d'.1, father t.rootNode ps d) := by
  rw [getTr069NodeByName, if_neg hn, if_pos hc, hp, search_concat]
  simp only [bind_assoc, pure_bind]

theorem lookup_miss (hn : name ≠ []) (hp : parts (cutDot name) = ps ++ [l]) (hc : cache.name ≠ [])
    (hpre : ¬cache.name <+: cutDot name) :
    t.getTr069NodeByName cache name = do
      let d ← t.walk (.zero, t.rootNext) ps
      let d' ← t.step d l
      return (d'.1, father .zero ps d) := by
  rw [getTr069NodeByName, if_neg hn, if_neg hc, if_neg hpre, hp, search_concat]
  simp only [bind_assoc, pure_bind]

/-- When it does: from the cached node. -/
theorem lookup_hit {rest : Text} (hn : name ≠ []) (hc : cache.name ≠ []) (he : cutDot name = cache.name ++ rest)
    (hr : rest ≠ []) (hp : parts rest = ps ++ [l]) :
    t.getTr069NodeByName cache name = do
      let next ← t.cacheNext cache
      let d ← t.walk (.zero, next) ps
      let d' ← t.step d l
      return (d'.1, father cache ps d) := by
  have hlen : cache.name.length ≠ (cutDot name).length := by
    rw [he, List.length_append]
    have := List.length_pos_iff.2 hr
    omega
  have hpre : cache.name <+: cutDot name := he ▸ List.prefix_append _ _
  rw [getTr069NodeByName, if_neg hn, if_neg hc, if_pos hpre, if_neg hlen, he, List.drop_left, hp]
  simp only [search_concat, bind_assoc, pure_bind]

theorem lookup_same (hn : name ≠ []) (hc : cache.name ≠ []) (he : cutDot name = cache.name) :
    t.getTr069NodeByName cache name = .ok (.zero, cache) := by
  rw [getTr069NodeByName, if_neg hn, if_neg hc, he, if_pos List.prefix_rfl, if_pos rfl]
  rfl

theorem cacheNext_of_cell {p : Pos} {cell : Cell} {next : Next} (hc : t.nodes.get? p = some cell)
    (htype : cache.type = cell.type) (hnode : cache.node = some p) (hne : (next.goBelow cell.type p).node ≠ none) :
    t.cacheNext cache = .ok (next.goBelow cell.type p) := by
  obtain ⟨hk, hb⟩ : (cell.type = .multiObject ∨ cell.type = .object ∨ cell.type = .inst) ∧
      next.goBelow cell.type p = (⟨.unknown, none⟩ : Next).goBelow cell.type p := Next.goBelow_eq hne
  rw [hb, ← htype]
  rw [← htype] at hk
  rcases hk with hk | hk | hk <;>
    simp [cacheNext, hk, hnode, deref, hc, bind, Except.bind, ← htype, pure, Except.pure]

/-- Where the search goes on from the cache: below the cached cell. -/
theorem cacheNext_ok {next : Next} (h : t.cacheNext cache = .ok next) :
    ∃ p cell, cache.node = some p ∧ t.nodes.get? p = some cell ∧ cache.type = cell.type ∧ next.node = some p ∧
      next.Searches ∧ next = (⟨.unknown, none⟩ : Next).goBelow cell.type p := by
  unfold cacheNext at h
  split at h
  case h_4 => cases h
  all_goals
    rename_i htype
    obtain ⟨p, hp, h⟩ := bind_eq_ok.1 h
    obtain ⟨cell, hc, h⟩ := bind_eq_ok.1 h
    split at h
    · rename_i hcell
      rw [htype] at hcell h
      refine ⟨p, cell, deref_eq_ok.1 hp, deref_eq_ok.1 hc, htype.trans hcell.symm, ?_⟩
      rw [hcell, ← Except.ok.inj h]
      first
      | exact ⟨rfl, Or.inl rfl, rfl⟩
      | exact ⟨rfl, Or.inr rfl, rfl⟩
    · cases h

/-- What a round finds in an array has the name asked for. -/
theorem bisearch_ok {array : List (Nat × Label)} {key : Nat} (h : bisearch name array = .ok key) :
    (key, Label.name name) ∈ array := by
  unfold bisearch at h
  simp only at h
  split at h
  · split at h
    · rename_i x hx
      cases h
      have hlabel : x.2 = .name name := by simpa using List.find?_some hx
      have hmem := List.mem_of_find?_eq_some hx
      rw [← hlabel]
      split at hmem
      · exact List.mem_of_mem_take hmem
      · exact List.mem_of_mem_drop hmem
    · cases h
  · cases h

/-- What a round finds in an instance list is an instance. -/
theorem searchInstance_ok {list : List (Nat × Label)} {key : Nat} (h : searchInstance name list = .ok key) :
    ∃ i, (key, Label.index i) ∈ list := by
  unfold searchInstance at h
  split at h
  · cases h
  rename_i i _
  split at h
  · rename_i x hx
    cases h
    have hlabel : x.2 = .index i := by simpa using List.find?_some hx
    exact ⟨i, hlabel ▸ List.mem_of_find?_eq_some hx⟩
  · cases h

theorem label_of_mem {q : Pos} {L : List (Nat × Label)} {key : Nat} {label : Label} {cell : Cell}
    (hL : t.labels q = some L) (hmem : (key, label) ∈ L) (hc : t.nodes.get? (q ++ [key]) = some cell) :
    cell.label = label := by
  obtain ⟨K, hK, rfl⟩ := Option.map_eq_some_iff.1 hL
  obtain ⟨⟨key', cell'⟩, hx, he⟩ := List.mem_map.1 hmem
  obtain ⟨rfl, rfl⟩ := Prod.mk.inj he
  obtain rfl := Option.some.inj ((Memory.get?_of_mem hK hx).symm.trans hc)
  rfl

theorem step_array {q : Pos} {L : List (Nat × Label)} {p : Text} (hq : d.2.node = some q) (ht : d.2.type = .object)
    (hL : t.labels q = some L) : t.step d p = bisearch p L >>= fun key => t.arrive d.2 (q ++ [key]) := by
  simp only [step, hq, ht, hL, deref, bind, Except.bind]

/-- A round that finds a node has found it in an array, by its name. -/
theorem step_node (hn : d.2.Searches) {p : Pos} {n : Tr069Node} (h : t.step d l = .ok d') (hp : d'.1.node = some p)
    (hc : t.nodes.get? p = some (.node n)) :
    ∃ q L key, d.2.node = some q ∧ d.2.type = .object ∧ t.labels q = some L ∧ bisearch l L = .ok key ∧ p = q ++ [key] ∧
      n.name = l := by
  unfold step at h
  cases hq : d.2.node with
  | none =>
    rw [hq] at h
    cases h
  | some q =>
    rw [hq] at h
    rcases hn with hn | hn
    all_goals
      rw [hn] at h
      obtain ⟨L, hL, h⟩ := bind_eq_ok.1 h
      rw [deref_eq_ok] at hL
      obtain ⟨key, hkey, h⟩ := bind_eq_ok.1 h
      obtain ⟨cell, _, rfl⟩ := arrive_ok h
      obtain rfl := Option.some.inj hp
    · exact ⟨q, L, key, rfl, hn, hL, hkey, rfl, Label.name.inj (label_of_mem hL (bisearch_ok hkey) hc)⟩
    · obtain ⟨i, hi⟩ := searchInstance_ok hkey
      exact absurd (label_of_mem hL hi hc) (by simp [Cell.label])

/-! ## The errors of a lookup -/

variable {ret : Result}

theorem bisearch_error {array : List (Nat × Label)} (h : bisearch name array = .error (.endret ret)) :
    ret = .nodeNotFound := by
  unfold bisearch at h
  simp only at h
  split at h
  · split at h
    · cases h
    · cases h
      rfl
  · cases h

theorem searchInstance_error {list : List (Nat × Label)} (h : searchInstance name list = .error (.endret ret)) :
    ret = .nodeNotFound := by
  unfold searchInstance at h
  split at h
  · cases h
    rfl
  · split at h
    · cases h
    · cases h
      rfl

theorem arrive_ne_endret (next : Next) (p : Pos) : t.arrive next p ≠ .error (.endret ret) := by
  intro h
  rcases bind_eq_error.1 h with h | ⟨_, _, h⟩
  · exact deref_ne_endret _ _ h
  · cases h

/-- A round that returns an error has not found the part. -/
theorem step_error {p : Text} (h : t.step d p = .error (.endret ret)) : ret = .nodeNotFound := by
  unfold step at h
  split at h
  · cases h
    rfl
  · split at h
    · rcases bind_eq_error.1 h with h | ⟨L, _, h⟩
      · exact absurd h (deref_ne_endret _ _)
      · rcases bind_eq_error.1 h with h | ⟨key, _, h⟩
        · exact bisearch_error h
        · exact absurd h (arrive_ne_endret _ _)
    · rcases bind_eq_error.1 h with h | ⟨L, _, h⟩
      · exact absurd h (deref_ne_endret _ _)
      · rcases bind_eq_error.1 h with h | ⟨key, _, h⟩
        · exact searchInstance_error h
        · exact absurd h (arrive_ne_endret _ _)
    · cases h

theorem search_error {s : Search} {ps : List Text} (h : t.search s ps = .error (.endret ret)) : ret = .nodeNotFound := by
  induction ps generalizing s with
  | nil => cases h
  | cons p ps ih =>
    rcases bind_eq_error.1 h with h | ⟨_, _, h⟩
    · exact step_error h
    · exact ih h

theorem cacheNext_error (h : t.cacheNext cache = .error (.endret ret)) : ret = .cacheTypeError := by
  unfold cacheNext at h
  split at h
  case h_4 =>
    cases h
    rfl
  all_goals
    rcases bind_eq_error.1 h with h | ⟨p, _, h⟩
    · exact absurd h (deref_ne_endret _ _)
    · rcases bind_eq_error.1 h with h | ⟨cell, _, h⟩
      · exact absurd h (deref_ne_endret _ _)
      · split at h <;> cases h

/-- The errors of a lookup. -/
theorem lookup_error (h : t.getTr069NodeByName cache name = .error (.endret ret)) :
    ret = .nodeNotFound ∨ ret = .cacheTypeError := by
  unfold getTr069NodeByName at h
  simp only at h
  split at h
  · cases h
    exact Or.inl rfl
  split at h
  · rcases bind_eq_error.1 h with h | ⟨_, _, h⟩
    · exact Or.inl (search_error h)
    · cases h
  split at h
  · split at h
    · cases h
    · rcases bind_eq_error.1 h with h | ⟨_, _, h⟩
      · exact Or.inr (cacheNext_error h)
      · rcases bind_eq_error.1 h with h | ⟨_, _, h⟩
        · exact Or.inl (search_error h)
        · cases h
  · rcases bind_eq_error.1 h with h | ⟨_, _, h⟩
    · exact Or.inl (search_error h)
    · cases h

end Tr069Tree

end CodeFactory.Tr69
