import CodeFactory.Conf.Changes
import CodeFactory.Conf.Loading

/-!
# Loading any file

A file is loaded safely when it is rejected, or when the cache uses no node outside of the pools, holds what the file says, and
has rows that ascend and can be deleted. That is so exactly for the files whose lines fit, and whose rows ascend and belong to
an application that is the first one with its identifier.
-/

namespace CodeFactory.Conf

open Cache Layout

/-- What is promised of a cache that was loaded. -/
structure SafelyLoaded (T : EntityTable) (file : List Char) (c : Cache) : Prop where
  appIn : ∀ a, (c.app a).appId ≠ -1 → a < T.gMaxAppNum
  rowIn : ∀ r, (c.row r).rowId ≠ -1 → r < T.gMaxTabNum
  paraIn : ∀ p, (c.para p).paraId ≠ -1 → p < T.gMaxParaNum
  rowListed : ∀ r, (c.row r).rowId ≠ -1 → ∃ a ∈ c.listedApps T, r ∈ c.listedRows T a
  paraListed : ∀ p, (c.para p).paraId ≠ -1 → ∃ a ∈ c.listedApps T,
    p ∈ c.listedParas T (.app a) ∨ ∃ r ∈ c.listedRows T a, p ∈ c.listedParas T (.row r)
  /-- Every row and parameter is where the file has it: under the application that was announced last before its line. -/
  contents : readLines T [] (confLines file) = some (c.doc T)
  ascending : ∀ a ∈ c.listedApps T, (c.listedRows T a).Pairwise fun r r' => (c.row r).rowId < (c.row r').rowId
  deletable : ∀ a ∈ c.listedApps T, ∀ r ∈ c.listedRows T a, ∃ i c', (c.row r).rowId = getRowId (c.app a).appId i ∧
    c.configApiDeleteTableRow T (c.app a).appId i = .done (0, c') ∧ (c'.row r).rowId = -1

/-- Loading the file fails, or gives a cache as it is promised. -/
def LoadsSafely (T : EntityTable) (file : List Char) : Prop :=
  ∃ res, buildParaTable T file = .done res ∧ ∀ c ∈ res, SafelyLoaded T file c

/-- An application with rows has an identifier that the calls accept, and is the first one with it. -/
def RowsReachable (d : List AppDoc) : Prop :=
  ∀ (a : Nat) (s : AppDoc), d[a]? = some s → s.rows ≠ [] →
    0 < s.appId ∧ ∀ (b : Nat) (t : AppDoc), b < a → d[b]? = some t → t.appId ≠ s.appId

namespace LoadInv

variable {T : EntityTable} {s : LoadState} {L : Layout} {d : List AppDoc}

theorem ordered (h : LoadInv T s L d) (hd : RowsAscend d) : Ordered s.cache L := by
  rw [h.holds.ordered_iff, h.doc]
  refine ⟨?_, hd⟩
  rw [← h.doc, rowsIndexed_docOn]
  exact fun a _ r hr => h.indexed a r hr

/-- A row that can be deleted belongs to the first application with its identifier. -/
theorem first_of_deleted (h : LoadInv T s L d) (hd : RowsAscend d) {a r : Nat} {i : Int} {c' : Cache} (hr : r ∈ L.rows a)
    (hdel : s.cache.configApiDeleteTableRow T (s.cache.app a).appId i = .done (0, c')) (hfree : (c'.row r).rowId = -1) :
    T.ValidApp (s.cache.app a).appId ∧ FirstApp s.cache L (s.cache.app a).appId a := by
  rcases h.holds.configApiDeleteTableRow_cases (h.ordered hd) (s.cache.app a).appId i with
    ⟨heq, -⟩ | ⟨b, q, xs, ys, c'', hgone, heq⟩
  · rw [hdel] at heq
    cases heq
  · rw [hdel] at heq
    cases heq
    by_cases hb : a = b
    · subst hb
      exact ⟨hgone.valid, hgone.app⟩
    · refine absurd hfree ((hgone.holds.row_live r).2 ⟨a, ?_⟩)
      rw [setParas_rows, setRows_of_ne L hb]
      exact hr

/-- A row of the first application with its identifier can be deleted. -/
theorem deletable (h : LoadInv T s L d) (hd : RowsAscend d) {a r : Nat} (hr : r ∈ L.rows a)
    (hvalid : T.ValidApp (s.cache.app a).appId) (hfirst : FirstApp s.cache L (s.cache.app a).appId a) :
    ∃ i c', (s.cache.row r).rowId = getRowId (s.cache.app a).appId i ∧
      s.cache.configApiDeleteTableRow T (s.cache.app a).appId i = .done (0, c') ∧ (c'.row r).rowId = -1 := by
  obtain ⟨i, -, hi⟩ := h.indexed a r hr
  have hord := h.ordered hd
  rcases h.holds.configApiDeleteTableRow_cases hord (s.cache.app a).appId i with
    ⟨-, hnone⟩ | ⟨b, q, xs, ys, c', hgone, heq⟩
  · exact absurd hi (hnone hvalid a hfirst r hr)
  · refine ⟨i, c', hi, heq, ?_⟩
    obtain rfl := Holds.first_unique hfirst hgone.app
    have hq : q = r := hord.rowId_inj (by rw [hgone.rows]; simp) hr (hgone.rowId.trans hi.symm)
    subst hq
    by_contra hlive
    obtain ⟨b, hb⟩ := (hgone.holds.row_live q).1 hlive
    have hnodup := h.holds.row_nodup a
    rw [hgone.rows] at hnodup
    by_cases hba : b = a
    · subst hba
      rw [setParas_rows, setRows_self] at hb
      exact (List.nodup_cons.1 (List.perm_middle.nodup_iff.1 hnodup)).1 hb
    · rw [setParas_rows, setRows_of_ne L hba] at hb
      exact hba (h.holds.row_owner b a q hb hr)

/-- What was loaded is as it is promised exactly when its rows ascend and can be reached. -/
theorem safelyLoaded_iff (h : LoadInv T s L d) {file : List Char} (hread : readLines T [] (confLines file) = Option.some d) :
    SafelyLoaded T file s.cache ↔ RowsAscend d ∧ RowsReachable d := by
  have happs := h.holds.listedApps_eq
  have hrows := h.holds.listedRows_eq
  have hparas := h.holds.listedParas_eq
  constructor
  · intro hsafe
    have hd : RowsAscend d := by
      rw [← h.doc, rowsAscend_docOn]
      intro a ha
      have := hsafe.ascending a (by rw [happs]; exact List.mem_range.2 ha)
      rwa [hrows] at this
    refine ⟨hd, ?_⟩
    intro a t ht hne
    rw [← h.doc, getElem?_docOn] at ht
    obtain ⟨ha, rfl⟩ := ht
    obtain ⟨r, hr⟩ := List.exists_mem_of_ne_nil (L.rows a) (fun hnil => hne (by rw [appDoc, hnil]; rfl))
    obtain ⟨i, c', -, hdel, hfree⟩ :=
      hsafe.deletable a (by rw [happs]; exact List.mem_range.2 ha) r (by rw [hrows]; exact hr)
    obtain ⟨hvalid, hfirst⟩ := h.first_of_deleted hd hr hdel hfree
    refine ⟨hvalid.1, ?_⟩
    intro b u hb hu
    rw [← h.doc, getElem?_docOn] at hu
    obtain ⟨-, rfl⟩ := hu
    exact hfirst.2.2 b hb
  · rintro ⟨hd, hreach⟩
    refine ⟨?_, ?_, ?_, ?_, ?_, ?_, ?_, ?_⟩
    · intro a ha
      exact Nat.lt_of_lt_of_le ((h.holds.app_live a).1 ha) h.holds.apps_le
    · intro r hr
      obtain ⟨a, ha⟩ := (h.holds.row_live r).1 hr
      exact (h.holds.row_mem a r ha).2
    · intro p hp
      obtain ⟨o, ho⟩ := (h.holds.para_live p).1 hp
      exact (h.holds.para_mem o p ho).2
    · intro r hr
      obtain ⟨a, ha⟩ := (h.holds.row_live r).1 hr
      exact ⟨a, by rw [happs]; exact List.mem_range.2 (h.holds.row_mem a r ha).1, by rw [hrows]; exact ha⟩
    · intro p hp
      obtain ⟨o, ho⟩ := (h.holds.para_live p).1 hp
      have hhas := (h.holds.para_mem o p ho).1
      rw [happs, hrows, hparas]
      cases o with
      | app a => exact ⟨a, List.mem_range.2 hhas, Or.inl ho⟩
      | row r =>
        obtain ⟨a, ha⟩ := hhas
        exact ⟨a, List.mem_range.2 (h.holds.row_mem a r ha).1, Or.inr ⟨r, ha, ho⟩⟩
    · rw [hread, h.holds.doc_eq, h.doc]
    · intro a ha
      rw [happs, List.mem_range] at ha
      rw [hrows]
      rw [← h.doc, rowsAscend_docOn] at hd
      exact hd a ha
    · intro a ha r hr
      rw [happs, List.mem_range] at ha
      rw [hrows] at hr
      have hne : (s.cache.appDoc L a).rows ≠ [] := by
        unfold appDoc
        exact fun hnil => absurd (List.map_eq_nil_iff.1 hnil) (List.ne_nil_of_mem hr)
      obtain ⟨hpos, hfirst⟩ := hreach a (s.cache.appDoc L a) (by rw [← h.doc, getElem?_docOn]; exact ⟨ha, rfl⟩) hne
      refine h.deletable hd hr ⟨hpos, (h.appId a ha).2⟩ ⟨ha, rfl, ?_⟩
      intro b hb
      exact hfirst b _ hb (by rw [← h.doc, getElem?_docOn]; exact ⟨Nat.lt_trans hb ha, rfl⟩)

end LoadInv

/-- A cache that was loaded has the contents of the file, and the invariant when its rows ascend. -/
theorem loaded {T : EntityTable} {file : List Char} {c : Cache} (h : buildParaTable T file = .done (some c)) :
    readLines T [] (confLines file) = some (c.doc T) ∧ (RowsAscend (c.doc T) → Sound T c) := by
  unfold buildParaTable at h
  rcases (LoadInv.start T).loadLines (confLines file) with ⟨-, heq⟩ | ⟨-, ⟨-, heq⟩ | ⟨s, L, d, hread, heq, hinv⟩⟩
  · rw [heq] at h
    cases h
  · rw [heq] at h
    cases h
  · rw [heq] at h
    obtain rfl : s.cache = c := Option.some.inj (Outcome.done.inj h)
    have hdoc : s.cache.doc T = d := by rw [hinv.holds.doc_eq, hinv.doc]
    rw [hdoc]
    exact ⟨hread, fun hd => .of_holds hinv.holds (hinv.ordered hd)⟩

/-- **Which files are loaded safely.** Exactly those in which every line up to the first one that is rejected fits, and in
which, if none is rejected, the rows of every application ascend, and an application with rows is the first one with its
identifier. -/
theorem loads_safely_iff (T : EntityTable) (file : List Char) :
    LoadsSafely T file ↔
      LinesFit T [] (confLines file) ∧ ∀ d ∈ readLines T [] (confLines file), RowsAscend d ∧ RowsReachable d := by
  unfold LoadsSafely buildParaTable
  rcases (LoadInv.start T).loadLines (confLines file) with ⟨hfit, heq⟩ | ⟨hfit, ⟨hread, heq⟩ | ⟨s, L, d, hread, heq, h⟩⟩
  · rw [heq]
    refine iff_of_false ?_ fun hall => hfit hall.1
    rintro ⟨res, hres, -⟩
    cases hres
  · rw [heq, hread]
    exact iff_of_true ⟨none, rfl, fun c hc => by cases hc⟩ ⟨hfit, fun d hd => by cases hd⟩
  · rw [heq, hread]
    constructor
    · rintro ⟨res, hres, hsafe⟩
      obtain rfl := Outcome.done.inj hres
      refine ⟨hfit, fun e he => ?_⟩
      obtain rfl := Option.some.inj he
      exact (h.safelyLoaded_iff hread).1 (hsafe s.cache rfl)
    · rintro ⟨-, hd⟩
      refine ⟨some s.cache, rfl, fun c hc => ?_⟩
      obtain rfl := Option.some.inj hc
      exact (h.safelyLoaded_iff hread).2 (hd d rfl)

/-- A parameter in front of the first application: `pre_app` is followed before it is set. -/
theorem loads_unsafely : ¬LoadsSafely entityInfoArray "lan_ip=192.168.0.1\n".toList := by
  have hundefined : buildParaTable entityInfoArray "lan_ip=192.168.0.1\n".toList = .undefined := rfl
  rintro ⟨res, hres, -⟩
  rw [hundefined] at hres
  cases hres

end CodeFactory.Conf
