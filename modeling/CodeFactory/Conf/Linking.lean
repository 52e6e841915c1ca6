import CodeFactory.Conf.Layout

/-!
# What the library does to a layout

A parameter is appended to a list, a row is put between two rows, a row is taken out with its parameters, a value is written, and
an application is announced. Each says which layout the cache has after it.
-/

namespace CodeFactory.Conf

open Cache Layout

namespace Cache

variable (c : Cache)

theorem headLink_paraHead (o o' : ParaOwner) (q : Option Nat) :
    (c.setParaLink (headLink o) q).paraHead o' = if o' = o then q else c.paraHead o' := by
  cases o with
  | app a =>
    cases o' with
    | app b =>
      show ((c.setParaLink (.appPara a) q).app b).para = _
      rw [setParaLink_appPara]
      by_cases hb : b = a <;> simp [hb, paraHead]
    | row s => rfl
  | row r =>
    cases o' with
    | app b => rfl
    | row s =>
      show ((c.setParaLink (.rowPara r) q).row s).para = _
      rw [setParaLink_rowPara]
      by_cases hs : s = r <;> simp [hs, paraHead]

theorem headLink_paraNext (o : ParaOwner) (q : Option Nat) : (c.setParaLink (headLink o) q).paraNext = c.paraNext := by
  cases o <;> rfl

theorem paraNext_paraHead (p : Nat) (q : Option Nat) : (c.setParaLink (.paraNext p) q).paraHead = c.paraHead := by
  funext o
  cases o <;> rfl

theorem paraNext_paraNext (p : Nat) (q : Option Nat) :
    (c.setParaLink (.paraNext p) q).paraNext = Function.update c.paraNext p q :=
  setPara_paraNext c p _

theorem rowNext_rowNext (r : Nat) (q : Option Nat) :
    (c.setRowLink (.rowNext r) q).rowNext = Function.update c.rowNext r q :=
  setRow_rowNext c r _

end Cache

namespace Holds

variable {T : EntityTable} {c : Cache} {L : Layout}

/-- The lists of parameters after a parameter was linked to the end of one of them. -/
theorem appendPara_chain (h : Holds T c L) {o : ParaOwner} {p : Nat} (hp : (c.para p).paraId = -1) (id : Int)
    (name val : List Char) (o' : ParaOwner) :
    ChainFrom ((c.setPara p ⟨id, name, val, none⟩).setParaLink (L.tailLink o) (some p)).paraNext
      (((c.setPara p ⟨id, name, val, none⟩).setParaLink (L.tailLink o) (some p)).paraHead o')
      ((L.setParas o (L.paras o ++ [p])).paras o') := by
  have hfree := h.para_free hp
  have hbase : ∀ o, ChainFrom (Function.update c.paraNext p none) (c.paraHead o) (L.paras o) :=
    fun o => (h.para_chain o).update_of_notMem (hfree o) none
  have hnone : Function.update c.paraNext p none p = none := Function.update_self ..
  have hnext : (c.setPara p ⟨id, name, val, none⟩).paraNext = Function.update c.paraNext p none := setPara_paraNext ..
  have hheads : (c.setPara p ⟨id, name, val, none⟩).paraHead = c.paraHead := rfl
  rcases List.eq_nil_or_concat (L.paras o) with hnil | ⟨xs, q, hconcat⟩
  · have hlink : L.tailLink o = headLink o := by simp [tailLink, hnil]
    rw [hlink, headLink_paraNext, headLink_paraHead, hnext, hheads, hnil]
    by_cases ho : o' = o
    · subst ho
      rw [if_pos rfl, setParas_self]
      exact ⟨rfl, hnone⟩
    · rw [if_neg ho, setParas_of_ne L ho]
      exact hbase o'
  · have hlink : L.tailLink o = .paraNext q := by simp [tailLink, hconcat]
    rw [List.concat_eq_append] at hconcat
    rw [hlink, paraNext_paraNext, paraNext_paraHead, hnext, hheads]
    by_cases ho : o' = o
    · subst ho
      have hchain := hbase o'
      have hnodup := h.para_nodup o'
      have hmem := hfree o'
      rw [hconcat] at hchain hnodup hmem
      rw [setParas_self, hconcat]
      exact hchain.snoc hnodup hmem hnone
    · rw [setParas_of_ne L ho]
      refine (hbase o').update_of_notMem ?_ _
      intro hq
      exact ho (h.para_owner o' o q hq (by simp [hconcat]))

/-- A free parameter is appended to the list of an owner. -/
theorem appendPara (h : Holds T c L) {o : ParaOwner} (ho : L.Has o) {p : Nat} (hp : (c.para p).paraId = -1)
    (hmax : p < T.gMaxParaNum) {id : Int} (hid : id ≠ -1) (name val : List Char) :
    Holds T ((c.setPara p ⟨id, name, val, none⟩).setParaLink (L.tailLink o) (some p)) (L.setParas o (L.paras o ++ [p])) := by
  have hfree := h.para_free hp
  have hmem : ∀ o' q, q ∈ (L.setParas o (L.paras o ++ [p])).paras o' ↔ q ∈ L.paras o' ∨ o' = o ∧ q = p := by
    intro o' q
    by_cases ho' : o' = o
    · subst ho'
      simp
    · simp [setParas_of_ne L ho', ho']
  refine ⟨h.apps_le, ?_, ?_, ?_, h.row_nodup, h.row_owner, h.row_mem, ?_, h.appendPara_chain hp id name val, ?_, ?_, ?_, ?_⟩
  · intro a
    rw [setParaLink_appNext]
    exact h.app_next a
  · intro a
    rw [setParaLink_appId]
    exact h.app_live a
  · intro a
    rw [setParaLink_rowNext, setParaLink_appRow]
    exact h.row_chain a
  · intro r
    rw [setParaLink_rowId]
    exact h.row_live r
  · intro o'
    by_cases ho' : o' = o
    · subst ho'
      rw [setParas_self, List.nodup_append]
      refine ⟨h.para_nodup o', List.nodup_singleton p, ?_⟩
      intro q hq q' hq'
      rw [List.mem_singleton.1 hq']
      rintro rfl
      exact hfree o' hq
    · rw [setParas_of_ne L ho']
      exact h.para_nodup o'
  · intro o₁ o₂ q h₁ h₂
    rcases (hmem o₁ q).1 h₁ with hq₁ | ⟨rfl, rfl⟩
    · rcases (hmem o₂ q).1 h₂ with hq₂ | ⟨rfl, rfl⟩
      · exact h.para_owner o₁ o₂ q hq₁ hq₂
      · exact absurd hq₁ (hfree o₁)
    · rcases (hmem o₂ q).1 h₂ with hq₂ | ⟨rfl, _⟩
      · exact absurd hq₂ (hfree o₂)
      · rfl
  · intro o' q hq
    have hhas : ∀ o, (L.setParas o' (L.paras o' ++ [p])).Has o ↔ L.Has o := fun o => by cases o <;> rfl
    rcases (hmem o' q).1 hq with hq | ⟨rfl, rfl⟩
    · exact ⟨by cases o' <;> exact (h.para_mem _ q hq).1, (h.para_mem o' q hq).2⟩
    · exact ⟨(hhas o').2 ho, hmax⟩
  · intro q
    rw [setParaLink_paraId]
    by_cases hq : q = p
    · subst hq
      refine iff_of_true (by simpa [setPara] using hid) ⟨o, (hmem o q).2 (Or.inr ⟨rfl, rfl⟩)⟩
    · have hother : ((c.setPara p ⟨id, name, val, none⟩).para q).paraId = (c.para q).paraId := by simp [setPara, hq]
      rw [hother, h.para_live q]
      simp [hmem, hq]

/-! ## Rows -/

/-- The lists of rows after a row was put between two parts of one of them. -/
theorem insertRow_chain (h : Holds T c L) {a n : Nat} {xs ys : List Nat} (hrows : L.rows a = xs ++ ys)
    (hn : (c.row n).rowId = -1) (id : Int) (b : Nat) :
    ChainFrom (((c.setRow n ⟨id, none, none⟩).setRowLink (placeLink a xs.getLast?) (some n)).linkLast n ys.head?).rowNext
      ((((c.setRow n ⟨id, none, none⟩).setRowLink (placeLink a xs.getLast?) (some n)).linkLast n ys.head?).app b).row
      ((L.setRows a (xs ++ n :: ys)).rows b) := by
  have hfree := (h.row_free hn).1
  have hlast : ∀ c' : Cache, c'.rowNext n = none →
      (c'.linkLast n ys.head?).rowNext = Function.update c'.rowNext n ys.head? ∧ (c'.linkLast n ys.head?).app = c'.app := by
    intro c' hnone
    cases ys with
    | nil =>
      refine ⟨?_, rfl⟩
      show c'.rowNext = Function.update c'.rowNext n none
      rw [← hnone, Function.update_eq_self]
    | cons y ys => exact ⟨rowNext_rowNext .., rfl⟩
  have hchain := h.row_chain a
  have hnodup := h.row_nodup a
  have hna := hfree a
  rw [hrows] at hchain hnodup hna
  rcases List.eq_nil_or_concat xs with rfl | ⟨zs, z, hconcat⟩
  · have hnone : ((c.setRow n ⟨id, none, none⟩).setRowLink (.appRow a) (some n)).rowNext n = none := by
      simp [rowNext, setRowLink, setRow]
    obtain ⟨hnext, happ⟩ := hlast _ hnone
    show ChainFrom (linkLast _ n ys.head?).rowNext ((linkLast _ n ys.head?).app b).row _
    simp only [List.getLast?_nil, placeLink]
    rw [hnext, happ, setRowLink_appRow]
    have hbase : ((c.setRow n ⟨id, none, none⟩).setRowLink (.appRow a) (some n)).rowNext = Function.update c.rowNext n none :=
      setRow_rowNext ..
    rw [hbase, Function.update_idem]
    by_cases hb : b = a
    · subst hb
      rw [if_pos rfl, setRows_self]
      have hhead : (c.app b).row = ys.head? := hchain.eq_head
      exact hhead ▸ hchain.insertHead hna
    · rw [if_neg hb, setRows_of_ne L hb]
      exact (h.row_chain b).update_of_notMem (hfree b) _
  · rw [List.concat_eq_append] at hconcat
    subst hconcat
    have hzn : n ≠ z := by
      rintro rfl
      exact hna (by simp)
    have hnone : ((c.setRow n ⟨id, none, none⟩).setRowLink (.rowNext z) (some n)).rowNext n = none := by
      rw [rowNext_rowNext, Function.update_of_ne hzn, setRow_rowNext, Function.update_self]
    obtain ⟨hnext, happ⟩ := hlast _ hnone
    simp only [List.getLast?_append_cons, List.getLast?_singleton, placeLink]
    rw [hnext, happ, rowNext_rowNext, setRow_rowNext, Function.update_comm hzn, Function.update_idem,
      Function.update_comm hzn.symm]
    show ChainFrom _ (c.app b).row _
    by_cases hb : b = a
    · subst hb
      rw [setRows_self]
      simp only [List.append_assoc, List.cons_append, List.nil_append] at hchain hnodup hna ⊢
      exact hchain.insertAfter hnodup hna
    · rw [setRows_of_ne L hb]
      refine ((h.row_chain b).update_of_notMem (hfree b) _).update_of_notMem ?_ _
      intro hz
      exact hb (h.row_owner b a z hz (by simp [hrows]))

theorem linkLast_fields (c : Cache) (n : Nat) (last : Option Nat) :
    (c.linkLast n last).app = c.app ∧ (c.linkLast n last).para = c.para ∧ (c.linkLast n last).paraHead = c.paraHead ∧
      ∀ r, ((c.linkLast n last).row r).rowId = (c.row r).rowId := by
  cases last with
  | none => exact ⟨rfl, rfl, rfl, fun _ => rfl⟩
  | some r =>
    exact ⟨rfl, setRowLink_para c (.rowNext n) (some r), setRowLink_paraHead c (.rowNext n) (some r),
      setRowLink_rowId c (.rowNext n) (some r)⟩

/-- A free row is put between two parts of the rows of an application. -/
theorem insertRow (h : Holds T c L) {a n : Nat} (ha : a < L.apps) {xs ys : List Nat} (hrows : L.rows a = xs ++ ys)
    (hn : (c.row n).rowId = -1) (hmax : n < T.gMaxTabNum) {id : Int} (hid : id ≠ -1) :
    Holds T (((c.setRow n ⟨id, none, none⟩).setRowLink (placeLink a xs.getLast?) (some n)).linkLast n ys.head?)
      (L.setRows a (xs ++ n :: ys)) := by
  obtain ⟨hfree, hcols⟩ := h.row_free hn
  obtain ⟨happ, hpara, hhead, hid'⟩ :=
    linkLast_fields ((c.setRow n ⟨id, none, none⟩).setRowLink (placeLink a xs.getLast?) (some n)) n ys.head?
  have hmem : ∀ b r, r ∈ (L.setRows a (xs ++ n :: ys)).rows b ↔ r ∈ L.rows b ∨ b = a ∧ r = n := by
    intro b r
    by_cases hb : b = a
    · subst hb
      simp only [setRows_self, hrows, List.mem_append, List.mem_cons, true_and]
      constructor
      · rintro (hr | rfl | hr)
        exacts [Or.inl (Or.inl hr), Or.inr rfl, Or.inl (Or.inr hr)]
      · rintro ((hr | hr) | rfl)
        exacts [Or.inl hr, Or.inr (Or.inr hr), Or.inr (Or.inl rfl)]
    · simp [setRows_of_ne L hb, hb]
  have hhas : ∀ o, L.Has o → (L.setRows a (xs ++ n :: ys)).Has o := by
    intro o ho
    cases o with
    | app b => exact ho
    | row r =>
      obtain ⟨b, hb⟩ := ho
      exact ⟨b, (hmem b r).2 (Or.inl hb)⟩
  refine ⟨h.apps_le, ?_, ?_, h.insertRow_chain hrows hn id, ?_, ?_, ?_, ?_, ?_, h.para_nodup, h.para_owner, ?_, ?_⟩
  · intro b
    have := h.app_next b
    rw [appNext, happ]
    rwa [← appNext, setRowLink_appNext]
  · intro b
    rw [happ, setRowLink_appId]
    exact h.app_live b
  · intro b
    by_cases hb : b = a
    · subst hb
      have hnodup := h.row_nodup b
      have hnb := hfree b
      rw [hrows] at hnodup hnb
      rw [setRows_self]
      exact (List.perm_middle.nodup_iff).2 (List.nodup_cons.2 ⟨hnb, hnodup⟩)
    · rw [setRows_of_ne L hb]
      exact h.row_nodup b
  · intro b b' r hr hr'
    rcases (hmem b r).1 hr with hq | ⟨rfl, rfl⟩
    · rcases (hmem b' r).1 hr' with hq' | ⟨rfl, rfl⟩
      · exact h.row_owner b b' r hq hq'
      · exact absurd hq (hfree b)
    · rcases (hmem b' r).1 hr' with hq' | ⟨rfl, _⟩
      · exact absurd hq' (hfree b')
      · rfl
  · intro b r hr
    rcases (hmem b r).1 hr with hq | ⟨rfl, rfl⟩
    · exact h.row_mem b r hq
    · exact ⟨ha, hmax⟩
  · intro r
    rw [hid', setRowLink_rowId]
    by_cases hr : r = n
    · subst hr
      exact iff_of_true (by simpa [setRow] using hid) ⟨a, (hmem a r).2 (Or.inr ⟨rfl, rfl⟩)⟩
    · have hother : ((c.setRow n ⟨id, none, none⟩).row r).rowId = (c.row r).rowId := by simp [setRow, hr]
      rw [hother, h.row_live r]
      simp [hmem, hr]
  · intro o
    have hnext : (linkLast ((c.setRow n ⟨id, none, none⟩).setRowLink (placeLink a xs.getLast?) (some n)) n ys.head?).paraNext =
        c.paraNext := by
      funext p
      rw [paraNext, hpara, setRowLink_para]
      rfl
    rw [hnext, hhead, setRowLink_paraHead, setRows_paras]
    cases o with
    | app b => exact h.para_chain (.app b)
    | row r =>
      by_cases hr : r = n
      · subst hr
        rw [hcols]
        show ((c.setRow r ⟨id, none, none⟩).row r).para = none
        simp [setRow]
      · have hother : (c.setRow n ⟨id, none, none⟩).paraHead (.row r) = c.paraHead (.row r) := by simp [paraHead, setRow, hr]
        rw [hother]
        exact h.para_chain (.row r)
  · intro o p hp
    exact ⟨hhas o (h.para_mem o p hp).1, (h.para_mem o p hp).2⟩
  · intro p
    rw [hpara, setRowLink_para]
    exact h.para_live p

end Holds

/-- The parameters of a list are cleaned up. -/
def Cache.freed (c : Cache) (ps : List Nat) : Cache :=
  { c with para := fun q => if q ∈ ps then ⟨-1, [], [], (c.para q).next⟩ else c.para q }

/-- The loop over the parameters of a row cleans all of them up. -/
theorem freeParas_eq {c : Cache} {p : Option Nat} {ps : List Nat} (h : ChainFrom c.paraNext p ps) (hnodup : ps.Nodup)
    (hlive : ∀ q ∈ ps, (c.para q).paraId ≠ -1) {fuel : Nat} (hfuel : ps.length < fuel) :
    c.freeParas fuel p = .done (c.freed ps) := by
  induction ps generalizing c p fuel with
  | nil =>
    obtain ⟨k, rfl⟩ : ∃ k, fuel = k + 1 := ⟨fuel - 1, by have := hfuel; omega⟩
    obtain rfl : p = none := h
    simp [freeParas, freed]
  | cons q qs ih =>
    obtain ⟨rfl, hrest⟩ := h
    obtain ⟨hq, hqs⟩ := List.nodup_cons.1 hnodup
    rw [List.length_cons] at hfuel
    obtain ⟨k, rfl⟩ : ∃ k, fuel = k + 1 := ⟨fuel - 1, by omega⟩
    rw [freeParas, if_neg (hlive q List.mem_cons_self)]
    have hnext : (c.setPara q ⟨-1, [], [], (c.para q).next⟩).paraNext = c.paraNext := by
      rw [setPara_paraNext]
      exact Function.update_eq_self q c.paraNext
    have hother : ∀ s ∈ qs, ((c.setPara q ⟨-1, [], [], (c.para q).next⟩).para s) = c.para s := by
      intro s hs
      have hsq : s ≠ q := by
        rintro rfl
        exact hq hs
      simp [setPara, hsq]
    rw [ih (by rw [hnext]; exact hrest) hqs (fun s hs => by rw [hother s hs]; exact hlive s (List.mem_cons_of_mem _ hs))
      (by omega)]
    congr 1
    simp only [freed, setPara_app, setPara_row, Cache.mk.injEq, true_and]
    funext s
    by_cases hs : s ∈ qs
    · simp [hs, hother s hs]
    · by_cases hsq : s = q
      · subst hsq
        simp [hs, setPara]
      · simp [hs, hsq, setPara]

namespace Holds

variable {T : EntityTable} {c : Cache} {L : Layout}

/-- The lists of rows after a row was taken out of one of them. -/
theorem removeRow_chain (h : Holds T c L) {a r : Nat} {xs ys : List Nat} (hrows : L.rows a = xs ++ r :: ys) (b : Nat) :
    ChainFrom ((c.setRow r ⟨-1, none, none⟩).setRowLink (placeLink a xs.getLast?) (c.row r).next).rowNext
      (((c.setRow r ⟨-1, none, none⟩).setRowLink (placeLink a xs.getLast?) (c.row r).next).app b).row
      ((L.setRows a (xs ++ ys)).rows b) := by
  have hchain := h.row_chain a
  have hnodup := h.row_nodup a
  rw [hrows] at hchain hnodup
  have hother : ∀ b, b ≠ a → r ∉ L.rows b := fun b hb hr => hb (h.row_owner b a r hr (by simp [hrows]))
  have hnext : (c.row r).next = ys.head? := hchain.next_eq_head
  rw [hnext]
  rcases List.eq_nil_or_concat xs with rfl | ⟨zs, z, hconcat⟩
  · simp only [List.getLast?_nil, placeLink]
    have hrow : ((c.setRow r ⟨-1, none, none⟩).setRowLink (.appRow a) ys.head?).rowNext = Function.update c.rowNext r none :=
      setRow_rowNext ..
    rw [hrow, setRowLink_appRow]
    by_cases hb : b = a
    · subst hb
      rw [if_pos rfl, setRows_self]
      exact hchain.removeHead hnodup none
    · rw [if_neg hb, setRows_of_ne L hb]
      exact (h.row_chain b).update_of_notMem (hother b hb) _
  · rw [List.concat_eq_append] at hconcat
    subst hconcat
    simp only [List.getLast?_append_cons, List.getLast?_singleton, placeLink]
    rw [rowNext_rowNext, setRow_rowNext]
    show ChainFrom _ (c.app b).row _
    by_cases hb : b = a
    · subst hb
      rw [setRows_self]
      simp only [List.append_assoc, List.cons_append, List.nil_append] at hchain hnodup ⊢
      exact hchain.removeAfter hnodup none
    · rw [setRows_of_ne L hb]
      refine ((h.row_chain b).update_of_notMem (hother b hb) _).update_of_notMem ?_ _
      intro hz
      exact hb (h.row_owner b a z hz (by simp [hrows]))

/-- A row is taken out, and it and its parameters are free then. -/
theorem removeRow (h : Holds T c L) {a r : Nat} {xs ys : List Nat} (hrows : L.rows a = xs ++ r :: ys) :
    Holds T (((c.freed (L.paras (.row r))).setRow r ⟨-1, none, none⟩).setRowLink (placeLink a xs.getLast?) (c.row r).next)
      ((L.setRows a (xs ++ ys)).setParas (.row r) []) := by
  have hr : r ∈ L.rows a := by simp [hrows]
  have hnodup := h.row_nodup a
  rw [hrows] at hnodup
  have hmem : ∀ b s, s ∈ (L.setRows a (xs ++ ys)).rows b ↔ s ∈ L.rows b ∧ s ≠ r := by
    intro b s
    by_cases hb : b = a
    · subst hb
      obtain ⟨hnot, -⟩ := List.nodup_cons.1 (List.perm_middle.nodup_iff.1 hnodup)
      rw [setRows_self, hrows, (List.perm_middle (a := r)).mem_iff, List.mem_cons]
      constructor
      · intro hs
        refine ⟨Or.inr hs, ?_⟩
        rintro rfl
        exact hnot hs
      · rintro ⟨rfl | hs, hne⟩
        exacts [absurd rfl hne, hs]
    · rw [setRows_of_ne L hb]
      refine ⟨fun hs => ⟨hs, ?_⟩, fun hs => hs.1⟩
      rintro rfl
      exact hb (h.row_owner b a s hs hr)
  have hparas : ∀ o q, q ∈ ((L.setRows a (xs ++ ys)).setParas (.row r) []).paras o ↔ q ∈ L.paras o ∧ o ≠ .row r := by
    intro o q
    by_cases ho : o = .row r
    · subst ho
      simp
    · rw [setParas_of_ne _ ho, setRows_paras]
      simp [ho]
  have hfreed : ∀ q, (((c.freed (L.paras (.row r))).setRow r ⟨-1, none, none⟩).setRowLink (placeLink a xs.getLast?)
      (c.row r).next).para q = if q ∈ L.paras (.row r) then ⟨-1, [], [], (c.para q).next⟩ else c.para q := by
    intro q
    rw [setRowLink_para]
    rfl
  refine ⟨h.apps_le, ?_, ?_, ?_, ?_, ?_, ?_, ?_, ?_, ?_, ?_, ?_, ?_⟩
  · intro b
    rw [setRowLink_appNext]
    exact h.app_next b
  · intro b
    rw [setRowLink_appId]
    exact h.app_live b
  · intro b
    have hchain := h.removeRow_chain hrows b
    cases hlink : placeLink a xs.getLast? with
    | appRow a' => rwa [hlink] at hchain
    | rowNext s => rwa [hlink] at hchain
  · intro b
    by_cases hb : b = a
    · subst hb
      rw [setParas_rows, setRows_self]
      exact (List.nodup_cons.1 (List.perm_middle.nodup_iff.1 hnodup)).2
    · rw [setParas_rows, setRows_of_ne L hb]
      exact h.row_nodup b
  · intro b b' s hs hs'
    exact h.row_owner b b' s ((hmem b s).1 hs).1 ((hmem b' s).1 hs').1
  · intro b s hs
    exact h.row_mem b s ((hmem b s).1 hs).1
  · intro s
    rw [setRowLink_rowId, setParas_rows]
    by_cases hs : s = r
    · subst hs
      refine iff_of_false (by simp [setRow]) ?_
      rintro ⟨b, hb⟩
      exact ((hmem b s).1 hb).2 rfl
    · have hother : (((c.freed (L.paras (.row r))).setRow r ⟨-1, none, none⟩).row s).rowId = (c.row s).rowId := by
        simp [setRow, hs, freed]
      rw [hother, h.row_live s]
      simp [hmem, hs]
  · intro o
    have hnext : (((c.freed (L.paras (.row r))).setRow r ⟨-1, none, none⟩).setRowLink (placeLink a xs.getLast?)
        (c.row r).next).paraNext = c.paraNext := by
      funext q
      rw [paraNext, hfreed]
      split <;> rfl
    rw [hnext, setRowLink_paraHead]
    by_cases ho : o = .row r
    · subst ho
      rw [setParas_self]
      show (((c.freed (L.paras (.row r))).setRow r ⟨-1, none, none⟩).row r).para = none
      simp [setRow]
    · rw [setParas_of_ne _ ho, setRows_paras]
      have hother : ((c.freed (L.paras (.row r))).setRow r ⟨-1, none, none⟩).paraHead o = c.paraHead o := by
        cases o with
        | app b => rfl
        | row s =>
          have hs : s ≠ r := fun e => ho (by rw [e])
          simp [paraHead, setRow, hs, freed]
      rw [hother]
      exact h.para_chain o
  · intro o
    by_cases ho : o = .row r
    · subst ho
      rw [setParas_self]
      exact List.nodup_nil
    · rw [setParas_of_ne _ ho]
      exact h.para_nodup o
  · intro o o' q hq hq'
    exact h.para_owner o o' q ((hparas o q).1 hq).1 ((hparas o' q).1 hq').1
  · intro o q hq
    obtain ⟨hq, ho⟩ := (hparas o q).1 hq
    refine ⟨?_, (h.para_mem o q hq).2⟩
    cases o with
    | app b => exact (h.para_mem _ q hq).1
    | row s =>
      obtain ⟨b, hb⟩ := (h.para_mem _ q hq).1
      refine ⟨b, (hmem b s).2 ⟨hb, ?_⟩⟩
      rintro rfl
      exact ho rfl
  · intro q
    rw [hfreed]
    by_cases hq : q ∈ L.paras (.row r)
    · rw [if_pos hq]
      refine iff_of_false (by simp) ?_
      rintro ⟨o, ho⟩
      obtain ⟨ho, hne⟩ := (hparas o q).1 ho
      exact hne (h.para_owner o (.row r) q ho hq)
    · rw [if_neg hq, h.para_live q]
      constructor
      · rintro ⟨o, ho⟩
        refine ⟨o, (hparas o q).2 ⟨ho, ?_⟩⟩
        rintro rfl
        exact hq ho
      · rintro ⟨o, ho⟩
        exact ⟨o, ((hparas o q).1 ho).1⟩

end Holds

end CodeFactory.Conf
