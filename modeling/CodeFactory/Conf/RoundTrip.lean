import CodeFactory.Conf.Lines
import CodeFactory.Conf.Representation

/-!
# Writing the file and reading it again

The file that is written of a cache is loaded into the same contents exactly when every line of a parameter is short enough for
the buffer of the loader and is taken for a parameter, and the number of every row is one byte. The lines are read one after the
other; the first item of which that does not hold gives a line that is rejected, or another item.
-/

namespace CodeFactory.Conf

open Cache Layout

/-! ## What can be read again -/

/-- The line of the parameter fits `configline`, and is taken for a parameter. -/
def ParaDoc.Reloads (q : ParaDoc) : Prop :=
  q.paraName.length + q.paraVal.length + 2 < maxConfLine ∧ q.paraName.head? ≠ some '[' ∧ '\n' ∉ q.paraName ∧ q.paraId ≤ intMax

/-- The number of the row is not cut to a byte. -/
def RowDoc.Reloads (appId : Int) (r : RowDoc) : Prop :=
  (r.rowId ≤ getRowId appId 255 ∧ r.rowId ≤ intMax) ∧ ∀ q ∈ r.paras, q.Reloads

/-- All parameters and rows can be read again. -/
def Reloads (d : List AppDoc) : Prop := ∀ s ∈ d, (∀ q ∈ s.paras, q.Reloads) ∧ ∀ r ∈ s.rows, r.Reloads s.appId

/-- The same of an item. -/
def DocItem.Reloads : DocItem → Prop
  | .app _ _ => True
  | .row appId rowId => rowId ≤ getRowId appId 255 ∧ rowId ≤ intMax
  | .para q => q.Reloads

instance (q : ParaDoc) : Decidable q.Reloads := inferInstanceAs (Decidable (_ ∧ _ ∧ _ ∧ _))

instance (appId : Int) (r : RowDoc) : Decidable (r.Reloads appId) := inferInstanceAs (Decidable ((_ ∧ _) ∧ ∀ q ∈ r.paras, q.Reloads))

instance (d : List AppDoc) : Decidable (Reloads d) :=
  inferInstanceAs (Decidable (∀ s ∈ d, (∀ q ∈ s.paras, q.Reloads) ∧ ∀ r ∈ s.rows, r.Reloads s.appId))

theorem RowDoc.reloads_iff (appId : Int) (r : RowDoc) : (∀ it ∈ r.items appId, it.Reloads) ↔ r.Reloads appId := by
  unfold items
  rw [List.forall_mem_cons, List.forall_mem_map]
  exact Iff.rfl

/-- The contents can be read again when their items can. -/
theorem reloads_iff (d : List AppDoc) : (∀ it ∈ docItems d, it.Reloads) ↔ Reloads d := by
  unfold docItems Conf.Reloads
  rw [List.forall_mem_flatMap]
  refine forall₂_congr fun s _ => ?_
  unfold AppDoc.items
  rw [List.forall_mem_cons, List.forall_mem_append, List.forall_mem_map, List.forall_mem_flatMap]
  constructor
  · rintro ⟨-, hown, hrows⟩
    exact ⟨hown, fun r hr => (r.reloads_iff s.appId).1 (hrows r hr)⟩
  · rintro ⟨hown, hrows⟩
    exact ⟨trivial, hown, fun r hr => (r.reloads_iff s.appId).2 (hrows r hr)⟩

/-- The name of an application, or a parameter, as it is in regular contents. -/
def DocItem.Plain : DocItem → Prop
  | .app _ appName => appName.length ≤ maxNameLen - 1 ∧ ']' ∉ appName ∧ '\n' ∉ appName ∧ '\x00' ∉ appName
  | .row _ _ => True
  | .para q => q.Plain

theorem Regular.plain {T : EntityTable} {d : List AppDoc} (h : Regular T d) : ∀ it ∈ docItems d, it.Plain := by
  unfold docItems
  rw [List.forall_mem_flatMap]
  intro s hs
  have hreg := h s hs
  unfold AppDoc.items
  rw [List.forall_mem_cons, List.forall_mem_append, List.forall_mem_map, List.forall_mem_flatMap]
  refine ⟨⟨hreg.name_length, hreg.name_bracket, hreg.name_line, hreg.name_null⟩, hreg.plain, fun r hr => ?_⟩
  unfold RowDoc.items
  rw [List.forall_mem_cons, List.forall_mem_map]
  exact ⟨trivial, (hreg.rows r hr).plain⟩

/-! ## The item that a line gives -/

/-- The item that a line gives behind the application `s`, if it is accepted. -/
def lineItem (T : EntityTable) (s : AppDoc) : ConfLine → Option DocItem
  | .app name =>
    if T.getAppIdByName (name.take (maxNameLen - 1)) = -1 then none
    else some (.app (T.getAppIdByName (name.take (maxNameLen - 1))) (name.take (maxNameLen - 1)))
  | .row num => if atoi num ≤ 0 then none else some (.row s.appId (getRowId s.appId (atoi num)))
  | .para name val => some (.para (.ofLine s.nextId name val))
  | .malformed => none

section

variable {T : EntityTable} {d d' : List AppDoc} {s : AppDoc} {line : ConfLine}

theorem readLine_eq (hs : s ∈ d.getLast?) (line : ConfLine) : readLine T d line = (lineItem T s line).map (addItem d) := by
  obtain ⟨e, rfl⟩ := eq_concat_of_getLast? hs
  cases line with
  | app name =>
    simp only [readLine, lineItem]
    split <;> rfl
  | row num =>
    simp only [readLine, lineItem]
    split
    · rfl
    · rw [Option.map_some, addItem, changeLast_concat, changeLast_concat]
      rfl
  | para name val =>
    simp only [readLine, lineItem]
    rw [Option.map_some, addItem, changeLast_concat, changeLast_concat]
    rfl
  | malformed => rfl

theorem lineItem_follows (hs : s ∈ d.getLast?) {it : DocItem} (h : lineItem T s line = some it) : Follows T d it := by
  cases line with
  | app name =>
    simp only [lineItem] at h
    split at h
    · cases h
    · next hid =>
      obtain rfl := Option.some.inj h
      exact ⟨rfl, hid⟩
  | row num =>
    simp only [lineItem] at h
    split at h
    · cases h
    · next hnum =>
      obtain rfl := Option.some.inj h
      exact ⟨s, hs, rfl, atoi num, by omega, rfl⟩
  | para name val =>
    obtain rfl := Option.some.inj h
    exact ⟨s, hs, rfl⟩
  | malformed => cases h

theorem docItems_readLine (hs : s ∈ d.getLast?) (h : readLine T d line = some d') :
    ∃ it, lineItem T s line = some it ∧ docItems d' = docItems d ++ [it] := by
  rw [readLine_eq hs, Option.map_eq_some_iff] at h
  obtain ⟨it, hit, rfl⟩ := h
  exact ⟨it, hit, docItems_addItem (lineItem_follows hs hit)⟩

theorem exists_getLast?_of_docItems {its : List DocItem} {it : DocItem} (h : docItems d = its ++ [it]) : ∃ s, s ∈ d.getLast? := by
  cases hlast : d.getLast? with
  | none =>
    rw [List.getLast?_eq_none_iff.1 hlast] at h
    simp [docItems] at h
  | some s => exact ⟨s, rfl⟩

/-- Lines that are accepted leave the items that are there. -/
theorem docItems_readLines {lines : List ConfLine} (hs : s ∈ d.getLast?) (h : readLines T d lines = some d') :
    ∃ more, docItems d' = docItems d ++ more := by
  induction lines generalizing d s with
  | nil =>
    obtain rfl := Option.some.inj h
    exact ⟨[], (List.append_nil _).symm⟩
  | cons line lines ih =>
    obtain ⟨e, he, hrest⟩ := Option.bind_eq_some_iff.1 h
    obtain ⟨it, -, hit⟩ := docItems_readLine hs he
    obtain ⟨s', hs'⟩ := exists_getLast?_of_docItems hit
    obtain ⟨more, hmore⟩ := ih hs' hrest
    exact ⟨it :: more, by rw [hmore, hit, List.append_assoc, List.singleton_append]⟩

end

/-! ## Counting the items -/

/-- The item is an application. -/
def DocItem.isApp : DocItem → Bool
  | .app _ _ => true
  | _ => false

def DocItem.isRow : DocItem → Bool
  | .row _ _ => true
  | _ => false

/-- The item is a parameter. -/
def DocItem.isPara : DocItem → Bool
  | .para _ => true
  | _ => false

theorem countP_docItems (p : DocItem → Bool) (d : List AppDoc) : (docItems d).countP p = (d.map fun s => s.items.countP p).sum := by
  rw [docItems, List.countP_flatMap]
  rfl

theorem AppDoc.countP_items (p : DocItem → Bool) (s : AppDoc) :
    s.items.countP p = (if p (.app s.appId s.appName) then 1 else 0) + ((s.paras.countP fun q => p (.para q)) +
      (s.rows.map fun r => (r.paras.countP fun q => p (.para q)) + if p (.row s.appId r.rowId) then 1 else 0).sum) := by
  unfold items
  rw [List.countP_cons, List.countP_append, List.countP_map, List.countP_flatMap, Nat.add_comm]
  congr 2
  refine congrArg List.sum (List.map_congr_left fun r _ => ?_)
  rw [Function.comp, RowDoc.items, List.countP_cons, List.countP_map]
  rfl

theorem countP_isApp (d : List AppDoc) : (docItems d).countP DocItem.isApp = d.length := by
  rw [countP_docItems, List.map_congr_left (g := fun _ => 1) fun s _ => ?_]
  · simp
  · rw [AppDoc.countP_items]
    simp [DocItem.isApp]

theorem countP_isRow (d : List AppDoc) : (docItems d).countP DocItem.isRow = rowsIn d := by
  rw [countP_docItems, rowsIn]
  refine congrArg List.sum (List.map_congr_left fun s _ => ?_)
  rw [AppDoc.countP_items]
  simp [DocItem.isRow]

theorem countP_isPara (d : List AppDoc) : (docItems d).countP DocItem.isPara = parasIn d := by
  rw [countP_docItems, parasIn]
  refine congrArg List.sum (List.map_congr_left fun s _ => ?_)
  rw [AppDoc.countP_items]
  simp [DocItem.isPara]

/-! ## The line of an item -/

theorem confLine_app {appName : List Char} (h : ']' ∉ appName) : confLine ('[' :: (appName ++ [']', '\n'])) = .app appName := by
  have hfind : strchr ']' ('[' :: (appName ++ [']', '\n'])) = some ('[' :: appName, ['\n']) :=
    strchr_append (List.not_mem_cons_of_ne_of_not_mem (by decide) h) _
  unfold confLine
  rw [List.head?_cons, if_pos rfl, hfind]
  rfl

theorem notMem_toDigits {ch : Char} (h : ch.isDigit = false) (n : Nat) : ch ∉ Nat.toDigits 10 n := by
  intro hmem
  rw [Nat.isDigit_of_mem_toDigits (by decide) (by decide) hmem] at h
  cases h

theorem confLine_row (n : Nat) : confLine ('<' :: (Nat.toDigits 10 n ++ ['>', '\n'])) = .row (Nat.toDigits 10 n) := by
  have hsign : strchr '=' ('<' :: (Nat.toDigits 10 n ++ ['>', '\n'])) = none := by
    refine strchr_of_notMem ?_
    simp [notMem_toDigits]
  unfold confLine
  rw [List.head?_cons, if_neg (by decide), hsign]
  have hclose : '>' ∉ Nat.toDigits 10 n := notMem_toDigits rfl n
  simp [strchr, strchr_append hclose]

theorem confLine_para {name : List Char} (hhead : name.head? ≠ some '[') (hsign : '=' ∉ name) (val : List Char) :
    confLine (name ++ '=' :: val) = .para name (cutNewline val) := by
  have hline : (name ++ '=' :: val).head? ≠ some '[' := by
    cases name with
    | nil => exact fun heq => absurd (Option.some.inj heq) (by decide)
    | cons ch name => exact hhead
  unfold confLine
  rw [if_neg hline, strchr_append hsign]
  cases strchr '<' (name ++ '=' :: val) <;> rfl

theorem cutNewline_of_notMem {val : List Char} (h : '\n' ∉ val) : cutNewline val = val := by
  unfold cutNewline
  rw [if_neg]
  intro hlast
  exact h (List.mem_of_getLast? hlast)

theorem cutNewline_concat (val : List Char) : cutNewline (val ++ ['\n']) = val := by
  unfold cutNewline
  rw [List.getLast?_concat, if_pos rfl, List.dropLast_concat]

theorem confLine_bracket {line name val : List Char} (h : line.head? = some '[') : confLine line ≠ .para name val := by
  unfold confLine
  rw [if_pos h]
  intro heq
  split at heq <;> cases heq

/-- A line without the sign is not taken for a parameter. -/
theorem confLine_noSign {line name val : List Char} (h : '=' ∉ line) : confLine line ≠ .para name val := by
  by_cases hhead : line.head? = some '['
  · exact confLine_bracket hhead
  · unfold confLine
    rw [if_neg hhead, strchr_of_notMem h]
    intro heq
    cases hrow : strchr '<' line with
    | none =>
      rw [hrow] at heq
      cases heq
    | some p =>
      rw [hrow] at heq
      simp only at heq
      split at heq <;> cases heq

/-- What a line of the item is taken for. -/
def DocItem.line : DocItem → ConfLine
  | .app _ appName => .app appName
  | .row _ rowId => .row (Nat.toDigits 10 (rowNumber rowId))
  | .para q => .para q.paraName q.paraVal

theorem rowNumber_lt (rowId : Int) : rowNumber rowId < 256 := by
  unfold rowNumber
  omega

theorem rowNumber_getRowId (appId i : Int) : (rowNumber (getRowId appId i) : Int) = i % 256 := by
  unfold rowNumber getRowId
  omega

section

variable (rest : List Char)

/-- The line of an application is read as it was written. -/
theorem confLines_app {appName : List Char} (appId : Int) (h : (DocItem.app appId appName).Plain) :
    confLines ((DocItem.app appId appName).text ++ rest) = .app appName :: confLines rest := by
  obtain ⟨hlen, hbracket, hline, hnull⟩ := h
  have htext : (DocItem.app appId appName).text ++ rest = ('[' :: (appName ++ [']'])) ++ '\n' :: rest := by simp [DocItem.text]
  have hfit : ('[' :: (appName ++ [']'])).length < maxConfLine - 1 := by
    simp only [List.length_cons, List.length_append, List.length_nil]
    unfold maxNameLen at hlen
    unfold maxConfLine
    omega
  rw [htext, confLines_line (by simp [hline]) (by simp [hnull]) hfit, List.cons_append, List.append_assoc, List.singleton_append,
    confLine_app hbracket]

/-- The line of a row is read as it was written. -/
theorem confLines_row (appId rowId : Int) :
    confLines ((DocItem.row appId rowId).text ++ rest) = .row (Nat.toDigits 10 (rowNumber rowId)) :: confLines rest := by
  have htext : (DocItem.row appId rowId).text ++ rest =
      ('<' :: (Nat.toDigits 10 (rowNumber rowId) ++ ['>'])) ++ '\n' :: rest := by simp [DocItem.text]
  have hdigits : (Nat.toDigits 10 (rowNumber rowId)).length ≤ 3 :=
    (Nat.length_toDigits_le_iff (by decide) (by decide)).2 (Nat.lt_trans (rowNumber_lt rowId) (by decide))
  have hfit : ('<' :: (Nat.toDigits 10 (rowNumber rowId) ++ ['>'])).length < maxConfLine - 1 := by
    simp only [List.length_cons, List.length_append, List.length_nil]
    unfold maxConfLine
    omega
  rw [htext, confLines_line (by simp [notMem_toDigits]) (by simp [notMem_toDigits]) hfit, List.cons_append, List.append_assoc,
    List.singleton_append, confLine_row]

variable {q : ParaDoc} (hq : q.Plain)

include hq

theorem confLines_para (hlen : q.paraName.length + q.paraVal.length + 2 < maxConfLine) (hhead : q.paraName.head? ≠ some '[')
    (hline : '\n' ∉ q.paraName) :
    confLines ((DocItem.para q).text ++ rest) = .para q.paraName q.paraVal :: confLines rest := by
  have htext : (DocItem.para q).text ++ rest = (q.paraName ++ '=' :: q.paraVal) ++ '\n' :: rest := by simp [DocItem.text]
  have hfit : (q.paraName ++ '=' :: q.paraVal).length < maxConfLine - 1 := by
    rw [List.length_append, List.length_cons]
    omega
  rw [htext, confLines_line (by simp [hline, hq.val_line]) (by simp [hq.name_null, hq.val_null]) hfit, List.append_assoc,
    List.cons_append, confLine_para hhead hq.name_sign, cutNewline_concat]

/-- Of a line that does not fit, the loader reads the head, and then what is left of the value. -/
theorem confLines_long (hlen : ¬q.paraName.length + q.paraVal.length + 2 < maxConfLine) (hhead : q.paraName.head? ≠ some '[')
    (hline : '\n' ∉ q.paraName) :
    confLines ((DocItem.para q).text ++ rest) =
      .para q.paraName (q.paraVal.take (maxConfLine - 2 - q.paraName.length)) ::
        confLines (q.paraVal.drop (maxConfLine - 2 - q.paraName.length) ++ '\n' :: rest) := by
  have htext : (DocItem.para q).text ++ rest = (q.paraName ++ '=' :: q.paraVal.take (maxConfLine - 2 - q.paraName.length)) ++
      (q.paraVal.drop (maxConfLine - 2 - q.paraName.length) ++ '\n' :: rest) := by
    simp only [DocItem.text, List.append_assoc, List.cons_append]
    rw [← List.append_assoc (q.paraVal.take _), List.take_append_drop]
    rfl
  have hname := hq.name_length
  have hfull : (q.paraName ++ '=' :: q.paraVal.take (maxConfLine - 2 - q.paraName.length)).length = maxConfLine - 1 := by
    rw [List.length_append, List.length_cons, List.length_take]
    unfold maxConfLine at *
    unfold maxNameLen at hname
    omega
  have hval := notMem_take (maxConfLine - 2 - q.paraName.length) hq.val_line
  have hnull := notMem_take (maxConfLine - 2 - q.paraName.length) hq.val_null
  rw [htext, confLines_full (by simp [hline, hval]) (by simp [hq.name_null, hnull]) hfull, confLine_para hhead hq.name_sign,
    cutNewline_of_notMem hval]

/-- A name with a bracket in front, or with a newline, is not taken for the name of a parameter. -/
theorem confLines_noPara (h : q.paraName.head? = some '[' ∨ '\n' ∈ q.paraName) :
    ∃ line lines, confLines ((DocItem.para q).text ++ rest) = line :: lines ∧ ∀ name val, line ≠ .para name val := by
  by_cases hhead : q.paraName.head? = some '['
  · obtain ⟨name, hname⟩ : ∃ name, q.paraName = '[' :: name := by
      cases hcons : q.paraName with
      | nil =>
        rw [hcons] at hhead
        cases hhead
      | cons ch name =>
        rw [hcons] at hhead
        exact ⟨name, congrArg (· :: name) (Option.some.inj hhead)⟩
    refine ⟨_, _, confLines_of_ne_nil (by simp [DocItem.text]), fun name val => confLine_bracket ?_⟩
    rw [DocItem.text, hname]
    rfl
  · obtain ⟨before, behind, hname, hbefore⟩ := List.eq_append_cons_of_mem (h.resolve_left hhead)
    have htext : (DocItem.para q).text ++ rest = before ++ '\n' :: (behind ++ '=' :: (q.paraVal ++ '\n' :: rest)) := by
      simp [DocItem.text, hname]
    have hsign := hq.name_sign
    have hnull := hq.name_null
    have hlen := hq.name_length
    rw [hname] at hsign hnull hlen
    have hfit : before.length < maxConfLine - 1 := by
      rw [List.length_append, List.length_cons] at hlen
      unfold maxNameLen at hlen
      unfold maxConfLine
      omega
    rw [htext, confLines_line hbefore (fun hmem => hnull (List.mem_append_left _ hmem)) hfit]
    refine ⟨_, _, rfl, fun name val => confLine_noSign ?_⟩
    rw [List.mem_append, List.mem_singleton]
    rintro (hmem | heq)
    · exact hsign (List.mem_append_left _ hmem)
    · exact absurd heq (by decide)

end

/-! ## Reading the items -/

/-- There are nodes for the contents. -/
structure InPools (T : EntityTable) (d : List AppDoc) : Prop where
  apps : d.length ≤ T.gMaxAppNum
  rows : rowsIn d ≤ T.gMaxTabNum
  paras : parasIn d ≤ T.gMaxParaNum

theorem Holds.inPools {T : EntityTable} {c : Cache} {L : Layout} (h : Holds T c L) : InPools T (c.docOn L) where
  apps := by
    rw [docOn, List.length_map, List.length_range]
    exact h.apps_le
  rows := by
    have := h.freeRowNum_add
    omega
  paras := by
    have := h.freeParaNum_add
    omega

namespace Builds

variable {T : EntityTable} {e d : List AppDoc} {it : DocItem} {its : List DocItem}

theorem countP_lt (h : Builds T e (it :: its) d) {p : DocItem → Bool} (hp : p it = true) :
    (docItems e).countP p < (docItems d).countP p := by
  rw [h.docItems_eq, List.countP_append, List.countP_cons, if_pos hp]
  omega

/-- An item that can be read again: its line is the next one, fits, and adds the item. -/
theorem reads (h : Builds T e (it :: its) d) (hpools : InPools T d) (hplain : it.Plain) (hrel : it.Reloads)
    (rest : List Char) :
    confLines (it.text ++ rest) = it.line :: confLines rest ∧ Fits T e it.line ∧
      readLine T e it.line = some (addItem e it) := by
  have hfollows := h.1
  cases it with
  | app appId appName =>
    obtain ⟨hid, hknown⟩ := hfollows
    have htake : appName.take (maxNameLen - 1) = appName := List.take_of_length_le hplain.1
    have hroom := h.countP_lt (p := DocItem.isApp) rfl
    rw [countP_isApp, countP_isApp] at hroom
    refine ⟨confLines_app rest appId hplain, Nat.lt_of_lt_of_le hroom hpools.apps, ?_⟩
    simp only [DocItem.line, readLine]
    rw [htake, hid, if_neg hknown]
    rfl
  | row appId rowId =>
    obtain ⟨s, hs, rfl, i, hi, rfl⟩ := hfollows
    have hbyte : i ≤ 255 := by
      have := hrel.1
      unfold getRowId at this
      omega
    have hnum : atoi (Nat.toDigits 10 (rowNumber (getRowId s.appId i))) = i := by
      rw [atoi_toDigits, rowNumber_getRowId]
      omega
    have hroom := h.countP_lt (p := DocItem.isRow) rfl
    rw [countP_isRow, countP_isRow] at hroom
    refine ⟨confLines_row rest s.appId _, ?_, ?_⟩
    · simp only [DocItem.line, Fits]
      rw [hnum]
      unfold intMax
      exact ⟨by omega, by omega, fun _ => ⟨s, hs, Nat.lt_of_lt_of_le hroom hpools.rows, hrel.2⟩⟩
    · rw [readLine_eq hs]
      simp only [DocItem.line, lineItem]
      rw [hnum, if_neg (by omega)]
      rfl
  | para q =>
    obtain ⟨s, hs, hid⟩ := hfollows
    obtain ⟨hlen, hhead, hline, hint⟩ := hrel
    have hroom := h.countP_lt (p := DocItem.isPara) rfl
    rw [countP_isPara, countP_isPara] at hroom
    refine ⟨confLines_para rest hplain hlen hhead hline, ⟨s, hs, Nat.lt_of_lt_of_le hroom hpools.paras, hid ▸ hint⟩, ?_⟩
    have hofLine : ParaDoc.ofLine s.nextId q.paraName q.paraVal = q := by
      unfold ParaDoc.ofLine
      rw [← hid, List.take_of_length_le hplain.name_length, List.take_of_length_le hplain.val_length]
    rw [readLine_eq hs]
    simp only [DocItem.line, lineItem]
    rw [hofLine]
    rfl

/-- A line that gives another item leads to other contents. -/
theorem not_reads (h : Builds T e (it :: its) d) {s : AppDoc} (hs : s ∈ e.getLast?) {line : ConfLine} {lines : List ConfLine}
    (hother : lineItem T s line ≠ some it) : readLines T e (line :: lines) ≠ some d := by
  intro hread
  obtain ⟨e', he, hrest⟩ := Option.bind_eq_some_iff.1 hread
  obtain ⟨it', hit', hitems⟩ := docItems_readLine hs he
  obtain ⟨s', hs'⟩ := exists_getLast?_of_docItems hitems
  obtain ⟨more, hmore⟩ := docItems_readLines hs' hrest
  rw [hitems, h.docItems_eq, List.append_assoc, List.append_cancel_left_eq] at hmore
  obtain ⟨rfl, -⟩ := List.cons.inj hmore
  exact hother hit'

/-- The number of a row that is cut to a byte is that of another row, or of none. -/
theorem misreads_row {appId rowId : Int} (h : Builds T e (.row appId rowId :: its) d)
    (hbad : ¬(DocItem.row appId rowId).Reloads) (rest : List Char) :
    ¬(LinesFit T e (confLines ((DocItem.row appId rowId).text ++ rest)) ∧
      readLines T e (confLines ((DocItem.row appId rowId).text ++ rest)) = some d) := by
  obtain ⟨s, hs, rfl, i, hi, rfl⟩ := h.1
  have hnum : atoi (Nat.toDigits 10 (rowNumber (getRowId s.appId i))) = i % 256 := by
    rw [atoi_toDigits, rowNumber_getRowId]
  rw [confLines_row]
  rintro ⟨⟨hfits, -⟩, hread⟩
  by_cases hbyte : i ≤ 255
  · have hmod : i % 256 = i := by omega
    simp only [Fits] at hfits
    rw [hnum, hmod] at hfits
    obtain ⟨t, ht, -, hint⟩ := hfits.2.2 (by omega)
    obtain rfl := Option.mem_unique hs ht
    refine hbad ⟨?_, hint⟩
    unfold getRowId
    omega
  · refine h.not_reads hs ?_ hread
    simp only [lineItem]
    rw [hnum]
    split
    · exact fun hnone => by cases hnone
    · intro heq
      have hsame := (DocItem.row.inj (Option.some.inj heq)).2
      rw [getRowId_inj] at hsame
      omega

/-- A parameter whose line is too long loses the end of its value, or leaves a line that is rejected. -/
theorem misreads_para {q : ParaDoc} (h : Builds T e (.para q :: its) d) (hplain : q.Plain) (hbad : ¬q.Reloads)
    (rest : List Char) :
    ¬(LinesFit T e (confLines ((DocItem.para q).text ++ rest)) ∧
      readLines T e (confLines ((DocItem.para q).text ++ rest)) = some d) := by
  obtain ⟨s, hs, hid⟩ := h.1
  rintro ⟨hfit, hread⟩
  by_cases hname : q.paraName.head? = some '[' ∨ '\n' ∈ q.paraName
  · obtain ⟨line, lines, hlines, hno⟩ := confLines_noPara rest hplain hname
    rw [hlines] at hread
    refine h.not_reads hs (fun heq => ?_) hread
    cases line with
    | para name val => exact hno name val rfl
    | app name =>
      simp only [lineItem] at heq
      split at heq <;> cases heq
    | row num =>
      simp only [lineItem] at heq
      split at heq <;> cases heq
    | malformed => cases heq
  · obtain ⟨hhead, hline⟩ := not_or.1 hname
    by_cases hlen : q.paraName.length + q.paraVal.length + 2 < maxConfLine
    · rw [confLines_para rest hplain hlen hhead hline] at hfit
      obtain ⟨t, ht, -, hint⟩ := hfit.1
      obtain rfl := Option.mem_unique hs ht
      exact hbad ⟨hlen, hhead, hline, hid ▸ hint⟩
    · rw [confLines_long rest hplain hlen hhead hline] at hread
      by_cases hmore : q.paraVal.length ≤ maxConfLine - 2 - q.paraName.length
      · -- the buffer is full before the newline, which is then a line of its own
        have hnewline : confLines ('\n' :: rest) = .malformed :: confLines rest := by
          have hone := confLines_line (l := []) List.not_mem_nil List.not_mem_nil (by decide) rest
          rwa [List.nil_append, show confLine ([] ++ ['\n']) = .malformed from rfl] at hone
        obtain ⟨e', -, hrest⟩ := Option.bind_eq_some_iff.1 hread
        rw [List.drop_eq_nil_of_le hmore, List.nil_append, hnewline] at hrest
        cases hrest
      · refine h.not_reads hs (fun heq => ?_) hread
        have hval := congrArg (fun p : ParaDoc => p.paraVal.length) (DocItem.para.inj (Option.some.inj heq))
        simp only [ParaDoc.ofLine, List.length_take] at hval
        omega

/-- **Reading the items again**: the lines lead to the contents exactly when every item can be read again. -/
theorem reads_iff (h : Builds T e its d) (hpools : InPools T d) (hplain : ∀ it ∈ its, it.Plain) :
    (LinesFit T e (confLines (its.flatMap DocItem.text)) ∧ readLines T e (confLines (its.flatMap DocItem.text)) = some d) ↔
      ∀ it ∈ its, it.Reloads := by
  induction its generalizing e with
  | nil =>
    obtain rfl : e = d := h
    exact iff_of_true ⟨trivial, rfl⟩ fun it hit => absurd hit List.not_mem_nil
  | cons it its ih =>
    have hit := hplain it List.mem_cons_self
    rw [List.flatMap_cons, List.forall_mem_cons]
    by_cases hrel : it.Reloads
    · obtain ⟨hlines, hfits, hread⟩ := h.reads hpools hit hrel (its.flatMap DocItem.text)
      have hrest := ih h.2 fun i hi => hplain i (List.mem_cons_of_mem _ hi)
      have hfit : LinesFit T e (it.line :: confLines (its.flatMap DocItem.text)) ↔
          LinesFit T (addItem e it) (confLines (its.flatMap DocItem.text)) := by
        refine ⟨fun hall => hall.2 _ hread, fun hall => ⟨hfits, fun d' hd' => ?_⟩⟩
        obtain rfl := Option.some.inj (hread.symm.trans hd')
        exact hall
      have hnext : readLines T e (it.line :: confLines (its.flatMap DocItem.text)) =
          readLines T (addItem e it) (confLines (its.flatMap DocItem.text)) := by
        rw [readLines, hread]
        rfl
      rw [hlines, hfit, hnext, hrest]
      exact (and_iff_right hrel).symm
    · refine iff_of_false ?_ fun hall => hrel hall.1
      cases it with
      | app appId appName => exact absurd trivial hrel
      | row appId rowId => exact h.misreads_row hrel _
      | para q => exact h.misreads_para hit hrel _

end Builds

/-! ## The round trip -/

/-- The file that is written of the cache is loaded, into the same contents. -/
def RoundTrips (T : EntityTable) (c : Cache) : Prop :=
  ∃ c', buildParaTable T (c.configApiWriteToFlash T) = .done (some c') ∧ c'.doc T = c.doc T

/-- Loading gives the contents that the lines have, if they fit. -/
theorem loads_doc_iff {T : EntityTable} {file : List Char} {d : List AppDoc} :
    (∃ c, buildParaTable T file = .done (some c) ∧ c.doc T = d) ↔
      LinesFit T [] (confLines file) ∧ readLines T [] (confLines file) = some d := by
  constructor
  · rintro ⟨c, hload, rfl⟩
    refine ⟨?_, (loaded hload).1⟩
    by_contra hfit
    unfold buildParaTable at hload
    rcases (LoadInv.start T).loadLines (confLines file) with ⟨-, heq⟩ | ⟨hfit', -⟩
    · rw [heq] at hload
      cases hload
    · exact hfit hfit'
  · rintro ⟨hfit, hread⟩
    unfold buildParaTable
    rcases (LoadInv.start T).loadLines (confLines file) with ⟨hnot, -⟩ | ⟨-, ⟨hnone, -⟩ | ⟨s, L, d', hread', heq, hinv⟩⟩
    · exact absurd hfit hnot
    · rw [hnone] at hread
      cases hread
    · obtain rfl := Option.some.inj (hread'.symm.trans hread)
      exact ⟨s.cache, by rw [heq]; rfl, by rw [hinv.holds.doc_eq, hinv.doc]⟩

theorem Sound.roundTrips_iff {T : EntityTable} {c : Cache} (h : Sound T c) (hreg : Regular T (c.doc T)) :
    RoundTrips T c ↔ Reloads (c.doc T) := by
  have hpools := h.holds.inPools
  have htext := h.holds.configApiWriteToFlash_eq
  rw [← h.holds.doc_eq] at hpools htext
  unfold RoundTrips
  rw [loads_doc_iff, htext, hreg.builds.reads_iff hpools hreg.plain, reloads_iff]

/-- **The round trip of the configuration file.** In every run of the calls with values of one line, from a file that was loaded
with ascending rows, the cache is written and loaded again into the same contents exactly when the line of every parameter is
short enough, is taken for a parameter, and every row has a number of one byte. -/
theorem round_trips_iff {T : EntityTable} (hnames : T.NamesPlain) {file : List Char} {c₀ c : Cache}
    (hload : buildParaTable T file = .done (some c₀)) (hasc : RowsAscend (c₀.doc T)) {tr : List (Transition Cache ConfAct)}
    (hplain : Meets (fun _ a => a.call.Plain) tr) (hr : Run (Step.ofOption (confStep T)) c₀ tr c) :
    RoundTrips T c ↔ Reloads (c.doc T) := by
  obtain ⟨hread, hsound⟩ := loaded hload
  have hreg : Regular T (c₀.doc T) :=
    Regular.readLines (fun s hs => absurd hs List.not_mem_nil) (confLines_plain file) hread
  have hinv : Sound T c ∧ Regular T (c.doc T) := by
    refine Run.invariant (I := fun c => Sound T c ∧ Regular T (c.doc T)) ⟨hsound hasc, hreg⟩ ?_ hr hplain
    rintro c a c' ⟨hs, hreg⟩ hcall hstep
    obtain ⟨hs', hcase⟩ := hs.step hstep
    rcases hcase with ⟨-, rfl⟩ | ⟨-, ret, -, hchange⟩
    · exact ⟨hs, hreg⟩
    · exact ⟨hs', hchange.regular hnames hcall hreg⟩
  exact hinv.1.roundTrips_iff hinv.2

theorem round_trips_firewall :
    RoundTrips twoTables (play (confStep twoTables) (cacheOf twoTables "[firewall]\n") [addFree 1]).2 := by
  refine (round_trips_iff (by decide) (show buildParaTable twoTables "[firewall]\n".toList = .done (some _) from rfl) (by decide)
    (meets_play ?_) (Run.ofPlay (confStep twoTables) _ [addFree 1])).2 (by decide)
  rw [List.forall_mem_singleton]
  intro j v hv
  obtain rfl := Option.some.inj hv
  decide

/-- A value of 300 characters is written to the address of the interface. -/
def writeLongValue : ConfAct := ⟨.writeParameter 1 1 (List.replicate 300 '1'), true⟩

/-- A value that the call accepts, but that is too long for the line buffer of the loader, is cut when the file is loaded. -/
theorem not_round_trips :
    entityInfoArray.NamesPlain ∧
      buildParaTable entityInfoArray "[lan]\nlan_ip=1\n".toList = .done (some (cacheOf entityInfoArray "[lan]\nlan_ip=1\n")) ∧
      RowsAscend ((cacheOf entityInfoArray "[lan]\nlan_ip=1\n").doc entityInfoArray) ∧
      ∃ tr c, Run (Step.ofOption (confStep entityInfoArray)) (cacheOf entityInfoArray "[lan]\nlan_ip=1\n") tr c ∧
        Meets (fun _ a => a.call.Plain) tr ∧ ¬RoundTrips entityInfoArray c := by
  refine ⟨by decide, rfl, by decide, _, _, Run.ofPlay (confStep entityInfoArray) _ [writeLongValue],
    meets_play ?_, ?_⟩
  · rw [List.forall_mem_singleton]
    show PlainValue _
    decide
  · intro hround
    have hread := (loads_doc_iff.1 hround).2
    revert hread
    decide +kernel

end CodeFactory.Conf
