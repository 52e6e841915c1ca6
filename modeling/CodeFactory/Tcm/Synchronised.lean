import CodeFactory.Tcm.Complete

/-!
# When the synchronisation at the start is complete

Of each entry and row there is one message at most, so the messages that are put are complete exactly when the rows that are looked at
are all rows of the table.
-/

namespace CodeFactory.Tcm

open Tr69

variable {N : ParaNumbers} {c : Configuration} {wanIp : Option Text} {e : MatchParameter}

/-! ## The messages with a name -/

theorem named_append (ms ms' : List Msg) (name : Text) : named (ms ++ ms') name = named ms name ++ named ms' name :=
  List.filter_append _ _

theorem named_eq_nil {ms : List Msg} {name : Text} (h : ∀ m ∈ ms, m.name ≠ some name) : named ms name = [] := by
  rw [named, List.filter_eq_nil_iff]
  intro m hm
  simpa using h m hm

/-- What is put for a row has the name for the row. -/
theorem name_of_putAt (he : e ∈ gMatchParameters) {k : Nat} {p : Put} (h : putAt N c e k = some p) :
    p.msg.name = some (e.nameAt k) := by
  unfold putAt at h
  split at h
  · split at h
    · cases h
    · cases h
      rfl
  split at h
  · obtain ⟨v, -, h⟩ := Option.bind_eq_some_iff.1 h
    split at h
    · obtain ⟨value, -, rfl⟩ := Option.map_eq_some_iff.1 h
      rfl
    · cases h
  split at h
  · rename_i hplain
    obtain ⟨v, -, h⟩ := Option.bind_eq_some_iff.1 h
    obtain ⟨value, -, rfl⟩ := Option.map_eq_some_iff.1 h
    rw [MatchParameter.IsPlain.nameAt_eq hplain he]
    rfl
  split at h
  · rename_i hdefault
    cases h
    rw [MatchParameter.IsDefaultObject.nameAt_eq hdefault he]
    rfl
  · cases h

/-- The messages of an entry. -/
def entryMsgs (N : ParaNumbers) (c : Configuration) (e : MatchParameter) : List Msg := (entryPuts N c e).map Put.msg

theorem mem_entryMsgs {m : Msg} : m ∈ entryMsgs N c e ↔ ∃ k ∈ rowsOf e, ∃ p, putAt N c e k = some p ∧ p.msg = m := by
  simp only [entryMsgs, entryPuts, List.mem_map, List.mem_filterMap]
  constructor
  · rintro ⟨p, ⟨k, hk, hp⟩, hm⟩
    exact ⟨k, hk, p, hp, hm⟩
  · rintro ⟨k, hk, p, hp, hm⟩
    exact ⟨p, ⟨k, hk, hp⟩, hm⟩

/-- All messages, in their order. -/
def allMsgs (N : ParaNumbers) (c : Configuration) (wanIp : Option Text) : List Msg := (allPuts N c wanIp).map Put.msg ++ [.initEnd]

/-- Only the entry has messages with its names. -/
theorem named_allMsgs (he : e ∈ gMatchParameters) (k : Nat) :
    named (allMsgs N c wanIp) (e.nameAt k) = named (entryMsgs N c e) (e.nameAt k) := by
  obtain ⟨hpairwise, hurl⟩ := templates_pairwise
  rw [List.pairwise_map] at hpairwise
  obtain ⟨xs, ys, hsplit⟩ := List.append_of_mem he
  have hother : ∀ zs : List MatchParameter, (∀ z ∈ zs, z ∈ xs ∨ z ∈ ys) →
      named ((zs.flatMap (entryPuts N c)).map Put.msg) (e.nameAt k) = [] := by
    intro zs hzs
    refine named_eq_nil fun m hm => ?_
    rw [List.map_flatMap, List.mem_flatMap] at hm
    obtain ⟨z, hz, hm⟩ := hm
    obtain ⟨j, -, p, hp, rfl⟩ := mem_entryMsgs.1 hm
    have hmem : z ∈ gMatchParameters := by
      rw [hsplit]
      rcases hzs z hz with hx | hy
      · exact List.mem_append_left _ hx
      · exact List.mem_append_right _ (List.mem_cons_of_mem _ hy)
    rw [name_of_putAt hmem hp]
    rw [hsplit] at hpairwise
    exact fun heq => Template.fill_ne_of_pairwise hpairwise (hzs z hz) _ _ (Option.some.inj heq)
  have hurlMsgs : named ((urlPuts wanIp).map Put.msg) (e.nameAt k) = [] := by
    refine named_eq_nil fun m hm => ?_
    obtain ⟨p, hp, rfl⟩ := List.mem_map.1 hm
    obtain ⟨ip, -, rfl⟩ := Option.map_eq_some_iff.1 (Option.mem_toList.1 hp)
    exact fun heq => Template.fill_ne (hurl e he) [] _ (Option.some.inj heq)
  have hend : named [.initEnd] (e.nameAt k) = [] := rfl
  unfold allMsgs allPuts
  rw [hsplit, List.flatMap_append, List.flatMap_cons]
  simp only [List.map_append, named_append, hurlMsgs, hend, List.append_nil]
  rw [hother xs fun z => .inl, hother ys fun z => .inr, List.append_nil, List.nil_append]
  rfl

/-- Of each row of a table there is one message at most, if the row is looked at. -/
theorem named_entryMsgs (h : e.IsInstance ∨ e.IsColumn) (he : e ∈ gMatchParameters) (k : Nat) :
    named (entryMsgs N c e) (e.nameAt k) = if k ∈ rowsOf e then ((putAt N c e k).map Put.msg).toList else [] := by
  have hrows : ∀ rows : List Nat, rows.Nodup → named ((rows.filterMap (putAt N c e)).map Put.msg) (e.nameAt k) =
      if k ∈ rows then ((putAt N c e k).map Put.msg).toList else [] := by
    intro rows hnodup
    induction rows with
    | nil => rfl
    | cons j rows ih =>
      rw [List.nodup_cons] at hnodup
      have hcons : ((j :: rows).filterMap (putAt N c e)).map Put.msg =
          ((putAt N c e j).map Put.msg).toList ++ (rows.filterMap (putAt N c e)).map Put.msg := by
        rw [List.filterMap_cons]
        cases putAt N c e j <;> rfl
      rw [hcons, named_append, ih hnodup.2]
      by_cases hk : k = j
      · subst hk
        rw [if_neg hnodup.1, if_pos List.mem_cons_self, List.append_nil, named, List.filter_eq_self]
        intro m hm
        obtain ⟨p, hp, rfl⟩ := Option.map_eq_some_iff.1 (Option.mem_toList.1 hm)
        simpa using name_of_putAt he hp
      · have hnone : named ((putAt N c e j).map Put.msg).toList (e.nameAt k) = [] := by
          refine named_eq_nil fun m hm => ?_
          obtain ⟨p, hp, rfl⟩ := Option.map_eq_some_iff.1 (Option.mem_toList.1 hm)
          rw [name_of_putAt he hp]
          exact fun heq => hk (MatchParameter.nameAt_inj h he (Option.some.inj heq)).symm
        rw [hnone, List.nil_append]
        simp only [List.mem_cons, hk, false_or]
  refine hrows (rowsOf e) ?_
  unfold rowsOf
  split
  · exact List.nodup_range'
  split
  · exact List.nodup_range
  · exact List.nodup_singleton 0

/-- Of a parameter outside of the tables there is one message at most. -/
theorem named_entryMsgs_plain (h : e.IsPlain) (he : e ∈ gMatchParameters) :
    named (entryMsgs N c e) e.name = ((putAt N c e 0).map Put.msg).toList := by
  obtain ⟨-, hinstance, hcolumn⟩ := h.others he
  have hmsgs : entryMsgs N c e = ((putAt N c e 0).map Put.msg).toList := by
    rw [entryMsgs, entryPuts, rowsOf, if_neg hinstance, if_neg hcolumn, List.filterMap_cons]
    cases putAt N c e 0 <;> rfl
  rw [hmsgs, named, List.filter_eq_self]
  intro m hm
  obtain ⟨p, hp, rfl⟩ := Option.map_eq_some_iff.1 (Option.mem_toList.1 hm)
  rw [name_of_putAt he hp, h.nameAt_eq he]
  exact decide_eq_true rfl

/-! ## The messages are complete -/

theorem mem_rowsOf_instance (h : e.IsInstance) {k : Nat} : k ∈ rowsOf e ↔ 1 ≤ k ∧ k ≤ e.maxNumInstance := by
  rw [rowsOf, if_pos h, List.mem_range'_1]
  omega

theorem mem_rowsOf_column (h : e.IsColumn) {k : Nat} : k ∈ rowsOf e ↔ k < e.maxNumInstance := by
  rw [rowsOf, if_neg h.not_isInstance, if_pos h, List.mem_range]

/-- The object of a table stands before its columns. -/
theorem split_table {d : MatchParameter} (he : e ∈ gMatchParameters) (hinstance : e.IsInstance) (hd : d ∈ gMatchParameters)
    (hcolumn : d.IsColumn) (happ : d.conflibAppID = e.conflibAppID) : ∃ xs ys, gMatchParameters = xs ++ e :: ys ∧ d ∈ ys := by
  obtain ⟨xs, ys, hsplit⟩ := List.append_of_mem he
  have hfirst : gMatchParameters.Pairwise _ := matchTable.instances
  rw [hsplit] at hd hfirst
  rw [List.pairwise_append, List.pairwise_cons] at hfirst
  refine ⟨xs, ys, hsplit, ?_⟩
  rcases List.mem_append.1 hd with hx | hy
  · exact absurd ⟨hcolumn, hinstance, happ⟩ (hfirst.2.2 d hx e List.mem_cons_self)
  · rcases List.mem_cons.1 hy with rfl | hy
    · exact absurd hinstance hcolumn.2.1
    · exact hy

/-- Messages of two entries are sent in the order of the table. -/
theorem sublist_allMsgs {d : MatchParameter} {xs ys : List MatchParameter} (hsplit : gMatchParameters = xs ++ e :: ys) (hd : d ∈ ys)
    {m m' : Msg} (hm : m ∈ entryMsgs N c e) (hm' : m' ∈ entryMsgs N c d) : [m, m'].Sublist (allMsgs N c wanIp) := by
  have hall : allMsgs N c wanIp = (xs.flatMap fun e => entryMsgs N c e) ++ (entryMsgs N c e ++
      ((ys.flatMap fun e => entryMsgs N c e) ++ ((urlPuts wanIp).map Put.msg ++ [.initEnd]))) := by
    unfold allMsgs allPuts
    rw [hsplit, List.flatMap_append, List.flatMap_cons]
    simp only [List.map_append, List.map_flatMap, List.append_assoc]
    rfl
  rw [hall]
  refine List.Sublist.trans ?_ (List.sublist_append_right _ _)
  refine List.Sublist.append (List.singleton_sublist.2 hm) ?_
  exact List.singleton_sublist.2 (List.mem_append_left _ (List.mem_flatMap.2 ⟨d, hd, hm'⟩))

theorem putAt_instance (h : e.IsInstance) {k : Nat} (hrow : c.HasRow e k) :
    putAt N c e k = some ⟨e.name, [], .addObject (e.nameAt k)⟩ := by
  rw [putAt, if_pos h, if_neg]
  rw [Option.isNone_iff_eq_none]
  exact Option.isSome_iff_ne_none.1 hrow

theorem putAt_eq_none (h : e.IsInstance ∨ e.IsColumn) (he : e ∈ gMatchParameters) (htyped : c.Typed N) {k : Nat}
    (hrow : ¬c.HasRow e k) : putAt N c e k = none := by
  unfold putAt
  rcases h with hinstance | hcolumn
  · rw [if_pos hinstance, if_pos (by simpa [Configuration.HasRow] using hrow)]
  · have hnone : c.readTableParameter e.conflibAppID k (N.ofParID e.conflibParID) = none := by
      rw [← Option.not_isSome_iff_eq_none, htyped.columns e he hcolumn k]
      exact hrow
    rw [if_neg hcolumn.not_isInstance, if_pos hcolumn, hnone, Option.bind_none]

/-- **The messages are complete** when no table has its last row. -/
theorem complete_allMsgs (hwell : c.WellFormed N) (hdecode : Decodable N c)
    (hlast : ∀ e ∈ gMatchParameters, e.IsInstance → ¬c.HasRow e e.maxNumInstance) : Complete N c (allMsgs N c wanIp) := by
  have hobject : ∀ e ∈ gMatchParameters, e.IsInstance → ∀ k, c.HasRow e k →
      named (allMsgs N c wanIp) (e.nameAt k) = [.addObject (e.nameAt k)] := by
    intro e he hinstance k hrow
    rw [named_allMsgs he, named_entryMsgs (.inl hinstance) he,
      if_pos ((mem_rowsOf_instance hinstance).2 (hwell.rows e he hinstance k hrow)), putAt_instance hinstance hrow]
    rfl
  constructor
  case objects => exact hobject
  case columns =>
    intro e he hinstance k hrow d hd hcolumn happ
    obtain ⟨hpos, hle⟩ := hwell.rows e he hinstance k hrow
    have hmaxe := (wellFlagged_of_mem he).2.2.1 (.inl hinstance)
    have hmaxd := (wellFlagged_of_mem hd).2.2.1 (.inr hcolumn)
    have hlt : k < d.maxNumInstance := by
      have hne : k ≠ e.maxNumInstance := fun heq => hlast e he hinstance (heq ▸ hrow)
      omega
    have hsome := (hwell.columns d hd hcolumn k).2 (by rw [Configuration.HasRow, happ]; exact hrow)
    obtain ⟨v, hread⟩ := Option.isSome_iff_exists.1 hsome
    obtain ⟨text, htext⟩ := hdecode.columnText hmaxd hlt hread
    obtain ⟨value, hvalue⟩ := Option.isSome_iff_exists.1 (hwell.columnValues d hd hcolumn k v text hread htext)
    have hput : putAt N c d k = some ⟨d.name, text, .setValue (d.nameAt k) value⟩ := by
      rw [putAt, if_neg hcolumn.not_isInstance, if_pos hcolumn, hread]
      simp only [Option.bind_some, htext, hvalue, Option.map_some]
    refine ⟨v, text, value, hread, htext, hvalue, ?_, ?_⟩
    · rw [named_allMsgs hd, named_entryMsgs (.inr hcolumn) hd, if_pos ((mem_rowsOf_column hcolumn).2 hlt), hput]
      rfl
    · obtain ⟨xs, ys, hsplit, hdys⟩ := split_table he hinstance hd hcolumn happ
      refine sublist_allMsgs hsplit hdys (mem_entryMsgs.2 ?_) (mem_entryMsgs.2 ?_)
      · exact ⟨k, (mem_rowsOf_instance hinstance).2 ⟨hpos, hle⟩, _, putAt_instance hinstance hrow, rfl⟩
      · exact ⟨k, (mem_rowsOf_column hcolumn).2 hlt, _, hput, rfl⟩
  case plain =>
    intro e he hplain v hread
    obtain ⟨-, hinstance, hcolumn⟩ := hplain.others he
    obtain ⟨value, hvalue⟩ := Option.isSome_iff_exists.1 (hwell.plainValues e he hplain v hread)
    refine ⟨value, hvalue, ?_⟩
    have hnamed : named (allMsgs N c wanIp) (e.nameAt 0) = named (entryMsgs N c e) (e.nameAt 0) := named_allMsgs he 0
    rw [hplain.nameAt_eq he, named_entryMsgs_plain hplain he] at hnamed
    rw [hnamed, putAt, if_neg hinstance, if_neg hcolumn, if_pos hplain, hread]
    simp only [Option.bind_some, hvalue, Option.map_some]
    rfl
  case nothing =>
    have hnone : ∀ e ∈ gMatchParameters, e.IsInstance ∨ e.IsColumn → ∀ k, ¬c.HasRow e k →
        named (allMsgs N c wanIp) (e.nameAt k) = [] := by
      intro e he hkind k hrow
      rw [named_allMsgs he, named_entryMsgs hkind he, putAt_eq_none hkind he hwell.toTyped hrow]
      exact ite_self _
    intro e he hinstance k hrow
    refine ⟨hnone e he (.inl hinstance) k hrow, fun d hd hcolumn happ => hnone d hd (.inr hcolumn) k ?_⟩
    rw [Configuration.HasRow, happ]
    exact hrow

/-- The last row of a table has an object without values. -/
theorem not_hasRow_of_complete (h : Complete N c (allMsgs N c wanIp)) (he : e ∈ gMatchParameters) (hinstance : e.IsInstance) :
    ¬c.HasRow e e.maxNumInstance := by
  intro hrow
  obtain ⟨-, -, hmax, hcolumns⟩ := wellFlagged_of_mem he
  obtain ⟨d, hd, hcolumn, happ⟩ := hcolumns hinstance
  obtain ⟨v, text, value, -, -, -, hnamed, -⟩ := h.columns e he hinstance _ hrow d hd hcolumn happ
  have hout : e.maxNumInstance ∉ rowsOf d := by
    rw [mem_rowsOf_column hcolumn, hmax (.inl hinstance), (wellFlagged_of_mem hd).2.2.1 (.inr hcolumn)]
    exact Nat.lt_irrefl _
  rw [named_allMsgs hd, named_entryMsgs (.inr hcolumn) hd, if_neg hout] at hnamed
  cases hnamed

/-! ## The synchronisation -/

theorem urlText_length (ip : Text) : (urlText ip).length = ip.length + 17 := by
  simp only [urlText, List.length_append, List.length_cons, List.length_nil]
  omega

/-- The address is put as the other messages are, if it goes into its buffer. -/
theorem putConnectionRequestURL_eq_done {s t : Sender} : putConnectionRequestURL wanIp s = .done t ↔
    (∀ ip, wanIp = some ip → ip.length < 15) ∧ Outcome.forEach Put.run (urlPuts wanIp) s = .done (.ok t) := by
  cases wanIp with
  | none => simp [putConnectionRequestURL, urlPuts, Outcome.forEach]
  | some ip =>
    have hputs : urlPuts (some ip) = (some (⟨connectionRequestURL.toList, urlText ip,
      .setValue connectionRequestURL.toList (.text (urlText ip))⟩ : Put)).toList := rfl
    have hrun : ∀ x : Outcome Sender, x.map (Except.ok (ε := List (List Msg))) = .done (.ok t) ↔ x = .done t := by
      intro x
      rw [Outcome.map_eq_done]
      simp
    unfold putConnectionRequestURL
    simp only [hputs, forEach_run_toList, Put.run, hrun, urlText_length, Option.some.injEq, forall_eq']
    by_cases hlen : ip.length < 15
    · rw [if_neg (by omega)]
      exact (and_iff_right hlen).symm
    · rw [if_pos (by omega)]
      exact iff_of_false (fun h => by cases h) fun h => hlen h.1

/-- **The run** puts the messages, and succeeds exactly when they can be put. -/
theorem build_eq_done (htyped : c.Typed N) {sent : List (List Msg)} :
    buildTcmAgentParameters N c wanIp = .done ⟨0, sent⟩ ↔ Decodable N c ∧ (∀ ip, wanIp = some ip → ip.length < 15) ∧
      ∃ t, Outcome.forEach Put.run (allPuts N c wanIp) ⟨[], [], 0⟩ = .done (.ok t) ∧ sent = t.notify.sent ++ [[.initEnd]] := by
  unfold buildTcmAgentParameters allPuts
  rw [Outcome.bind_eq_done]
  constructor
  · rintro ⟨r, hloop, hrest⟩
    have hdecode := decodable_of_done htyped hloop
    cases r with
    | error sent => cases hrest
    | ok s =>
      obtain ⟨t, hurl, hsent⟩ := Outcome.map_eq_done.1 hrest
      obtain ⟨haddress, hrun⟩ := putConnectionRequestURL_eq_done.1 hurl
      rw [forEach_buildEntry htyped hdecode] at hloop
      cases hsent
      refine ⟨hdecode, haddress, t, ?_, rfl⟩
      rw [Outcome.forEach_append, hloop]
      exact hrun
  · rintro ⟨hdecode, haddress, t, hrun, rfl⟩
    rw [Outcome.forEach_append, Outcome.andThen, Outcome.bind_eq_done] at hrun
    obtain ⟨r, hloop, hrest⟩ := hrun
    refine ⟨r, (forEach_buildEntry htyped hdecode _).trans hloop, ?_⟩
    cases r with
    | error sent => cases hrest
    | ok s =>
      exact Outcome.map_eq_done.2 ⟨t, putConnectionRequestURL_eq_done.2 ⟨haddress, hrest⟩, rfl⟩

theorem sent_flatten {t : Sender} (ht : t.messages = (allPuts N c wanIp).map Put.msg) :
    (t.notify.sent ++ [[Msg.initEnd]]).flatten = allMsgs N c wanIp := by
  rw [allMsgs, ← ht]
  simp [Sender.notify, Sender.messages]

/-- What is sent by a run that succeeds is all messages, and they fit, whatever the configuration is like. -/
theorem flatten_of_build {sent : List (List Msg)} (h : buildTcmAgentParameters N c wanIp = .done ⟨0, sent⟩) :
    sent.flatten = allMsgs N c wanIp ∧ Fits 0 (allPuts N c wanIp) := by
  unfold buildTcmAgentParameters at h
  obtain ⟨r, hloop, hrest⟩ := Outcome.bind_eq_done.1 h
  cases r with
  | error sent' => cases hrest
  | ok s =>
    obtain ⟨t, hurl, hsent⟩ := Outcome.map_eq_done.1 hrest
    have hrun : Outcome.forEach Put.run (allPuts N c wanIp) ⟨[], [], 0⟩ = .done (.ok t) := by
      have hputs := Outcome.forEach_ok_of (fun e he s t => buildEntry_ok he) hloop
      rw [allPuts, Outcome.forEach_append, ← Outcome.forEach_forEach, hputs]
      exact (putConnectionRequestURL_eq_done.1 hurl).2
    have hfits := fits_of_forEach_run hrun
    obtain ⟨t', hrun', hmessages⟩ := forEach_run hfits
    obtain rfl : t = t' := by
      rw [hrun] at hrun'
      exact Except.ok.inj (Outcome.done.inj hrun')
    cases hsent
    exact ⟨sent_flatten hmessages, hfits⟩

theorem accounts_providers :
    ((∃ e ∈ gMatchParameters, e.IsInstance ∧ e.conflibAppID = .app .account) ∧
      ∃ d ∈ gMatchParameters, d.IsColumn ∧ d.conflibAppID = .app .account ∧ d.conflibParID = .para .accountCpassword) ∧
    (∃ e ∈ gMatchParameters, e.IsInstance ∧ e.conflibAppID = .app .hnsp ∧ e.maxNumInstance = 32) ∧
      ∀ d ∈ gMatchParameters, d.IsColumn → d.conflibAppID = .app .hnsp → d.type = .string := by
  decide +kernel

/-- The rows of the accounts are looked at when no table has its last row. -/
theorem account_row_lt (hwell : c.WellFormed N) (hlast : ∀ e ∈ gMatchParameters, e.IsInstance → ¬c.HasRow e e.maxNumInstance)
    {k : Nat} {v : Text} (hread : c.readTableParameter (.app .account) k (N.number .accountCpassword) = some v) :
    k < maxNumOfRuleInstance := by
  obtain ⟨⟨⟨e, he, hinstance, happ⟩, d, hd, hcolumn, happ', hpar⟩, -⟩ := accounts_providers
  have hrow : c.HasRow e k := by
    have hrow := (hwell.columns d hd hcolumn k).1 (by rw [happ', hpar]; exact Option.isSome_iff_exists.2 ⟨v, hread⟩)
    rwa [Configuration.HasRow, happ', ← happ] at hrow
  have hmax := (wellFlagged_of_mem he).2.2.1 (.inl hinstance)
  have hne : k ≠ e.maxNumInstance := fun heq => hlast e he hinstance (heq ▸ hrow)
  have hle := (hwell.rows e he hinstance k hrow).2
  omega

/-- **The synchronisation at the start** is complete exactly when no table has its last row, the passwords can be decoded, and the
address and the packets go into their buffers. -/
theorem synchronised_iff (hwell : c.WellFormed N) : Synchronised N c wanIp ↔ Synchronisable N c wanIp := by
  constructor
  · rintro ⟨sent, hbuild, hcomplete⟩
    obtain ⟨hdecode, haddress, -⟩ := (build_eq_done hwell.toTyped).1 hbuild
    obtain ⟨hflatten, hfits⟩ := flatten_of_build hbuild
    rw [hflatten] at hcomplete
    have hlast := fun e he => not_hasRow_of_complete (e := e) hcomplete he
    exact ⟨hlast, fun k v hread => hdecode k (account_row_lt hwell hlast hread) v hread, haddress, hfits⟩
  · rintro ⟨hlast, hpasswords, haddress, hpackets⟩
    have hdecode : Decodable N c := fun k _ => hpasswords k
    obtain ⟨t, hrun, hmessages⟩ := forEach_run (s := ⟨[], [], 0⟩) hpackets
    refine ⟨_, (build_eq_done hwell.toTyped).2 ⟨hdecode, haddress, t, hrun, rfl⟩, ?_⟩
    rw [sent_flatten hmessages]
    exact complete_allMsgs hwell hdecode hlast

/-- Numbers of parameters. -/
def headerNumbers : ParaNumbers where
  number
    | .routeMask => 2
    | .routeNexthoptype => 3
    | .routeNexthoptypeinterface => 4
    | .routeNexthoptypeip => 5
    | .routeMetric => 6
    | _ => 1
  pos p := by split <;> decide
  accessMode := rfl
  nextHopType := rfl

/-- A configuration with an address in the local network, or none, and service providers in rows of their table. -/
def providers (lanIp : Option Text) (rows : List Nat) : Configuration where
  readParameter app _ := if app = .app .lan then lanIp else none
  readTableParameter app k _ := if app = .app .hnsp ∧ k ∈ rows then some ['x'] else none

theorem mem_of_providers_hasRow {lanIp : Option Text} {rows : List Nat} {e : MatchParameter} {k : Nat}
    (h : (providers lanIp rows).HasRow e k) : k ∈ rows := by
  by_contra hne
  simp [Configuration.HasRow, providers, hne] at h

theorem type_of_lan : ∀ e ∈ gMatchParameters, e.conflibAppID = .app .lan → e.type = .string := by decide +kernel

theorem providers_wellFormed (lanIp : Option Text) {rows : List Nat} (hrows : ∀ k ∈ rows, 1 ≤ k ∧ k ≤ 32) :
    (providers lanIp rows).WellFormed headerNumbers where
  rows e he hinstance k hrow := by
    rw [(wellFlagged_of_mem he).2.2.1 (.inl hinstance)]
    exact hrows k (mem_of_providers_hasRow hrow)
  columns d _ _ k := Iff.rfl
  plainValues e he _ v hread := by
    have happ : e.conflibAppID = .app .lan := by
      by_contra hne
      simp [providers, hne] at hread
    rw [nodeValue, if_pos (type_of_lan e he happ)]
    rfl
  columnValues d hd hcolumn k v text hread htext := by
    have happ : d.conflibAppID = .app .hnsp := by
      by_contra hne
      simp [providers, hne] at hread
    rw [nodeValue, if_pos (accounts_providers.2.2 d hd hcolumn happ)]
    rfl

/-- A configuration with one service provider. -/
def oneProvider (row : Nat) : Configuration := providers none [row]

theorem oneProvider_wellFormed (row : Nat) (hpos : 1 ≤ row) (hle : row ≤ 32) : (oneProvider row).WellFormed headerNumbers :=
  providers_wellFormed none fun _ hk => List.mem_singleton.1 hk ▸ ⟨hpos, hle⟩

theorem providers_account (lanIp : Option Text) (rows : List Nat) (k : Nat) (para : Int) :
    (providers lanIp rows).readTableParameter (.app .account) k para = none := by
  simp [providers]

/-- The start succeeds for the provider in the first row. -/
theorem build_first : ∃ sent, buildTcmAgentParameters headerNumbers (oneProvider 1) none = .done ⟨0, sent⟩ := by
  have hwell := oneProvider_wellFormed 1 (by decide) (by decide)
  have hfits : Fits 0 (allPuts headerNumbers (oneProvider 1) none) := by decide +kernel
  obtain ⟨t, hrun, -⟩ := forEach_run (s := ⟨[], [], 0⟩) hfits
  have haddress : ∀ ip : Text, none = some ip → ip.length < 15 := fun ip h => nomatch h
  have hdecode : Decodable headerNumbers (oneProvider 1) := by
    intro k _ v hread
    rw [oneProvider, providers_account] at hread
    cases hread
  exact ⟨t.notify.sent ++ [[.initEnd]], (build_eq_done hwell.toTyped).2 ⟨hdecode, haddress, t, hrun, rfl⟩⟩

/-- Two providers and the addresses are told completely. -/
theorem synchronised_first :
    Synchronised headerNumbers (providers (some "192.168.1.1".toList) [1, 2]) (some "10.20.30.40".toList) := by
  refine (synchronised_iff (providers_wellFormed _ (by decide))).2 ⟨fun e he hinstance hrow => ?_, ?_, ?_, ?_⟩
  · have hmem := mem_of_providers_hasRow hrow
    rw [(wellFlagged_of_mem he).2.2.1 (.inl hinstance)] at hmem
    exact absurd hmem (by decide)
  · intro k v hread
    rw [providers_account] at hread
    cases hread
  · intro ip h
    rw [← Option.some.inj h]
    decide
  · decide +kernel

/-- The provider in the last row is told without its identifier. -/
theorem not_synchronised_last : (oneProvider 32).WellFormed headerNumbers ∧ ¬Synchronised headerNumbers (oneProvider 32) none := by
  have hwell := oneProvider_wellFormed 32 (by decide) (by decide)
  refine ⟨hwell, ?_⟩
  rintro ⟨sent, hbuild, hcomplete⟩
  rw [(flatten_of_build hbuild).1] at hcomplete
  obtain ⟨e, he, hinstance, happ, hmax⟩ := accounts_providers.2.1
  refine not_hasRow_of_complete hcomplete he hinstance ?_
  rw [Configuration.HasRow, happ, hmax]
  rfl

end CodeFactory.Tcm
