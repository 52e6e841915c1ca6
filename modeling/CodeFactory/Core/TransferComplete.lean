import CodeFactory.Core.Session

/-!
# Results and their TransferComplete

A result stays stored until it has been reported, and is reported once. `remove_transfer_done_event` goes by the command keys: what
it removes has been reported if the results that were not sent have keys other than those that were. A result is lost too where
another one is stored under its name.
-/

namespace CodeFactory.Core

open Tr69 (Text)

/-- What has happened to the results so far: those that were stored, and those that a server has acknowledged, each time. -/
structure Ledger where
  stored : List TransferResult
  reported : List TransferResult
  deriving DecidableEq, Repr

/-- The ledger behind a step. -/
def Ledger.next (l : Ledger) (s : SessionState) : SessionEvent → Ledger
  | .store result => { l with stored := l.stored ++ [result] }
  | a => if acknowledged s a then { l with reported := l.reported ++ s.transferComplete } else l

def ledgerStep (x : SessionState × Ledger) (a : SessionEvent) : Option (SessionState × Ledger) :=
  (session x.1 a).map fun s => (s, x.2.next x.1 a)

/-- Every result that was stored either is stored still, or has been reported, once. -/
def Accounted (x : SessionState × Ledger) : Prop := (x.1.results ++ x.2.reported).Perm x.2.stored

/-- The step does right by the results. -/
structure ReportsOnce (x : SessionState × Ledger) (a : SessionEvent) (y : SessionState × Ledger) : Prop where
  /-- What is no longer stored was sent in a TransferComplete, which the step sees acknowledged. -/
  removed : ∀ result ∈ x.1.results, result ∉ y.1.results → acknowledged x.1 a = true ∧ result ∈ x.1.transferComplete
  accounted : Accounted y

/-- At an acknowledgement the results that were sent are all that have their keys; and no result is stored under the name of one that
is there. -/
def KeepsApart (x : SessionState × Ledger) : SessionEvent → Prop
  | .store result => ∀ r ∈ x.1.results, r.fileName ≠ result.fileName
  | a => acknowledged x.1 a = true → ∀ r ∈ x.1.results, ∀ sent ∈ x.1.transferComplete, sent.commandKey = r.commandKey →
    r ∈ x.1.transferComplete

instance (x : SessionState × Ledger) : (a : SessionEvent) → Decidable (KeepsApart x a)
  | .store result => inferInstanceAs (Decidable (∀ r ∈ x.1.results, r.fileName ≠ result.fileName))
  | .receive received sent => inferInstanceAs (Decidable (acknowledged x.1 (.receive received sent) = true → ∀ r ∈ x.1.results,
      ∀ sent ∈ x.1.transferComplete, sent.commandKey = r.commandKey → r ∈ x.1.transferComplete))
  | .inform _ | .transferComplete _ _ | .requestDownload _ | .sendFailed | .nullPacket _ | .restart => .isTrue nofun

/-- The files have names of their own, and what is to be sent is read from files that are there. -/
structure Listed (x : SessionState × Ledger) : Prop where
  names : (x.1.results.map TransferResult.fileName).Nodup
  nodup : x.1.transferComplete.Nodup
  stored : ∀ result ∈ x.1.transferComplete, result ∈ x.1.results
  accounted : Accounted x

section Lists

variable {results list scanned : List TransferResult} {result : TransferResult}

theorem mem_removeTransferDoneEvent :
    result ∈ removeTransferDoneEvent list results ↔ result ∈ results ∧ ∀ sent ∈ list, sent.commandKey ≠ result.commandKey := by
  simp [removeTransferDoneEvent]

/-- When no result but those sent has one of their keys, all but those are left. -/
theorem perm_removeTransferDoneEvent (hresults : results.Nodup) (hlist : list.Nodup) (hstored : ∀ r ∈ list, r ∈ results)
    (hapart : ∀ r ∈ results, ∀ sent ∈ list, sent.commandKey = r.commandKey → r ∈ list) :
    (removeTransferDoneEvent list results ++ list).Perm results := by
  have hremoved : (removeTransferDoneEvent list results).Nodup := hresults.filter _
  have hdisjoint : (removeTransferDoneEvent list results).Disjoint list := by
    intro r hr hsent
    exact (mem_removeTransferDoneEvent.1 hr).2 r hsent rfl
  refine (List.perm_ext_iff_of_nodup (hremoved.append hlist hdisjoint) hresults).2 ?_
  intro r
  rw [List.mem_append, mem_removeTransferDoneEvent]
  constructor
  · rintro (⟨hr, -⟩ | hr)
    · exact hr
    · exact hstored r hr
  · intro hr
    by_cases hkey : ∀ sent ∈ list, sent.commandKey ≠ r.commandKey
    · exact Or.inl ⟨hr, hkey⟩
    · push Not at hkey
      obtain ⟨sent, hsent, hkey⟩ := hkey
      exact Or.inr (hapart r hr sent hsent hkey)

theorem storeResult_of_new (h : ∀ r ∈ results, r.fileName ≠ result.fileName) : storeResult results result = results ++ [result] := by
  have hall : results.filter (fun r => r.fileName ≠ result.fileName) = results := by
    refine List.filter_eq_self.2 ?_
    intro r hr
    exact decide_eq_true (h r hr)
  rw [storeResult, hall]

theorem length_storeResult_le (h : ∃ r ∈ results, r.fileName = result.fileName) :
    (storeResult results result).length ≤ results.length := by
  obtain ⟨r, hr, hname⟩ := h
  have hlt : (results.filter fun r => r.fileName ≠ result.fileName).length < results.length := by
    refine List.length_filter_lt_length_iff_exists.2 ⟨r, hr, ?_⟩
    simp [hname]
  rw [storeResult, List.length_append, List.length_singleton]
  exact hlt

/-- What is read is stored, once. -/
theorem update_listed (hnodup : list.Nodup) (hstored : ∀ r ∈ list, r ∈ results) (hresults : results.Nodup)
    (hperm : scanned.Perm results) (maxMaxEnvelopes : Nat) :
    (updateTransferCompleteContent list maxMaxEnvelopes scanned).Nodup ∧
      ∀ r ∈ updateTransferCompleteContent list maxMaxEnvelopes scanned, r ∈ results := by
  unfold updateTransferCompleteContent
  split
  · exact ⟨hnodup, hstored⟩
  · refine ⟨(List.take_sublist _ _).nodup (hperm.nodup_iff.2 hresults), ?_⟩
    intro r hr
    exact hperm.mem_iff.1 (List.mem_of_mem_take hr)

end Lists

variable {x y : SessionState × Ledger} {a : SessionEvent}

theorem ledgerStep_eq_some : ledgerStep x a = some y ↔ session x.1 a = some y.1 ∧ y.2 = x.2.next x.1 a := by
  unfold ledgerStep
  constructor
  · intro h
    obtain ⟨s, hs, rfl⟩ := Option.map_eq_some_iff.1 h
    exact ⟨hs, rfl⟩
  · rintro ⟨hs, hl⟩
    rw [hs, Option.map_some, ← hl]

theorem Ledger.next_of_acknowledged {l : Ledger} {s : SessionState} (h : acknowledged s a = true) :
    l.next s a = { l with reported := l.reported ++ s.transferComplete } := by
  cases a with
  | receive received sent => simp only [next, h, if_true]
  | _ => cases h

theorem Ledger.next_of_not {l : Ledger} {s : SessionState} (h : acknowledged s a = false) (hstore : ∀ result, a ≠ .store result) :
    l.next s a = l := by
  cases a with
  | store result => exact absurd rfl (hstore result)
  | receive received sent => simp [next, h]
  | _ => rfl

/-- A step that keeps the results apart does right by them. -/
theorem Listed.step (hx : Listed x) (hg : KeepsApart x a) (h : ledgerStep x a = some y) : Listed y ∧ ReportsOnce x a y := by
  obtain ⟨hs, hl⟩ := ledgerStep_eq_some.1 h
  have hnodup : x.1.results.Nodup := hx.names.of_map _
  obtain ⟨result, rfl, hresults, hlist⟩ | ⟨hack, hresults, hlist⟩ | ⟨scanned, generated, rfl, hperm, hresults, hlist⟩ |
    ⟨hack, hstore, hresults, hlist⟩ := session_results hs
  · -- a result is stored under a new name
    have hnew : y.1.results = x.1.results ++ [result] := hresults.trans (storeResult_of_new hg)
    have hkept : ∀ r ∈ x.1.results, r ∈ y.1.results := by
      intro r hr
      rw [hnew]
      exact List.mem_append_left _ hr
    have haccounted : Accounted y := by
      have hmove : (x.1.results ++ [result] ++ x.2.reported).Perm (x.1.results ++ x.2.reported ++ [result]) := by
        rw [List.append_assoc, List.append_assoc]
        exact List.perm_append_comm.append_left x.1.results
      rw [Accounted, hnew, hl]
      exact hmove.trans (hx.accounted.append_right [result])
    refine ⟨⟨?_, hlist ▸ hx.nodup, ?_, haccounted⟩, ?_, haccounted⟩
    · rw [hnew, List.map_append, List.map_singleton]
      refine hx.names.append (List.nodup_singleton _) ?_
      intro name hname hsingle
      obtain ⟨r, hr, rfl⟩ := List.mem_map.1 hname
      exact hg r hr (List.mem_singleton.1 hsingle)
    · intro r hr
      exact hkept r (hx.stored r (hlist ▸ hr))
    · intro r hr hgone
      exact absurd (hkept r hr) hgone
  · -- the results that were sent are acknowledged
    have hapart : ∀ r ∈ x.1.results, ∀ sent ∈ x.1.transferComplete, sent.commandKey = r.commandKey → r ∈ x.1.transferComplete := by
      cases a with
      | receive received sent => exact hg hack
      | _ => cases hack
    have hremoved := perm_removeTransferDoneEvent hnodup hx.nodup hx.stored hapart
    have haccounted : Accounted y := by
      rw [Accounted, hresults, hl, Ledger.next_of_acknowledged hack]
      refine List.Perm.trans ?_ hx.accounted
      refine (List.perm_append_comm_assoc _ _ _).trans ?_
      refine List.Perm.trans ?_ List.perm_append_comm
      exact hremoved.append_left _
    refine ⟨⟨?_, hlist ▸ List.nodup_nil, ?_, haccounted⟩, ?_, haccounted⟩
    · rw [hresults]
      exact hx.names.sublist (List.filter_sublist.map _)
    · intro r hr
      rw [hlist] at hr
      cases hr
    · intro r hr hgone
      refine ⟨hack, ?_⟩
      rw [hresults, mem_removeTransferDoneEvent] at hgone
      push Not at hgone
      obtain ⟨sent, hsent, hkey⟩ := hgone hr
      exact hapart r hr sent hsent hkey
  · -- results are read
    obtain ⟨hread, hthere⟩ := update_listed hx.nodup hx.stored hnodup hperm x.1.gMaxSendEnvelopes
    have haccounted : Accounted y := by
      rw [Accounted, hresults, hl]
      exact hx.accounted
    refine ⟨⟨hresults ▸ hx.names, hlist ▸ hread, ?_, haccounted⟩, ?_, haccounted⟩
    · rw [hlist, hresults]
      exact hthere
    · intro r hr hgone
      rw [hresults] at hgone
      exact absurd hr hgone
  · have haccounted : Accounted y := by
      rw [Accounted, hresults, hl, Ledger.next_of_not hack hstore]
      exact hx.accounted
    refine ⟨⟨hresults ▸ hx.names, ?_, ?_, haccounted⟩, ?_, haccounted⟩
    · rcases hlist with hlist | hlist
      · exact hlist ▸ hx.nodup
      · exact hlist ▸ List.nodup_nil
    · intro r hr
      rw [hresults]
      rcases hlist with hlist | hlist
      · exact hx.stored r (hlist ▸ hr)
      · rw [hlist] at hr
        cases hr
    · intro r hr hgone
      rw [hresults] at hgone
      exact absurd hr hgone

/-- A step that does not loses a result. -/
theorem Listed.breaks (hx : Listed x) (hg : ¬KeepsApart x a) (h : ledgerStep x a = some y) : ¬Accounted y := by
  obtain ⟨hs, hl⟩ := ledgerStep_eq_some.1 h
  intro hy
  obtain ⟨result, rfl, hresults, _⟩ | ⟨hack, hresults, _⟩ | ⟨scanned, generated, rfl, _⟩ | ⟨hack, hstore, _⟩ := session_results hs
  · -- a result is written over: there is one less than there should be
    simp only [KeepsApart] at hg
    push Not at hg
    have hlength := length_storeResult_le hg
    have hbefore := hx.accounted.length_eq
    have hafter := hy.length_eq
    rw [hresults, hl] at hafter
    simp only [Ledger.next, List.length_append, List.length_singleton] at hafter hbefore
    omega
  · -- a result is removed that was not sent
    have hlost : ∃ r ∈ x.1.results, ∃ sent ∈ x.1.transferComplete, sent.commandKey = r.commandKey ∧ r ∉ x.1.transferComplete := by
      cases a with
      | receive received sent =>
        simp only [KeepsApart] at hg
        push Not at hg
        exact hg.2
      | _ => cases hack
    obtain ⟨r, hr, sent, hsent, hkey, hnot⟩ := hlost
    have hperm : (y.1.results ++ x.1.transferComplete).Perm x.1.results := by
      have hafter : (y.1.results ++ (x.2.reported ++ x.1.transferComplete)).Perm (x.1.results ++ x.2.reported) := by
        have hy' := hy
        rw [Accounted, hl, Ledger.next_of_acknowledged hack] at hy'
        exact hy'.trans hx.accounted.symm
      refine (List.perm_append_left_iff x.2.reported).1 ?_
      exact (List.perm_append_comm_assoc _ _ _).trans (hafter.trans List.perm_append_comm)
    rcases List.mem_append.1 (hperm.mem_iff.2 hr) with hkept | hsent'
    · rw [hresults] at hkept
      exact (mem_removeTransferDoneEvent.1 hkept).2 sent hsent hkey
    · exact hnot hsent'
  · exact hg nofun
  · cases a with
    | store result => exact absurd rfl (hstore result)
    | receive received sent =>
      refine hg ?_
      intro hack'
      rw [hack] at hack'
      cases hack'
    | _ => exact hg nofun

/-- **Results are removed when they have been reported, and reported once**, in every run in which no result is stored under the name
of one that is there, and at every acknowledgement the results sent are all that have their keys; and in no other run. -/
theorem transfer_results_reported_iff {s₀ : SessionState} (hnames : (s₀.results.map TransferResult.fileName).Nodup)
    (hlist : s₀.transferComplete = []) {tr : List (Transition (SessionState × Ledger) SessionEvent)} {x : SessionState × Ledger}
    (hr : Run (Step.ofOption ledgerStep) (s₀, ⟨s₀.results, []⟩) tr x) : Always ReportsOnce tr ↔ Meets KeepsApart tr := by
  have hstart : Listed (s₀, ⟨s₀.results, []⟩) := by
    refine ⟨hnames, hlist ▸ List.nodup_nil, ?_, ?_⟩
    · intro r hr
      rw [hlist] at hr
      cases hr
    · simp [Accounted]
  refine Run.all_iff (I := Listed) hstart ?_ ?_ hr
  · intro x a y hx hg hs
    exact hx.step hg hs
  · intro x a y hx hg hs hok
    exact hx.breaks hg hs hok.accounted

/-- The results of two downloads, with the command keys given. -/
def twoResults (first second : String) : List TransferResult :=
  [⟨"down_eventcode.0".toList, first.toList, 0, [], []⟩, ⟨"down_eventcode.1".toList, second.toList, 0, [], []⟩]

/-- A session, up to the acknowledgement of the first TransferComplete. -/
def oneTransferComplete (first second : String) : List SessionEvent :=
  [.inform none, .receive (.packet (serverPacket [] "InformResponse") false) true, .transferComplete (twoResults first second) true,
    .receive (.packet (serverPacket [] "TransferCompleteResponse") false) true]

def transferRun (first second : String) : List (Transition (SessionState × Ledger) SessionEvent) :=
  (play ledgerStep (.init (twoResults first second), ⟨twoResults first second, []⟩) (oneTransferComplete first second)).1

/-- Results with keys of their own are reported. -/
theorem transfer_results_reported_apart : Always ReportsOnce (transferRun "a" "b") :=
  (transfer_results_reported_iff (by decide +kernel) rfl (Run.ofPlay ledgerStep _ _)).2 (by decide +kernel)

/-- Of two results with one key the second one is removed, and has not been reported. -/
theorem transfer_result_lost : ¬∀ (s₀ : SessionState), (s₀.results.map TransferResult.fileName).Nodup → s₀.transferComplete = [] →
    ∀ (tr : List (Transition (SessionState × Ledger) SessionEvent)) (x : SessionState × Ledger),
      Run (Step.ofOption ledgerStep) (s₀, ⟨s₀.results, []⟩) tr x → Always ReportsOnce tr := by
  intro h
  have hok := h (.init (twoResults "a" "a")) (by decide +kernel) rfl _ _
    (Run.ofPlay ledgerStep (.init (twoResults "a" "a"), ⟨twoResults "a" "a", []⟩) (oneTransferComplete "a" "a"))
  have hlost : ∃ y ∈ transferRun "a" "a", ¬(y.2.2.1.results ++ y.2.2.2.reported).Perm y.2.2.2.stored := by
    decide +kernel
  obtain ⟨y, hy, hlost⟩ := hlost
  exact hlost (hok y hy).accounted

end CodeFactory.Core
