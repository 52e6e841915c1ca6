import CodeFactory.Sched.Dls

/-!
# Registrations for events

`interest.c`. `interest_findByType` and `interest_findInfo` have no `return` behind their loops: what they give when nothing is found
is undefined, and every caller uses it. The branches of the callers for a null pointer are never taken.
-/

namespace CodeFactory.Sched

open Oal

def interestFindByType (evs : List EvtInterest) (type : BitVec 32) : Outcome (Option EvtInterest) :=
  match evs.find? fun ev => ev.type = type with
  | some ev => .done (some ev)
  | none => .undefined

def interestFindInfo (ev : EvtInterest) (eid : BitVec 32) : Outcome (Option EvtInterestInfo) :=
  match ev.evtInfos.find? fun info => info.eid = eid with
  | some info => .done (some info)
  | none => .undefined

/-- Change the first registration list of the event type. -/
def modifyEvtInterest (type : BitVec 32) (f : EvtInterest → EvtInterest) : List EvtInterest → List EvtInterest
  | [] => []
  | ev :: evs => if ev.type = type then f ev :: evs else ev :: modifyEvtInterest type f evs

/-- The second half of `interest_register`: a registration is put at the head of the list of its event. -/
def registerInfo (evs : List EvtInterest) (ev : EvtInterest) (eid : BitVec 32) (matchData : Option (List UInt8)) :
    Outcome (TcmRet × List EvtInterest) :=
  (interestFindInfo ev eid).map fun
    | some _ => (.invalidArguments, evs)
    | none => (.success, modifyEvtInterest ev.type (fun ev => { ev with evtInfos := ⟨eid, matchData⟩ :: ev.evtInfos }) evs)

def interestRegister (evs : List EvtInterest) (type eid : BitVec 32) (matchData : Option (List UInt8)) :
    Outcome (TcmRet × List EvtInterest) :=
  (interestFindByType evs type).bind fun
    | some ev => registerInfo evs ev eid matchData
    | none => registerInfo (⟨type, []⟩ :: evs) ⟨type, []⟩ eid matchData

/-- The end of `interest_unregister`: the registration is taken out of its list, and the list when it is empty. -/
def unlinkInfo (evs : List EvtInterest) (ev : EvtInterest) (eid : BitVec 32) : List EvtInterest :=
  if (ev.evtInfos.eraseP fun info => info.eid = eid) = [] then evs.eraseP fun e => e.type = ev.type
  else modifyEvtInterest ev.type (fun ev => { ev with evtInfos := ev.evtInfos.eraseP fun info => info.eid = eid }) evs

def interestUnregister (evs : List EvtInterest) (type eid : BitVec 32) : Outcome (TcmRet × List EvtInterest) :=
  (interestFindByType evs type).bind fun
    | none => .done (.invalidArguments, evs)
    | some ev => (interestFindInfo ev eid).map fun
      | none => (.invalidArguments, evs)
      | some _ => (.success, unlinkInfo evs ev eid)

/-- The inner loop of `interest_unregisterAll`: the first event that the application is registered for. -/
def firstInterest (eid : BitVec 32) : List EvtInterest → Outcome (Option EvtInterest)
  | [] => .done none
  | ev :: evs => (interestFindInfo ev eid).bind fun
    | some _ => .done (some ev)
    | none => firstInterest eid evs

/-- The outer loop of `interest_unregisterAll`, which takes out one registration a round. -/
def unregisterRounds (eid : BitVec 32) : Nat → List EvtInterest → Outcome (List EvtInterest)
  | 0, _ => .outOfFuel
  | fuel + 1, evs => (firstInterest eid evs).bind fun
    | none => .done evs
    | some ev => (interestUnregister evs ev.type eid).bind fun r => unregisterRounds eid fuel r.2

/-- How many registrations there are. -/
def numRegistrations (evs : List EvtInterest) : Nat := (evs.flatMap EvtInterest.evtInfos).length

/-- `interest_unregisterAll`, with a round for every registration and a last one. -/
def interestUnregisterAll (evs : List EvtInterest) (eid : BitVec 32) : Outcome (List EvtInterest) :=
  unregisterRounds eid (numRegistrations evs + 1) evs

/-! ## Taking out everything -/

/-- Every event that is registered for is registered for by the application, and by no other one. -/
def SolelyOf (eid : BitVec 32) (evs : List EvtInterest) : Prop :=
  ∀ ev ∈ evs, ev.evtInfos ≠ [] ∧ ∀ info ∈ ev.evtInfos, info.eid = eid

variable {evs evs' : List EvtInterest} {ev : EvtInterest} {eid : BitVec 32}

theorem interestFindInfo_eq_done {r : Option EvtInterestInfo} :
    interestFindInfo ev eid = .done r ↔ ∃ info, ev.evtInfos.find? (fun info => info.eid = eid) = some info ∧ r = some info := by
  unfold interestFindInfo
  split
  · rename_i info hinfo
    rw [hinfo]
    simp [eq_comm]
  · rename_i hnone
    rw [hnone]
    simp

/-- A round of `interest_unregisterAll` looks at the first event only: a registration of the application has to be there. -/
theorem unregisterRounds_cons {fuel : Nat} {info : EvtInterestInfo}
    (hinfo : ev.evtInfos.find? (fun info => info.eid = eid) = some info) :
    unregisterRounds eid (fuel + 1) (ev :: evs) = unregisterRounds eid fuel
      (if (ev.evtInfos.eraseP fun info => info.eid = eid) = [] then evs
        else { ev with evtInfos := ev.evtInfos.eraseP fun info => info.eid = eid } :: evs) := by
  have hfind : interestFindInfo ev eid = .done (some info) := interestFindInfo_eq_done.2 ⟨info, hinfo, rfl⟩
  have htype : interestFindByType (ev :: evs) ev.type = .done (some ev) := by
    rw [interestFindByType, List.find?_cons, decide_eq_true rfl]
  rw [unregisterRounds, firstInterest, hfind, Outcome.bind_done, Outcome.bind_done]
  simp only
  rw [interestUnregister, htype, Outcome.bind_done]
  simp only
  rw [hfind, Outcome.map, Outcome.bind_done, Outcome.bind_done]
  simp only [unlinkInfo, modifyEvtInterest, if_true]
  split
  · rw [List.eraseP_cons_of_pos (by simp)]
  · rfl

/-- What is left of a list that is solely of one application when a registration is taken out. -/
theorem SolelyOf.erase (h : SolelyOf eid (ev :: evs)) :
    SolelyOf eid (if (ev.evtInfos.eraseP fun info => info.eid = eid) = [] then evs
      else { ev with evtInfos := ev.evtInfos.eraseP fun info => info.eid = eid } :: evs) := by
  have hrest : SolelyOf eid evs := fun e he => h e (List.mem_cons_of_mem _ he)
  split
  · exact hrest
  · rename_i hne
    intro e he
    rcases List.mem_cons.1 he with rfl | he
    · exact ⟨hne, fun info hi => (h ev List.mem_cons_self).2 info (List.mem_of_mem_eraseP hi)⟩
    · exact hrest e he

theorem numRegistrations_cons : numRegistrations (ev :: evs) = ev.evtInfos.length + numRegistrations evs := by
  rw [numRegistrations, List.flatMap_cons, List.length_append, numRegistrations]

theorem exists_erased {infos : List EvtInterestInfo} {info : EvtInterestInfo}
    (h : infos.find? (fun info => info.eid = eid) = some info) : ∃ first l₁ l₂, first.eid = eid ∧ infos = l₁ ++ first :: l₂ ∧
      (infos.eraseP fun info => info.eid = eid) = l₁ ++ l₂ := by
  have htest : decide (info.eid = eid) = true := List.find?_some (p := fun info : EvtInterestInfo => info.eid = eid) h
  obtain ⟨first, l₁, l₂, -, hfirst, hl, herase⟩ :=
    List.exists_of_eraseP (p := fun info : EvtInterestInfo => info.eid = eid) (List.mem_of_find?_eq_some h) htest
  exact ⟨first, l₁, l₂, of_decide_eq_true hfirst, hl, herase⟩

/-- A list that is solely of one application after a registration of it was taken out was so before. -/
theorem SolelyOf.of_erase {info : EvtInterestInfo} (hinfo : ev.evtInfos.find? (fun info => info.eid = eid) = some info)
    (h : SolelyOf eid (if (ev.evtInfos.eraseP fun info => info.eid = eid) = [] then evs
      else { ev with evtInfos := ev.evtInfos.eraseP fun info => info.eid = eid } :: evs)) : SolelyOf eid (ev :: evs) := by
  obtain ⟨first, l₁, l₂, hfirst, hl, herase⟩ := exists_erased hinfo
  have hev : ∀ i ∈ l₁ ++ l₂, i.eid = eid := by
    rw [herase] at h
    split at h
    · rename_i hnil
      rw [hnil]
      exact nofun
    · exact (h _ List.mem_cons_self).2
  have hrest : SolelyOf eid evs := by
    split at h
    · exact h
    · exact fun e he => h e (List.mem_cons_of_mem _ he)
  intro e he
  rcases List.mem_cons.1 he with rfl | he
  · refine ⟨by rw [hl]; simp, fun i hi => ?_⟩
    rw [hl, List.mem_append, List.mem_cons] at hi
    rcases hi with hi | rfl | hi
    · exact hev i (List.mem_append_left _ hi)
    · exact hfirst
    · exact hev i (List.mem_append_right _ hi)
  · exact hrest e he

/-- **`interest_unregisterAll` has a result** when there is no registration of another application, and it takes them all out. -/
theorem interestUnregisterAll_eq_done : interestUnregisterAll evs eid = .done evs' ↔ SolelyOf eid evs ∧ evs' = [] := by
  constructor
  · rw [interestUnregisterAll]
    generalize numRegistrations evs + 1 = fuel
    intro h
    induction fuel generalizing evs with
    | zero => cases h
    | succ fuel ih =>
      cases evs with
      | nil =>
        cases h
        exact ⟨nofun, rfl⟩
      | cons ev evs =>
        cases hinfo : ev.evtInfos.find? (fun info => info.eid = eid) with
        | none =>
          rw [unregisterRounds, firstInterest, interestFindInfo, hinfo] at h
          cases h
        | some info =>
          rw [unregisterRounds_cons hinfo] at h
          obtain ⟨hsole, hnil⟩ := ih h
          exact ⟨hsole.of_erase hinfo, hnil⟩
  · rintro ⟨hsole, rfl⟩
    rw [interestUnregisterAll]
    have hfuel : numRegistrations evs < numRegistrations evs + 1 := Nat.lt_succ_self _
    revert hfuel
    generalize numRegistrations evs + 1 = fuel
    intro hfuel
    induction fuel generalizing evs with
    | zero => exact absurd hfuel (Nat.not_lt_zero _)
    | succ fuel ih =>
      cases evs with
      | nil => rfl
      | cons ev evs =>
        obtain ⟨hne, hall⟩ := hsole ev List.mem_cons_self
        obtain ⟨info, hinfo⟩ : ∃ info, ev.evtInfos.find? (fun info => info.eid = eid) = some info := by
          obtain ⟨info, hi⟩ := List.exists_mem_of_ne_nil _ hne
          exact Option.isSome_iff_exists.1 (List.find?_isSome.2 ⟨info, hi, by simpa using hall info hi⟩)
        rw [unregisterRounds_cons hinfo]
        refine ih hsole.erase ?_
        obtain ⟨first, l₁, l₂, -, hl, herase⟩ := exists_erased hinfo
        rw [numRegistrations_cons, hl, List.length_append, List.length_cons] at hfuel
        rw [herase]
        split
        · omega
        · rw [numRegistrations_cons]
          simp only [List.length_append]
          omega

end CodeFactory.Sched
