import CodeFactory.Sched.Moves

/-!
# The records that a message is handled with

`sched_processMessage` keeps the record of the sender while a handler may free it, the response to a message that bounces goes to the
record of its source without a look whether there is one, and the look-ups of registrations give nothing defined when they find nothing.
-/

namespace CodeFactory.Sched

open Oal Msg

namespace Scheduler

/-! ## What is claimed of a message -/

/-- The requests that the scheduler answers. -/
def IsRequest (type : BitVec 32) : Prop :=
  type = tcmMsgRegisterEventInterest ∨ type = tcmMsgUnregisterEventInterest ∨ type = tcmMsgStartApp ∨ type = tcmMsgStopApp ∨
    type = tcmMsgRestartApp ∨ type = tcmMsgIsAppRunning

/-- A message bounces when its destination does not run. -/
def Bounces (s : Scheduler) (msg : TcmMsg) : Prop :=
  msg.bounceIfNotRunning = true ∧ notRunningFor (getExistingDlsInfo s msg.dst) = true

/-- A message requires a response: a request that the scheduler answers, or one that bounces. -/
def RequiresResponse (s : Scheduler) (msg : TcmMsg) : Prop :=
  msg.requeue = false ∧ msg.event = false ∧ (msg.dst = idSched ∧ IsRequest msg.type ∨ msg.dst ≠ idSched ∧ s.Bounces msg)

/-- **What is claimed** of a message that comes in on the connection `fd` of the record `p`: it is handled with records that are there,
and a response that it requires is the one thing that is written, to the connection that it came from, if the record has it still. -/
def HandlesWell (T : EntityTable) (k : Kernel) (s : Scheduler) (p : Nat) (fd : Int) (msg : TcmMsg) : Prop :=
  ∃ t, s.schedProcessMessage T k p msg = .done t ∧
    (s.RequiresResponse msg → (∃ d, t.dlsInfos.get? p = some d ∧ d.commFd = fd) →
      ∃ rv, t.written = s.written ++ [(fd, response msg rv)])

/-! ## When it holds -/

/-- The record that a request stops. -/
def stopTarget (T : EntityTable) (s : Scheduler) (eid : BitVec 32) : Option (Nat × DlsInfo) :=
  if tcmEidGetEntityInfo T (genericEid eid) = none then none
  else (getExistingDlsInfo s eid).filter fun x => x.2.state ≠ .notRunning

/-- The record is freed when its application exits, as the application is not started again. -/
def Frees (k : Kernel) (s : Scheduler) (d : DlsInfo) : Prop :=
  isFreed d = true ∧ ¬(d.pid ≠ tcmInvalidPid ∧ relaunches d (k.collect s.asked) = true)

instance (k : Kernel) (s : Scheduler) (d : DlsInfo) : Decidable (Frees k s d) := inferInstanceAs (Decidable (_ ∧ _))

/-- A record that is freed is not that of the sender, and no other application has registered for an event. -/
def StopFits (T : EntityTable) (k : Kernel) (s : Scheduler) (p : Nat) (eid : BitVec 32) : Prop :=
  ∀ q d, stopTarget T s eid = some (q, d) → Frees k s d → q ≠ p ∧ SolelyOf d.eid s.evtInterests

/-- The event has a list of registrations, and the application is in it. -/
def Registered (evs : List EvtInterest) (type eid : BitVec 32) : Prop :=
  ∃ ev info, evs.find? (fun ev => ev.type = type) = some ev ∧ ev.evtInfos.find? (fun info => info.eid = eid) = some info

/-- What a message has to meet. -/
def HandlesWhen (T : EntityTable) (k : Kernel) (s : Scheduler) (p : Nat) (fd : Int) (msg : TcmMsg) : Prop :=
  msg.requeue = true ∨
    if msg.dst = idSched then
      if msg.event then ∃ ev, s.evtInterests.find? (fun ev => ev.type = msg.type) = some ev
      else if msg.type = tcmMsgRegisterEventInterest ∨ msg.type = tcmMsgUnregisterEventInterest then
        Registered s.evtInterests msg.wordData msg.src
      else if msg.type = tcmMsgStopApp ∨ msg.type = tcmMsgRestartApp then s.StopFits T k p msg.wordData
      else True
    else s.Bounces msg → msg.event = false → ∃ q d, getExistingDlsInfo s msg.src = some (q, d) ∧ d.commFd = fd

end Scheduler

open Scheduler

variable {T : EntityTable} {k : Kernel} {s t u : Scheduler} {p q : Nat} {d d' : DlsInfo} {msg : TcmMsg} {fd : Int}

/-! ## What keeps the records -/

/-- Nothing is written, every record stays with its connection, and none comes to an address that had one. -/
structure Keeps (s t : Scheduler) : Prop where
  written : t.written = s.written
  mark : s.dlsInfos.mark ≤ t.dlsInfos.mark
  records : ∀ q d, s.dlsInfos.get? q = some d → ∃ d', t.dlsInfos.get? q = some d' ∧ d'.commFd = d.commFd
  absent : ∀ q, q < s.dlsInfos.mark → s.dlsInfos.get? q = none → t.dlsInfos.get? q = none

theorem Keeps.refl (s : Scheduler) : Keeps s s := ⟨rfl, Nat.le_refl _, fun _ d hd => ⟨d, hd, rfl⟩, fun _ _ h => h⟩

theorem Keeps.trans (h : Keeps s t) (h' : Keeps t u) : Keeps s u := by
  refine ⟨h'.written.trans h.written, Nat.le_trans h.mark h'.mark, fun q d hd => ?_, fun q hq hnone =>
    h'.absent q (Nat.lt_of_lt_of_le hq h.mark) (h.absent q hq hnone)⟩
  obtain ⟨d', hd', hc⟩ := h.records q d hd
  obtain ⟨d'', hd'', hc'⟩ := h'.records q d' hd'
  exact ⟨d'', hd'', hc'.trans hc⟩

theorem launchedInfo_commFd (d : DlsInfo) (spawned : Option Int) : (launchedInfo d spawned).commFd = d.commFd := by
  unfold launchedInfo
  cases spawned with
  | none => rfl
  | some pid =>
    simp only
    split <;> rfl

theorem launch_keeps (hp : s.dlsInfos.get? p = some d) : Keeps s (s.launch k p d) := by
  refine ⟨?_, ?_, fun q d' hq => ?_, fun q _ hnone => ?_⟩
  · unfold launch
    split
    · rfl
    · simp only
      split <;> rfl
  · rw [launch_dlsInfos]
    split <;> exact Nat.le_refl _
  · rw [launch_dlsInfos]
    split
    · exact ⟨d', hq, rfl⟩
    · rw [Pool.get?_set_eq hp]
      split
      · rename_i hqp
        subst hqp
        obtain rfl := Option.some.inj (hp.symm.trans hq)
        exact ⟨_, rfl, launchedInfo_commFd _ _⟩
      · exact ⟨d', hq, rfl⟩
  · rw [launch_dlsInfos]
    split
    · exact hnone
    · rw [Pool.get?_set_of_ne, hnone]
      rintro rfl
      rw [hp] at hnone
      cases hnone

theorem launchApp_keeps (hp : s.dlsInfos.get? p = some d) : ∃ t, s.launchApp k p = .done t ∧ Keeps s t := by
  refine ⟨s.launch k p d, ?_, launch_keeps hp⟩
  rw [launchApp, info_eq_done.2 hp]
  rfl

theorem insertDlsInfoEntry_keeps (s : Scheduler) (eid : BitVec 32) : Keeps s (insertDlsInfoEntry T k s eid).1 := by
  have hwritten : (insertDlsInfoEntry T k s eid).1.written = s.written := by
    have hins := insertDlsInfoEntry_inserted (T := T) (k := k) s eid
    generalize insertDlsInfoEntry T k s eid = r at hins ⊢
    cases hins <;> rfl
  rcases insertDlsInfoEntry_dlsInfos (T := T) (k := k) s eid with hinfos | ⟨eInfo, c, -, hinfos⟩
  · exact ⟨hwritten, by rw [hinfos], fun q d hq => ⟨d, by rw [hinfos, hq], rfl⟩, fun q _ hnone => by rw [hinfos, hnone]⟩
  · refine ⟨hwritten, ?_, fun q d hq => ⟨d, ?_, rfl⟩, fun q hlt hnone => ?_⟩
    · rw [hinfos, Pool.mark_append]
      exact Nat.le_succ _
    · rw [hinfos, Pool.get?_append, if_neg (Nat.ne_of_lt (Pool.lt_mark hq)), hq]
    · rw [hinfos, Pool.get?_append, if_neg (Nat.ne_of_lt hlt), hnone]

/-- A record that has been made is there. -/
theorem insertDlsInfoEntry_get (eid : BitVec 32) (h : (insertDlsInfoEntry T k s eid).2 = some p) :
    ∃ d, (insertDlsInfoEntry T k s eid).1.dlsInfos.get? p = some d := by
  obtain ⟨eInfo, c, -, hinfos, rfl⟩ := insertDlsInfoEntry_some h
  rw [hinfos, Pool.get?_append, if_pos rfl]
  exact ⟨_, rfl⟩

theorem getDlsInfo_keeps (s : Scheduler) (eid : BitVec 32) : Keeps s (getDlsInfo T k s eid).1 := by
  unfold getDlsInfo
  split
  · exact Keeps.refl s
  · exact insertDlsInfoEntry_keeps s eid

theorem getDlsInfo_get (eid : BitVec 32) (h : (getDlsInfo T k s eid).2 = some p) :
    ∃ d, (getDlsInfo T k s eid).1.dlsInfos.get? p = some d := by
  unfold getDlsInfo at h ⊢
  split at h
  · rename_i q d hfound
    obtain rfl := Option.some.inj h
    exact ⟨d, (Pool.get?_of_first hfound).1⟩
  · exact insertDlsInfoEntry_get eid h

/-- Starting an application has a result. -/
theorem startApp_keeps (s : Scheduler) (eid : BitVec 32) : ∃ pid t, s.startApp T k eid = .done (pid, t) ∧ Keeps s t := by
  unfold startApp
  split
  · exact ⟨_, s, rfl, Keeps.refl s⟩
  rename_i eInfo he
  have htarget : Keeps s (startTarget T k s eInfo eid).1 ∧
      ∀ p, (startTarget T k s eInfo eid).2 = some p → ∃ d, (startTarget T k s eInfo eid).1.dlsInfos.get? p = some d := by
    unfold startTarget
    split
    · exact ⟨insertDlsInfoEntry_keeps s eid, fun p hp => insertDlsInfoEntry_get eid hp⟩
    · exact ⟨getDlsInfo_keeps s eid, fun p hp => getDlsInfo_get eid hp⟩
  obtain ⟨hkeeps, hget⟩ := htarget
  split
  · rename_i s₁ heq
    rw [heq] at hkeeps
    exact ⟨_, s₁, rfl, hkeeps⟩
  · rename_i s₁ p heq
    rw [heq] at hkeeps hget
    obtain ⟨d, hd⟩ := hget p rfl
    rw [info_eq_done.2 hd, Outcome.bind_done]
    split
    · obtain ⟨s₂, hlaunch, hkeeps₂⟩ := launchApp_keeps (k := k) hd
      obtain ⟨d', hd', -⟩ := hkeeps₂.records p d hd
      rw [hlaunch, Outcome.bind_done, info_eq_done.2 hd']
      exact ⟨_, s₂, rfl, hkeeps.trans hkeeps₂⟩
    · exact ⟨_, s₁, rfl, hkeeps⟩

/-- A message for a record that is there can be handed over. -/
theorem sendMessageByAppState_done (hp : s.dlsInfos.get? p = some d) (msg : TcmMsg) :
    ∃ t, s.sendMessageByAppState k p msg = .done t := by
  rw [sendMessageByAppState, info_eq_done.2 hp, Outcome.bind_done]
  split
  · rename_i hstate
    have hget : (s.takeMessage p d msg).dlsInfos.get? p = some { d with msgQueue := msg :: d.msgQueue } := by
      rw [dlsInfos_takeMessage, if_pos (.inl hstate)]
      exact Pool.get?_set_self hp
    obtain ⟨t, ht, -⟩ := launchApp_keeps (k := k) hget
    exact ⟨t, ht⟩
  · exact ⟨_, rfl⟩

theorem routeTo_done (s : Scheduler) (msg : TcmMsg) : ∃ t, s.routeTo T k msg = .done t := by
  unfold routeTo
  split
  · exact ⟨_, rfl⟩
  · rename_i s₁ p heq
    obtain ⟨d, hd⟩ := getDlsInfo_get (T := T) (k := k) (s := s) (p := p) msg.dst (by rw [heq])
    rw [heq] at hd
    exact sendMessageByAppState_done hd msg

theorem distributeRound_done (src : Nat) (msg : TcmMsg) (s : Scheduler) (info : EvtInterestInfo) :
    ∃ t, distributeRound T k src msg s info = .done t := by
  unfold distributeRound
  split
  · exact ⟨_, rfl⟩
  · rename_i s₁ p heq
    obtain ⟨d, hd⟩ := getDlsInfo_get (T := T) (k := k) (s := s) (p := p) info.eid (by rw [heq])
    rw [heq] at hd
    split
    · exact ⟨_, rfl⟩
    · split
      · exact ⟨_, rfl⟩
      · rw [info_eq_done.2 hd, Outcome.bind_done]
        exact sendMessageByAppState_done hd _

theorem foldl_distributeRound_done (src : Nat) (msg : TcmMsg) (s : Scheduler) (infos : List EvtInterestInfo) :
    ∃ t, Outcome.foldl (distributeRound T k src msg) s infos = .done t := by
  induction infos generalizing s with
  | nil => exact ⟨s, rfl⟩
  | cons info infos ih =>
    obtain ⟨s₁, hs₁⟩ := distributeRound_done (T := T) (k := k) src msg s info
    rw [Outcome.foldl, hs₁, Outcome.bind_done]
    exact ih s₁

/-! ## Stopping an application -/

theorem retire_written (h : s.retire p d = .done t) : t.written = s.written := by
  have hset : (if d.eInfo.monitored = true then s.fdSet d.serverFd else s).written = s.written := by
    split <;> rfl
  unfold retire at h
  simp only at h
  split at h
  · obtain ⟨evs, -, rfl⟩ := Outcome.map_eq_done.1 h
    exact hset
  · cases h
    exact hset

/-- The end of an exit has a result when the record stays, or when no other application has registered for an event. -/
theorem retire_done (s : Scheduler) (p : Nat) (d : DlsInfo) :
    (∃ t, s.retire p d = .done t) ↔ (isFreed d = true → SolelyOf d.eid s.evtInterests) := by
  have hset : (if d.eInfo.monitored = true then s.fdSet d.serverFd else s).evtInterests = s.evtInterests := by
    split <;> rfl
  unfold retire
  simp only
  by_cases hfree : isFreed d = true
  · rw [if_pos hfree, hset]
    constructor
    · rintro ⟨t, ht⟩ -
      obtain ⟨evs, hevs, -⟩ := Outcome.map_eq_done.1 ht
      exact (interestUnregisterAll_eq_done.1 hevs).1
    · intro h
      rw [interestUnregisterAll_eq_done.2 ⟨h hfree, rfl⟩]
      exact ⟨_, rfl⟩
  · rw [if_neg hfree]
    exact ⟨fun _ h => absurd h hfree, fun _ => ⟨_, rfl⟩⟩

/-- **An exit**: it has a result when the record stays, or when no other application has registered for an event; a record that stays
has no connection any more, and the other records are as they were. -/
theorem collectApp_spec (hp : s.dlsInfos.get? p = some d) :
    ((∃ t, s.collectApp k p = .done t) ↔ (Frees k s d → SolelyOf d.eid s.evtInterests)) ∧
    ∀ t, s.collectApp k p = .done t → t.written = s.written ∧ t.dlsInfos.mark = s.dlsInfos.mark ∧
      (∀ q, q ≠ p → t.dlsInfos.get? q = s.dlsInfos.get? q) ∧
      if Frees k s d then t.dlsInfos.get? p = none else ∃ d', t.dlsInfos.get? p = some d' ∧ d'.commFd = tcmInvalidFd := by
  rw [collectApp, info_eq_done.2 hp, Outcome.bind_done]
  have hget := get?_disconnect hp
  have hother : ∀ q, q ≠ p → (s.disconnect p d).dlsInfos.get? q = s.dlsInfos.get? q := by
    intro q hq
    rw [dlsInfos_disconnect, Pool.get?_set_of_ne hq]
  have hwritten : (s.disconnect p d).written = s.written := by
    unfold disconnect
    simp only
    split <;> rfl
  have hmark : (s.disconnect p d).dlsInfos.mark = s.dlsInfos.mark := by rw [dlsInfos_disconnect, Pool.mark_set]
  have hevs : (s.disconnect p d).evtInterests = s.evtInterests := by
    unfold disconnect
    simp only
    split <;> rfl
  have hasked : (s.disconnect p d).asked = s.asked := by
    unfold disconnect
    simp only
    split <;> rfl
  generalize s.disconnect p d = s₁ at hget hother hwritten hmark hevs hasked ⊢
  have hfreed : isFreed { d with msgQueue := [], commFd := tcmInvalidFd } = isFreed d := rfl
  have hrelaunches : ∀ o, relaunches { d with msgQueue := [], commFd := tcmInvalidFd } o = relaunches d o := fun _ => rfl
  have heid : DlsInfo.eid { d with msgQueue := [], commFd := tcmInvalidFd } = d.eid := rfl
  have hpid : ({ d with msgQueue := [], commFd := tcmInvalidFd } : DlsInfo).pid = d.pid := rfl
  have hcomm : ({ d with msgQueue := [], commFd := tcmInvalidFd } : DlsInfo).commFd = tcmInvalidFd := rfl
  generalize ({ d with msgQueue := [], commFd := tcmInvalidFd } : DlsInfo) = e at hget hfreed hrelaunches heid hpid hcomm ⊢
  by_cases hagain : d.pid ≠ tcmInvalidPid ∧ relaunches d (k.collect s.asked) = true
  · -- the application is started again
    have hstays : ¬Frees k s d := fun h => h.2 hagain
    obtain ⟨t, ht, hkeeps⟩ := launchApp_keeps (k := k) (s := s₁.ask) hget
    have hcollect : s₁.collectProcess k p e = .done t := by
      rw [collectProcess, hpid, if_neg hagain.1, hasked, hrelaunches, if_pos hagain.2, ht]
    rw [hcollect]
    refine ⟨⟨fun _ h => absurd h hstays, fun _ => ⟨t, rfl⟩⟩, fun t' ht' => ?_⟩
    cases ht'
    rw [if_neg hstays]
    refine ⟨hkeeps.written.trans hwritten, ?_, fun q hq => ?_, ?_⟩
    · obtain ⟨e', -, rfl⟩ := Outcome.map_eq_done.1 ht
      rw [launch_dlsInfos]
      split <;> exact hmark
    · obtain ⟨e', -, rfl⟩ := Outcome.map_eq_done.1 ht
      rw [launch_dlsInfos, ← hother q hq]
      split
      · rfl
      · rw [Pool.get?_set_of_ne hq]
        rfl
    · obtain ⟨d', hd', hc⟩ := hkeeps.records p e hget
      exact ⟨d', hd', hc.trans hcomm⟩
  · have hfrees : Frees k s d ↔ isFreed e = true := by
      rw [hfreed]
      exact and_iff_left hagain
    obtain ⟨s₂, hs₂, hinfos, hwritten₂, hevs₂⟩ : ∃ s₂ : Scheduler, s₁.collectProcess k p e = s₂.retire p e ∧ s₂.dlsInfos = s₁.dlsInfos ∧
        s₂.written = s₁.written ∧ s₂.evtInterests = s₁.evtInterests := by
      unfold collectProcess
      rw [hpid, hasked, hrelaunches]
      split
      · exact ⟨s₁, rfl, rfl, rfl, rfl⟩
      · rename_i hvalid
        rw [if_neg fun h => hagain ⟨hvalid, h⟩]
        split
        · exact ⟨s₁.ask.ask, rfl, rfl, rfl, rfl⟩
        · exact ⟨s₁.ask, rfl, rfl, rfl, rfl⟩
    rw [hs₂]
    refine ⟨?_, fun t ht => ⟨(retire_written ht).trans (hwritten₂.trans hwritten), ?_, fun q hq => ?_, ?_⟩⟩
    · rw [retire_done, hfrees, heid, hevs₂, hevs]
    · rw [← hmark, ← hinfos]
      rcases retire_cases ht with ⟨-, ht⟩ | ⟨-, ht⟩ <;> rw [ht]
      · exact Pool.mark_remove
      · exact Pool.mark_set
    · rw [← hother q hq, ← hinfos]
      rcases retire_cases ht with ⟨-, ht⟩ | ⟨-, ht⟩
      · rw [ht, Pool.get?_remove, if_neg hq]
      · rw [ht, Pool.get?_set_of_ne hq]
    · rcases retire_cases ht with ⟨hfree, ht⟩ | ⟨hfree, ht⟩
      · rw [if_pos (hfrees.2 hfree), ht, Pool.get?_remove, if_pos rfl]
      · rw [if_neg fun h => by rw [hfrees.1 h] at hfree; cases hfree]
        refine ⟨{ e with state := .notRunning, pid := tcmInvalidPid, specificEid := 0 }, ?_, hcomm⟩
        rw [ht]
        exact Pool.get?_set_self (hinfos ▸ hget)

/-- **Stopping an application**: it has a result when no record is freed, or no other application has registered for an event. Without a
target nothing is done; the target's record is freed or loses its connection, and the others are as they were. -/
theorem stopApp_spec (s : Scheduler) (eid : BitVec 32) :
    match stopTarget T s eid with
    | none => s.stopApp T k eid = .done s
    | some (q, d) => s.dlsInfos.get? q = some d ∧ s.stopApp T k eid = s.collectApp k q := by
  unfold stopTarget stopApp
  cases he : tcmEidGetEntityInfo T (genericEid eid) with
  | none =>
    rw [if_pos rfl]
  | some eInfo =>
    rw [if_neg nofun]
    cases hfound : getExistingDlsInfo s eid with
    | none => rfl
    | some x =>
      obtain ⟨q, d⟩ := x
      have hq := (Pool.get?_of_first hfound).1
      by_cases hstate : d.state = .notRunning
      · rw [Option.filter_some, if_neg (by simpa using hstate)]
        simp only
        rw [if_pos hstate]
      · rw [Option.filter_some, if_pos (by simpa using hstate)]
        simp only
        rw [if_neg hstate, terminateApp, info_eq_done.2 hq, Outcome.bind_done, if_neg hstate]
        exact ⟨hq, rfl⟩

/-- What is left of the record of the sender after a stop, and what was written. -/
structure Stopped (T : EntityTable) (k : Kernel) (s : Scheduler) (p : Nat) (fd : Int) (eid : BitVec 32) (t : Scheduler) : Prop where
  written : t.written = s.written
  mark : t.dlsInfos.mark = s.dlsInfos.mark
  here : s.StopFits T k p eid → ∃ d, t.dlsInfos.get? p = some d ∧ (d.commFd = fd ∨ d.commFd = tcmInvalidFd)
  gone : ¬s.StopFits T k p eid → t.dlsInfos.get? p = none

/-- A stop has a result that leaves the sender's record, when it fits; else it has none, or takes the sender's record away. -/
theorem stopApp_stopped (hp : s.dlsInfos.get? p = some d) (eid : BitVec 32) :
    (s.StopFits T k p eid → ∃ t, s.stopApp T k eid = .done t) ∧
      ∀ t, s.stopApp T k eid = .done t → Stopped T k s p d.commFd eid t := by
  have hspec := stopApp_spec (T := T) (k := k) s eid
  cases htarget : stopTarget T s eid with
  | none =>
    rw [htarget] at hspec
    simp only at hspec
    have hfit : s.StopFits T k p eid := fun q e hq => by
      rw [htarget] at hq
      cases hq
    refine ⟨fun _ => ⟨s, hspec⟩, fun t ht => ?_⟩
    rw [hspec] at ht
    cases ht
    exact ⟨rfl, rfl, fun _ => ⟨d, hp, .inl rfl⟩, fun h => absurd hfit h⟩
  | some x =>
    obtain ⟨q, e⟩ := x
    rw [htarget] at hspec
    simp only at hspec
    obtain ⟨hq, hstop⟩ := hspec
    obtain ⟨hiff, hresult⟩ := collectApp_spec (k := k) hq
    have hfits : s.StopFits T k p eid ↔ (Frees k s e → q ≠ p ∧ SolelyOf e.eid s.evtInterests) := by
      constructor
      · exact fun h => h q e htarget
      · intro h q' e' hq'
        rw [htarget] at hq'
        obtain ⟨rfl, rfl⟩ := Prod.mk.inj (Option.some.inj hq')
        exact h
    rw [hstop]
    refine ⟨fun h => hiff.2 fun hfree => (hfits.1 h hfree).2, fun t ht => ?_⟩
    obtain ⟨hwritten, hmark, hother, hself⟩ := hresult t ht
    refine ⟨hwritten, hmark, fun hfit => ?_, fun hnot => ?_⟩
    · by_cases hqp : p = q
      · subst hqp
        rw [if_neg fun hfree => (hfits.1 hfit hfree).1 rfl] at hself
        obtain ⟨d', hd', hc⟩ := hself
        exact ⟨d', hd', .inr hc⟩
      · exact ⟨d, (hother p hqp).trans hp, .inl rfl⟩
    · -- the record is freed, and is the sender's, as the exit has a result
      rw [hfits, Classical.not_imp] at hnot
      obtain ⟨hfree, hnot⟩ := hnot
      have hsole := hiff.1 ⟨t, ht⟩ hfree
      have hqp : q = p := by
        by_contra hne
        exact hnot ⟨hne, hsole⟩
      subst hqp
      rwa [if_pos hfree] at hself

/-! ## The response -/

theorem written_send (s : Scheduler) (fd : Int) (msg : TcmMsg) :
    (s.tcmMsgSendBySocket fd msg).written = if fd = tcmInvalidFd then s.written else s.written ++ [(fd, msg)] := by
  unfold tcmMsgSendBySocket
  split <;> rfl

theorem processMsgSimpleFooter_done (hp : s.dlsInfos.get? p = some d) (rv : BitVec 32) (msg : TcmMsg) :
    ∃ t, s.processMsgSimpleFooter p rv msg = .done t ∧ t.dlsInfos = s.dlsInfos ∧
      t.written = if d.commFd = tcmInvalidFd then s.written else s.written ++ [(d.commFd, response msg rv)] := by
  rw [processMsgSimpleFooter, info_eq_done.2 hp]
  exact ⟨s.tcmMsgSendBySocket d.commFd (response msg rv), rfl, dlsInfos_send s _ _, written_send s _ _⟩

theorem processMsgSimpleFooter_none (hp : s.dlsInfos.get? p = none) (rv : BitVec 32) (msg : TcmMsg) :
    s.processMsgSimpleFooter p rv msg = .undefined := by
  rw [processMsgSimpleFooter, info, hp]
  rfl

/-- The handler ends with its response to a record that has the connection still, or none. -/
theorem answers (hfd : fd ≠ tcmInvalidFd) (hwritten : t.written = s.written) (hp : t.dlsInfos.get? p = some d)
    (rv : BitVec 32) (msg : TcmMsg) :
    ∃ u, t.processMsgSimpleFooter p rv msg = .done u ∧ u.dlsInfos = t.dlsInfos ∧
      ((∃ d, u.dlsInfos.get? p = some d ∧ d.commFd = fd) → ∃ rv, u.written = s.written ++ [(fd, response msg rv)]) := by
  obtain ⟨u, hu, hinfos, hw⟩ := processMsgSimpleFooter_done hp rv msg
  refine ⟨u, hu, hinfos, fun ⟨d', hd', hc'⟩ => ⟨rv, ?_⟩⟩
  rw [hinfos, hp] at hd'
  obtain rfl := Option.some.inj hd'
  rw [hw, if_neg (hc' ▸ hfd), hc', hwritten]

/-! ## The messages -/

/-- An event is handled when there is a list of registrations for it. -/
theorem distribute_done (hp : s.dlsInfos.get? p = some d) :
    (∃ t, s.schedDistributeEventMessage T k p msg = .done t) ↔ ∃ ev, s.evtInterests.find? (fun ev => ev.type = msg.type) = some ev := by
  rw [schedDistributeEventMessage, info_eq_done.2 hp, Outcome.bind_done]
  unfold interestFindByType
  split
  · rename_i ev hev
    rw [Outcome.bind_done]
    exact ⟨fun _ => ⟨ev, hev⟩, fun _ => foldl_distributeRound_done p msg s ev.evtInfos⟩
  · rename_i hnone
    rw [hnone]
    refine ⟨fun ⟨t, ht⟩ => ?_, fun ⟨ev, hev⟩ => ?_⟩
    · cases ht
    · cases hev

theorem finishRegister_done (hp : s.dlsInfos.get? p = some d) (hcomm : d.commFd = fd) (hfd : fd ≠ tcmInvalidFd) (delta : Int)
    (msg : TcmMsg) : ∃ t, s.finishRegister p delta msg = .done t ∧ t.written = s.written ++ [(fd, response msg tcmretSuccess)] := by
  obtain ⟨u, hu, hinfos, hw⟩ := processMsgSimpleFooter_done hp tcmretSuccess msg
  rw [finishRegister, hu, Outcome.bind_done, info_eq_done.2 (hinfos ▸ hp)]
  rw [hcomm, if_neg hfd] at hw
  refine ⟨_, rfl, ?_⟩
  simp only
  split <;> exact hw

theorem interestFind_cases (evs : List EvtInterest) (type eid : BitVec 32) :
    (∃ ev info, interestFindByType evs type = .done (some ev) ∧ interestFindInfo ev eid = .done (some info) ∧
      Registered evs type eid) ∨
    ¬Registered evs type eid ∧ (interestFindByType evs type = .undefined ∨
      ∃ ev, interestFindByType evs type = .done (some ev) ∧ interestFindInfo ev eid = .undefined) := by
  unfold interestFindByType interestFindInfo
  cases hev : evs.find? fun ev => ev.type = type with
  | none =>
    refine .inr ⟨?_, .inl rfl⟩
    rintro ⟨ev, info, hev', -⟩
    rw [hev] at hev'
    cases hev'
  | some ev =>
    cases hinfo : ev.evtInfos.find? fun info => info.eid = eid with
    | none =>
      refine .inr ⟨?_, .inr ⟨ev, rfl, by rw [hinfo]⟩⟩
      rintro ⟨ev', info, hev', hinfo'⟩
      rw [hev] at hev'
      obtain rfl := Option.some.inj hev'
      rw [hinfo] at hinfo'
      cases hinfo'
    | some info => exact .inl ⟨ev, info, rfl, by rw [hinfo], ev, info, hev, hinfo⟩

/-- A request that has to do with registrations is answered when the look-ups find what they look for. -/
theorem register_done (hp : s.dlsInfos.get? p = some d) (hcomm : d.commFd = fd) (hfd : fd ≠ tcmInvalidFd) (positive : Bool)
    (msg : TcmMsg) :
    (Registered s.evtInterests msg.wordData msg.src → ∃ t, s.schedProcessRegisterEventInterest p msg positive = .done t ∧
      t.written = s.written ++ [(fd, response msg tcmretSuccess)]) ∧
    (¬Registered s.evtInterests msg.wordData msg.src → s.schedProcessRegisterEventInterest p msg positive = .undefined) := by
  have hcases := interestFind_cases s.evtInterests msg.wordData msg.src
  rw [schedProcessRegisterEventInterest, info_eq_done.2 hp, Outcome.bind_done]
  refine ⟨fun hreg => ?_, fun hreg => ?_⟩
  · rcases hcases with ⟨ev, info, htype, hinfo, -⟩ | ⟨hnot, -⟩
    swap
    · exact absurd hreg hnot
    cases positive with
    | true =>
      simp only [if_true, interestRegister, htype, registerInfo, hinfo, Outcome.map, Outcome.bind_done]
      exact finishRegister_done (s := { s with evtInterests := s.evtInterests }) hp hcomm hfd _ msg
    | false =>
      simp only [Bool.false_eq_true, if_false, interestUnregister, htype, hinfo, Outcome.map, Outcome.bind_done]
      exact finishRegister_done (s := { s with evtInterests := unlinkInfo s.evtInterests ev msg.src }) hp hcomm hfd _ msg
  · rcases hcases with ⟨ev, info, -, -, hyes⟩ | ⟨-, hfind⟩
    · exact absurd hyes hreg
    rcases hfind with htype | ⟨ev, htype, hinfo⟩
    · cases positive with
      | true =>
        simp only [if_true, interestRegister, htype]
        rfl
      | false =>
        simp only [Bool.false_eq_true, if_false, interestUnregister, htype]
        rfl
    · cases positive with
      | true =>
        simp only [if_true, interestRegister, htype, Outcome.bind_done, registerInfo, hinfo]
        rfl
      | false =>
        simp only [Bool.false_eq_true, if_false, interestUnregister, htype, Outcome.bind_done, hinfo]
        rfl

theorem start_answers (hp : s.dlsInfos.get? p = some d) (hfd : fd ≠ tcmInvalidFd) :
    ∃ t, s.schedProcessStartAppMsg T k p msg = .done t ∧
      ((∃ d, t.dlsInfos.get? p = some d ∧ d.commFd = fd) → ∃ rv, t.written = s.written ++ [(fd, response msg rv)]) := by
  obtain ⟨pid, s₁, hstart, hkeeps⟩ := startApp_keeps (T := T) (k := k) s msg.wordData
  obtain ⟨d', hd', -⟩ := hkeeps.records p d hp
  obtain ⟨u, hu, -, hw⟩ := answers hfd hkeeps.written hd' (BitVec.ofInt 32 pid) msg
  refine ⟨u, ?_, hw⟩
  rw [schedProcessStartAppMsg, hstart]
  exact hu

theorem isAppRuning_answers (hp : s.dlsInfos.get? p = some d) (hfd : fd ≠ tcmInvalidFd) :
    ∃ t, s.schedProcessIsAppRuning p msg = .done t ∧
      ((∃ d, t.dlsInfos.get? p = some d ∧ d.commFd = fd) → ∃ rv, t.written = s.written ++ [(fd, response msg rv)]) := by
  have hanswers : ∀ rv, ∃ t, s.processMsgSimpleFooter p rv msg = .done t ∧
      ((∃ d, t.dlsInfos.get? p = some d ∧ d.commFd = fd) → ∃ rv, t.written = s.written ++ [(fd, response msg rv)]) := by
    intro rv
    obtain ⟨u, hu, -, hw⟩ := answers hfd rfl hp rv msg
    exact ⟨u, hu, hw⟩
  exact hanswers _

/-- A stop or a restart is answered when it fits, and follows a pointer to the freed record of the sender, or has none that it can
follow, when it does not. -/
theorem stop_done (hp : s.dlsInfos.get? p = some d) (hcomm : d.commFd = fd) (hfd : fd ≠ tcmInvalidFd)
    {rest : Scheduler → Outcome Scheduler} (hrest : ∀ u, ∃ rv v, Keeps u v ∧ rest u = v.processMsgSimpleFooter p rv msg)
    (hgone : ∀ u, p < u.dlsInfos.mark → u.dlsInfos.get? p = none → ∀ t, rest u ≠ .done t) :
    (s.StopFits T k p msg.wordData → ∃ t, (s.stopApp T k msg.wordData).bind rest = .done t ∧
      ((∃ d, t.dlsInfos.get? p = some d ∧ d.commFd = fd) → ∃ rv, t.written = s.written ++ [(fd, response msg rv)])) ∧
    (¬s.StopFits T k p msg.wordData → ∀ t, (s.stopApp T k msg.wordData).bind rest ≠ .done t) := by
  obtain ⟨hdone, hstopped⟩ := stopApp_stopped (T := T) (k := k) hp msg.wordData
  rw [hcomm] at hstopped
  refine ⟨fun hfit => ?_, fun hnot t ht => ?_⟩
  · obtain ⟨s₁, hs₁⟩ := hdone hfit
    have hst := hstopped s₁ hs₁
    obtain ⟨d₁, hd₁, -⟩ := hst.here hfit
    obtain ⟨rv, s₂, hkeeps, hrest⟩ := hrest s₁
    obtain ⟨d₂, hd₂, -⟩ := hkeeps.records p d₁ hd₁
    obtain ⟨u, hu, -, hw⟩ := answers hfd (hkeeps.written.trans hst.written) hd₂ rv msg
    refine ⟨u, ?_, hw⟩
    rw [hs₁, Outcome.bind_done, hrest, hu]
  · obtain ⟨s₁, hs₁, ht⟩ := Outcome.bind_eq_done.1 ht
    have hst := hstopped s₁ hs₁
    exact hgone s₁ (hst.mark ▸ Pool.lt_mark hp) (hst.gone hnot) t ht

theorem stop_answers (hp : s.dlsInfos.get? p = some d) (hcomm : d.commFd = fd) (hfd : fd ≠ tcmInvalidFd) :
    (s.StopFits T k p msg.wordData → ∃ t, s.schedProcessStopAppMsg T k p msg = .done t ∧
      ((∃ d, t.dlsInfos.get? p = some d ∧ d.commFd = fd) → ∃ rv, t.written = s.written ++ [(fd, response msg rv)])) ∧
    (¬s.StopFits T k p msg.wordData → ∀ t, s.schedProcessStopAppMsg T k p msg ≠ .done t) := by
  refine stop_done hp hcomm hfd (fun u => ⟨tcmretSuccess, u, Keeps.refl u, rfl⟩) fun u _ hnone t ht => ?_
  rw [processMsgSimpleFooter_none hnone] at ht
  cases ht

/-- What the handler of a restart does after the stop. -/
theorem restart_answers (hp : s.dlsInfos.get? p = some d) (hcomm : d.commFd = fd) (hfd : fd ≠ tcmInvalidFd) :
    (s.StopFits T k p msg.wordData → ∃ t, s.schedProcessRestartAppMsg T k p msg = .done t ∧
      ((∃ d, t.dlsInfos.get? p = some d ∧ d.commFd = fd) → ∃ rv, t.written = s.written ++ [(fd, response msg rv)])) ∧
    (¬s.StopFits T k p msg.wordData → ∀ t, s.schedProcessRestartAppMsg T k p msg ≠ .done t) := by
  refine stop_done hp hcomm hfd (fun u => ?_) fun u hlt hnone t ht => ?_
  · obtain ⟨pid, v, hstart, hkeeps⟩ := startApp_keeps (T := T) (k := k) u (genericEid msg.wordData)
    exact ⟨BitVec.ofInt 32 pid, v, hkeeps, by rw [hstart]; rfl⟩
  · obtain ⟨pid, v, hstart, hkeeps⟩ := startApp_keeps (T := T) (k := k) u (genericEid msg.wordData)
    rw [hstart, Outcome.bind_done, processMsgSimpleFooter_none (hkeeps.absent p hlt hnone)] at ht
    cases ht

/-- A message to the scheduler that is no event. -/
theorem request_iff (hp : s.dlsInfos.get? p = some d) (hcomm : d.commFd = fd) (hfd : fd ≠ tcmInvalidFd) :
    (∃ t, s.processRequest T k p msg = .done t ∧ (IsRequest msg.type → (∃ d, t.dlsInfos.get? p = some d ∧ d.commFd = fd) →
      ∃ rv, t.written = s.written ++ [(fd, response msg rv)])) ↔
    if msg.type = tcmMsgRegisterEventInterest ∨ msg.type = tcmMsgUnregisterEventInterest then
      Registered s.evtInterests msg.wordData msg.src
    else if msg.type = tcmMsgStopApp ∨ msg.type = tcmMsgRestartApp then s.StopFits T k p msg.wordData
    else True := by
  -- a handler that answers when a condition holds and has no result when it does not
  have hexact : ∀ {x : Outcome Scheduler} {C : Prop},
      (C → ∃ t, x = .done t ∧
        ((∃ d, t.dlsInfos.get? p = some d ∧ d.commFd = fd) → ∃ rv, t.written = s.written ++ [(fd, response msg rv)])) →
      (¬C → ∀ t, x ≠ .done t) →
      ((∃ t, x = .done t ∧ (IsRequest msg.type → (∃ d, t.dlsInfos.get? p = some d ∧ d.commFd = fd) →
        ∃ rv, t.written = s.written ++ [(fd, response msg rv)])) ↔ C) := by
    intro x C hyes hno
    constructor
    · rintro ⟨t, ht, -⟩
      by_contra hC
      exact hno hC t ht
    · intro hC
      obtain ⟨t, ht, hw⟩ := hyes hC
      exact ⟨t, ht, fun _ => hw⟩
  have hregister : ∀ positive,
      ((∃ t, s.schedProcessRegisterEventInterest p msg positive = .done t ∧
        (IsRequest msg.type → (∃ d, t.dlsInfos.get? p = some d ∧ d.commFd = fd) →
          ∃ rv, t.written = s.written ++ [(fd, response msg rv)])) ↔ Registered s.evtInterests msg.wordData msg.src) := by
    intro positive
    obtain ⟨hyes, hno⟩ := register_done hp hcomm hfd positive msg
    refine hexact (fun h => ?_) fun h t ht => ?_
    · obtain ⟨t, ht, hw⟩ := hyes h
      exact ⟨t, ht, fun _ => ⟨_, hw⟩⟩
    · rw [hno h] at ht
      cases ht
  unfold processRequest
  by_cases h₁ : msg.type = tcmMsgRegisterEventInterest
  · rw [if_pos h₁, if_pos (.inl h₁)]
    exact hregister true
  rw [if_neg h₁]
  by_cases h₂ : msg.type = tcmMsgUnregisterEventInterest
  · rw [if_pos h₂, if_pos (.inr h₂)]
    exact hregister false
  rw [if_neg h₂, if_neg (not_or.2 ⟨h₁, h₂⟩)]
  by_cases h₃ : msg.type = tcmMsgStartApp
  · have hne : ¬(msg.type = tcmMsgStopApp ∨ msg.type = tcmMsgRestartApp) := by
      rw [h₃]
      decide
    rw [if_pos h₃, if_neg hne]
    exact hexact (fun _ => start_answers hp hfd) fun h => absurd trivial h
  rw [if_neg h₃]
  by_cases h₄ : msg.type = tcmMsgStopApp
  · rw [if_pos h₄, if_pos (.inl h₄)]
    exact hexact (stop_answers hp hcomm hfd).1 (stop_answers hp hcomm hfd).2
  rw [if_neg h₄]
  by_cases h₅ : msg.type = tcmMsgRestartApp
  · rw [if_pos h₅, if_pos (.inr h₅)]
    exact hexact (restart_answers hp hcomm hfd).1 (restart_answers hp hcomm hfd).2
  rw [if_neg h₅, if_neg (not_or.2 ⟨h₄, h₅⟩)]
  by_cases h₆ : msg.type = tcmMsgIsAppRunning
  · rw [if_pos h₆]
    exact hexact (fun _ => isAppRuning_answers hp hfd) fun h => absurd trivial h
  · rw [if_neg h₆]
    refine ⟨fun _ => trivial, fun _ => ⟨s, rfl, fun hreq => ?_⟩⟩
    rcases hreq with h | h | h | h | h | h
    · exact absurd h h₁
    · exact absurd h h₂
    · exact absurd h h₃
    · exact absurd h h₄
    · exact absurd h h₅
    · exact absurd h h₆

/-- A message to another application. -/
theorem route_iff (hp : s.dlsInfos.get? p = some d) (hcomm : d.commFd = fd) (hfd : fd ≠ tcmInvalidFd) :
    (∃ t, s.schedRouteMessage T k msg = .done t ∧ (msg.event = false → s.Bounces msg →
      (∃ d, t.dlsInfos.get? p = some d ∧ d.commFd = fd) → ∃ rv, t.written = s.written ++ [(fd, response msg rv)])) ↔
    (s.Bounces msg → msg.event = false → ∃ q d, getExistingDlsInfo s msg.src = some (q, d) ∧ d.commFd = fd) := by
  unfold schedRouteMessage
  by_cases hbounces : s.Bounces msg
  swap
  · have hbounces' : ¬(msg.bounceIfNotRunning = true ∧ notRunningFor (getExistingDlsInfo s msg.dst) = true) := hbounces
    rw [if_neg hbounces']
    obtain ⟨t, ht⟩ := routeTo_done (T := T) (k := k) s msg
    exact ⟨fun _ h => absurd h hbounces, fun _ => ⟨t, ht, fun _ h => absurd h hbounces⟩⟩
  have hbounces' : msg.bounceIfNotRunning = true ∧ notRunningFor (getExistingDlsInfo s msg.dst) = true := hbounces
  rw [if_pos hbounces', bounce]
  by_cases hevent : msg.event = true
  · rw [if_pos hevent]
    refine ⟨fun _ _ h => ?_, fun _ => ⟨s, rfl, fun h => ?_⟩⟩
    · rw [hevent] at h
      cases h
    · rw [hevent] at h
      cases h
  rw [if_neg hevent]
  have hevent : msg.event = false := Bool.eq_false_iff.2 hevent
  cases hsrc : getExistingDlsInfo s msg.src with
  | none =>
    refine ⟨fun ⟨t, ht, _⟩ => ?_, fun h => ?_⟩
    · cases ht
    · obtain ⟨q, e, hq, -⟩ := h hbounces hevent
      cases hq
  | some x =>
    obtain ⟨q, e⟩ := x
    obtain ⟨u, hu, hinfos, hw⟩ := processMsgSimpleFooter_done (Pool.get?_of_first hsrc).1 tcmMsgBounced msg
    rw [follow, Outcome.bind_done, hu]
    constructor
    · rintro ⟨t, ht, hanswer⟩ - -
      cases ht
      refine ⟨q, e, rfl, ?_⟩
      -- what was written is a response to the sender
      obtain ⟨rv, hrv⟩ := hanswer hevent hbounces ⟨d, by rw [hinfos, hp], hcomm⟩
      rw [hw] at hrv
      split at hrv
      · have hlen := congrArg List.length hrv
        rw [List.length_append, List.length_singleton] at hlen
        omega
      · exact (Prod.mk.inj (List.singleton_inj.1 (List.append_cancel_left hrv))).1
    · intro h
      obtain ⟨q', e', hq', he'⟩ := h hbounces hevent
      obtain ⟨rfl, rfl⟩ := Prod.mk.inj (Option.some.inj hq')
      refine ⟨u, rfl, fun _ _ _ => ⟨tcmMsgBounced, ?_⟩⟩
      rw [hw, if_neg (he' ▸ hfd), he']

/-- **When a message is handled well.** -/
theorem handlesWell_iff (T : EntityTable) (k : Kernel) (s : Scheduler) (p : Nat) (d : DlsInfo) (fd : Int) (msg : TcmMsg)
    (hfound : getDlsInfoByCommFd s fd = some (p, d)) (hfd : 0 ≤ fd) : HandlesWell T k s p fd msg ↔ HandlesWhen T k s p fd msg := by
  obtain ⟨hp, htest⟩ := Pool.get?_of_first hfound
  have hcomm : d.commFd = fd := by simpa using htest
  have hne : fd ≠ tcmInvalidFd := by
    rintro rfl
    exact absurd hfd (by decide)
  unfold HandlesWell HandlesWhen Scheduler.schedProcessMessage RequiresResponse
  by_cases hrequeue : msg.requeue = true
  · rw [if_pos hrequeue, info_eq_done.2 hp]
    refine ⟨fun _ => .inl hrequeue, fun _ => ⟨_, rfl, fun h => ?_⟩⟩
    rw [hrequeue] at h
    cases h.1
  rw [if_neg hrequeue, or_iff_right hrequeue]
  have hrequeue : msg.requeue = false := Bool.eq_false_iff.2 hrequeue
  by_cases hdst : msg.dst = idSched
  · rw [if_pos hdst, if_pos hdst]
    by_cases hevent : msg.event = true
    · rw [if_pos hevent, if_pos hevent, ← distribute_done (T := T) (k := k) hp]
      refine ⟨fun ⟨t, ht, _⟩ => ⟨t, ht⟩, fun ⟨t, ht⟩ => ⟨t, ht, fun h => ?_⟩⟩
      rw [hevent] at h
      cases h.2.1
    · rw [if_neg hevent, if_neg hevent, ← request_iff hp hcomm hne]
      have hevent : msg.event = false := Bool.eq_false_iff.2 hevent
      refine exists_congr fun t => and_congr_right fun _ => ⟨fun h hreq => ?_, fun h hreq => ?_⟩
      · exact h ⟨hrequeue, hevent, .inl ⟨hdst, hreq⟩⟩
      · rcases hreq.2.2 with ⟨-, hreq⟩ | ⟨hne, -⟩
        · exact h hreq
        · exact absurd hdst hne
  · rw [if_neg hdst, if_neg hdst, ← route_iff (T := T) (k := k) hp hcomm hne]
    refine exists_congr fun t => and_congr_right fun _ => ⟨fun h hevent hbounces => ?_, fun h hreq => ?_⟩
    · exact h ⟨hrequeue, hevent, .inr ⟨hdst, hbounces⟩⟩
    · obtain ⟨-, hevent, ⟨hsched, -⟩ | ⟨-, hbounces⟩⟩ := hreq
      · exact absurd hsched hdst
      · exact h hevent hbounces

/-- A message to an application that does not run, under the id of one that has no record. -/
def askerStray : TcmMsg := { emptyMsgHeader with type := 0x20000000, src := 12, dst := 13, bounceIfNotRunning := true, request := true }

/-- The question whether an application runs is answered. -/
theorem handlesWell_isAppRunning : HandlesWell askerTable plainKernel askerConnected 0 7 (askerRequest tcmMsgIsAppRunning 11) := by
  refine (handlesWell_iff askerTable plainKernel askerConnected 0 _ 7 _ rfl (by decide)).2 (.inr ?_)
  have hdst : (askerRequest tcmMsgIsAppRunning 11).dst = idSched := rfl
  rw [if_pos hdst, if_neg (by decide), if_neg (by decide), if_neg (by decide)]
  trivial

/-- An application that has connected stops itself, sends a message that bounces under an id that has no record, or registers for an
event: a record that was freed or is absent is used, or what a look-up gives that has found nothing. -/
theorem not_handlesWell :
    ∃ tr d, Run (Scheduler.step askerTable) (Scheduler.start 3) tr askerConnected ∧
      getDlsInfoByCommFd askerConnected 7 = some (0, d) ∧
      ¬HandlesWell askerTable plainKernel askerConnected 0 7 (askerRequest tcmMsgStopApp 11) ∧
      ¬HandlesWell askerTable plainKernel askerConnected 0 7 askerStray ∧
      ¬HandlesWell askerTable plainKernel askerConnected 0 7 (askerRequest tcmMsgRegisterEventInterest 0x10000002) := by
  have hundefined : ∀ {msg : TcmMsg}, Scheduler.schedProcessMessage askerTable plainKernel askerConnected 0 msg = .undefined →
      ¬HandlesWell askerTable plainKernel askerConnected 0 7 msg := by
    rintro msg hmsg ⟨t, ht, -⟩
    rw [hmsg] at ht
    cases ht
  exact ⟨[(Scheduler.start 3, (plainKernel, Act.listen 3 (some (hello 11))), askerConnected)], _,
    Run.single ⟨⟨rfl, by decide⟩, rfl⟩, rfl, hundefined rfl, hundefined rfl, hundefined rfl⟩

end CodeFactory.Sched
