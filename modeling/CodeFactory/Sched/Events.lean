import CodeFactory.Sched.Moves

/-!
# Registrations for events, over a whole run

The look-ups of `interest.c` have no `return` behind their loops, and nothing is registered when the scheduler starts: the first request
that has to do with registrations uses a value that was never given, and so does every event. Up to then nothing is registered, and no
application counts anything.
-/

namespace CodeFactory.Sched

open Oal Msg

namespace Scheduler

/-! ## What is claimed of the registrations -/

/-- How many registrations of an application are in force. -/
def inForce (evs : List EvtInterest) (eid : BitVec 32) : Nat := (evs.flatMap EvtInterest.evtInfos).countP fun info => info.eid = eid

/-- Every application counts its registrations. -/
def Counted (s : Scheduler) : Prop :=
  ∀ p d, s.dlsInfos.get? p = some d → d.numEventInterestRequested = inForce s.evtInterests d.eid

/-- The application has registered for the event. -/
def Interested (s : Scheduler) (msg : TcmMsg) (eid : BitVec 32) : Prop :=
  ∃ ev ∈ s.evtInterests, ev.type = msg.type ∧ ∃ info ∈ ev.evtInfos, info.eid = eid ∧ matchFails info msg = false

/-- How many messages wait in the record of an address. -/
def queueLength (s : Scheduler) (p : Nat) : Nat := ((s.dlsInfos.get? p).map fun d => d.msgQueue.length).getD 0

/-- How many messages were written, from one state to the next one, to the connection that the record of an address had. -/
def sentTo (s t : Scheduler) (p : Nat) : Nat :=
  match s.dlsInfos.get? p with
  | some d => (t.written.drop s.written.length).countP fun x => x.1 = d.commFd
  | none => 0

/-- The event has been written or queued once for each application that is interested and is not its source, and for no other one. -/
def Distributed (s : Scheduler) (p : Nat) (msg : TcmMsg) (t : Scheduler) : Prop :=
  ∀ q d, t.dlsInfos.get? q = some d →
    (q ≠ p ∧ s.Interested msg d.eid → t.queueLength q + s.sentTo t q = s.queueLength q + 1) ∧
      (¬(q ≠ p ∧ s.Interested msg d.eid) → t.queueLength q + s.sentTo t q = s.queueLength q)

/-- A message that has to do with registrations: a request to add or take out one, or an event, which comes from the record `p`. -/
def ConcernsEvents (s : Scheduler) (a : Act) (p : Nat) (msg : TcmMsg) : Prop :=
  ∃ fd d, a = .comm fd (.message msg) ∧ getDlsInfoByCommFd s fd = some (p, d) ∧ msg.requeue = false ∧ msg.dst = idSched ∧
    (msg.event = true ∨ msg.type = tcmMsgRegisterEventInterest ∨ msg.type = tcmMsgUnregisterEventInterest)

def outcomeStep (T : EntityTable) : Step (Outcome Scheduler) (Kernel × Act) :=
  fun o a o' => ∃ s, o = .done s ∧ s.Ready a.2 ∧ o' = s.act T a.1 a.2

/-- **What is claimed of a step**: a message that has to do with registrations is handled, an event is given to those who want it, and
the registrations are counted afterwards. -/
def EventsExact (o : Outcome Scheduler) (a : Kernel × Act) (o' : Outcome Scheduler) : Prop :=
  (∀ s p msg, o = .done s → s.ConcernsEvents a.2 p msg → ∃ t, o' = .done t ∧ (msg.event = true → s.Distributed p msg t)) ∧
  ∀ t, o' = .done t → t.Counted

/-- The step is for no message that has to do with registrations. -/
def NoEvents (o : Outcome Scheduler) (a : Kernel × Act) : Prop := ∀ s p msg, o = .done s → ¬s.ConcernsEvents a.2 p msg

end Scheduler

open Scheduler

/-! ## The invariant -/

/-- Nothing is registered, and nobody counts anything. -/
structure Quiet (T : EntityTable) (s : Scheduler) : Prop where
  known : Known T s
  zero : ∀ p d, s.dlsInfos.get? p = some d → d.numEventInterestRequested = 0

variable {T : EntityTable} {k : Kernel} {L : Limits} {s t : Scheduler} {p : Nat} {d : DlsInfo}

theorem Quiet.counted (h : Quiet T s) : Counted s := by
  intro p d hp
  rw [h.zero p d hp, h.known.interests]
  rfl

theorem Quiet.start (fd : Int) : Quiet T (Scheduler.start fd) := ⟨Known.start fd, nofun⟩

theorem launchedInfo_num (d : DlsInfo) (spawned : Option Int) :
    (launchedInfo d spawned).numEventInterestRequested = d.numEventInterestRequested := by
  unfold launchedInfo
  cases spawned with
  | none => rfl
  | some pid =>
    simp only
    split <;> rfl

theorem Quiet.move (h : Quiet T s) (hm : Move T k L s t) : Quiet T t := by
  refine ⟨h.known.move hm, fun p d hp => ?_⟩
  rcases hm.record hp with hp | ⟨eid, eInfo, fd, -, -, rfl⟩ | ⟨d₀, hp₀, hc⟩ | ⟨d₀, hp₀, -, rfl⟩
  · exact h.zero p d hp
  · rfl
  · have hzero := h.zero p d₀ hp₀
    cases hc <;> exact hzero
  · rw [launchedInfo_num]
    exact h.zero p d₀ hp₀

theorem Quiet.insert (h : Quiet T s) (eid : BitVec 32) : Quiet T (insertDlsInfoEntry T k s eid).1 := by
  refine ⟨h.known.insert eid, fun p d hp => ?_⟩
  rcases insertDlsInfoEntry_get? hp with hp | ⟨eInfo, fd, -, rfl, -⟩
  · exact h.zero p d hp
  · rfl

theorem Quiet.getDlsInfo (h : Quiet T s) (eid : BitVec 32) : Quiet T (getDlsInfo T k s eid).1 := by
  unfold Sched.getDlsInfo
  split
  · exact h
  · exact h.insert eid

/-- A step that has a result counts nothing. -/
theorem Quiet.step (h : Quiet T s) {a : Kernel × Act} (hs : Scheduler.step T s a t) : Quiet T t := by
  have hk := h.known.step hs
  obtain ⟨k, a⟩ := a
  obtain ⟨-, hs⟩ := hs
  by_cases hinit : ∃ stage, a = .initDls stage
  · obtain ⟨stage, rfl⟩ := hinit
    cases hs
    exact initDls_keeps (fun _ eid hs => hs.insert eid) h
  by_cases hlisten : ∃ fd msg, a = .listen fd msg
  · obtain ⟨fd, msg, rfl⟩ := hlisten
    have hacc : ∀ c, Quiet T (s.accepted c) := fun c => ⟨⟨h.known.interests, h.known.entry, h.known.state⟩, h.zero⟩
    rcases listen_cases hs with rfl | rfl | ⟨c, -, rfl | ⟨msg, -, -, -, -, s₁, rfl, ⟨-, rfl⟩ | ⟨p, d, -, hd, rfl⟩⟩⟩
    · exact h
    · exact ⟨hk, h.zero⟩
    · exact ⟨hk, h.zero⟩
    · exact ⟨hk, ((hacc c).getDlsInfo msg.src).zero⟩
    · have hget := (hacc c).getDlsInfo (k := k) msg.src
      refine ⟨hk, fun q d' hq => ?_⟩
      rw [confirmed_dlsInfos] at hq
      rcases get?_set_cases hd hq with hq | ⟨rfl, rfl⟩
      · exact hget.zero q d' hq
      · exact hget.zero q d hd
  · have hparts := act_parts h.known (fun stage ha => hinit ⟨stage, ha⟩) (fun fd msg ha => hlisten ⟨fd, msg, ha⟩) hs
    exact hparts.moves.keeps (fun _ _ hs hm => hs.move hm) h

/-! ## The steps -/

/-- As long as nothing is registered, a message that has to do with registrations has no result. -/
theorem Quiet.undefined (h : Quiet T s) {a : Act} {msg : TcmMsg} (hc : s.ConcernsEvents a p msg) : s.act T k a = .undefined := by
  obtain ⟨fd, d, rfl, hfound, hrequeue, hdst, htype⟩ := hc
  have hp := (Pool.get?_of_first hfound).1
  have hact : s.act T k (.comm fd (.message msg)) = s.schedProcessMessage T k p msg := by
    show s.commPart T k fd (.message msg) = _
    unfold commPart
    rw [hfound]
  rw [hact, Scheduler.schedProcessMessage, if_neg (by rw [hrequeue]; nofun), if_pos hdst]
  by_cases hevent : msg.event = true
  · rw [if_pos hevent, schedDistributeEventMessage, info_eq_done.2 hp, Outcome.bind_done, h.known.interests]
    rfl
  rw [if_neg hevent, processRequest]
  have hregister : ∀ positive, s.schedProcessRegisterEventInterest p msg positive = .undefined := by
    intro positive
    rw [schedProcessRegisterEventInterest, info_eq_done.2 hp, Outcome.bind_done, h.known.interests]
    cases positive <;> rfl
  rcases htype with htype | htype | htype
  · exact absurd htype hevent
  · rw [if_pos htype]
    exact hregister true
  · rw [if_neg (by rw [htype]; decide), if_pos htype]
    exact hregister false

/-- **When events are distributed exactly**: in a run from the start of the scheduler, as long as there is no request that has to do with
registrations and no event. -/
theorem eventsExact_iff (T : EntityTable) (fd : Int) (tr : List (Transition (Outcome Scheduler) (Kernel × Act))) (o : Outcome Scheduler)
    (hr : Run (outcomeStep T) (.done (Scheduler.start fd)) tr o) : Always EventsExact tr ↔ Meets NoEvents tr := by
  refine hr.all_iff (I := fun o => ∀ s, o = .done s → Quiet T s) ?_ ?_ ?_
  · rintro s hs
    cases hs
    exact Quiet.start fd
  · rintro o a o' hI hnone ⟨s, rfl, hready, rfl⟩
    have hquiet : ∀ t, s.act T a.1 a.2 = .done t → Quiet T t := fun t ht => (hI s rfl).step ⟨hready, ht⟩
    exact ⟨hquiet, fun s' p msg hs' hc => absurd hc (hnone s' p msg hs'), fun t ht => (hquiet t ht).counted⟩
  · rintro o a o' hI hsome ⟨s, rfl, -, rfl⟩ ⟨hexact, -⟩
    refine hsome fun s' p msg hs' hc => ?_
    obtain rfl := Outcome.done.inj hs'
    obtain ⟨t, ht, -⟩ := hexact s p msg rfl hc
    rw [(hI s rfl).undefined hc] at ht
    cases ht

/-- The request of an application to register for the boot message. -/
def askerRegisters : Kernel × Act := (plainKernel, .comm 7 (.message (askerRequest tcmMsgRegisterEventInterest tcmMsgSystemBoot)))

/-- An application connects and asks whether it runs: there is nothing to count. -/
theorem eventsExact_iff_question :
    let tr := [(Outcome.done (Scheduler.start 3), (plainKernel, Act.listen 3 (some (hello 11))), Outcome.done askerConnected),
      (Outcome.done askerConnected, (plainKernel, Act.comm 7 (.message (askerRequest tcmMsgIsAppRunning 11))),
        askerConnected.act askerTable plainKernel (.comm 7 (.message (askerRequest tcmMsgIsAppRunning 11))))]
    Always EventsExact tr ↔ Meets NoEvents tr :=
  eventsExact_iff askerTable 3 _ _ (Run.cons ⟨_, rfl, ⟨rfl, by decide⟩, rfl⟩ (Run.single ⟨_, rfl, ⟨rfl, by decide⟩, rfl⟩))

/-- An application connects and registers for an event: what becomes of it is not defined. -/
theorem not_eventsExact_register :
    ∃ tr, Run (outcomeStep askerTable) (.done (Scheduler.start 3)) tr .undefined ∧ ¬Always EventsExact tr := by
  refine ⟨[(.done (Scheduler.start 3), (plainKernel, Act.listen 3 (some (hello 11))), .done askerConnected),
    (.done askerConnected, askerRegisters, .undefined)], ?_, fun h => ?_⟩
  · exact Run.cons ⟨_, rfl, ⟨rfl, by decide⟩, rfl⟩ (Run.single ⟨_, rfl, ⟨rfl, (by decide : (0 : Int) ≤ 7)⟩, rfl⟩)
  · obtain ⟨hhandled, -⟩ := h (.done askerConnected, askerRegisters, .undefined) (by simp)
    obtain ⟨t, ht, -⟩ := hhandled askerConnected 0 _ rfl ⟨7, _, rfl, rfl, rfl, rfl, .inr (.inl rfl)⟩
    cases ht

end CodeFactory.Sched
