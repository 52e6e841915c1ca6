import CodeFactory.Sched.Moves

/-!
# Messages to applications that are not running yet

A message for an application that has not confirmed its launch is put into its record, and written when the connection is there.
`queuemsg` puts it before those that wait already, and `collectApp` frees the ones that wait: they arrive in order, and each of them,
as long as one message at most waits and none waits at an exit.
-/

namespace CodeFactory.Sched

open Oal Msg

namespace Scheduler

/-! ## What is claimed of the messages -/

/-- The messages that were handed to the record of `p`, in this order. -/
def handedTo (s : Scheduler) (p : Nat) : List TcmMsg := (s.handed.filter fun x => x.1 = p).map Prod.snd

/-- Those of them that were written to the connection of the record, in this order. -/
def deliveredTo (s : Scheduler) (p : Nat) : List TcmMsg := (s.delivered.filter fun x => x.1 = p).map Prod.snd

/-- The messages that wait in the record of a launchable application, in the order in which they would be written. -/
def waiting (s : Scheduler) (p : Nat) : List TcmMsg :=
  match s.dlsInfos.get? p with
  | some dInfo => if dInfo.eInfo.launchable then dInfo.msgQueue else []
  | none => []

/-- What was handed over was written or waits, in order and once; nothing waits for an application that is running. -/
def InOrder (s : Scheduler) : Prop :=
  ∀ p, s.handedTo p = s.deliveredTo p ++ s.waiting p ∧
    ∀ d, s.dlsInfos.get? p = some d → d.eInfo.launchable = true → d.state = .running → s.waiting p = []

/-- A message that comes in from an application is routed to another one that the table knows. -/
def Routed (T : EntityTable) (s : Scheduler) (fd : Int) (msg : TcmMsg) : Prop :=
  getDlsInfoByCommFd s fd ≠ none ∧ msg.requeue = false ∧ msg.dst ≠ idSched ∧ tcmEidGetEntityInfo T (genericEid msg.dst) ≠ none ∧
    ¬(msg.bounceIfNotRunning = true ∧ notRunningFor (getExistingDlsInfo s msg.dst) = true)

/-- **What a step has to do with the messages**: hand the one that it routes to the record of its destination, and keep the order. -/
def Delivers (T : EntityTable) (s : Scheduler) (a : Kernel × Act) (t : Scheduler) : Prop :=
  InOrder t ∧ ∀ fd msg, a.2 = .comm fd (.message msg) → s.Routed T fd msg →
    ∃ p d, (getDlsInfo T a.1 s msg.dst).2 = some p ∧ (getDlsInfo T a.1 s msg.dst).1.dlsInfos.get? p = some d ∧
      (d.eInfo.launchable = true → t.handed = s.handed ++ [(p, msg)])

/-- A message is taken for a launchable application only when none waits or the application is running, and it exits only when none
waits; the record of a destination can be made. -/
def Orderly (T : EntityTable) (s : Scheduler) (a : Kernel × Act) : Prop :=
  (∀ d ∈ s.takes a.2, d.eInfo.launchable = true → d.msgQueue = [] ∨ d.state = .running) ∧
  (∀ d ∈ s.leaves a.2, d.eInfo.launchable = true → d.msgQueue = []) ∧
  ∀ fd msg, a.2 = .comm fd (.message msg) → s.Routed T fd msg → (getDlsInfo T a.1 s msg.dst).2 ≠ none

end Scheduler

open Scheduler

/-! ## The invariant -/

/-- The messages are in order, and a launchable application that is running has a connection and none of them waiting. -/
structure Ordered (T : EntityTable) (s : Scheduler) : Prop where
  known : Known T s
  order : ∀ p, s.handedTo p = s.deliveredTo p ++ s.waiting p
  ready : ∀ p d, s.dlsInfos.get? p = some d → d.eInfo.launchable = true → d.state = .running →
    d.msgQueue = [] ∧ d.commFd ≠ tcmInvalidFd

variable {T : EntityTable} {k : Kernel} {L : Limits} {s t : Scheduler} {p q : Nat} {d d' : DlsInfo}

theorem waiting_some (hp : s.dlsInfos.get? p = some d) : s.waiting p = if d.eInfo.launchable then d.msgQueue else [] := by
  rw [waiting, hp]

/-- What waits in a record, if there is one. -/
def queueOf (o : Option DlsInfo) : List TcmMsg := (o.map fun d => if d.eInfo.launchable then d.msgQueue else []).getD []

theorem waiting_eq (s : Scheduler) (p : Nat) : s.waiting p = queueOf (s.dlsInfos.get? p) := by
  rw [waiting]
  split <;> rename_i h <;> rw [h] <;> rfl

theorem Ordered.inOrder (h : Ordered T s) : InOrder s := by
  intro p
  refine ⟨h.order p, fun d hp hl hrun => ?_⟩
  rw [waiting_some hp, if_pos hl]
  exact (h.ready p d hp hl hrun).1

theorem Ordered.start (fd : Int) : Ordered T (Scheduler.start fd) := ⟨Known.start fd, fun _ => rfl, nofun⟩

/-- The two logs of the messages. -/
def logs (s : Scheduler) : List (Nat × TcmMsg) × List (Nat × TcmMsg) := (s.handed, s.delivered)

theorem Ordered.of_logs (h : Ordered T s) (hk : Known T t) (hlogs : logs t = logs s) (hwait : ∀ p, t.waiting p = s.waiting p)
    (hready : ∀ p d, t.dlsInfos.get? p = some d → d.eInfo.launchable = true → d.state = .running →
      s.dlsInfos.get? p = some d) : Ordered T t := by
  obtain ⟨hhanded, hdelivered⟩ := Prod.mk.inj hlogs
  refine ⟨hk, fun p => ?_, fun p d hp hl hrun => h.ready p d (hready p d hp hl hrun) hl hrun⟩
  rw [handedTo, deliveredTo, hhanded, hdelivered, hwait]
  exact h.order p

/-! ## What the operations do to the logs -/

theorem logs_send (s : Scheduler) (fd : Int) (msg : TcmMsg) : logs (s.tcmMsgSendBySocket fd msg) = logs s := by
  unfold tcmMsgSendBySocket
  split <;> rfl

theorem logs_insert (s : Scheduler) (eid : BitVec 32) : logs (insertDlsInfoEntry T k s eid).1 = logs s := by
  have hins := insertDlsInfoEntry_inserted (T := T) (k := k) s eid
  generalize insertDlsInfoEntry T k s eid = r at hins ⊢
  cases hins <;> rfl

theorem logs_launch (s : Scheduler) (p : Nat) (d : DlsInfo) : logs (s.launch k p d) = logs s := by
  unfold launch
  split
  · rfl
  · simp only
    split <;> rfl

theorem logs_disconnect (s : Scheduler) (p : Nat) (d : DlsInfo) : logs (s.disconnect p d) = logs s := by
  unfold disconnect
  simp only
  split <;> rfl

theorem logs_retire (h : s.retire p d = .done t) : logs t = logs s := by
  have hset : logs (if d.eInfo.monitored = true then s.fdSet d.serverFd else s) = logs s := by
    split <;> rfl
  unfold retire at h
  simp only at h
  split at h
  · obtain ⟨evs, -, rfl⟩ := Outcome.map_eq_done.1 h
    exact hset
  · cases h
    exact hset

theorem logs_hand (s : Scheduler) (p : Nat) (d : DlsInfo) (msg : TcmMsg) :
    logs (s.hand p d msg) = if d.eInfo.launchable then (s.handed ++ [(p, msg)], s.delivered) else logs s := by
  unfold hand
  split <;> rfl

/-- A message that is written to a connection is added to the log of these, for a launchable application. -/
theorem logs_deliver (s : Scheduler) (p : Nat) (msg : TcmMsg) (hfd : d.eInfo.launchable = true → d.commFd ≠ tcmInvalidFd) :
    logs (s.deliver p d msg) = if d.eInfo.launchable then (s.handed, s.delivered ++ [(p, msg)]) else logs s := by
  have hsend := Prod.mk.inj (logs_send s d.commFd msg)
  unfold deliver
  by_cases hl : d.eInfo.launchable = true
  · rw [if_pos hl, if_pos ⟨hl, hfd hl⟩]
    exact Prod.ext hsend.1 (congrArg (· ++ [(p, msg)]) hsend.2)
  · rw [if_neg hl, if_neg fun h => hl h.1]
    exact logs_send _ _ _

/-- A message is taken: it is written when the application is running. -/
theorem logs_takeMessage (s : Scheduler) (p : Nat) (msg : TcmMsg) (hstate : d.state ≠ .terminateRequested)
    (hready : d.eInfo.launchable = true → d.state = .running → d.commFd ≠ tcmInvalidFd) :
    logs (s.takeMessage p d msg) =
      if d.eInfo.launchable then
        (s.handed ++ [(p, msg)], if d.state = .running then s.delivered ++ [(p, msg)] else s.delivered)
      else logs s := by
  have hhand := logs_hand s p d msg
  unfold takeMessage
  cases hs : d.state with
  | notRunning => exact hhand
  | launched => exact hhand
  | running =>
    simp only
    rw [logs_deliver _ _ _ fun hl => hready hl hs]
    by_cases hl : d.eInfo.launchable = true
    · rw [if_pos hl] at hhand ⊢
      obtain ⟨hhanded, hdelivered⟩ := Prod.mk.inj hhand
      rw [if_pos hl, hhanded, hdelivered, if_true]
    · rw [if_neg hl] at hhand ⊢
      rw [if_neg hl, hhand]
  | terminateRequested => exact absurd hs hstate

/-- A message that is added to a log of messages for records. -/
theorem filter_snoc (l : List (Nat × TcmMsg)) (p q : Nat) (msg : TcmMsg) :
    ((l ++ [(p, msg)]).filter fun x => x.1 = q).map Prod.snd =
      (l.filter fun x => x.1 = q).map Prod.snd ++ if q = p then [msg] else [] := by
  rw [List.filter_append, List.map_append]
  congr 1
  by_cases hq : q = p
  · subst hq
    simp
  · simp [hq, Ne.symm hq]

/-! ## The parts of a step -/

/-- A new record has no messages. -/
theorem waiting_insert (s : Scheduler) (eid : BitVec 32) (p : Nat) : (insertDlsInfoEntry T k s eid).1.waiting p = s.waiting p := by
  rcases insertDlsInfoEntry_dlsInfos (T := T) (k := k) s eid with hinfos | ⟨eInfo, fd, -, hinfos⟩
  · rw [waiting, hinfos, waiting]
  · rw [waiting, hinfos, Pool.get?_append]
    by_cases hp : p = s.dlsInfos.mark
    · rw [if_pos hp, hp, waiting, Pool.get?_mark]
      exact ite_self _
    · rw [if_neg hp, waiting]

theorem Ordered.insert (h : Ordered T s) (eid : BitVec 32) : Ordered T (insertDlsInfoEntry T k s eid).1 := by
  refine h.of_logs (h.known.insert eid) (logs_insert s eid) (waiting_insert s eid) fun p d hp _ hrun => ?_
  rcases insertDlsInfoEntry_get? hp with hp | ⟨eInfo, fd, -, rfl, -⟩
  · exact hp
  · cases hrun

theorem launchedInfo_msgQueue (d : DlsInfo) (spawned : Option Int) : (launchedInfo d spawned).msgQueue = d.msgQueue := by
  unfold launchedInfo
  cases spawned with
  | none => rfl
  | some pid =>
    simp only
    split <;> rfl

/-- A record is changed or taken out, is not running afterwards, and keeps the messages that wait. -/
theorem Ordered.set {o : Option DlsInfo} (h : Ordered T s) (hk : Known T t) (hp : s.dlsInfos.get? p = some d) (hlogs : logs t = logs s)
    (hinfos : ∀ q, t.dlsInfos.get? q = if q = p then o else s.dlsInfos.get? q) (hqueue : queueOf o = queueOf (some d))
    (hstate : ∀ d' ∈ o, d'.eInfo.launchable = true → d'.state ≠ .running) : Ordered T t := by
  refine h.of_logs hk hlogs (fun q => ?_) fun q e hq hl hrun => ?_
  · rw [waiting_eq, hinfos, waiting_eq]
    split
    · rename_i hqp
      rw [hqp, hp, hqueue]
    · rfl
  · rw [hinfos] at hq
    split at hq
    · exact absurd hrun (hstate e hq hl)
    · exact hq

theorem launchedInfo_ne_running {spawned : Option Int} (h : d.eInfo.launchable = true) :
    (launchedInfo d spawned).state ≠ .running := by
  rw [launchedInfo_state, if_pos (Bool.and_eq_true _ _ ▸ h).2]
  nofun

theorem queueOf_launchedInfo (d : DlsInfo) (spawned : Option Int) : queueOf (some (launchedInfo d spawned)) = queueOf (some d) := by
  rw [queueOf, queueOf, Option.map_some, Option.map_some, launchedInfo_eInfo, launchedInfo_msgQueue]

theorem Ordered.launch (h : Ordered T s) (hp : s.dlsInfos.get? p = some d) (hk : Known T (s.launch k p d)) :
    Ordered T (s.launch k p d) := by
  by_cases hpath : d.eInfo.path = []
  · refine h.of_logs hk (logs_launch s p d) (fun q => ?_) fun q e hq _ _ => ?_
    · rw [waiting, launch_dlsInfos, if_pos hpath, waiting]
    · rwa [launch_dlsInfos, if_pos hpath] at hq
  · refine h.set (o := some (launchedInfo d (k.spawn s.asked))) hk hp (logs_launch s p d) (fun q => ?_)
      (queueOf_launchedInfo _ _) fun d' hd' hl => ?_
    · rw [launch_dlsInfos, if_neg hpath, Pool.get?_set_eq hp]
    · obtain rfl := Option.some.inj hd'
      rw [launchedInfo_eInfo] at hl
      exact launchedInfo_ne_running hl

/-- A message is handed over, when none waits or the application is running. -/
theorem Ordered.take (h : Ordered T s) (msg : TcmMsg) (hp : s.dlsInfos.get? p = some d) (hk : Known T (s.takeMessage p d msg))
    (hfree : d.eInfo.launchable = true → d.msgQueue = [] ∨ d.state = .running) : Ordered T (s.takeMessage p d msg) := by
  have hinfos := dlsInfos_takeMessage s p d msg
  have hlogs := logs_takeMessage s p msg (h.known.state p d hp) fun hl hrun => (h.ready p d hp hl hrun).2
  by_cases hl : d.eInfo.launchable = true
  swap
  · -- the message is in no log, and does not count as waiting
    rw [if_neg hl] at hlogs
    have hzero : queueOf (some d) = [] := by rw [queueOf, Option.map_some, if_neg hl, Option.getD_some]
    split at hinfos
    · refine h.set (o := some { d with msgQueue := msg :: d.msgQueue }) hk hp hlogs (fun q => ?_) ?_ fun d' hd' hl' => ?_
      · rw [hinfos, Pool.get?_set_eq hp]
      · rw [hzero, queueOf, Option.map_some, if_neg hl, Option.getD_some]
      · obtain rfl := Option.some.inj hd'
        exact absurd hl' hl
    · exact h.of_logs hk hlogs (fun q => by rw [waiting, hinfos, waiting]) fun q e hq _ _ => hinfos ▸ hq
  rw [if_pos hl] at hlogs
  obtain ⟨hhanded, hdelivered⟩ := Prod.mk.inj hlogs
  by_cases hrun : d.state = .running
  · -- the message is written at once
    rw [if_pos hrun] at hdelivered
    rw [if_neg (by rw [hrun]; nofun)] at hinfos
    refine ⟨hk, fun q => ?_, fun q e hq => h.ready q e (hinfos ▸ hq)⟩
    have hwait : (s.takeMessage p d msg).waiting q = s.waiting q := by rw [waiting, hinfos, waiting]
    rw [handedTo, deliveredTo, hhanded, hdelivered, filter_snoc, filter_snoc, hwait]
    have horder := h.order q
    rw [handedTo, deliveredTo] at horder
    rw [horder]
    by_cases hq : q = p
    · rw [if_pos hq, hq, waiting_some hp, if_pos hl, (h.ready p d hp hl hrun).1, List.append_nil, List.append_nil]
    · rw [if_neg hq, List.append_nil, List.append_nil]
  · -- the message is the only one that waits
    have hempty := (hfree hl).resolve_right hrun
    rw [if_neg hrun] at hdelivered
    have hstate : d.state = .notRunning ∨ d.state = .launched := by
      have hterm := h.known.state p d hp
      cases hs : d.state with
      | notRunning => exact .inl rfl
      | launched => exact .inr rfl
      | running => exact absurd hs hrun
      | terminateRequested => exact absurd hs hterm
    rw [if_pos hstate] at hinfos
    refine ⟨hk, fun q => ?_, fun q e hq hl' hrun' => ?_⟩
    · have hwait : (s.takeMessage p d msg).waiting q = if q = p then [msg] else s.waiting q := by
        rw [waiting_eq, hinfos, Pool.get?_set_eq hp, waiting_eq]
        split
        · rw [queueOf, Option.map_some, if_pos hl, hempty, Option.getD_some]
        · rfl
      rw [handedTo, deliveredTo, hhanded, hdelivered, filter_snoc, hwait]
      have horder := h.order q
      rw [handedTo, deliveredTo] at horder
      rw [horder]
      by_cases hq : q = p
      · rw [if_pos hq, if_pos hq, hq, waiting_some hp, if_pos hl, hempty, List.append_nil]
      · rw [if_neg hq, if_neg hq, List.append_nil]
    · rw [hinfos] at hq
      rcases get?_set_cases hp hq with hq | ⟨rfl, rfl⟩
      · exact h.ready q e hq hl' hrun'
      · exact absurd hrun' hrun

/-- What the end of an exit makes of a record without messages. -/
theorem retire_result (hp : s.dlsInfos.get? p = some d) (hempty : d.msgQueue = []) (h : s.retire p d = .done t) :
    logs t = logs s ∧ ∃ o, (∀ q, t.dlsInfos.get? q = if q = p then o else s.dlsInfos.get? q) ∧
      ∀ d' ∈ o, d'.msgQueue = [] ∧ (d'.eInfo.launchable = true → d'.state ≠ .running) := by
  refine ⟨logs_retire h, ?_⟩
  rcases retire_cases h with ⟨-, hinfos⟩ | ⟨-, hinfos⟩
  · exact ⟨none, fun q => by rw [hinfos, Pool.get?_remove], nofun⟩
  · refine ⟨_, fun q => by rw [hinfos, Pool.get?_set_eq hp], fun d' hd' => ?_⟩
    obtain rfl := Option.some.inj hd'
    exact ⟨hempty, nofun⟩

/-- What an exit makes of its record, when it has no messages by now. -/
theorem collectProcess_result (hp : s.dlsInfos.get? p = some d) (hempty : d.msgQueue = []) (h : s.collectProcess k p d = .done t) :
    logs t = logs s ∧ ∃ o, (∀ q, t.dlsInfos.get? q = if q = p then o else s.dlsInfos.get? q) ∧
      ∀ d' ∈ o, d'.msgQueue = [] ∧ (d'.eInfo.launchable = true → d'.state ≠ .running) := by
  unfold collectProcess at h
  split at h
  · exact retire_result hp hempty h
  split at h
  · -- the application is started again
    obtain ⟨d₀, hd₀, rfl⟩ := Outcome.map_eq_done.1 h
    obtain rfl := Option.some.inj (hp.symm.trans (info_eq_done.1 hd₀))
    refine ⟨logs_launch s.ask p d, ?_⟩
    by_cases hpath : d.eInfo.path = []
    · refine ⟨some d, fun q => ?_, fun d' hd' => ?_⟩
      · rw [launch_dlsInfos, if_pos hpath, dlsInfos_ask]
        split
        · rename_i hq
          rw [hq, hp]
        · rfl
      · obtain rfl := Option.some.inj hd'
        refine ⟨hempty, fun hl => ?_⟩
        rw [TcmEntityInfo.launchable, hpath] at hl
        cases hl
    · refine ⟨some (launchedInfo d (k.spawn s.ask.asked)), fun q => ?_, fun d' hd' => ?_⟩
      · rw [launch_dlsInfos, if_neg hpath, dlsInfos_ask, Pool.get?_set_eq hp]
      · obtain rfl := Option.some.inj hd'
        rw [launchedInfo_msgQueue, launchedInfo_eInfo]
        exact ⟨hempty, launchedInfo_ne_running⟩
  · split at h
    · exact retire_result (s := s.ask.ask) hp hempty h
    · exact retire_result (s := s.ask) hp hempty h

/-- An application exits for which nothing waits. -/
theorem Ordered.collect (h : Ordered T s) (hp : s.dlsInfos.get? p = some d) (hk : Known T t)
    (hempty : d.eInfo.launchable = true → d.msgQueue = []) (ht : s.collectApp k p = .done t) : Ordered T t := by
  obtain ⟨d₀, hd₀, ht⟩ := Outcome.bind_eq_done.1 ht
  obtain rfl := Option.some.inj (hp.symm.trans (info_eq_done.1 hd₀))
  obtain ⟨hlogs, o, hinfos, ho⟩ := collectProcess_result (get?_disconnect hp) rfl ht
  refine h.set hk hp (hlogs.trans (logs_disconnect s p d)) (fun q => ?_) ?_ fun d' hd' => (ho d' hd').2
  · rw [hinfos, dlsInfos_disconnect]
    split
    · rfl
    · rename_i hq
      exact Pool.get?_set_of_ne hq
  · have hleft : queueOf o = [] := by
      cases o with
      | none => rfl
      | some d' => rw [queueOf, Option.map_some, (ho d' rfl).1, ite_self, Option.getD_some]
    rw [hleft, queueOf, Option.map_some, Option.getD_some]
    split
    · rename_i hl
      exact (hempty hl).symm
    · rfl

/-- A part of a step keeps the order, when it takes messages and begins exits only where no message waits that it must not pass. -/
theorem Ordered.part (h : Ordered T s) (htakes : ∀ d, L.takes d → d.eInfo.launchable = true → d.msgQueue = [] ∨ d.state = .running)
    (hleaves : ∀ d, L.leaves d → d.eInfo.launchable = true → d.msgQueue = []) (hm : Part T k L s t) : Ordered T t := by
  have hk := h.known.moves (part_moves hm)
  cases hm with
  | insert hmakes hnew => exact h.insert _
  | launch hp hstate => exact h.launch hp hk
  | take msg hp hwhich =>
    refine h.take msg hp hk fun hl => ?_
    rcases hwhich with hwhich | hempty
    · exact htakes _ hwhich hl
    · exact .inl hempty
  | write fd msg =>
    refine h.of_logs hk (logs_send s fd msg) (fun p => ?_) fun p d hp _ _ => ?_
    · rw [waiting_eq, dlsInfos_send, waiting_eq]
    · rwa [dlsInfos_send] at hp
  | collect hp hl ht => exact h.collect hp hk (hleaves _ hl) ht

/-! ## The acceptance of a connection -/

theorem Ordered.getDlsInfo (h : Ordered T s) (eid : BitVec 32) : Ordered T (getDlsInfo T k s eid).1 := by
  unfold Sched.getDlsInfo
  split
  · exact h
  · exact h.insert eid

/-- The messages that wait are written one after the other. -/
theorem logs_foldl_deliver (s : Scheduler) (p : Nat) (msgs : List TcmMsg)
    (hfd : d.eInfo.launchable = true → d.commFd ≠ tcmInvalidFd) :
    logs (msgs.foldl (fun s msg => s.deliver p d msg) s) =
      if d.eInfo.launchable then (s.handed, s.delivered ++ msgs.map fun msg => (p, msg)) else logs s := by
  induction msgs generalizing s with
  | nil =>
    rw [List.foldl_nil, List.map_nil, List.append_nil]
    exact (ite_self _).symm
  | cons msg msgs ih =>
    have hone := logs_deliver s p msg hfd
    rw [List.foldl_cons, ih]
    by_cases hl : d.eInfo.launchable = true
    · rw [if_pos hl] at hone ⊢
      obtain ⟨hhanded, hdelivered⟩ := Prod.mk.inj hone
      rw [if_pos hl, hhanded, hdelivered, List.map_cons, List.append_assoc, List.singleton_append]
    · rw [if_neg hl] at hone ⊢
      rw [if_neg hl, hone]

/-- The messages for a record among those that have just been written for it. -/
theorem filter_append_map (l : List (Nat × TcmMsg)) (p q : Nat) (msgs : List TcmMsg) :
    ((l ++ msgs.map fun msg => (p, msg)).filter fun x => x.1 = q).map Prod.snd =
      (l.filter fun x => x.1 = q).map Prod.snd ++ if q = p then msgs else [] := by
  induction msgs generalizing l with
  | nil =>
    rw [List.map_nil, List.append_nil, ite_self, List.append_nil]
  | cons msg msgs ih =>
    rw [List.map_cons, List.append_cons, ih, filter_snoc, List.append_assoc]
    split <;> rfl

/-- **A confirmation keeps the order**: what waited has been written. -/
theorem Ordered.confirmed (h : Ordered T s) (hp : s.dlsInfos.get? p = some d) {c : Int} (hc : c ≠ tcmInvalidFd)
    (hk : Known T (s.processLaunchConfirmation p { d with commFd := c })) :
    Ordered T (s.processLaunchConfirmation p { d with commFd := c }) := by
  have hinfos := confirmed_dlsInfos s p { d with commFd := c }
  have hlogs : logs (s.processLaunchConfirmation p { d with commFd := c }) = _ :=
    logs_foldl_deliver (d := { d with commFd := c }) _ p d.msgQueue fun _ => hc
  refine ⟨hk, fun q => ?_, fun q e hq hl hrun => ?_⟩
  · have horder := h.order q
    have hwait : (s.processLaunchConfirmation p { d with commFd := c }).waiting q = if q = p then [] else s.waiting q := by
      rw [waiting_eq, hinfos, Pool.get?_set_eq hp, waiting_eq]
      split
      · rw [queueOf, Option.map_some, ite_self, Option.getD_some]
      · rfl
    rw [hwait]
    by_cases hl : d.eInfo.launchable = true
    · rw [if_pos hl] at hlogs
      obtain ⟨hhanded, hdelivered⟩ := Prod.mk.inj hlogs
      rw [handedTo, deliveredTo, hhanded, hdelivered, filter_append_map]
      refine horder.trans ?_
      by_cases hq : q = p
      · rw [if_pos hq, if_pos hq, hq, waiting_some hp, if_pos hl, List.append_nil]
        rfl
      · rw [if_neg hq, if_neg hq, List.append_nil]
        rfl
    · rw [if_neg hl] at hlogs
      obtain ⟨hhanded, hdelivered⟩ := Prod.mk.inj hlogs
      rw [handedTo, deliveredTo, hhanded, hdelivered]
      refine horder.trans ?_
      by_cases hq : q = p
      · rw [if_pos hq, hq, waiting_some hp, if_neg hl]
        rfl
      · rw [if_neg hq]
        rfl
  · rw [hinfos] at hq
    rcases get?_set_cases hp hq with hq | ⟨rfl, rfl⟩
    · exact h.ready q e hq hl hrun
    · exact ⟨rfl, hc⟩

/-- The acceptance of a connection keeps the order. -/
theorem Ordered.listen (h : Ordered T s) (hk : Known T t) {fd : Int} {msg : Option TcmMsg}
    (hs : s.listenPart T k fd msg = .done t) : Ordered T t := by
  rcases listen_cases hs with rfl | rfl | ⟨c, hc, rfl | ⟨msg, -, -, -, -, s₁, rfl, hrest⟩⟩
  · exact h
  · exact ⟨hk, h.order, h.ready⟩
  · exact ⟨hk, h.order, h.ready⟩
  · have hacc : Ordered T (s.accepted c) := ⟨⟨h.known.interests, h.known.entry, h.known.state⟩, h.order, h.ready⟩
    have hget := hacc.getDlsInfo (k := k) msg.src
    rcases hrest with ⟨-, rfl⟩ | ⟨p, d, -, hd, rfl⟩
    · exact ⟨hk, hget.order, hget.ready⟩
    · refine hget.confirmed hd ?_ hk
      have hnonneg := (Option.filter_eq_some_iff.1 hc).2
      rintro rfl
      simp [tcmInvalidFd] at hnonneg

/-! ## The steps -/

/-- A step that is orderly keeps the order. -/
theorem Ordered.step (h : Ordered T s) {a : Kernel × Act} (hfit : Orderly T s a) (hs : Scheduler.step T s a t) : Ordered T t := by
  have hk := h.known.step hs
  obtain ⟨k, a⟩ := a
  obtain ⟨-, hs⟩ := hs
  by_cases hinit : ∃ stage, a = .initDls stage
  · obtain ⟨stage, rfl⟩ := hinit
    cases hs
    exact initDls_keeps (fun _ eid hs => hs.insert eid) h
  by_cases hlisten : ∃ fd msg, a = .listen fd msg
  · obtain ⟨fd, msg, rfl⟩ := hlisten
    exact h.listen hk hs
  · have hparts := act_parts h.known (fun stage ha => hinit ⟨stage, ha⟩) (fun fd msg ha => hlisten ⟨fd, msg, ha⟩) hs
    exact hparts.keeps (fun _ _ hs hm => hs.part hfit.1 hfit.2.1 hm) h

/-- A message that is sent to a launchable application is handed over to it. -/
theorem sendMessageByAppState_handed (h : Ordered T s) (hp : s.dlsInfos.get? p = some d) (hl : d.eInfo.launchable = true) {msg : TcmMsg}
    (hs : s.sendMessageByAppState k p msg = .done t) : t.handed = s.handed ++ [(p, msg)] := by
  obtain ⟨d₀, hd₀, hs⟩ := Outcome.bind_eq_done.1 hs
  obtain rfl := Option.some.inj (hp.symm.trans (info_eq_done.1 hd₀))
  have hlogs := logs_takeMessage s p msg (h.known.state p d hp) fun hl hrun => (h.ready p d hp hl hrun).2
  rw [if_pos hl] at hlogs
  split at hs
  · obtain ⟨d', -, rfl⟩ := Outcome.map_eq_done.1 hs
    exact (Prod.mk.inj (logs_launch (k := k) (s.takeMessage p d msg) p d')).1.trans (Prod.mk.inj hlogs).1
  · cases hs
    exact (Prod.mk.inj hlogs).1

/-- A step that is orderly does with the messages what it has to do. -/
theorem Ordered.delivers (h : Ordered T s) {a : Kernel × Act} (hfit : Orderly T s a) (hs : Scheduler.step T s a t) :
    Delivers T s a t := by
  refine ⟨(h.step hfit hs).inOrder, ?_⟩
  obtain ⟨k, a⟩ := a
  rintro fd msg rfl hrouted
  obtain ⟨p, hp⟩ := Option.ne_none_iff_exists'.1 (hfit.2.2 fd msg rfl hrouted)
  obtain ⟨hsrc, hrequeue, hdst, -, hbounce⟩ := hrouted
  obtain ⟨⟨q, e⟩, hsrc⟩ := Option.ne_none_iff_exists'.1 hsrc
  have hs : s.commPart T k fd (.message msg) = .done t := hs.2
  unfold commPart at hs
  rw [hsrc] at hs
  simp only at hs
  rw [Scheduler.schedProcessMessage, if_neg (by rw [hrequeue]; nofun), if_neg hdst, schedRouteMessage, if_neg hbounce] at hs
  unfold routeTo at hs
  have hget := h.getDlsInfo (k := k) msg.dst
  have hlogs : logs (Sched.getDlsInfo T k s msg.dst).1 = logs s := by
    unfold Sched.getDlsInfo
    split
    · rfl
    · exact logs_insert s msg.dst
  split at hs
  · rename_i s₁ heq
    rw [heq] at hp
    cases hp
  · rename_i s₁ p' heq
    rw [heq] at hp hget hlogs ⊢
    obtain rfl := Option.some.inj hp
    obtain ⟨d, hd, -⟩ := Outcome.bind_eq_done.1 hs
    rw [info_eq_done] at hd
    refine ⟨p', d, rfl, hd, fun hl => ?_⟩
    rw [sendMessageByAppState_handed hget hd hl hs, (Prod.mk.inj hlogs).1]

/-- **The messages arrive in order**, and each of them once: in every run of the scheduler whose steps are all orderly, the messages
that were handed over for a launchable application are those that were written to its connection and those that wait, and none waits
when it runs. -/
theorem messages_inOrder (T : EntityTable) (fd : Int) (tr : List (Transition Scheduler (Kernel × Act))) (t : Scheduler)
    (hr : Run (Scheduler.step T) (Scheduler.start fd) tr t) (horderly : Meets (Orderly T) tr) : Always (Delivers T) tr :=
  hr.always (Ordered.start fd) (fun _ _ _ h hfit hs => ⟨h.step hfit hs, h.delivers hfit hs⟩) horderly

/-- An application that sends messages, and one that is started for them. -/
def mailTable : EntityTable := [⟨11, [], 0, true⟩, ⟨10, ['a'], 0x40, true⟩]

/-- A message to the application that is started. -/
def mail (n : BitVec 32) : TcmMsg := { emptyMsgHeader with type := 0x20000000, src := 11, dst := 10, wordData := n }

/-- The request to stop the application that is started. -/
def mailStop : TcmMsg := { emptyMsgHeader with type := tcmMsgStopApp, src := 11, dst := idSched, request := true, wordData := 10 }

/-- The sender has connected. -/
def mailConnected : Scheduler := next mailTable plainKernel (Scheduler.start 3) (.listen 3 (some (hello 11)))

/-- The first message has been taken, and the application started. -/
def mailFirst : Scheduler := next mailTable plainKernel mailConnected (.comm 7 (.message (mail 1)))

/-- The application has confirmed its launch. -/
def mailConfirmed : Scheduler := next mailTable plainKernel mailFirst (.listen 3 (some (hello 10)))

/-- One message is handed over before the launch is confirmed. -/
theorem messages_inOrder_first :
    Always (Delivers mailTable)
      [(Scheduler.start 3, (plainKernel, Act.listen 3 (some (hello 11))), mailConnected),
        (mailConnected, (plainKernel, Act.comm 7 (.message (mail 1))), mailFirst),
        (mailFirst, (plainKernel, Act.listen 3 (some (hello 10))), mailConfirmed)] := by
  refine messages_inOrder mailTable 3 _ mailConfirmed (Run.cons ⟨⟨rfl, by decide⟩, rfl⟩
    (Run.cons ⟨⟨rfl, by decide⟩, rfl⟩ (Run.single ⟨⟨rfl, by decide⟩, rfl⟩))) ?_
  intro x hx
  rcases List.mem_cons.1 hx with rfl | hx
  · exact ⟨nofun, nofun, nofun⟩
  rcases List.mem_cons.1 hx with rfl | hx
  · refine ⟨by decide, by decide, fun fd msg ha _ => ?_⟩
    obtain ⟨rfl, hmsg⟩ := Act.comm.inj ha
    obtain rfl := Received.message.inj hmsg
    decide
  obtain rfl := List.mem_singleton.1 hx
  exact ⟨nofun, nofun, nofun⟩

/-- A second message has been taken. -/
def mailSecond : Scheduler := next mailTable plainKernel mailFirst (.comm 7 (.message (mail 2)))

/-- The application has confirmed its launch, and got the second message first. -/
def mailReversed : Scheduler := next mailTable plainKernel mailSecond (.listen 3 (some (hello 10)))

/-- The application has been stopped while a message waited. -/
def mailStopped : Scheduler := next mailTable plainKernel mailFirst (.comm 7 (.message mailStop))

/-- Two messages wait when the launch is confirmed: they are written in the wrong order. A message waits when the application is
stopped: it is lost. -/
theorem not_messages_inOrder_second :
    (∃ tr t, Run (Scheduler.step mailTable) (Scheduler.start 3) tr t ∧ ¬Always (Delivers mailTable) tr) ∧
    ∃ tr t, Run (Scheduler.step mailTable) (Scheduler.start 3) tr t ∧ ¬Always (Delivers mailTable) tr := by
  refine ⟨⟨[(Scheduler.start 3, (plainKernel, Act.listen 3 (some (hello 11))), mailConnected),
      (mailConnected, (plainKernel, Act.comm 7 (.message (mail 1))), mailFirst),
      (mailFirst, (plainKernel, Act.comm 7 (.message (mail 2))), mailSecond),
      (mailSecond, (plainKernel, Act.listen 3 (some (hello 10))), mailReversed)], mailReversed, ?_, fun h => ?_⟩,
    ⟨[(Scheduler.start 3, (plainKernel, Act.listen 3 (some (hello 11))), mailConnected),
      (mailConnected, (plainKernel, Act.comm 7 (.message (mail 1))), mailFirst),
      (mailFirst, (plainKernel, Act.comm 7 (.message mailStop)), mailStopped)], mailStopped, ?_, fun h => ?_⟩⟩
  · exact Run.cons ⟨⟨rfl, by decide⟩, rfl⟩ (Run.cons ⟨⟨rfl, by decide⟩, rfl⟩ (Run.cons ⟨⟨rfl, by decide⟩, rfl⟩
      (Run.single ⟨⟨rfl, by decide⟩, rfl⟩)))
  · have horder := ((h (mailSecond, (plainKernel, Act.listen 3 (some (hello 10))), mailReversed) (by simp)).1 1).1
    revert horder
    decide
  · exact Run.cons ⟨⟨rfl, by decide⟩, rfl⟩ (Run.cons ⟨⟨rfl, by decide⟩, rfl⟩ (Run.single ⟨⟨rfl, by decide⟩, rfl⟩))
  · have horder := ((h (mailFirst, (plainKernel, Act.comm 7 (.message mailStop)), mailStopped) (by simp)).1 1).1
    revert horder
    decide

end CodeFactory.Sched
