import CodeFactory.Sched.Server
import Mathlib.Logic.Relation

/-!
# What a step of the scheduler is made of

Every step but the acceptance of a connection and `initDls` is a sequence of parts, each of which concerns one record. A part that makes
a record, takes a message for one or is an exit says so, and which records these are can be told from the state before the step. A part
is made of moves, which are smaller: an exit begins, and ends with a new start or without. As long as there is no registration for an
event, a message that has to do with one has no result.
-/

namespace CodeFactory.Sched

open Oal Msg

/-- What the records have in common in every run: no event is registered for, a record points to the entry of the table with its
id, an id of the table is generic, and no record waits for a termination. -/
structure Known (T : EntityTable) (s : Scheduler) : Prop where
  interests : s.evtInterests = []
  entry : ∀ p dInfo, s.dlsInfos.get? p = some dInfo →
    tcmEidGetEntityInfo T dInfo.eInfo.eid = some dInfo.eInfo ∧ genericEid dInfo.eInfo.eid = dInfo.eInfo.eid
  state : ∀ p dInfo, s.dlsInfos.get? p = some dInfo → dInfo.state ≠ .terminateRequested

/-- What the parts of a step may do: make a record for an id, take a message for a record, be the exit of an application. -/
structure Limits where
  makes : BitVec 32 → Prop
  takes : DlsInfo → Prop
  leaves : DlsInfo → Prop

/-- A part of a step. -/
inductive Part (T : EntityTable) (k : Kernel) (L : Limits) : Scheduler → Scheduler → Prop where
  /-- A record is made: none was found, or the application can have several. -/
  | insert {s : Scheduler} {eid : BitVec 32} (hmakes : L.makes eid)
      (hnew : getExistingDlsInfo s eid = none ∨ ∃ e, tcmEidGetEntityInfo T eid = some e ∧ e.multiple = true) :
      Part T k L s (insertDlsInfoEntry T k s eid).1
  /-- An application that does not run is started. -/
  | launch {s : Scheduler} {p : Nat} {dInfo : DlsInfo} (hp : s.dlsInfos.get? p = some dInfo) (hstate : dInfo.state = .notRunning) :
      Part T k L s (s.launch k p dInfo)
  /-- A message is handed over. A new record has no messages. -/
  | take {s : Scheduler} {p : Nat} {dInfo : DlsInfo} (msg : TcmMsg) (hp : s.dlsInfos.get? p = some dInfo)
      (htakes : L.takes dInfo ∨ dInfo.msgQueue = []) : Part T k L s (s.takeMessage p dInfo msg)
  /-- A message is written that is not handed over to an application. -/
  | write {s : Scheduler} (fd : Int) (msg : TcmMsg) : Part T k L s (s.tcmMsgSendBySocket fd msg)
  /-- An application exits. -/
  | collect {s t : Scheduler} {p : Nat} {dInfo : DlsInfo} (hp : s.dlsInfos.get? p = some dInfo) (hleaves : L.leaves dInfo)
      (ht : s.collectApp k p = .done t) : Part T k L s t

/-- A sequence of parts. -/
abbrev Parts (T : EntityTable) (k : Kernel) (L : Limits) : Scheduler → Scheduler → Prop := Relation.ReflTransGen (Part T k L)

/-- What a part is made of. -/
inductive Move (T : EntityTable) (k : Kernel) (L : Limits) : Scheduler → Scheduler → Prop where
  /-- A record is made. -/
  | insert {s : Scheduler} {eid : BitVec 32} (hmakes : L.makes eid)
      (hnew : getExistingDlsInfo s eid = none ∨ ∃ e, tcmEidGetEntityInfo T eid = some e ∧ e.multiple = true) :
      Move T k L s (insertDlsInfoEntry T k s eid).1
  /-- An application is started: it did not run, or it has just exited. -/
  | launch {s : Scheduler} {p : Nat} {dInfo : DlsInfo} (hp : s.dlsInfos.get? p = some dInfo)
      (hstate : dInfo.state = .notRunning ∨ dInfo.commFd = tcmInvalidFd ∧ dInfo.msgQueue = []) :
      Move T k L s (s.launch k p dInfo)
  /-- A message is handed over. -/
  | take {s : Scheduler} {p : Nat} {dInfo : DlsInfo} (msg : TcmMsg) (hp : s.dlsInfos.get? p = some dInfo)
      (htakes : L.takes dInfo ∨ dInfo.msgQueue = []) : Move T k L s (s.takeMessage p dInfo msg)
  /-- A message is written. -/
  | write {s : Scheduler} (fd : Int) (msg : TcmMsg) : Move T k L s (s.tcmMsgSendBySocket fd msg)
  /-- An exit begins. -/
  | disconnect {s : Scheduler} {p : Nat} {dInfo : DlsInfo} (hp : s.dlsInfos.get? p = some dInfo) (hleaves : L.leaves dInfo) :
      Move T k L s (s.disconnect p dInfo)
  /-- An exit ends. -/
  | retire {s t : Scheduler} {p : Nat} {dInfo : DlsInfo} (hp : s.dlsInfos.get? p = some dInfo)
      (hdone : dInfo.commFd = tcmInvalidFd ∧ dInfo.msgQueue = []) (ht : s.retire p dInfo = .done t) : Move T k L s t
  /-- The kernel has been asked. -/
  | ask {s : Scheduler} : Move T k L s s.ask

/-- A sequence of moves. -/
abbrev Moves (T : EntityTable) (k : Kernel) (L : Limits) : Scheduler → Scheduler → Prop := Relation.ReflTransGen (Move T k L)

/-! ## What a step concerns -/

namespace Scheduler

/-- The ids that a message may have a record made for. -/
def messageMakes (msg : TcmMsg) : List (BitVec 32) :=
  if msg.requeue then []
  else if msg.dst = idSched then
    if msg.event then []
    else if msg.type = tcmMsgStartApp then [msg.wordData]
    else if msg.type = tcmMsgRestartApp then [genericEid msg.wordData]
    else []
  else [msg.dst]

/-- The record that a message is handed over to, if there is one by then. -/
def messageTakes (s : Scheduler) (msg : TcmMsg) : List DlsInfo :=
  if msg.requeue ∨ msg.dst = idSched ∨ msg.bounceIfNotRunning ∧ notRunningFor (getExistingDlsInfo s msg.dst) then []
  else (getExistingDlsInfo s msg.dst).toList.map Prod.snd

/-- The record whose application a message stops. -/
def messageLeaves (s : Scheduler) (msg : TcmMsg) : List DlsInfo :=
  if msg.requeue = false ∧ msg.dst = idSched ∧ msg.event = false ∧ (msg.type = tcmMsgStopApp ∨ msg.type = tcmMsgRestartApp) then
    (getExistingDlsInfo s msg.wordData).toList.map Prod.snd
  else []

/-- The ids that a step may have a record made for, the acceptance of a connection and `initDls` apart. -/
def makes : Act → List (BitVec 32)
  | .comm _ (.message msg) => messageMakes msg
  | _ => []

/-- The records of the state that a step hands a message over to. -/
def takes (s : Scheduler) : Act → List DlsInfo
  | .comm _ (.message msg) => s.messageTakes msg
  | .appLauncher stage =>
    (s.dlsInfos.entries.map Prod.snd).filter fun d => appLauncherWants stage d.eInfo && d.eInfo.has appcfgMessagingCapable
  | _ => []

/-- The records of the state whose applications exit in a step, and are not running yet or any more. -/
def leaves (s : Scheduler) : Act → List DlsInfo
  | .comm _ (.message msg) => s.messageLeaves msg
  | .comm fd .disconnected => (getDlsInfoByCommFd s fd).toList.map Prod.snd
  | _ => []

/-- The limits of a step. -/
def limits (s : Scheduler) (a : Act) : Limits := ⟨(· ∈ makes a), (· ∈ s.takes a), (· ∈ s.leaves a)⟩

/-! ## What the operations do to the records -/

@[simp] theorem dlsInfos_ask (s : Scheduler) : s.ask.dlsInfos = s.dlsInfos := rfl

@[simp] theorem dlsInfos_fdSet (s : Scheduler) (fd : Int) : (s.fdSet fd).dlsInfos = s.dlsInfos := rfl

@[simp] theorem dlsInfos_fdClr (s : Scheduler) (fd : Int) : (s.fdClr fd).dlsInfos = s.dlsInfos := rfl

@[simp] theorem dlsInfos_close (s : Scheduler) (fd : Int) : (s.close fd).dlsInfos = s.dlsInfos := rfl

@[simp] theorem dlsInfos_setInfo (s : Scheduler) (p : Nat) (d : DlsInfo) : (s.setInfo p d).dlsInfos = s.dlsInfos.set p d := rfl

@[simp] theorem dlsInfos_linkInfo (s : Scheduler) (d : DlsInfo) : (s.linkInfo d).dlsInfos = s.dlsInfos.append d := rfl

@[simp] theorem dlsInfos_send (s : Scheduler) (fd : Int) (msg : TcmMsg) :
    (s.tcmMsgSendBySocket fd msg).dlsInfos = s.dlsInfos := by
  unfold tcmMsgSendBySocket
  split <;> rfl

@[simp] theorem dlsInfos_hand (s : Scheduler) (p : Nat) (d : DlsInfo) (msg : TcmMsg) : (s.hand p d msg).dlsInfos = s.dlsInfos := by
  unfold hand
  split <;> rfl

@[simp] theorem dlsInfos_deliver (s : Scheduler) (p : Nat) (d : DlsInfo) (msg : TcmMsg) :
    (s.deliver p d msg).dlsInfos = s.dlsInfos := by
  unfold deliver
  simp only
  split
  · exact dlsInfos_send s _ _
  · exact dlsInfos_send s _ _

variable {T : EntityTable} {k : Kernel} {L : Limits} {s t : Scheduler} {p q : Nat} {dInfo : DlsInfo}

theorem info_eq_done : s.info p = .done dInfo ↔ s.dlsInfos.get? p = some dInfo := follow_eq_done

theorem dlsInfos_takeMessage (s : Scheduler) (p : Nat) (d : DlsInfo) (msg : TcmMsg) :
    (s.takeMessage p d msg).dlsInfos =
      if d.state = .notRunning ∨ d.state = .launched then s.dlsInfos.set p { d with msgQueue := msg :: d.msgQueue }
      else s.dlsInfos := by
  unfold takeMessage
  split <;> rename_i h <;> simp [h, queuemsg]

theorem launch_dlsInfos (s : Scheduler) (p : Nat) (d : DlsInfo) :
    (s.launch k p d).dlsInfos =
      if d.eInfo.path = [] then s.dlsInfos else s.dlsInfos.set p (launchedInfo d (k.spawn s.asked)) := by
  unfold launch
  split
  · rfl
  · split <;> rfl

theorem launchApp_parts (hp : s.dlsInfos.get? p = some dInfo) (hstate : dInfo.state = .notRunning)
    (h : s.launchApp k p = .done t) : Parts T k L s t := by
  obtain ⟨d, hd, rfl⟩ := Outcome.map_eq_done.1 h
  obtain rfl := Option.some.inj (hp.symm.trans (info_eq_done.1 hd))
  exact .single (.launch hp hstate)

theorem launchApp_moves (hp : s.dlsInfos.get? p = some dInfo)
    (hstate : dInfo.state = .notRunning ∨ dInfo.commFd = tcmInvalidFd ∧ dInfo.msgQueue = [])
    (h : s.launchApp k p = .done t) : Moves T k L s t := by
  obtain ⟨d, hd, rfl⟩ := Outcome.map_eq_done.1 h
  obtain rfl := Option.some.inj (hp.symm.trans (info_eq_done.1 hd))
  exact .single (.launch hp hstate)

/-! ## The functions as parts -/

theorem sendMessageByAppState_parts {msg : TcmMsg} (htakes : ∀ d, s.dlsInfos.get? p = some d → L.takes d ∨ d.msgQueue = [])
    (h : s.sendMessageByAppState k p msg = .done t) : Parts T k L s t := by
  obtain ⟨d, hd, h⟩ := Outcome.bind_eq_done.1 h
  rw [info_eq_done] at hd
  have htake : Part T k L s (s.takeMessage p d msg) := .take msg hd (htakes d hd)
  split at h
  · rename_i hstate
    have htaken : (s.takeMessage p d msg).dlsInfos.get? p = some { d with msgQueue := msg :: d.msgQueue } := by
      rw [dlsInfos_takeMessage, if_pos (.inl hstate)]
      exact Pool.get?_set_self hd
    exact .head htake (launchApp_parts htaken hstate h)
  · cases h
    exact .single htake

theorem dlsInfos_disconnect (s : Scheduler) (p : Nat) (d : DlsInfo) :
    (s.disconnect p d).dlsInfos = s.dlsInfos.set p { d with msgQueue := [], commFd := tcmInvalidFd } := by
  unfold disconnect
  simp only
  split <;> rfl

/-- The record of an application whose exit has begun. -/
theorem get?_disconnect (hp : s.dlsInfos.get? p = some dInfo) :
    (s.disconnect p dInfo).dlsInfos.get? p = some { dInfo with msgQueue := [], commFd := tcmInvalidFd } := by
  rw [dlsInfos_disconnect]
  exact Pool.get?_set_self hp

theorem collectProcess_moves (hp : s.dlsInfos.get? p = some dInfo) (hdone : dInfo.commFd = tcmInvalidFd ∧ dInfo.msgQueue = [])
    (h : s.collectProcess k p dInfo = .done t) : Moves T k L s t := by
  unfold collectProcess at h
  split at h
  · exact .single (.retire hp hdone h)
  · split at h
    · exact .head .ask (launchApp_moves (s := s.ask) hp (.inr hdone) h)
    · split at h
      · exact .head .ask (.head .ask (.single (.retire (s := s.ask.ask) hp hdone h)))
      · exact .head .ask (.single (.retire (s := s.ask) hp hdone h))

theorem collectApp_moves (hleaves : ∀ d, s.dlsInfos.get? p = some d → L.leaves d) (h : s.collectApp k p = .done t) :
    Moves T k L s t := by
  obtain ⟨d, hd, h⟩ := Outcome.bind_eq_done.1 h
  rw [info_eq_done] at hd
  exact .head (.disconnect hd (hleaves d hd)) (collectProcess_moves (get?_disconnect hd) ⟨rfl, rfl⟩ h)

theorem collectApp_parts (hleaves : ∀ d, s.dlsInfos.get? p = some d → L.leaves d) (h : s.collectApp k p = .done t) :
    Parts T k L s t := by
  obtain ⟨d, hd, -⟩ := Outcome.bind_eq_done.1 h
  rw [info_eq_done] at hd
  exact .single (.collect hd (hleaves d hd) h)

/-- A part is made of moves. -/
theorem part_moves (h : Part T k L s t) : Moves T k L s t := by
  cases h with
  | insert hmakes hnew => exact .single (.insert hmakes hnew)
  | launch hp hstate => exact .single (.launch hp (.inl hstate))
  | take msg hp htakes => exact .single (.take msg hp htakes)
  | write fd msg => exact .single (.write fd msg)
  | @collect _ p dInfo hp hleaves ht =>
    refine collectApp_moves (fun d hd => ?_) ht
    obtain rfl := Option.some.inj (hp.symm.trans hd)
    exact hleaves

theorem stopApp_parts {eid : BitVec 32} (hleaves : ∀ x ∈ getExistingDlsInfo s eid, L.leaves x.2)
    (h : s.stopApp T k eid = .done t) : Parts T k L s t := by
  unfold stopApp at h
  split at h
  · cases h
    exact .refl
  · split at h
    · cases h
      exact .refl
    · rename_i p dInfo hfound
      have hp := (Pool.get?_of_first hfound).1
      split at h
      · cases h
        exact .refl
      · obtain ⟨d, hd, h⟩ := Outcome.bind_eq_done.1 h
        split at h
        · cases h
          exact .refl
        · refine collectApp_parts (fun d' hd' => ?_) h
          obtain rfl := Option.some.inj (hp.symm.trans hd')
          exact hleaves _ hfound

theorem getDlsInfo_parts {eid : BitVec 32} (hmakes : L.makes eid) : Parts T k L s (getDlsInfo T k s eid).1 := by
  unfold getDlsInfo
  split
  · exact .refl
  · rename_i hnone
    exact .single (.insert hmakes (.inl hnone))

/-- The state in which a descriptor has been opened. -/
def accepted (s : Scheduler) (fd : Int) : Scheduler := { s.ask with openFds := insert fd s.openFds }

/-- What `insertDlsInfoEntry` gives. -/
inductive Inserted (T : EntityTable) (k : Kernel) (s : Scheduler) (eid : BitVec 32) : Scheduler × Option Nat → Prop where
  | unknown (he : tcmEidGetEntityInfo T (genericEid eid) = none) : Inserted T k s eid (s, none)
  | console {eInfo : TcmEntityInfo} (he : tcmEidGetEntityInfo T (genericEid eid) = some eInfo) (heid : eid = idConsole) :
      Inserted T k s eid ((s.fdSet 0).linkInfo { newDlsInfo eInfo eid with serverFd := 0 }, some s.dlsInfos.mark)
  | noFd (hfd : s.newFd k = none) : Inserted T k s eid (s.ask, none)
  | server {eInfo : TcmEntityInfo} {fd : Int} (he : tcmEidGetEntityInfo T (genericEid eid) = some eInfo) (heid : eid ≠ idConsole)
      (hflags : eInfo.flags ≠ 0) (hfd : s.newFd k = some fd) :
      Inserted T k s eid (((s.accepted fd).fdSet fd).linkInfo { newDlsInfo eInfo eid with serverFd := fd }, some s.dlsInfos.mark)
  | plain {eInfo : TcmEntityInfo} (he : tcmEidGetEntityInfo T (genericEid eid) = some eInfo) (heid : eid ≠ idConsole)
      (hflags : eInfo.flags = 0) : Inserted T k s eid (s.linkInfo (newDlsInfo eInfo eid), some s.dlsInfos.mark)

theorem insertDlsInfoEntry_inserted (s : Scheduler) (eid : BitVec 32) : Inserted T k s eid (insertDlsInfoEntry T k s eid) := by
  unfold insertDlsInfoEntry
  split
  · rename_i he
    exact .unknown he
  · rename_i eInfo he
    simp only
    split
    · rename_i heid
      exact .console he heid
    · rename_i heid
      split
      · rename_i hflags
        split
        · rename_i hfd
          exact .noFd hfd
        · rename_i fd hfd
          exact .server he heid hflags.1 hfd
      · rename_i hflags
        refine .plain he heid ?_
        by_contra hne
        exact hflags ⟨hne, by decide⟩

/-- A record that has been made is new. -/
theorem insertDlsInfoEntry_some {eid : BitVec 32} (h : (insertDlsInfoEntry T k s eid).2 = some p) :
    ∃ eInfo fd, tcmEidGetEntityInfo T (genericEid eid) = some eInfo ∧
      (insertDlsInfoEntry T k s eid).1.dlsInfos = s.dlsInfos.append { newDlsInfo eInfo eid with serverFd := fd } ∧
      p = s.dlsInfos.mark := by
  have hins := insertDlsInfoEntry_inserted (T := T) (k := k) s eid
  generalize insertDlsInfoEntry T k s eid = r at h hins ⊢
  cases hins with
  | unknown he => cases h
  | noFd hfd => cases h
  | console he heid => exact ⟨_, _, he, rfl, (Option.some.inj h).symm⟩
  | server he heid hflags hfd => exact ⟨_, _, he, rfl, (Option.some.inj h).symm⟩
  | plain he heid hflags => exact ⟨_, tcmInvalidFd, he, rfl, (Option.some.inj h).symm⟩

/-- The records after one was to be made: those of before, and the new one at the mark. -/
theorem insertDlsInfoEntry_dlsInfos (s : Scheduler) (eid : BitVec 32) :
    (insertDlsInfoEntry T k s eid).1.dlsInfos = s.dlsInfos ∨
      ∃ eInfo fd, tcmEidGetEntityInfo T (genericEid eid) = some eInfo ∧
        (insertDlsInfoEntry T k s eid).1.dlsInfos = s.dlsInfos.append { newDlsInfo eInfo eid with serverFd := fd } := by
  have hins := insertDlsInfoEntry_inserted (T := T) (k := k) s eid
  generalize insertDlsInfoEntry T k s eid = r at hins ⊢
  cases hins with
  | unknown he => exact .inl rfl
  | noFd hfd => exact .inl rfl
  | console he heid => exact .inr ⟨_, _, he, rfl⟩
  | server he heid hflags hfd => exact .inr ⟨_, _, he, rfl⟩
  | plain he heid hflags => exact .inr ⟨_, tcmInvalidFd, he, rfl⟩

/-- The record of an id, found or made: it was there, or it is new. -/
theorem getDlsInfo_some {eid : BitVec 32} (h : (getDlsInfo T k s eid).2 = some p)
    (hd : (getDlsInfo T k s eid).1.dlsInfos.get? p = some dInfo) :
    getExistingDlsInfo s eid = some (p, dInfo) ∨
      getExistingDlsInfo s eid = none ∧ ∃ eInfo fd, tcmEidGetEntityInfo T (genericEid eid) = some eInfo ∧
        dInfo = { newDlsInfo eInfo eid with serverFd := fd } ∧ p = s.dlsInfos.mark := by
  unfold getDlsInfo at h hd
  split at h
  · rename_i q d hfound
    rw [hfound] at hd
    obtain rfl := Option.some.inj h
    obtain rfl := Option.some.inj ((Pool.get?_of_first hfound).1.symm.trans hd)
    exact .inl hfound
  · rename_i hnone
    rw [hnone] at hd
    obtain ⟨eInfo, fd, he, hinfos, hp⟩ := insertDlsInfoEntry_some h
    refine .inr ⟨hnone, eInfo, fd, he, ?_, hp⟩
    rw [getNewDlsInfo, hinfos, Pool.get?_append, if_pos hp] at hd
    exact (Option.some.inj hd).symm

theorem startApp_parts {eid : BitVec 32} {pid : Int} (hmakes : L.makes eid) (h : s.startApp T k eid = .done (pid, t)) :
    Parts T k L s t := by
  unfold startApp at h
  split at h
  · cases h
    exact .refl
  · rename_i eInfo he
    have htarget : Parts T k L s (startTarget T k s eInfo eid).1 := by
      unfold startTarget
      split
      · rename_i hmultiple
        exact .single (.insert hmakes (.inr ⟨eInfo, he, hmultiple⟩))
      · exact getDlsInfo_parts hmakes
    split at h
    · rename_i s₁ heq
      cases h
      rwa [heq] at htarget
    · rename_i s₁ p heq
      rw [heq] at htarget
      obtain ⟨d, hd, h⟩ := Outcome.bind_eq_done.1 h
      split at h
      · rename_i hstate
        obtain ⟨s₂, hlaunch, h⟩ := Outcome.bind_eq_done.1 h
        obtain ⟨d', -, h⟩ := Outcome.map_eq_done.1 h
        cases h
        exact htarget.trans (launchApp_parts (info_eq_done.1 hd) hstate hlaunch)
      · cases h
        exact htarget

theorem processMsgSimpleFooter_parts {rv : BitVec 32} {msg : TcmMsg} (h : s.processMsgSimpleFooter p rv msg = .done t) :
    Parts T k L s t := by
  obtain ⟨d, -, rfl⟩ := Outcome.map_eq_done.1 h
  exact .single (.write _ _)

theorem schedRouteMessage_parts {msg : TcmMsg} (hmakes : L.makes msg.dst)
    (htakes : ¬(msg.bounceIfNotRunning = true ∧ notRunningFor (getExistingDlsInfo s msg.dst) = true) →
      ∀ x ∈ getExistingDlsInfo s msg.dst, L.takes x.2)
    (h : s.schedRouteMessage T k msg = .done t) : Parts T k L s t := by
  unfold schedRouteMessage at h
  split at h
  · unfold bounce at h
    split at h
    · cases h
      exact .refl
    · obtain ⟨src, -, h⟩ := Outcome.bind_eq_done.1 h
      exact processMsgSimpleFooter_parts h
  · rename_i hroute
    unfold routeTo at h
    have hparts : Parts T k L s (getDlsInfo T k s msg.dst).1 := getDlsInfo_parts hmakes
    split at h
    · rename_i s₁ heq
      cases h
      rwa [heq] at hparts
    · rename_i s₁ p heq
      rw [heq] at hparts
      refine hparts.trans (sendMessageByAppState_parts (fun d hd => ?_) h)
      have hsome : (getDlsInfo T k s msg.dst).2 = some p := by rw [heq]
      have hget : (getDlsInfo T k s msg.dst).1.dlsInfos.get? p = some d := by rw [heq]; exact hd
      rcases getDlsInfo_some hsome hget with hfound | ⟨-, eInfo, fd, -, rfl, -⟩
      · exact .inl (htakes hroute _ hfound)
      · exact .inr rfl

/-- A message for the scheduler that is no event. -/
theorem processRequest_parts {msg : TcmMsg} (hk : s.evtInterests = [])
    (hmakes : (msg.type = tcmMsgStartApp → L.makes msg.wordData) ∧ (msg.type = tcmMsgRestartApp → L.makes (genericEid msg.wordData)))
    (hleaves : msg.type = tcmMsgStopApp ∨ msg.type = tcmMsgRestartApp → ∀ x ∈ getExistingDlsInfo s msg.wordData, L.leaves x.2)
    (h : s.processRequest T k p msg = .done t) : Parts T k L s t := by
  have hundefined : ∀ positive, s.schedProcessRegisterEventInterest p msg positive ≠ .done t := by
    intro positive hreg
    obtain ⟨d, -, hreg⟩ := Outcome.bind_eq_done.1 hreg
    rw [hk] at hreg
    cases positive <;> cases hreg
  unfold processRequest at h
  split_ifs at h with h₁ h₂ h₃ h₄ h₅ h₆
  · exact absurd h (hundefined true)
  · exact absurd h (hundefined false)
  · obtain ⟨⟨pid, s₁⟩, hstart, h⟩ := Outcome.bind_eq_done.1 h
    exact (startApp_parts (hmakes.1 h₃) hstart).trans (processMsgSimpleFooter_parts h)
  · obtain ⟨s₁, hstop, h⟩ := Outcome.bind_eq_done.1 h
    exact (stopApp_parts (hleaves (.inl h₄)) hstop).trans (processMsgSimpleFooter_parts h)
  · obtain ⟨s₁, hstop, h⟩ := Outcome.bind_eq_done.1 h
    obtain ⟨⟨pid, s₂⟩, hstart, h⟩ := Outcome.bind_eq_done.1 h
    exact ((stopApp_parts (hleaves (.inr h₅)) hstop).trans (startApp_parts (hmakes.2 h₅) hstart)).trans
      (processMsgSimpleFooter_parts h)
  · exact processMsgSimpleFooter_parts h
  · cases h
    exact .refl

theorem schedProcessMessage_parts {msg : TcmMsg} (hk : s.evtInterests = []) {fd : Int}
    (h : s.schedProcessMessage T k p msg = .done t) : Parts T k (s.limits (.comm fd (.message msg))) s t := by
  unfold schedProcessMessage at h
  split at h
  · obtain ⟨d, -, rfl⟩ := Outcome.map_eq_done.1 h
    exact .single (.write _ _)
  · rename_i hrequeue
    split at h
    · rename_i hdst
      split at h
      · rename_i hevent
        obtain ⟨d, -, h⟩ := Outcome.bind_eq_done.1 h
        rw [hk] at h
        cases h
      · rename_i hevent
        refine processRequest_parts hk ⟨fun htype => ?_, fun htype => ?_⟩ (fun htype x hx => ?_) h
        · show msg.wordData ∈ messageMakes msg
          rw [messageMakes, if_neg hrequeue, if_pos hdst, if_neg hevent, if_pos htype]
          exact List.mem_singleton_self _
        · show genericEid msg.wordData ∈ messageMakes msg
          have hne : msg.type ≠ tcmMsgStartApp := by
            rw [htype]
            decide
          rw [messageMakes, if_neg hrequeue, if_pos hdst, if_neg hevent, if_neg hne, if_pos htype]
          exact List.mem_singleton_self _
        · show x.2 ∈ s.messageLeaves msg
          rw [messageLeaves, if_pos ⟨by simpa using hrequeue, hdst, by simpa using hevent, htype⟩]
          exact List.mem_map_of_mem (Option.mem_toList.2 hx)
    · rename_i hdst
      refine schedRouteMessage_parts ?_ (fun hroute x hx => ?_) h
      · show msg.dst ∈ messageMakes msg
        rw [messageMakes, if_neg hrequeue, if_neg hdst]
        exact List.mem_singleton_self _
      · show x.2 ∈ s.messageTakes msg
        rw [messageTakes, if_neg (by simp only [not_or]; exact ⟨hrequeue, hdst, hroute⟩)]
        exact List.mem_map_of_mem (Option.mem_toList.2 hx)

/-- A message that is handed over changes its own record only. -/
theorem sendMessageByAppState_get? {msg : TcmMsg} (hq : q ≠ p) (h : s.sendMessageByAppState k p msg = .done t) :
    t.dlsInfos.get? q = s.dlsInfos.get? q := by
  obtain ⟨d, -, h⟩ := Outcome.bind_eq_done.1 h
  have htake : (s.takeMessage p d msg).dlsInfos.get? q = s.dlsInfos.get? q := by
    rw [dlsInfos_takeMessage]
    split
    · exact Pool.get?_set_of_ne hq
    · rfl
  split at h
  · obtain ⟨d', -, rfl⟩ := Outcome.map_eq_done.1 h
    rw [launch_dlsInfos]
    split
    · exact htake
    · rw [Pool.get?_set_of_ne hq, htake]
  · cases h
    exact htake

/-- A round of `app_launcher` changes its own record only. -/
theorem appLauncherRound_get? {stage : Nat} (hq : q ≠ p) (h : s.appLauncherRound k stage p = .done t) :
    t.dlsInfos.get? q = s.dlsInfos.get? q := by
  obtain ⟨d, -, h⟩ := Outcome.bind_eq_done.1 h
  split at h
  · obtain ⟨s₁, hsend, h⟩ := Outcome.bind_eq_done.1 h
    have hsent : s₁.dlsInfos.get? q = s.dlsInfos.get? q := by
      split at hsend
      · exact sendMessageByAppState_get? hq hsend
      · cases hsend
        rfl
    obtain ⟨d', -, h⟩ := Outcome.bind_eq_done.1 h
    split at h
    · obtain ⟨d'', -, rfl⟩ := Outcome.map_eq_done.1 h
      rw [launch_dlsInfos]
      split
      · exact hsent
      · rw [Pool.get?_set_of_ne hq, hsent]
    · cases h
      exact hsent
  · cases h
    rfl

end Scheduler

/-! ## The records after a move -/

/-- What a move that launches no application makes of a record. -/
inductive Changed : DlsInfo → DlsInfo → Prop where
  | taken {d : DlsInfo} (msg : TcmMsg) (hstate : d.state = .notRunning ∨ d.state = .launched) :
      Changed d { d with msgQueue := msg :: d.msgQueue }
  | disconnected {d : DlsInfo} : Changed d { d with msgQueue := [], commFd := tcmInvalidFd }
  | retired {d : DlsInfo} (hdone : d.commFd = tcmInvalidFd ∧ d.msgQueue = []) :
      Changed d { d with state := .notRunning, pid := tcmInvalidPid, specificEid := 0 }

variable {T : EntityTable} {k : Kernel} {L : Limits} {s t : Scheduler} {p q : Nat} {d d' : DlsInfo}

theorem launchedInfo_eInfo (d : DlsInfo) (spawned : Option Int) : (Scheduler.launchedInfo d spawned).eInfo = d.eInfo := by
  unfold Scheduler.launchedInfo
  cases spawned with
  | none => rfl
  | some pid =>
    simp only
    split <;> rfl

theorem launchedInfo_state (d : DlsInfo) (spawned : Option Int) :
    (Scheduler.launchedInfo d spawned).state = if d.eInfo.has appcfgMessagingCapable then .launched else .running := by
  unfold Scheduler.launchedInfo
  cases spawned with
  | none => rfl
  | some pid =>
    simp only
    split <;> rfl

/-- A move does not touch the entry of the table that a record points to. -/
theorem Changed.eInfo (h : Changed d d') : d'.eInfo = d.eInfo := by
  cases h <;> rfl

/-- A record is put in the place of another one by a move. -/
theorem get?_set_cases (hp : s.dlsInfos.get? p = some d) (hq : (s.dlsInfos.set p d').get? q = some e) :
    s.dlsInfos.get? q = some e ∨ q = p ∧ e = d' := by
  rw [Pool.get?_set_eq hp] at hq
  split at hq
  · rename_i h
    exact .inr ⟨h, (Option.some.inj hq).symm⟩
  · exact .inl hq

/-- What `retire` does: the record is gone, or it is ready for a new start. -/
theorem retire_cases (h : s.retire p d = .done t) :
    Scheduler.isFreed d = true ∧ t.dlsInfos = s.dlsInfos.remove p ∨
      Scheduler.isFreed d = false ∧
        t.dlsInfos = s.dlsInfos.set p { d with state := .notRunning, pid := tcmInvalidPid, specificEid := 0 } := by
  unfold Scheduler.retire at h
  simp only at h
  split at h
  · rename_i hfree
    obtain ⟨evs, -, rfl⟩ := Outcome.map_eq_done.1 h
    refine .inl ⟨hfree, ?_⟩
    simp only
    split <;> rfl
  · rename_i hfree
    cases h
    refine .inr ⟨Bool.eq_false_iff.2 hfree, ?_⟩
    split <;> rfl

/-- The records after one is made: those of before, and perhaps a new one. -/
theorem insertDlsInfoEntry_get? {eid : BitVec 32} (hd : (insertDlsInfoEntry T k s eid).1.dlsInfos.get? q = some d) :
    s.dlsInfos.get? q = some d ∨
      ∃ eInfo fd, tcmEidGetEntityInfo T (genericEid eid) = some eInfo ∧ d = { newDlsInfo eInfo eid with serverFd := fd } ∧
        q = s.dlsInfos.mark := by
  rcases Scheduler.insertDlsInfoEntry_dlsInfos (T := T) (k := k) s eid with hinfos | ⟨eInfo, fd, he, hinfos⟩
  · rw [hinfos] at hd
    exact .inl hd
  · rw [hinfos, Pool.get?_append] at hd
    split at hd
    · rename_i hq
      exact .inr ⟨eInfo, fd, he, (Option.some.inj hd).symm, hq⟩
    · exact .inl hd

/-- **The records after a move**: each one was there, is new, was changed by the move, or was launched by it. -/
theorem Move.record (hm : Move T k L s t) (hd : t.dlsInfos.get? q = some d) :
    s.dlsInfos.get? q = some d ∨
      (∃ eid eInfo fd, L.makes eid ∧ tcmEidGetEntityInfo T (genericEid eid) = some eInfo ∧
        d = { newDlsInfo eInfo eid with serverFd := fd }) ∨
      (∃ d₀, s.dlsInfos.get? q = some d₀ ∧ Changed d₀ d) ∨
      ∃ d₀, s.dlsInfos.get? q = some d₀ ∧ t = s.launch k q d₀ ∧ d = Scheduler.launchedInfo d₀ (k.spawn s.asked) := by
  cases hm with
  | insert hmakes hnew =>
    rcases insertDlsInfoEntry_get? hd with hd | ⟨eInfo, fd, he, rfl, -⟩
    · exact .inl hd
    · exact .inr (.inl ⟨_, eInfo, fd, hmakes, he, rfl⟩)
  | launch hp hstate =>
    rw [Scheduler.launch_dlsInfos] at hd
    split at hd
    · exact .inl hd
    · rcases get?_set_cases hp hd with hd | ⟨rfl, rfl⟩
      · exact .inl hd
      · exact .inr (.inr (.inr ⟨_, hp, rfl, rfl⟩))
  | take msg hp htakes =>
    rw [Scheduler.dlsInfos_takeMessage] at hd
    split at hd
    · rename_i hstate
      rcases get?_set_cases hp hd with hd | ⟨rfl, rfl⟩
      · exact .inl hd
      · exact .inr (.inr (.inl ⟨_, hp, .taken msg hstate⟩))
    · exact .inl hd
  | write fd msg =>
    rw [Scheduler.dlsInfos_send] at hd
    exact .inl hd
  | disconnect hp hleaves =>
    rw [Scheduler.dlsInfos_disconnect] at hd
    rcases get?_set_cases hp hd with hd | ⟨rfl, rfl⟩
    · exact .inl hd
    · exact .inr (.inr (.inl ⟨_, hp, .disconnected⟩))
  | retire hp hdone ht =>
    rcases retire_cases ht with ⟨-, hinfos⟩ | ⟨-, hinfos⟩
    · rw [hinfos, Pool.get?_remove] at hd
      split at hd
      · cases hd
      · exact .inl hd
    · rw [hinfos] at hd
      rcases get?_set_cases hp hd with hd | ⟨rfl, rfl⟩
      · exact .inl hd
      · exact .inr (.inr (.inl ⟨_, hp, .retired hdone⟩))
  | ask => exact .inl hd

/-! ## Known records -/

theorem genericEid_genericEid (e : BitVec 32) : genericEid (genericEid e) = genericEid e := by
  rw [genericEid, genericEid, BitVec.and_assoc, BitVec.and_self]

theorem eid_of_tcmEidGetEntityInfo {eid : BitVec 32} {e : TcmEntityInfo} (h : tcmEidGetEntityInfo T eid = some e) :
    e.eid = eid := by
  simpa using List.find?_some h

/-- What was true of the table entry of a record stays true. -/
theorem Known.of_records (h : Known T s) (hi : t.evtInterests = [])
    (hrec : ∀ p d, t.dlsInfos.get? p = some d → d.state ≠ .terminateRequested ∧
      ((∃ d₀, s.dlsInfos.get? p = some d₀ ∧ d.eInfo = d₀.eInfo) ∨
        ∃ eid, tcmEidGetEntityInfo T (genericEid eid) = some d.eInfo)) : Known T t := by
  refine ⟨hi, fun p d hd => ?_, fun p d hd => (hrec p d hd).1⟩
  rcases (hrec p d hd).2 with ⟨d₀, hd₀, he⟩ | ⟨eid, he⟩
  · rw [he]
    exact h.entry p d₀ hd₀
  · have heid := eid_of_tcmEidGetEntityInfo he
    rw [heid, genericEid_genericEid]
    exact ⟨he, rfl⟩

theorem evtInterests_launch (s : Scheduler) (p : Nat) (d : DlsInfo) : (s.launch k p d).evtInterests = s.evtInterests := by
  unfold Scheduler.launch
  split
  · rfl
  · split <;> rfl

theorem evtInterests_insert (s : Scheduler) (eid : BitVec 32) :
    (insertDlsInfoEntry T k s eid).1.evtInterests = s.evtInterests := by
  have hins := Scheduler.insertDlsInfoEntry_inserted (T := T) (k := k) s eid
  generalize insertDlsInfoEntry T k s eid = r at hins ⊢
  cases hins <;> rfl

theorem evtInterests_send (s : Scheduler) (fd : Int) (msg : TcmMsg) :
    (s.tcmMsgSendBySocket fd msg).evtInterests = s.evtInterests := by
  unfold Scheduler.tcmMsgSendBySocket
  split <;> rfl

theorem evtInterests_hand (s : Scheduler) (p : Nat) (d : DlsInfo) (msg : TcmMsg) :
    (s.hand p d msg).evtInterests = s.evtInterests := by
  unfold Scheduler.hand
  split <;> rfl

theorem evtInterests_deliver (s : Scheduler) (p : Nat) (d : DlsInfo) (msg : TcmMsg) :
    (s.deliver p d msg).evtInterests = s.evtInterests := by
  unfold Scheduler.deliver
  simp only
  split
  · exact evtInterests_send s _ _
  · exact evtInterests_send s _ _

/-- Without registrations there are none after a move. -/
theorem Move.interests (hm : Move T k L s t) (h : s.evtInterests = []) : t.evtInterests = [] := by
  cases hm with
  | insert hmakes hnew => exact (evtInterests_insert s _).trans h
  | launch hp hstate => exact (evtInterests_launch s _ _).trans h
  | take msg hp htakes =>
    unfold Scheduler.takeMessage
    split
    · exact (evtInterests_hand s _ _ _).trans h
    · exact (evtInterests_hand s _ _ _).trans h
    · rw [evtInterests_deliver, evtInterests_hand, h]
    · exact (evtInterests_hand s _ _ _).trans h
  | write fd msg => exact (evtInterests_send s _ _).trans h
  | disconnect hp hleaves =>
    unfold Scheduler.disconnect
    simp only
    split <;> exact h
  | @retire _ p d hp hdone ht =>
    unfold Scheduler.retire at ht
    simp only at ht
    have hset : (if d.eInfo.monitored = true then s.fdSet d.serverFd else s).evtInterests = [] := by
      split <;> exact h
    split at ht
    · rw [hset] at ht
      obtain ⟨evs, hevs, rfl⟩ := Outcome.map_eq_done.1 ht
      cases hevs
      rfl
    · cases ht
      exact hset
  | ask => exact h

/-- A move keeps what is known of the records. -/
theorem Known.move (h : Known T s) (hm : Move T k L s t) : Known T t := by
  refine h.of_records (hm.interests h.interests) fun p d hd => ?_
  rcases hm.record hd with hd | ⟨eid, eInfo, fd, -, he, rfl⟩ | ⟨d₀, hd₀, hc⟩ | ⟨d₀, hd₀, -, rfl⟩
  · exact ⟨h.state p d hd, .inl ⟨d, hd, rfl⟩⟩
  · exact ⟨nofun, .inr ⟨eid, he⟩⟩
  · refine ⟨?_, .inl ⟨d₀, hd₀, hc.eInfo⟩⟩
    have hstate := h.state p d₀ hd₀
    cases hc with
    | taken => exact hstate
    | disconnected => exact hstate
    | retired => nofun
  · refine ⟨?_, .inl ⟨d₀, hd₀, launchedInfo_eInfo _ _⟩⟩
    rw [launchedInfo_state]
    split <;> nofun

theorem Moves.keeps {I : Scheduler → Prop} (hm : Moves T k L s t) (hI : ∀ s t, I s → Move T k L s t → I t) (h : I s) : I t := by
  induction hm with
  | refl => exact h
  | tail _ hm ih => exact hI _ _ ih hm

theorem Known.moves (h : Known T s) (hm : Moves T k L s t) : Known T t := hm.keeps (fun _ _ hs hm => hs.move hm) h

theorem Parts.keeps {I : Scheduler → Prop} (hm : Parts T k L s t) (hI : ∀ s t, I s → Part T k L s t → I t) (h : I s) : I t := by
  induction hm with
  | refl => exact h
  | tail _ hm ih => exact hI _ _ ih hm

theorem Parts.moves (h : Parts T k L s t) : Moves T k L s t :=
  h.keeps (fun _ _ hs hp => hs.trans (Scheduler.part_moves hp)) .refl

theorem Known.parts (h : Known T s) (hm : Parts T k L s t) : Known T t := h.moves hm.moves

namespace Scheduler

/-- `app_launcher` as parts: the record of a round is as it was before the first one. -/
theorem appLauncher_parts (hk : Known T s) {stage : Nat} (h : s.appLauncher k stage = .done t) :
    Parts T k (s.limits (.appLauncher stage)) s t := by
  have hinv := Outcome.foldl_invariant
    (I := fun s' ps => Parts T k (s.limits (.appLauncher stage)) s s' ∧ ps.Nodup ∧
      ∀ p ∈ ps, s'.dlsInfos.get? p = s.dlsInfos.get? p) ?_ ⟨.refl, s.dlsInfos.nodup, fun _ _ => rfl⟩ h
  · exact hinv.1
  · rintro s₁ p ps s₂ ⟨hparts, hnd, hsame⟩ hround
    obtain ⟨hp, hnd⟩ := List.nodup_cons.1 hnd
    refine ⟨hparts.trans ?_, hnd, fun q hq => ?_⟩
    · have hk₁ := hk.parts hparts
      obtain ⟨d, hd, hround⟩ := Outcome.bind_eq_done.1 hround
      rw [info_eq_done] at hd
      have hlaunch : ∀ {s₂ s₃ : Scheduler}, Known T s₂ → s₂.launchUnlessRunning k p = .done s₃ →
          Parts T k (s.limits (.appLauncher stage)) s₂ s₃ := by
        intro s₂ s₃ hk₂ hl
        obtain ⟨d', hd', hl⟩ := Outcome.bind_eq_done.1 hl
        rw [info_eq_done] at hd'
        split at hl
        · rename_i hstate
          exact launchApp_parts hd' (hstate.resolve_right (hk₂.state p d' hd')) hl
        · cases hl
          exact .refl
      split at hround
      · rename_i hwants
        obtain ⟨s₃, hsend, hround⟩ := Outcome.bind_eq_done.1 hround
        have hsent : Parts T k (s.limits (.appLauncher stage)) s₁ s₃ := by
          split at hsend
          · rename_i hmessaging
            refine sendMessageByAppState_parts (fun d' hd' => .inl ?_) hsend
            obtain rfl := Option.some.inj (hd.symm.trans hd')
            rw [hsame p List.mem_cons_self] at hd
            refine List.mem_filter.2 ⟨List.mem_map.2 ⟨_, Pool.mem_iff.2 hd, rfl⟩, ?_⟩
            rw [hwants, hmessaging]
            rfl
          · cases hsend
            exact .refl
        exact hsent.trans (hlaunch (hk₁.parts hsent) hround)
      · cases hround
        exact .refl
    · have hqp : q ≠ p := by
        rintro rfl
        exact hp hq
      rw [appLauncherRound_get? hqp hround]
      exact hsame q (List.mem_cons_of_mem _ hq)

/-- **What a step is made of**: parts within its limits. -/
theorem act_parts (hk : Known T s) {a : Act} (hinit : ∀ stage, a ≠ .initDls stage) (hlisten : ∀ fd msg, a ≠ .listen fd msg)
    (h : s.act T k a = .done t) : Parts T k (s.limits a) s t := by
  cases a with
  | initDls stage => exact absurd rfl (hinit stage)
  | appLauncher stage => exact appLauncher_parts hk h
  | server fd =>
    have h : s.serverPart k fd = .done t := h
    unfold serverPart at h
    split at h
    · cases h
      exact .refl
    · rename_i p d hfound
      split at h
      · rename_i hstate
        exact launchApp_parts (Pool.get?_of_first hfound).1 hstate h
      · cases h
        exact .refl
  | comm fd received =>
    have h : s.commPart T k fd received = .done t := h
    unfold commPart at h
    split at h
    · cases h
      exact .refl
    · rename_i p d hfound
      cases received with
      | message msg => exact schedProcessMessage_parts hk.interests h
      | disconnected =>
        refine collectApp_parts (fun d' hd' => ?_) h
        obtain rfl := Option.some.inj ((Pool.get?_of_first hfound).1.symm.trans hd')
        show d ∈ (getDlsInfoByCommFd s fd).toList.map Prod.snd
        rw [hfound]
        exact List.mem_singleton_self _
      | failed =>
        cases h
        exact .refl
  | listen fd msg => exact absurd rfl (hlisten fd msg)

/-! ## The other steps -/

/-- **What the acceptance of a connection does**: nothing, or the connection is closed again, perhaps after a record could not be
made, or it is given to the record of its source. -/
theorem listen_cases {fd : Int} {launchMsg : Option TcmMsg} (h : s.listenPart T k fd launchMsg = .done t) :
    t = s ∨ t = s.ask ∨ ∃ c, s.newFd k = some c ∧
      (t = (s.accepted c).close c ∨ ∃ msg, fd = s.ipcListenFd ∧ launchMsg = some msg ∧ msg.type = tcmMsgAppLaunched ∧
        msg.dst = idSched ∧ ∃ s₁, s₁ = (getDlsInfo T k (s.accepted c) msg.src).1 ∧
          ((getDlsInfo T k (s.accepted c) msg.src).2 = none ∧ t = s₁.close c ∨
            ∃ p d, (getDlsInfo T k (s.accepted c) msg.src).2 = some p ∧ s₁.dlsInfos.get? p = some d ∧
              t = s₁.processLaunchConfirmation p { d with commFd := c })) := by
  unfold listenPart at h
  split at h
  swap
  · cases h
    exact .inl rfl
  rename_i hfd
  unfold acceptConnection at h
  split at h
  · cases h
    exact .inr (.inl rfl)
  rename_i c hc
  refine .inr (.inr ⟨c, hc, ?_⟩)
  simp only at h
  split at h
  · cases h
    exact .inl rfl
  rename_i msg
  split at h
  · cases h
    exact .inl rfl
  rename_i hgood
  rw [not_or, not_not, not_not] at hgood
  refine .inr ⟨msg, hfd, rfl, hgood.1, hgood.2, _, rfl, ?_⟩
  have h : (s.accepted c).attach T k c msg.src = .done t := h
  unfold attach at h
  split at h
  · rename_i s₁ heq
    cases h
    rw [heq]
    exact .inl ⟨rfl, rfl⟩
  · rename_i s₁ p heq
    obtain ⟨d, hd, rfl⟩ := Outcome.map_eq_done.1 h
    rw [heq]
    exact .inr ⟨p, d, rfl, info_eq_done.1 hd, rfl⟩

/-- The connection that a step gives to a record, and the id that it comes from. -/
def connects (T : EntityTable) (k : Kernel) (s : Scheduler) : Act → Option (Int × BitVec 32)
  | .listen fd (some msg) =>
    if fd = s.ipcListenFd ∧ msg.type = tcmMsgAppLaunched ∧ msg.dst = idSched then
      (s.newFd k).bind fun c => (getDlsInfo T k (s.accepted c) msg.src).2.map fun _ => (c, msg.src)
    else none
  | _ => none

/-- A connection that is given to a record: the record is that of its source, and is confirmed. -/
theorem listen_of_connects {fd c : Int} {msg : Option TcmMsg} {eid : BitVec 32} (hc : s.connects T k (.listen fd msg) = some (c, eid))
    (h : s.listenPart T k fd msg = .done t) :
    ∃ p d, (getDlsInfo T k (s.accepted c) eid).2 = some p ∧ (getDlsInfo T k (s.accepted c) eid).1.dlsInfos.get? p = some d ∧
      t = (getDlsInfo T k (s.accepted c) eid).1.processLaunchConfirmation p { d with commFd := c } := by
  cases msg with
  | none => cases hc
  | some msg =>
    simp only [connects] at hc
    split at hc
    swap
    · cases hc
    rename_i hgood
    obtain ⟨hfd, htype, hdst⟩ := hgood
    obtain ⟨c', hnew, hc⟩ := Option.bind_eq_some_iff.1 hc
    obtain ⟨p, hp, hpair⟩ := Option.map_eq_some_iff.1 hc
    obtain ⟨rfl, rfl⟩ := Prod.mk.inj hpair
    have hattach : (s.accepted c').attach T k c' msg.src = .done t := by
      unfold listenPart acceptConnection at h
      rw [if_pos hfd, hnew] at h
      simp only at h
      rwa [if_neg (by simp [htype, hdst])] at h
    unfold attach at hattach
    split at hattach
    · rename_i s₁ heq
      rw [heq] at hp
      cases hp
    · rename_i s₁ p' heq
      rw [heq] at hp ⊢
      obtain ⟨d, hd, rfl⟩ := Outcome.map_eq_done.1 hattach
      obtain rfl := Option.some.inj hp
      exact ⟨_, d, rfl, info_eq_done.1 hd, rfl⟩

theorem foldl_deliver_dlsInfos (s : Scheduler) (p : Nat) (d : DlsInfo) (msgs : List TcmMsg) :
    (msgs.foldl (fun s msg => s.deliver p d msg) s).dlsInfos = s.dlsInfos := by
  induction msgs generalizing s with
  | nil => rfl
  | cons msg msgs ih => rw [List.foldl_cons, ih, dlsInfos_deliver]

theorem foldl_deliver_evtInterests (s : Scheduler) (p : Nat) (d : DlsInfo) (msgs : List TcmMsg) :
    (msgs.foldl (fun s msg => s.deliver p d msg) s).evtInterests = s.evtInterests := by
  induction msgs generalizing s with
  | nil => rfl
  | cons msg msgs ih => rw [List.foldl_cons, ih, evtInterests_deliver]

theorem confirmed_dlsInfos (s : Scheduler) (p : Nat) (d : DlsInfo) :
    (s.processLaunchConfirmation p d).dlsInfos = s.dlsInfos.set p { d with state := .running, msgQueue := [] } :=
  foldl_deliver_dlsInfos _ _ _ _

/-- `initDls` makes records only: what this keeps, of the state and of the rest of the table, `initDls` keeps. -/
theorem initDls_invariant {I : Scheduler → List TcmEntityInfo → Prop} (stage : Nat) (es : List TcmEntityInfo)
    (hskip : ∀ s e es, I s (e :: es) → I s es)
    (hI : ∀ s e es, initDlsWants stage e = true → stage = 1 ∨ getExistingDlsInfo s e.eid = none → I s (e :: es) →
      I (insertDlsInfoEntry T k s e.eid).1 es) (h : I s es) : ∃ rest, I (initDls T k stage s es).2 rest := by
  induction es generalizing s with
  | nil => exact ⟨[], h⟩
  | cons e es ih =>
    unfold initDls
    split
    · rename_i hwants
      have hentry : I (initDlsEntry T k stage s e).1 es := by
        unfold initDlsEntry
        split
        · rename_i hstage
          exact hI s e es hwants (.inl hstage) h
        · unfold getDlsInfo
          split
          · exact hskip s e es h
          · rename_i hnone
            exact hI s e es hwants (.inr hnone) h
      split
      · rename_i s₁ heq
        rw [heq] at hentry
        exact ⟨es, hentry⟩
      · rename_i s₁ p heq
        rw [heq] at hentry
        exact ih hentry
    · exact ih (hskip s e es h)

theorem initDls_keeps {I : Scheduler → Prop} {stage : Nat} {es : List TcmEntityInfo}
    (hI : ∀ s eid, I s → I (insertDlsInfoEntry T k s eid).1) (h : I s) : I (initDls T k stage s es).2 := by
  obtain ⟨-, hrest⟩ := initDls_invariant (T := T) (k := k) (I := fun s _ => I s) stage es
    (fun _ _ _ hs => hs) (fun s e _ _ _ hs => hI s e.eid hs) h
  exact hrest

end Scheduler

open Scheduler

theorem Known.insert (h : Known T s) (eid : BitVec 32) : Known T (insertDlsInfoEntry T k s eid).1 := by
  refine h.of_records ((evtInterests_insert s eid).trans h.interests) fun p d hd => ?_
  rcases insertDlsInfoEntry_get? hd with hd | ⟨eInfo, fd, he, rfl, -⟩
  · exact ⟨h.state p d hd, .inl ⟨d, hd, rfl⟩⟩
  · exact ⟨nofun, .inr ⟨eid, he⟩⟩

theorem Known.getDlsInfo (h : Known T s) (eid : BitVec 32) : Known T (getDlsInfo T k s eid).1 := by
  unfold Sched.getDlsInfo
  split
  · exact h
  · exact h.insert eid

theorem Known.start (fd : Int) : Known T (Scheduler.start fd) := ⟨rfl, nofun, nofun⟩

/-- Every step keeps what is known of the records. -/
theorem Known.step (h : Known T s) {a : Kernel × Act} (hs : Scheduler.step T s a t) : Known T t := by
  obtain ⟨k, a⟩ := a
  obtain ⟨-, hs⟩ := hs
  by_cases hinit : ∃ stage, a = .initDls stage
  · obtain ⟨stage, rfl⟩ := hinit
    cases hs
    exact initDls_keeps (fun _ eid hs => hs.insert eid) h
  by_cases hlisten : ∃ fd msg, a = .listen fd msg
  · obtain ⟨fd, msg, rfl⟩ := hlisten
    rcases listen_cases hs with rfl | rfl | ⟨c, -, rfl | ⟨msg, -, -, -, -, s₁, rfl, ⟨-, rfl⟩ | ⟨p, d, -, hd, rfl⟩⟩⟩
    · exact h
    · exact ⟨h.interests, h.entry, h.state⟩
    · exact ⟨h.interests, h.entry, h.state⟩
    · have hk := Known.getDlsInfo (k := k) (s := s.accepted c) ⟨h.interests, h.entry, h.state⟩ msg.src
      exact ⟨hk.interests, hk.entry, hk.state⟩
    · have hk := Known.getDlsInfo (k := k) (s := s.accepted c) ⟨h.interests, h.entry, h.state⟩ msg.src
      refine hk.of_records ((foldl_deliver_evtInterests _ _ _ _).trans hk.interests) fun q d' hd' => ?_
      rw [confirmed_dlsInfos] at hd'
      rcases get?_set_cases hd hd' with hd' | ⟨rfl, rfl⟩
      · exact ⟨hk.state q d' hd', .inl ⟨d', hd', rfl⟩⟩
      · exact ⟨nofun, .inl ⟨d, hd, rfl⟩⟩
  · exact h.parts (act_parts h (fun stage ha => hinit ⟨stage, ha⟩) (fun fd msg ha => hlisten ⟨fd, msg, ha⟩) hs)

end CodeFactory.Sched
