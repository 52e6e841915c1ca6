import CodeFactory.Lib.Holders
import CodeFactory.Sched.Moves

/-!
# The descriptors that `select` looks at

`readFdsMaster` is kept apart from the records: every function that gives a record a descriptor, takes it away, or starts or stops the
application changes both. `insertDlsInfoEntry` opens a server descriptor for every application that has any flag, though only those of
servers and of the console are taken out of the set at a launch; a connection can come from an application that has one already, or that
has not been started from here.
-/

namespace CodeFactory.Sched

open Oal Msg

/-! ## What is claimed of the descriptors -/

namespace Scheduler

/-- Every descriptor of the set is the one that listens, the server descriptor of one record of an application that does not run, or the
connection of one record; and all connections are in the set, and the server descriptors of applications that do not run. -/
def FdsRight (s : Scheduler) : Prop :=
  (∀ fd ∈ s.readFdsMaster, fd = s.ipcListenFd ∨
    (∃! p, ∃ d, s.dlsInfos.get? p = some d ∧ d.state = .notRunning ∧ d.serverFd = fd) ∨
      ∃! p, ∃ d, s.dlsInfos.get? p = some d ∧ d.commFd = fd) ∧
  ∀ p d, s.dlsInfos.get? p = some d → (d.commFd ≠ tcmInvalidFd → d.commFd ∈ s.readFdsMaster) ∧
    (d.state = .notRunning → d.serverFd ≠ tcmInvalidFd → d.serverFd ∈ s.readFdsMaster)

/-- A record that is made for the id has a server descriptor when its application is a server or the console, and only then. -/
def Proper (T : EntityTable) (eid : BitVec 32) : Prop :=
  ∀ e, tcmEidGetEntityInfo T (genericEid eid) = some e →
    if eid = idConsole then e.multiple = false else e.flags ≠ 0 ↔ e.monitored = true

/-- The records that `initDls` makes are proper, and that of the console is made once. -/
def InitFits (T : EntityTable) (s : Scheduler) (stage : Nat) : Prop :=
  (∀ e ∈ T, initDlsWants stage e = true → Proper T e.eid) ∧
  (stage = 1 → (T.map TcmEntityInfo.eid).Nodup ∧
    ((∃ e ∈ T, initDlsWants stage e = true ∧ e.eid = idConsole) → ∀ p d, s.dlsInfos.get? p = some d → d.serverFd ≠ 0))

/-- A connection comes from an application that has none, and whose server descriptor is not looked at; a record that is made for it has
no server descriptor. -/
def ConnectFits (T : EntityTable) (s : Scheduler) (eid : BitVec 32) : Prop :=
  match getExistingDlsInfo s eid with
  | some (_, d) => d.commFd = tcmInvalidFd ∧ (d.state = .notRunning → d.serverFd = tcmInvalidFd)
  | none => Proper T eid ∧ ∀ e, tcmEidGetEntityInfo T (genericEid eid) = some e → eid ≠ idConsole ∧ e.flags = 0

/-- The records that a step makes are proper, and so is the connection that it gives to one. -/
def FdsFit (T : EntityTable) (s : Scheduler) (a : Kernel × Act) : Prop :=
  (∀ eid ∈ makes a.2, Proper T eid) ∧ (∀ stage, a.2 = .initDls stage → s.InitFits T stage) ∧
    ∀ c eid, s.connects T a.1 a.2 = some (c, eid) → s.ConnectFits T eid

/-! ## Who holds the descriptors -/

/-- The descriptors of a record, if there is one. -/
def held (o : Option DlsInfo) : Set Int := {fd | fd ≠ tcmInvalidFd ∧ ∃ d, o = some d ∧ (d.serverFd = fd ∨ d.commFd = fd)}

/-- Those of them that are looked at. -/
def lookedAt (o : Option DlsInfo) : Set Int :=
  {fd | fd ≠ tcmInvalidFd ∧ ∃ d, o = some d ∧ (d.state = .notRunning ∧ d.serverFd = fd ∨ d.commFd = fd)}

/-- The records as holders of descriptors. -/
def holders (s : Scheduler) : Holders Nat Int where
  holds p := held (s.dlsInfos.get? p)
  watches p := lookedAt (s.dlsInfos.get? p)
  opened := {fd | fd ∈ s.openFds}
  watched := {fd | fd ∈ s.readFdsMaster}
  root := s.ipcListenFd

end Scheduler

open Scheduler

/-- A record that has a server descriptor when it should, and two descriptors that are not the same. -/
structure Regular (d : DlsInfo) : Prop where
  server : d.serverFd ≠ tcmInvalidFd ↔ d.eInfo.monitored = true
  console : d.serverFd = 0 → d.eInfo.eid = idConsole
  comm : d.commFd ≠ 0
  apart : d.serverFd = d.commFd → d.serverFd = tcmInvalidFd

/-- The descriptors are where they should be. -/
structure Fds (T : EntityTable) (s : Scheduler) : Prop where
  known : Known T s
  stdin : (0 : Int) ∈ s.openFds
  regular : ∀ p d, s.dlsInfos.get? p = some d → Regular d
  consistent : s.holders.Consistent

variable {T : EntityTable} {k : Kernel} {L : Limits} {s t : Scheduler} {p q : Nat} {d d' : DlsInfo} {fd : Int}

theorem mem_held : fd ∈ held (some d) ↔ fd ≠ tcmInvalidFd ∧ (d.serverFd = fd ∨ d.commFd = fd) := by
  constructor
  · rintro ⟨h, d', hd', hfd⟩
    obtain rfl := Option.some.inj hd'
    exact ⟨h, hfd⟩
  · rintro ⟨h, hfd⟩
    exact ⟨h, d, rfl, hfd⟩

theorem mem_lookedAt :
    fd ∈ lookedAt (some d) ↔ fd ≠ tcmInvalidFd ∧ (d.state = .notRunning ∧ d.serverFd = fd ∨ d.commFd = fd) := by
  constructor
  · rintro ⟨h, d', hd', hfd⟩
    obtain rfl := Option.some.inj hd'
    exact ⟨h, hfd⟩
  · rintro ⟨h, hfd⟩
    exact ⟨h, d, rfl, hfd⟩

theorem not_mem_held_none : fd ∉ held none := fun h => by
  obtain ⟨-, d, hd, -⟩ := h
  cases hd

theorem not_mem_lookedAt_none : fd ∉ lookedAt none := fun h => by
  obtain ⟨-, d, hd, -⟩ := h
  cases hd

theorem lookedAt_held (o : Option DlsInfo) : lookedAt o ⊆ held o := by
  rintro fd ⟨h, d, hd, ⟨-, hfd⟩ | hfd⟩
  · exact ⟨h, d, hd, .inl hfd⟩
  · exact ⟨h, d, hd, .inr hfd⟩

theorem Fds.opened (h : Fds T s) (hp : s.dlsInfos.get? p = some d) (hfd : fd ∈ held (some d)) : fd ∈ s.openFds :=
  h.consistent.opened p (by
    show fd ∈ held (s.dlsInfos.get? p)
    rwa [hp])

theorem Fds.complete (h : Fds T s) (hp : s.dlsInfos.get? p = some d) (hfd : fd ∈ lookedAt (some d)) : fd ∈ s.readFdsMaster :=
  h.consistent.complete p (by
    show fd ∈ lookedAt (s.dlsInfos.get? p)
    rwa [hp])

theorem Fds.right (h : Fds T s) : FdsRight s := by
  refine ⟨fun fd hfd => ?_, fun p d hp => ⟨fun hc => ?_, fun hstate hs => ?_⟩⟩
  · rcases h.consistent.exactly hfd with hroot | ⟨p, ⟨hne, d, hp, hw⟩, -⟩
    · exact .inl hroot
    · have honly : ∀ q d', s.dlsInfos.get? q = some d' → d'.serverFd = fd ∨ d'.commFd = fd → q = p := by
        intro q d' hq hfd'
        refine h.consistent.disjoint q p fd ⟨hne, d', hq, hfd'⟩ ⟨hne, d, hp, ?_⟩
        exact hw.imp And.right id
      rcases hw with ⟨hstate, hfd⟩ | hfd
      · refine .inr (.inl ⟨p, ⟨d, hp, hstate, hfd⟩, ?_⟩)
        rintro q ⟨d', hq, -, hfd'⟩
        exact honly q d' hq (.inl hfd')
      · refine .inr (.inr ⟨p, ⟨d, hp, hfd⟩, ?_⟩)
        rintro q ⟨d', hq, hfd'⟩
        exact honly q d' hq (.inr hfd')
  · exact h.complete hp (mem_lookedAt.2 ⟨hc, .inr rfl⟩)
  · exact h.complete hp (mem_lookedAt.2 ⟨hs, .inl ⟨hstate, rfl⟩⟩)

/-! ## One record changes -/

/-- **One record changes**, is made or taken out. -/
theorem Fds.change (h : Fds T s) (o o' : Option DlsInfo) (hk : Known T t) (hp : s.dlsInfos.get? p = o)
    (hinfos : ∀ q, t.dlsInfos.get? q = if q = p then o' else s.dlsInfos.get? q) (hlisten : t.ipcListenFd = s.ipcListenFd)
    (hstdin : (0 : Int) ∈ t.openFds) (hregular : ∀ d', o' = some d' → Regular d')
    (hnew : ∀ fd ∈ held o', fd ∈ t.openFds ∧ (fd ∈ held o ∨ ∀ q, fd ∉ held (s.dlsInfos.get? q)))
    (hopened : ∀ fd ∈ s.openFds, fd ∈ t.openFds ∨ fd ∈ held o)
    (hsound : ∀ fd ∈ t.readFdsMaster, fd ∈ lookedAt o' ∨ fd ∈ s.readFdsMaster ∧ fd ∉ lookedAt o)
    (hcomplete : ∀ fd ∈ lookedAt o', fd ∈ t.readFdsMaster) (hkept : ∀ fd ∈ s.readFdsMaster, fd ∈ t.readFdsMaster ∨ fd ∈ held o) :
    Fds T t := by
  subst hp
  have hself : t.dlsInfos.get? p = o' := by rw [hinfos, if_pos rfl]
  refine ⟨hk, hstdin, fun q d' hq => ?_, h.consistent.change (i := p) (fun q hq => ?_) hlisten (lookedAt_held _) ?_ hopened ?_ ?_
    hkept⟩
  · rw [hinfos] at hq
    split at hq
    · exact hregular d' hq
    · exact h.regular q d' hq
  · have hsame : t.dlsInfos.get? q = s.dlsInfos.get? q := by rw [hinfos, if_neg hq]
    exact ⟨congrArg held hsame, congrArg lookedAt hsame⟩
  · show ∀ fd ∈ held (t.dlsInfos.get? p), _
    rw [hself]
    exact hnew
  · show ∀ fd ∈ t.readFdsMaster, fd ∈ lookedAt (t.dlsInfos.get? p) ∨ _
    rw [hself]
    exact hsound
  · show lookedAt (t.dlsInfos.get? p) ⊆ _
    rw [hself]
    exact hcomplete

/-- Nothing is held or looked at that was not before. -/
theorem Fds.same (h : Fds T s) (hk : Known T t) (hinfos : t.dlsInfos = s.dlsInfos) (hopen : t.openFds = s.openFds)
    (hset : t.readFdsMaster = s.readFdsMaster) (hlisten : t.ipcListenFd = s.ipcListenFd) : Fds T t := by
  refine ⟨hk, hopen ▸ h.stdin, hinfos ▸ h.regular, ?_⟩
  have hholders : t.holders = s.holders := by rw [holders, holders, hinfos, hopen, hset, hlisten]
  rw [hholders]
  exact h.consistent

/-! ## What the operations do to the sets -/

/-- What there is of descriptors outside the records. -/
def fdSets (s : Scheduler) : Finset Int × Finset Int × Int := (s.openFds, s.readFdsMaster, s.ipcListenFd)

theorem fdSets_send (s : Scheduler) (fd : Int) (msg : TcmMsg) : fdSets (s.tcmMsgSendBySocket fd msg) = fdSets s := by
  unfold tcmMsgSendBySocket
  split <;> rfl

theorem fdSets_hand (s : Scheduler) (p : Nat) (d : DlsInfo) (msg : TcmMsg) : fdSets (s.hand p d msg) = fdSets s := by
  unfold hand
  split <;> rfl

theorem fdSets_deliver (s : Scheduler) (p : Nat) (d : DlsInfo) (msg : TcmMsg) : fdSets (s.deliver p d msg) = fdSets s := by
  unfold deliver
  simp only
  split
  · exact fdSets_send s _ _
  · exact fdSets_send s _ _

theorem fdSets_takeMessage (s : Scheduler) (p : Nat) (d : DlsInfo) (msg : TcmMsg) : fdSets (s.takeMessage p d msg) = fdSets s := by
  unfold takeMessage
  split
  · exact fdSets_hand s _ _ _
  · exact fdSets_hand s _ _ _
  · rw [fdSets_deliver, fdSets_hand]
  · exact fdSets_hand s _ _ _

theorem fdSets_foldl_deliver (s : Scheduler) (p : Nat) (d : DlsInfo) (msgs : List TcmMsg) :
    fdSets (msgs.foldl (fun s msg => s.deliver p d msg) s) = fdSets s := by
  induction msgs generalizing s with
  | nil => rfl
  | cons msg msgs ih => rw [List.foldl_cons, ih, fdSets_deliver]

/-- A record is put in the place of one with the same descriptors. -/
theorem Fds.set (h : Fds T s) (hk : Known T t) (hp : s.dlsInfos.get? p = some d) (hinfos : t.dlsInfos = s.dlsInfos.set p d')
    (hsets : fdSets t = fdSets s) (he : d'.eInfo = d.eInfo) (hfds : d'.serverFd = d.serverFd ∧ d'.commFd = d.commFd)
    (hstate : d'.serverFd ≠ tcmInvalidFd → (d'.state = .notRunning ↔ d.state = .notRunning)) : Fds T t := by
  obtain ⟨hopen, hrest⟩ := Prod.mk.inj hsets
  obtain ⟨hset, hlisten⟩ := Prod.mk.inj hrest
  obtain ⟨hserver, hcomm⟩ := hfds
  have hheld : held (some d') = held (some d) := by
    ext fd
    rw [mem_held, mem_held, hserver, hcomm]
  have hlooked : lookedAt (some d') = lookedAt (some d) := by
    ext fd
    rw [mem_lookedAt, mem_lookedAt, hcomm]
    refine and_congr_right fun hne => or_congr_left ?_
    rw [hserver] at hstate ⊢
    refine and_congr_left fun hfd => hstate ?_
    rwa [hfd]
  have hreg := h.regular p d hp
  refine h.change (some d) (some d') hk hp (fun q => ?_) hlisten (hopen ▸ h.stdin) (fun d'' hd'' => ?_)
    (fun fd hfd => ?_) (fun fd hfd => .inl (hopen ▸ hfd)) (fun fd hfd => ?_) (fun fd hfd => ?_) fun fd hfd => .inl (hset ▸ hfd)
  · rw [hinfos, Pool.get?_set_eq hp]
  · obtain rfl := Option.some.inj hd''
    exact ⟨hserver ▸ he ▸ hreg.server, hserver ▸ he ▸ hreg.console, hcomm ▸ hreg.comm, hserver ▸ hcomm ▸ hreg.apart⟩
  · rw [hheld] at hfd
    exact ⟨hopen ▸ h.opened hp hfd, .inl hfd⟩
  · rw [hlooked]
    by_cases hl : fd ∈ lookedAt (some d)
    · exact .inl hl
    · exact .inr ⟨hset ▸ hfd, hl⟩
  · rw [hlooked] at hfd
    exact hset ▸ h.complete hp hfd

/-! ## The moves -/

theorem launchedInfo_fds (d : DlsInfo) (spawned : Option Int) :
    (launchedInfo d spawned).serverFd = d.serverFd ∧ (launchedInfo d spawned).commFd = d.commFd := by
  unfold launchedInfo
  cases spawned with
  | none => exact ⟨rfl, rfl⟩
  | some pid =>
    simp only
    split <;> exact ⟨rfl, rfl⟩

theorem launchedInfo_ne_notRunning (d : DlsInfo) (spawned : Option Int) : (launchedInfo d spawned).state ≠ .notRunning := by
  rw [launchedInfo_state]
  split <;> nofun

/-- A launch takes the server descriptor out of the set. -/
theorem Fds.launch (h : Fds T s) (hp : s.dlsInfos.get? p = some d) (hk : Known T (s.launch k p d)) : Fds T (s.launch k p d) := by
  have hinfos := launch_dlsInfos (k := k) s p d
  unfold Scheduler.launch at hinfos hk ⊢
  by_cases hpath : d.eInfo.path = []
  · rw [if_pos hpath]
    exact h
  rw [if_neg hpath] at hinfos hk ⊢
  rw [if_neg hpath] at hinfos
  simp only at hinfos hk ⊢
  generalize hd' : launchedInfo d (k.spawn s.asked) = d' at hinfos hk ⊢
  have hfds := launchedInfo_fds d (k.spawn s.asked)
  have hstate := launchedInfo_ne_notRunning d (k.spawn s.asked)
  have he := launchedInfo_eInfo d (k.spawn s.asked)
  rw [hd'] at hfds hstate he
  have hreg := h.regular p d hp
  by_cases hm : d.eInfo.monitored = true
  swap
  · rw [if_neg hm] at hinfos hk ⊢
    refine h.set hk hp hinfos rfl he hfds fun hne => ?_
    rw [hfds.1] at hne
    exact absurd (hreg.server.1 hne) hm
  rw [if_pos hm] at hinfos hk ⊢
  have hne := hreg.server.2 hm
  refine h.change (some d) (some d') hk hp (fun q => ?_) rfl h.stdin (fun d'' hd'' => ?_)
    (fun fd hfd => ?_) (fun fd hfd => .inl hfd) (fun fd hfd => ?_) (fun fd hfd => ?_) fun fd hfd => ?_
  · rw [hinfos, Pool.get?_set_eq hp]
  · obtain rfl := Option.some.inj hd''
    exact ⟨hfds.1 ▸ he ▸ hreg.server, hfds.1 ▸ he ▸ hreg.console, hfds.2 ▸ hreg.comm, hfds.1 ▸ hfds.2 ▸ hreg.apart⟩
  · rw [mem_held, hfds.1, hfds.2, ← mem_held] at hfd
    exact ⟨h.opened hp hfd, .inl hfd⟩
  · obtain ⟨hnot, hfd⟩ := Finset.mem_erase.1 hfd
    by_cases hl : fd ∈ lookedAt (some d)
    · obtain ⟨hvalid, ⟨-, hserver⟩ | hcomm⟩ := mem_lookedAt.1 hl
      · exact absurd hserver.symm hnot
      · exact .inl (mem_lookedAt.2 ⟨hvalid, .inr (hfds.2.trans hcomm)⟩)
    · exact .inr ⟨hfd, hl⟩
  · obtain ⟨hvalid, ⟨hrun, -⟩ | hcomm⟩ := mem_lookedAt.1 hfd
    · exact absurd hrun hstate
    · rw [hfds.2] at hcomm
      refine Finset.mem_erase.2 ⟨?_, h.complete hp (mem_lookedAt.2 ⟨hvalid, .inr hcomm⟩)⟩
      rintro rfl
      exact hne (hreg.apart hcomm.symm)
  · by_cases hserver : fd = d.serverFd
    · exact .inr (mem_held.2 ⟨hserver ▸ hne, .inl hserver.symm⟩)
    · exact .inl (Finset.mem_erase.2 ⟨hserver, hfd⟩)

theorem Fds.take (h : Fds T s) (msg : TcmMsg) (hp : s.dlsInfos.get? p = some d) (hk : Known T (s.takeMessage p d msg)) :
    Fds T (s.takeMessage p d msg) := by
  have hinfos := dlsInfos_takeMessage s p d msg
  have hsets := fdSets_takeMessage s p d msg
  split at hinfos
  · exact h.set hk hp hinfos hsets rfl ⟨rfl, rfl⟩ fun _ => Iff.rfl
  · obtain ⟨hopen, hrest⟩ := Prod.mk.inj hsets
    obtain ⟨hset, hlisten⟩ := Prod.mk.inj hrest
    exact h.same hk hinfos hopen hset hlisten

/-- An exit begins: the connection is closed. -/
theorem Fds.disconnect (h : Fds T s) (hp : s.dlsInfos.get? p = some d) (hk : Known T (s.disconnect p d)) :
    Fds T (s.disconnect p d) := by
  have hinfos := dlsInfos_disconnect s p d
  have hreg := h.regular p d hp
  unfold Scheduler.disconnect at hinfos hk ⊢
  by_cases hc : d.commFd = tcmInvalidFd
  · rw [if_pos hc] at hinfos hk ⊢
    exact h.set hk hp hinfos rfl rfl ⟨rfl, hc.symm⟩ fun _ => Iff.rfl
  rw [if_neg hc] at hinfos hk ⊢
  refine h.change (some d) (some { d with msgQueue := [], commFd := tcmInvalidFd }) hk hp (fun q => ?_) rfl ?_
    (fun d'' hd'' => ?_) (fun fd hfd => ?_) (fun fd hfd => ?_) (fun fd hfd => ?_) (fun fd hfd => ?_) fun fd hfd => ?_
  · rw [hinfos, Pool.get?_set_eq hp]
  · exact Finset.mem_erase.2 ⟨hreg.comm.symm, h.stdin⟩
  · obtain rfl := Option.some.inj hd''
    exact ⟨hreg.server, hreg.console, (by decide : tcmInvalidFd ≠ 0), id⟩
  · obtain ⟨hvalid, hserver | hcomm⟩ := mem_held.1 hfd
    · have hfd' : fd ∈ held (some d) := mem_held.2 ⟨hvalid, .inl hserver⟩
      refine ⟨Finset.mem_erase.2 ⟨?_, h.opened hp hfd'⟩, .inl hfd'⟩
      rintro rfl
      exact hvalid (hserver.symm.trans (hreg.apart hserver))
    · exact absurd hcomm.symm hvalid
  · by_cases hfdc : fd = d.commFd
    · exact .inr (mem_held.2 ⟨hfdc ▸ hc, .inr hfdc.symm⟩)
    · exact .inl (Finset.mem_erase.2 ⟨hfdc, hfd⟩)
  · obtain ⟨hnot, hfd⟩ := Finset.mem_erase.1 hfd
    by_cases hl : fd ∈ lookedAt (some d)
    · obtain ⟨hvalid, hserver | hcomm⟩ := mem_lookedAt.1 hl
      · exact .inl (mem_lookedAt.2 ⟨hvalid, .inl hserver⟩)
      · exact absurd hcomm.symm hnot
    · exact .inr ⟨hfd, hl⟩
  · obtain ⟨hvalid, ⟨hstate, hserver⟩ | hcomm⟩ := mem_lookedAt.1 hfd
    · refine Finset.mem_erase.2 ⟨?_, h.complete hp (mem_lookedAt.2 ⟨hvalid, .inl ⟨hstate, hserver⟩⟩)⟩
      rintro rfl
      exact hvalid (hserver.symm.trans (hreg.apart hserver))
    · exact absurd hcomm.symm hvalid
  · by_cases hfdc : fd = d.commFd
    · exact .inr (mem_held.2 ⟨hfdc ▸ hc, .inr hfdc.symm⟩)
    · exact .inl (Finset.mem_erase.2 ⟨hfdc, hfd⟩)

/-- An exit ends: a server is looked at again, another record has no descriptor by now. -/
theorem Fds.retire (h : Fds T s) (hp : s.dlsInfos.get? p = some d) (hdone : d.commFd = tcmInvalidFd) (hk : Known T t)
    (ht : s.retire p d = .done t) : Fds T t := by
  have hreg := h.regular p d hp
  have hcases := retire_cases ht
  unfold Scheduler.retire at ht
  by_cases hm : d.eInfo.monitored = true
  · have hfree : isFreed d = false := by rw [isFreed, hm]; rfl
    rcases hcases with ⟨htrue, -⟩ | ⟨-, hinfos⟩
    · rw [hfree] at htrue
      cases htrue
    have hset : t.readFdsMaster = insert d.serverFd s.readFdsMaster ∧ t.openFds = s.openFds ∧ t.ipcListenFd = s.ipcListenFd := by
      rw [if_pos hm, hfree] at ht
      cases ht
      exact ⟨rfl, rfl, rfl⟩
    obtain ⟨hset, hopen, hlisten⟩ := hset
    have hne := hreg.server.2 hm
    refine h.change (some d) (some { d with state := .notRunning, pid := tcmInvalidPid, specificEid := 0 }) hk hp
      (fun q => ?_) hlisten (hopen ▸ h.stdin) (fun d'' hd'' => ?_) (fun fd hfd => ?_) (fun fd hfd => .inl (hopen ▸ hfd))
      (fun fd hfd => ?_) (fun fd hfd => ?_) fun fd hfd => ?_
    · rw [hinfos, Pool.get?_set_eq hp]
    · obtain rfl := Option.some.inj hd''
      exact ⟨hreg.server, hreg.console, hreg.comm, hreg.apart⟩
    · have hmem := mem_held.1 hfd
      have hfd : fd ∈ held (some d) := mem_held.2 hmem
      exact ⟨hopen ▸ h.opened hp hfd, .inl hfd⟩
    · rw [hset] at hfd
      by_cases hserver : fd = d.serverFd
      · exact .inl (mem_lookedAt.2 ⟨hserver ▸ hne, .inl ⟨rfl, hserver.symm⟩⟩)
      · refine .inr ⟨Finset.mem_of_mem_insert_of_ne hfd hserver, fun hl => ?_⟩
        obtain ⟨hvalid, ⟨-, hs⟩ | hcomm⟩ := mem_lookedAt.1 hl
        · exact hserver hs.symm
        · exact hvalid (hcomm.symm.trans hdone)
    · rw [hset]
      obtain ⟨hvalid, ⟨-, hserver⟩ | hcomm⟩ := mem_lookedAt.1 hfd
      · exact hserver ▸ Finset.mem_insert_self _ _
      · exact absurd (hcomm.symm.trans hdone) hvalid
    · rw [hset]
      exact .inl (Finset.mem_insert_of_mem hfd)
  · have hserver : d.serverFd = tcmInvalidFd := by
      by_contra hne
      exact hm (hreg.server.1 hne)
    have hsets : fdSets t = fdSets s := by
      rw [if_neg hm] at ht
      split at ht
      · obtain ⟨evs, -, rfl⟩ := Outcome.map_eq_done.1 ht
        rfl
      · cases ht
        rfl
    rcases hcases with ⟨-, hinfos⟩ | ⟨-, hinfos⟩
    · -- the record has no descriptors
      obtain ⟨hopen, hrest⟩ := Prod.mk.inj hsets
      obtain ⟨hset, hlisten⟩ := Prod.mk.inj hrest
      have hnone : ∀ fd, fd ∉ held (some d) := by
        intro fd hfd
        obtain ⟨hvalid, hs | hc⟩ := mem_held.1 hfd
        · exact hvalid (hs.symm.trans hserver)
        · exact hvalid (hc.symm.trans hdone)
      refine h.change (some d) none hk hp (fun q => ?_) hlisten (hopen ▸ h.stdin) nofun
        (fun fd hfd => absurd hfd not_mem_held_none) (fun fd hfd => .inl (hopen ▸ hfd)) (fun fd hfd => ?_)
        (fun fd hfd => absurd hfd not_mem_lookedAt_none) fun fd hfd => .inl (hset ▸ hfd)
      · rw [hinfos, Pool.get?_remove]
      · exact .inr ⟨hset ▸ hfd, fun hl => hnone fd (lookedAt_held _ hl)⟩
    · exact h.set hk hp hinfos hsets rfl ⟨rfl, rfl⟩ fun hne => absurd hserver hne

/-- A new record: its descriptors are nobody's. -/
theorem Fds.append (h : Fds T s) (hk : Known T t) (hinfos : t.dlsInfos = s.dlsInfos.append d) (hlisten : t.ipcListenFd = s.ipcListenFd)
    (hregular : Regular d) (hstate : d.state = .notRunning)
    (hnew : ∀ fd ∈ held (some d), fd ∈ t.openFds ∧ ∀ q, fd ∉ held (s.dlsInfos.get? q)) (hopen : s.openFds ⊆ t.openFds)
    (hset : ∀ fd, fd ∈ t.readFdsMaster ↔ fd ∈ held (some d) ∨ fd ∈ s.readFdsMaster) : Fds T t := by
  have hlooked : lookedAt (some d) = held (some d) := by
    ext fd
    rw [mem_lookedAt, mem_held]
    exact and_congr_right fun _ => or_congr_left (and_iff_right hstate)
  refine h.change none (some d) hk Pool.get?_mark (fun q => ?_) hlisten (hopen h.stdin) (fun d' hd' => ?_)
    (fun fd hfd => ⟨(hnew fd hfd).1, .inr (hnew fd hfd).2⟩) (fun fd hfd => .inl (hopen hfd)) (fun fd hfd => ?_) (fun fd hfd => ?_)
    fun fd hfd => .inl ((hset fd).2 (.inr hfd))
  · rw [hinfos, Pool.get?_append]
  · exact Option.some.inj hd' ▸ hregular
  · rcases (hset fd).1 hfd with hfd | hfd
    · exact .inl (hlooked ▸ hfd)
    · exact .inr ⟨hfd, not_mem_lookedAt_none⟩
  · rw [hlooked] at hfd
    exact (hset fd).2 (.inl hfd)

/-- A descriptor that the kernel gives is nobody's, and valid. -/
theorem Fds.fresh (h : Fds T s) {c : Int} (hc : s.newFd k = some c) :
    c ≠ tcmInvalidFd ∧ c ≠ 0 ∧ ∀ q, c ∉ held (s.dlsInfos.get? q) := by
  have hfresh := (Option.filter_eq_some_iff.1 hc).2
  obtain ⟨hnonneg, hopen⟩ := of_decide_eq_true hfresh
  refine ⟨?_, ?_, fun q hq => hopen (h.consistent.opened q hq)⟩
  · rintro rfl
    exact absurd hnonneg (by decide)
  · rintro rfl
    exact hopen h.stdin

/-- **A proper record is made**: that of the console only when there is none. -/
theorem Fds.inserted (h : Fds T s) {eid : BitVec 32} (hproper : Proper T eid)
    (hconsole : eid = idConsole → ∀ p d, s.dlsInfos.get? p = some d → d.serverFd ≠ 0) : Fds T (insertDlsInfoEntry T k s eid).1 := by
  have hk := h.known.insert (k := k) eid
  have hins := insertDlsInfoEntry_inserted (T := T) (k := k) s eid
  generalize insertDlsInfoEntry T k s eid = r at hk hins ⊢
  cases hins with
  | unknown he => exact h
  | noFd hfd => exact h.same hk rfl rfl rfl rfl
  | @console eInfo he heid =>
    subst heid
    have heid : eInfo.eid = idConsole := eid_of_tcmEidGetEntityInfo he
    have hm : eInfo.monitored = true := by
      rw [TcmEntityInfo.monitored, heid]
      exact Bool.or_true _
    have hheld : ∀ fd, fd ∈ held (some { newDlsInfo eInfo idConsole with serverFd := 0 }) ↔ fd = 0 := by
      intro fd
      rw [mem_held]
      constructor
      · rintro ⟨hvalid, hs | hc⟩
        · exact hs.symm
        · exact absurd hc.symm hvalid
      · rintro rfl
        exact ⟨by decide, .inl rfl⟩
    refine h.append hk rfl rfl ⟨⟨fun _ => hm, fun _ => (by decide : (0 : Int) ≠ tcmInvalidFd)⟩, fun _ => heid,
      (by decide : tcmInvalidFd ≠ 0), fun hc => absurd hc (by decide : (0 : Int) ≠ tcmInvalidFd)⟩ rfl (fun fd hfd => ?_)
      (Finset.Subset.refl _) fun fd => ?_
    · obtain rfl := (hheld fd).1 hfd
      refine ⟨h.stdin, fun q hq => ?_⟩
      obtain ⟨-, d, hd, hs | hc⟩ := hq
      · exact hconsole rfl q d hd hs
      · exact (h.regular q d hd).comm hc
    · rw [hheld]
      exact Finset.mem_insert
  | @server eInfo c he heid hflags hfd =>
    obtain ⟨hvalid, hzero, hnobody⟩ := h.fresh hfd
    have hproper := hproper eInfo he
    rw [if_neg heid] at hproper
    have hheld : ∀ fd, fd ∈ held (some { newDlsInfo eInfo eid with serverFd := c }) ↔ fd = c := by
      intro fd
      rw [mem_held]
      constructor
      · rintro ⟨hvalid', hs | hc⟩
        · exact hs.symm
        · exact absurd hc.symm hvalid'
      · rintro rfl
        exact ⟨hvalid, .inl rfl⟩
    refine h.append hk rfl rfl ⟨⟨fun _ => hproper.1 hflags, fun _ => hvalid⟩, fun h0 => absurd h0 hzero,
      (by decide : tcmInvalidFd ≠ 0), id⟩ rfl (fun fd hfd' => ?_) (Finset.subset_insert _ _) fun fd => ?_
    · obtain rfl := (hheld fd).1 hfd'
      exact ⟨Finset.mem_insert_self _ _, hnobody⟩
    · rw [hheld]
      exact Finset.mem_insert
  | @plain eInfo he heid hflags =>
    have hproper := hproper eInfo he
    rw [if_neg heid] at hproper
    have hm : eInfo.monitored ≠ true := fun hm => hproper.2 hm hflags
    have hheld : ∀ fd, fd ∉ held (some (newDlsInfo eInfo eid)) := by
      intro fd hfd
      obtain ⟨hvalid, hs | hc⟩ := mem_held.1 hfd
      · exact hvalid hs.symm
      · exact hvalid hc.symm
    refine h.append hk rfl rfl ⟨⟨fun hne => absurd rfl hne, fun hm' => absurd hm' hm⟩, nofun, (by decide : tcmInvalidFd ≠ 0), id⟩ rfl
      (fun fd hfd => absurd hfd (hheld fd)) (Finset.Subset.refl _) fun fd => ?_
    exact ⟨.inr, fun hfd => hfd.resolve_left (hheld fd)⟩

/-- Where no record is found for the console, none has the descriptor 0. -/
theorem Fds.no_console (h : Fds T s) (hproper : Proper T idConsole)
    (hnew : getExistingDlsInfo s idConsole = none ∨ ∃ e, tcmEidGetEntityInfo T idConsole = some e ∧ e.multiple = true)
    (hp : s.dlsInfos.get? p = some d) : d.serverFd ≠ 0 := by
  intro h0
  have heid := (h.regular p d hp).console h0
  have hentry := (h.known.entry p d hp).1
  rw [heid] at hentry
  have hsingle : d.eInfo.multiple = false := by
    have hone := hproper d.eInfo hentry
    rwa [if_pos rfl] at hone
  rcases hnew with hnone | ⟨e, he, hm⟩
  · have htest := Pool.first_eq_none.1 hnone p d hp
    rw [hsingle, heid] at htest
    cases htest
  · rw [hentry] at he
    obtain rfl := Option.some.inj he
    rw [hsingle] at hm
    cases hm

/-- A move keeps the descriptors right, when the records that it makes are proper. -/
theorem Fds.move (h : Fds T s) (hmakes : ∀ eid, L.makes eid → Proper T eid) (hm : Move T k L s t) : Fds T t := by
  have hk := h.known.move hm
  cases hm with
  | insert hmk hnew =>
    refine h.inserted (hmakes _ hmk) ?_
    rintro rfl p d hp
    exact h.no_console (hmakes _ hmk) hnew hp
  | launch hp hstate => exact h.launch hp hk
  | take msg hp htakes => exact h.take msg hp hk
  | write fd msg =>
    obtain ⟨hopen, hrest⟩ := Prod.mk.inj (fdSets_send s fd msg)
    obtain ⟨hset, hlisten⟩ := Prod.mk.inj hrest
    exact h.same hk (dlsInfos_send s fd msg) hopen hset hlisten
  | disconnect hp hleaves => exact h.disconnect hp hk
  | retire hp hdone ht => exact h.retire hp hdone.1 hk ht
  | ask => exact h.same hk rfl rfl rfl rfl

/-! ## The acceptance of a connection -/

theorem Fds.accepted (h : Fds T s) (c : Int) : Fds T (s.accepted c) :=
  ⟨⟨h.known.interests, h.known.entry, h.known.state⟩, Finset.mem_insert_of_mem h.stdin, h.regular,
    ⟨h.consistent.watches_holds, h.consistent.disjoint, fun p _ hfd => Finset.mem_insert_of_mem (h.consistent.opened p hfd),
      h.consistent.sound, h.consistent.complete⟩⟩

/-- A connection that nobody has is given to a record that has none, and whose server descriptor is not looked at. -/
theorem Fds.confirmed (h : Fds T s) (hp : s.dlsInfos.get? p = some d) (hcomm : d.commFd = tcmInvalidFd)
    (hserver : d.state = .notRunning → d.serverFd = tcmInvalidFd) {c : Int} (hc : c ≠ tcmInvalidFd ∧ c ≠ 0)
    (hopen : c ∈ s.openFds) (hnobody : ∀ q, c ∉ held (s.dlsInfos.get? q))
    (hk : Known T (s.processLaunchConfirmation p { d with commFd := c })) :
    Fds T (s.processLaunchConfirmation p { d with commFd := c }) := by
  have hreg := h.regular p d hp
  have hinfos := confirmed_dlsInfos s p { d with commFd := c }
  have hsets : fdSets (s.processLaunchConfirmation p { d with commFd := c }) = (s.openFds, insert c s.readFdsMaster, s.ipcListenFd) :=
    fdSets_foldl_deliver _ _ _ _
  generalize s.processLaunchConfirmation p { d with commFd := c } = t at hk hinfos hsets ⊢
  obtain ⟨hopens, hrest⟩ := Prod.mk.inj hsets
  obtain ⟨hset, hlisten⟩ := Prod.mk.inj hrest
  have hapart : d.serverFd ≠ c := by
    intro hs
    refine hnobody p ?_
    rw [hp]
    exact mem_held.2 ⟨hc.1, .inl hs⟩
  refine h.change (some d) (some { d with commFd := c, state := .running, msgQueue := [] }) hk hp (fun q => ?_) hlisten
    (hopens ▸ h.stdin) (fun d'' hd'' => ?_) (fun fd hfd => ?_) (fun fd hfd => .inl (hopens ▸ hfd)) (fun fd hfd => ?_)
    (fun fd hfd => ?_) fun fd hfd => .inl (hset ▸ Finset.mem_insert_of_mem hfd)
  · rw [hinfos, Pool.get?_set_eq hp]
  · obtain rfl := Option.some.inj hd''
    exact ⟨hreg.server, hreg.console, hc.2, fun hs => absurd hs hapart⟩
  · rw [hopens]
    obtain ⟨hvalid, hs | hcc⟩ := mem_held.1 hfd
    · have hfd' : fd ∈ held (some d) := mem_held.2 ⟨hvalid, .inl hs⟩
      exact ⟨h.opened hp hfd', .inl hfd'⟩
    · have hcc : c = fd := hcc
      exact hcc ▸ ⟨hopen, .inr hnobody⟩
  · rw [hset] at hfd
    rcases Finset.mem_insert.1 hfd with rfl | hfd
    · exact .inl (mem_lookedAt.2 ⟨hc.1, .inr rfl⟩)
    · refine .inr ⟨hfd, fun hl => ?_⟩
      obtain ⟨hvalid, ⟨hstate, hs⟩ | hcc⟩ := mem_lookedAt.1 hl
      · exact hvalid (hs.symm.trans (hserver hstate))
      · exact hvalid (hcc.symm.trans hcomm)
  · rw [hset]
    obtain ⟨-, ⟨hstate, -⟩ | hcc⟩ := mem_lookedAt.1 hfd
    · cases hstate
    · have hcc : c = fd := hcc
      exact hcc ▸ Finset.mem_insert_self _ _

/-- A connection that is closed again leaves the descriptors as they were. -/
theorem Fds.closed (h : Fds T s) {c : Int} (hc : s.newFd k = some c) (hk : Known T t) (hinfos : t.dlsInfos = s.dlsInfos)
    (hopen : t.openFds = (insert c s.openFds).erase c) (hset : t.readFdsMaster = s.readFdsMaster)
    (hlisten : t.ipcListenFd = s.ipcListenFd) : Fds T t := by
  refine h.same hk hinfos ?_ hset hlisten
  rw [hopen]
  exact Finset.erase_insert (of_decide_eq_true (Option.filter_eq_some_iff.1 hc).2).2

/-- The acceptance of a connection keeps the descriptors right, when it fits. -/
theorem Fds.listen (h : Fds T s) (hk : Known T t) {fd : Int} {msg : Option TcmMsg}
    (hfit : ∀ c eid, s.connects T k (.listen fd msg) = some (c, eid) → s.ConnectFits T eid)
    (hs : s.listenPart T k fd msg = .done t) : Fds T t := by
  rcases listen_cases hs with rfl | rfl | ⟨c, hc, rfl | ⟨msg, hfd, rfl, htype, hdst, s₁, rfl, hrest⟩⟩
  · exact h
  · exact h.same hk rfl rfl rfl rfl
  · exact h.closed hc hk rfl rfl rfl rfl
  have hacc := h.accepted c
  rcases hrest with ⟨hnone, rfl⟩ | ⟨p, d, hp, hd, rfl⟩
  · -- no record could be made
    unfold Sched.getDlsInfo at hnone hk ⊢
    cases hfound : getExistingDlsInfo (s.accepted c) msg.src with
    | some x =>
      rw [hfound] at hnone
      cases hnone
    | none =>
      rw [hfound] at hnone hk
      simp only [getNewDlsInfo] at hnone hk ⊢
      have hins := insertDlsInfoEntry_inserted (T := T) (k := k) (s.accepted c) msg.src
      generalize insertDlsInfoEntry T k (s.accepted c) msg.src = r at hnone hk hins ⊢
      cases hins with
      | unknown he => exact h.closed hc hk rfl rfl rfl rfl
      | noFd hfd => exact h.closed hc hk rfl rfl rfl rfl
      | _ => cases hnone
  · have hconnects : s.connects T k (.listen fd (some msg)) = some (c, msg.src) := by
      rw [connects, if_pos ⟨hfd, htype, hdst⟩, hc, Option.bind_some, hp, Option.map_some]
    have hfits := hfit c msg.src hconnects
    obtain ⟨hvalid, hzero, hnobody⟩ := h.fresh hc
    have hopen : c ∈ (s.accepted c).openFds := Finset.mem_insert_self _ _
    unfold ConnectFits at hfits
    unfold Sched.getDlsInfo at hp hd hk ⊢
    have hsame : getExistingDlsInfo (s.accepted c) msg.src = getExistingDlsInfo s msg.src := rfl
    rw [hsame] at hp hd hk ⊢
    cases hfound : getExistingDlsInfo s msg.src with
    | some found =>
      obtain ⟨q, d₀⟩ := found
      simp only [hfound] at hfits hp hd hk ⊢
      obtain rfl := Option.some.inj hp
      obtain rfl := Option.some.inj ((Pool.get?_of_first hfound).1.symm.trans hd)
      exact hacc.confirmed hd hfits.1 hfits.2 ⟨hvalid, hzero⟩ hopen hnobody hk
    | none =>
      simp only [hfound, getNewDlsInfo] at hfits hp hd hk ⊢
      obtain ⟨hproper, hplain⟩ := hfits
      have hget := hacc.inserted (k := k) hproper fun heid => ?_
      · have hins := insertDlsInfoEntry_inserted (T := T) (k := k) (s.accepted c) msg.src
        generalize insertDlsInfoEntry T k (s.accepted c) msg.src = r at hp hd hk hins hget ⊢
        cases hins with
        | unknown he => cases hp
        | noFd hfd => cases hp
        | console he heid => exact absurd heid (hplain _ he).1
        | server he heid hflags hfd => exact absurd (hplain _ he).2 hflags
        | @plain eInfo he heid hflags =>
          obtain rfl := Option.some.inj hp
          have hd : ((s.accepted c).dlsInfos.append (newDlsInfo eInfo msg.src)).get? s.dlsInfos.mark = some d := hd
          rw [Pool.get?_append, if_pos (show s.dlsInfos.mark = (s.accepted c).dlsInfos.mark from rfl)] at hd
          obtain rfl := Option.some.inj hd
          refine hget.confirmed ?_ rfl (fun _ => rfl) ⟨hvalid, hzero⟩ hopen (fun q hq => ?_) hk
          · rw [dlsInfos_linkInfo, Pool.get?_append]
            exact if_pos rfl
          · rw [dlsInfos_linkInfo, Pool.get?_append] at hq
            split at hq
            · obtain ⟨-, hs | hcc⟩ := mem_held.1 hq
              · exact hvalid hs.symm
              · exact hvalid hcc.symm
            · exact hnobody q hq
      · obtain ⟨q, hq⟩ : ∃ q, (insertDlsInfoEntry T k (s.accepted c) msg.src).2 = some q := ⟨p, hp⟩
        obtain ⟨eInfo, -, he, -⟩ := insertDlsInfoEntry_some hq
        exact absurd heid (hplain eInfo he).1

/-! ## The steps -/

/-- A record for another id than that of the console does not get the descriptor 0. -/
theorem Fds.serverFd_ne_zero (h : Fds T s) {eid : BitVec 32} (heid : eid ≠ idConsole)
    (hnone : ∀ p d, s.dlsInfos.get? p = some d → d.serverFd ≠ 0) (hp : (insertDlsInfoEntry T k s eid).1.dlsInfos.get? p = some d) :
    d.serverFd ≠ 0 := by
  have hins := insertDlsInfoEntry_inserted (T := T) (k := k) s eid
  generalize insertDlsInfoEntry T k s eid = r at hp hins
  cases hins with
  | unknown he => exact hnone p d hp
  | noFd hfd => exact hnone p d hp
  | console he hc => exact absurd hc heid
  | server he hc hflags hfd =>
    rw [dlsInfos_linkInfo, Pool.get?_append] at hp
    split at hp
    · obtain rfl := Option.some.inj hp
      exact (h.fresh hfd).2.1
    · exact hnone p d hp
  | plain he hc hflags =>
    rw [dlsInfos_linkInfo, Pool.get?_append] at hp
    split at hp
    · obtain rfl := Option.some.inj hp
      exact (by decide : tcmInvalidFd ≠ 0)
    · exact hnone p d hp

/-- `initDls` keeps the descriptors right, when the records fit. -/
theorem Fds.initDls (h : Fds T s) {stage : Nat} (hfit : s.InitFits T stage) : Fds T (initDls T k stage s T).2 := by
  have hrun := initDls_invariant (T := T) (k := k) (s := s) stage T
    (I := fun s es => Fds T s ∧ (∀ e ∈ es, initDlsWants stage e = true → Proper T e.eid) ∧
      (stage = 1 → (es.map TcmEntityInfo.eid).Nodup ∧
        ((∃ e ∈ es, initDlsWants stage e = true ∧ e.eid = idConsole) → ∀ p d, s.dlsInfos.get? p = some d → d.serverFd ≠ 0)))
    ?_ ?_ ⟨h, hfit⟩
  · obtain ⟨rest, hrest, -⟩ := hrun
    exact hrest
  · rintro s e es ⟨hs, hproper, honce⟩
    refine ⟨hs, fun e' he' => hproper e' (List.mem_cons_of_mem _ he'), fun hstage => ?_⟩
    obtain ⟨hnd, hzero⟩ := honce hstage
    exact ⟨(List.nodup_cons.1 hnd).2, fun ⟨e', he', hw⟩ => hzero ⟨e', List.mem_cons_of_mem _ he', hw⟩⟩
  · rintro s e es hwants hnew ⟨hs, hproper, honce⟩
    have hprop := hproper e List.mem_cons_self hwants
    refine ⟨hs.inserted hprop fun heid => ?_, fun e' he' => hproper e' (List.mem_cons_of_mem _ he'), fun hstage => ?_⟩
    · rcases hnew with hstage | hnone
      · exact (honce hstage).2 ⟨e, List.mem_cons_self, hwants, heid⟩
      · intro p d hp
        rw [heid] at hprop hnone
        exact hs.no_console hprop (.inl hnone) hp
    · obtain ⟨hnd, hzero⟩ := honce hstage
      obtain ⟨hnot, hnd⟩ := List.nodup_cons.1 hnd
      refine ⟨hnd, fun ⟨e', he', hw', heid'⟩ p d hp => hs.serverFd_ne_zero ?_ (hzero ⟨e', List.mem_cons_of_mem _ he', hw', heid'⟩) hp⟩
      intro heid
      exact hnot (List.mem_map.2 ⟨e', he', heid'.trans heid.symm⟩)

theorem Fds.start (fd : Int) : Fds T (Scheduler.start fd) := by
  refine ⟨Known.start fd, Finset.mem_insert_self _ _, nofun, ⟨fun p => lookedAt_held _, ?_, ?_, ?_, ?_⟩⟩
  · exact fun p q r hr => absurd hr not_mem_held_none
  · exact fun p r hr => absurd hr not_mem_held_none
  · exact fun r hr => .inl (Finset.mem_singleton.1 hr)
  · exact fun p r hr => absurd hr not_mem_lookedAt_none

/-- A step that fits keeps the descriptors right. -/
theorem Fds.step (h : Fds T s) {a : Kernel × Act} (hfit : FdsFit T s a) (hs : Scheduler.step T s a t) : Fds T t := by
  have hk := h.known.step hs
  obtain ⟨k, a⟩ := a
  obtain ⟨-, hs⟩ := hs
  by_cases hinit : ∃ stage, a = .initDls stage
  · obtain ⟨stage, rfl⟩ := hinit
    cases hs
    exact h.initDls (hfit.2.1 stage rfl)
  by_cases hlisten : ∃ fd msg, a = .listen fd msg
  · obtain ⟨fd, msg, rfl⟩ := hlisten
    exact h.listen hk hfit.2.2 hs
  · have hparts := act_parts h.known (fun stage ha => hinit ⟨stage, ha⟩) (fun fd msg ha => hlisten ⟨fd, msg, ha⟩) hs
    exact hparts.moves.keeps (fun _ _ hs hm => hs.move hfit.1 hm) h

/-- **The descriptors are right**: in every run of the scheduler whose steps all fit, after every step each descriptor that `select` looks
at is the one that listens, the server descriptor of one record of an application that does not run, or the connection of one record, and
all these are looked at. -/
theorem fds_right (T : EntityTable) (fd : Int) (tr : List (Transition Scheduler (Kernel × Act))) (t : Scheduler)
    (hr : Run (Scheduler.step T) (Scheduler.start fd) tr t) (hfits : Meets (FdsFit T) tr) : Always (fun _ _ t => FdsRight t) tr :=
  hr.always (Fds.start fd) (fun _ _ _ h hfit hs => ⟨h.step hfit hs, (h.step hfit hs).right⟩) hfits

def serverTable : EntityTable := [⟨12, ['b'], 0x41, true⟩]

/-- The record of the server has been made. -/
def serverKnown : Scheduler := next serverTable plainKernel (Scheduler.start 3) (.initDls 2)

/-- The server has been started. -/
def serverStarted : Scheduler := next serverTable plainKernel serverKnown (.server 7)

/-- The server has connected. -/
def serverRunning : Scheduler := next serverTable plainKernel serverStarted (.listen 3 (some (hello 12)))

/-- A server is started when there is something to read for it, and connects. -/
theorem fds_right_server :
    Always (fun _ _ t => FdsRight t)
      [(Scheduler.start 3, (plainKernel, Act.initDls 2), serverKnown),
        (serverKnown, (plainKernel, Act.server 7), serverStarted),
        (serverStarted, (plainKernel, Act.listen 3 (some (hello 12))), serverRunning)] := by
  refine fds_right serverTable 3 _ serverRunning (Run.cons ⟨⟨rfl, trivial⟩, rfl⟩
    (Run.cons ⟨⟨rfl, by decide⟩, rfl⟩ (Run.single ⟨⟨rfl, by decide⟩, rfl⟩))) ?_
  intro x hx
  rcases List.mem_cons.1 hx with rfl | hx
  · refine ⟨nofun, fun stage hstage => ⟨fun e he _ => ?_, fun h1 => ?_⟩, nofun⟩
    · obtain rfl := List.mem_singleton.1 he
      intro e he'
      obtain rfl := Option.some.inj he'
      decide
    · obtain rfl := Act.initDls.inj hstage
      exact absurd h1 (by decide)
  rcases List.mem_cons.1 hx with rfl | hx
  · exact ⟨nofun, nofun, nofun⟩
  obtain rfl := List.mem_singleton.1 hx
  refine ⟨nofun, nofun, fun c eid hc => ?_⟩
  have hpair : some ((9 : Int), (12 : BitVec 32)) = some (c, eid) := hc
  obtain ⟨-, rfl⟩ := Prod.mk.inj (Option.some.inj hpair)
  exact ⟨rfl, nofun⟩

/-- A descriptor is in the set that is of no record. -/
theorem not_fdsRight (hfd : fd ∈ s.readFdsMaster) (hlisten : fd ≠ s.ipcListenFd)
    (hnone : ∀ x ∈ s.dlsInfos.entries, (x.2.state = .notRunning → x.2.serverFd ≠ fd) ∧ x.2.commFd ≠ fd) : ¬FdsRight s := by
  rintro ⟨hsound, -⟩
  rcases hsound fd hfd with hroot | ⟨p, ⟨d, hp, hstate, hs⟩, -⟩ | ⟨p, ⟨d, hp, hc⟩, -⟩
  · exact hlisten hroot
  · exact (hnone (p, d) (Pool.mem_iff.2 hp)).1 hstate hs
  · exact (hnone (p, d) (Pool.mem_iff.2 hp)).2 hc

/-- An application that is started in the first stage and is no server, and one that starts itself. -/
def plainTable : EntityTable := [⟨1, ['a'], 0x04, true⟩, ⟨11, [], 0, true⟩]

/-- The record of the first application has been made, with a server descriptor. -/
def plainKnown : Scheduler := next plainTable plainKernel (Scheduler.start 3) (.initDls 1)

/-- The application has been started. -/
def plainStarted : Scheduler := next plainTable plainKernel plainKnown (.appLauncher 1)

/-- The other application has connected. -/
def plainConnected : Scheduler := next plainTable plainKernel (Scheduler.start 3) (.listen 3 (some (hello 11)))

/-- It has connected again. -/
def plainReconnected : Scheduler := next plainTable plainKernel plainConnected (.listen 3 (some (hello 11)))

/-- The server has connected without being started. -/
def serverStranger : Scheduler := next serverTable plainKernel serverKnown (.listen 3 (some (hello 12)))

/-- The server descriptor of an application that is no server is looked at while it runs; so is an old connection, when an application
connects for the second time, and the server descriptor of a server that has not been started from here. -/
theorem not_fds_right :
    (∃ tr t, Run (Scheduler.step plainTable) (Scheduler.start 3) tr t ∧ ¬Always (fun _ _ t => FdsRight t) tr) ∧
    (∃ tr t, Run (Scheduler.step plainTable) (Scheduler.start 3) tr t ∧ ¬Always (fun _ _ t => FdsRight t) tr) ∧
    ∃ tr t, Run (Scheduler.step serverTable) (Scheduler.start 3) tr t ∧ ¬Always (fun _ _ t => FdsRight t) tr := by
  refine ⟨⟨[(Scheduler.start 3, (plainKernel, Act.initDls 1), plainKnown),
      (plainKnown, (plainKernel, Act.appLauncher 1), plainStarted)], plainStarted, ?_, fun h => ?_⟩,
    ⟨[(Scheduler.start 3, (plainKernel, Act.listen 3 (some (hello 11))), plainConnected),
      (plainConnected, (plainKernel, Act.listen 3 (some (hello 11))), plainReconnected)], plainReconnected, ?_, fun h => ?_⟩,
    ⟨[(Scheduler.start 3, (plainKernel, Act.initDls 2), serverKnown),
      (serverKnown, (plainKernel, Act.listen 3 (some (hello 12))), serverStranger)], serverStranger, ?_, fun h => ?_⟩⟩
  · exact Run.cons ⟨⟨rfl, trivial⟩, rfl⟩ (Run.single ⟨⟨rfl, trivial⟩, rfl⟩)
  · exact not_fdsRight (show (7 : Int) ∈ _ by decide) (by decide) (by decide)
      (h (plainKnown, (plainKernel, Act.appLauncher 1), plainStarted) (by simp))
  · exact Run.cons ⟨⟨rfl, by decide⟩, rfl⟩ (Run.single ⟨⟨rfl, by decide⟩, rfl⟩)
  · exact not_fdsRight (show (7 : Int) ∈ _ by decide) (by decide) (by decide)
      (h (plainConnected, (plainKernel, Act.listen 3 (some (hello 11))), plainReconnected) (by simp))
  · exact Run.cons ⟨⟨rfl, trivial⟩, rfl⟩ (Run.single ⟨⟨rfl, by decide⟩, rfl⟩)
  · exact not_fdsRight (show (7 : Int) ∈ _ by decide) (by decide) (by decide)
      (h (serverKnown, (plainKernel, Act.listen 3 (some (hello 12))), serverStranger) (by simp))

end CodeFactory.Sched
