import CodeFactory.Ehcc.KeepAlive

/-!
# Silent connections

An entry of `g_keepAliveInfo` is made and its time set back when a keep-alive is handled. The entries have descriptors, not
connections: an entry stays when its connection is closed on another path, and the number may be that of the next connection. Beside
the server it is kept here how long each connection has been silent since its last keep-alive, and it is said what every step has to
meet so that the timer closes exactly the connections that have been silent for too long.
-/

namespace CodeFactory.Ehcc

/-! ## The server and its clock -/

/-- The server, and how long each connection that has sent a keep-alive has been silent since its last one, in seconds that the
timer has counted. -/
structure Timed where
  server : Server
  silence : Connection → Option Int

namespace Timed

variable (K : Constants) (s : Timed)

/-- The silence of a connection ends when its keep-alive is handled, and goes on when the timer comes to its descriptor. -/
def heard : Action → Connection → Option Int
  | .handle _ =>
    match s.server.msgQueue.head?.bind fun m => if m.msg.type = .toMfcbKeepAlive then m.source else none with
    | some c => Function.update s.silence c (some 0)
    | none => s.silence
  | .keepAliveSync i =>
    match s.server.clientAt (s.server.keepAliveInfo i).connfd with
    | some c => Function.update s.silence c ((s.silence c).map (· + keepAlivePollingTime))
    | none => s.silence
  | _ => s.silence

/-- One step of the server, with the clock. -/
def step (a : Action) : Option Timed := (s.server.step K a).map fun t => ⟨t, s.heard a⟩

/-- What is asked of a step: the timer closes a connection only when it has sent keep-alives and then none for longer than
`KEEP_ALIVE_CHECKING_TIME`; when it is not about to close one, none is open that has been silent for so long; and an open connection
that has sent a keep-alive has an entry, so that the timer comes to its descriptor. -/
structure Fair (K : Constants) (s : Timed) (a : Action) (t : Timed) : Prop where
  closes : a = .expire → ∀ c, s.server.clientAt c.fd = some c → t.server.clientAt c.fd ≠ some c →
    ∃ n, s.silence c = some n ∧ keepAliveCheckingTime < n
  expires : t.server.expiring = none → ∀ c, t.server.clientAt c.fd = some c → ∀ n, t.silence c = some n → n ≤ keepAliveCheckingTime
  kept : ∀ c, t.server.clientAt c.fd = some c → t.silence c ≠ none → ∃ i < K.maxtableDevices, (t.server.keepAliveInfo i).connfd = c.fd

/-- The condition on a step: no entry is left for a descriptor that is accepted; a keep-alive is handled while its descriptor is not
another connection's, there is an entry for it or a free one, and the timer is not about to close it; and an entry that is closed
and has a connection has a device. -/
def Timely (K : Constants) (s : Timed) : Action → Prop
  | .accept fd _ => ∀ i < K.maxtableDevices, (s.server.keepAliveInfo i).connfd ≠ fd
  | .handle _ => ∀ m ∈ s.server.msgQueue.head?, m.msg.type = .toMfcbKeepAlive → s.server.clientAt m.connfd ≠ none →
      s.server.clientAt m.connfd = m.source ∧
        (∃ i < K.maxtableDevices, (s.server.keepAliveInfo i).connfd = m.connfd ∨ (s.server.keepAliveInfo i).connfd = -1) ∧
        ∀ i ∈ s.server.expiring, (s.server.keepAliveInfo i).connfd ≠ m.connfd
  | .expire => ∀ i ∈ s.server.expiring, s.server.clientAt (s.server.keepAliveInfo i).connfd ≠ none →
      (s.server.getDeviceByFd K (s.server.keepAliveInfo i).connfd).isSome
  | _ => True

instance (K : Constants) (s : Timed) (a : Action) : Decidable (s.Timely K a) :=
  match a with
  | .accept _ _ => inferInstanceAs (Decidable (∀ i < K.maxtableDevices, _ ≠ _))
  | .handle _ => inferInstanceAs (Decidable (∀ m ∈ s.server.msgQueue.head?, m.msg.type = .toMfcbKeepAlive →
      s.server.clientAt m.connfd ≠ none → s.server.clientAt m.connfd = m.source ∧
        (∃ i < K.maxtableDevices, (s.server.keepAliveInfo i).connfd = m.connfd ∨ (s.server.keepAliveInfo i).connfd = -1) ∧
        ∀ i ∈ s.server.expiring, (s.server.keepAliveInfo i).connfd ≠ m.connfd))
  | .expire => inferInstanceAs (Decidable (∀ i ∈ s.server.expiring,
      s.server.clientAt (s.server.keepAliveInfo i).connfd ≠ none → _ = true))
  | .select _ | .acceptFails | .receive _ | .releaseToken | .keepAliveSync _ | .deleteUnit | .writeUnit _ _ | .openFile _
  | .closeFile _ => inferInstanceAs (Decidable True)

/-- What is true all the time: the entries are proper, and none is too old but the one that the timer is about to close; a connection
that is open has an entry with its descriptor exactly when it has sent keep-alives, and the entry's time is its silence. -/
structure Synchronous (K : Constants) (s : Timed) : Prop where
  entries : s.server.ProperEntries K
  young : ∀ i < K.maxtableDevices, s.server.expiring ≠ some i → (s.server.keepAliveInfo i).flag ≤ keepAliveCheckingTime
  old : ∀ i, s.server.expiring = some i → i < K.maxtableDevices ∧ (s.server.keepAliveInfo i).connfd ≠ -1 ∧
    ∀ c, s.server.clientAt (s.server.keepAliveInfo i).connfd = some c → keepAliveCheckingTime < (s.server.keepAliveInfo i).flag
  clients : ∀ fd c, s.server.clientAt fd = some c → c.fd = fd ∧ 0 ≤ fd ∧ c.serial < s.server.accepted
  heard : ∀ c n, s.silence c = some n → c.serial < s.server.accepted
  tracked : ∀ c, s.server.clientAt c.fd = some c → ∀ n, s.silence c = some n ↔
    ∃ i < K.maxtableDevices, s.server.keepAliveInfo i = ⟨c.fd, n⟩
  watched : ∀ fd ∈ s.server.readFdsMaster, fd = s.server.gehServerFd ∨ 3 ≤ fd
  ready : ∀ fd ∈ s.server.ready, fd = s.server.gehServerFd ∨ 3 ≤ fd
  queue : ∀ m ∈ s.server.msgQueue, 3 ≤ m.connfd ∧ ∀ c, m.source = some c → c.fd = m.connfd ∧ c.serial < s.server.accepted

variable {K s} {t : Timed}

/-- What is true behind a step makes it fair, when the timer does not close a connection. -/
theorem Synchronous.fair (h : t.Synchronous K) {a : Action} (ha : a ≠ .expire) : Fair K s a t where
  closes := fun he => absurd he ha
  expires := by
    intro hidle c hc n hn
    obtain ⟨i, hi, hentry⟩ := (h.tracked c hc n).1 hn
    have hyoung := h.young i hi (by rw [hidle]; exact (Option.some_ne_none i).symm)
    rwa [hentry] at hyoung
  kept := by
    intro c hc hn
    obtain ⟨n, hn⟩ := Option.ne_none_iff_exists'.1 hn
    obtain ⟨i, hi, hentry⟩ := (h.tracked c hc n).1 hn
    exact ⟨i, hi, by rw [hentry]⟩

/-! ## The timer -/

theorem Synchronous.high (h : s.Synchronous K) {i : Nat} (hi : i < K.maxtableDevices) {c : Connection}
    (hc : s.server.clientAt (s.server.keepAliveInfo i).connfd = some c) : 3 ≤ (s.server.keepAliveInfo i).connfd := by
  refine (h.entries.form i hi).resolve_left fun hfree => ?_
  have hpos := (h.clients _ c hc).2.1
  rw [hfree] at hpos
  exact absurd hpos (by decide)

/-- **The timer comes to an entry**: its time and the silence of its connection go on together. -/
theorem Synchronous.sync (h : s.Synchronous K) {i : Nat} (hi : i < K.maxtableDevices) (hidle : s.server.expiring = none) :
    (⟨s.server.keepAliveSync i, s.heard (.keepAliveSync i)⟩ : Timed).Synchronous K := by
  obtain ⟨gTokenStatus, gTokenOwern, heq⟩ := s.server.keepAliveSync_entry i
  rw [heq]
  have hentry : ∀ j, Function.update s.server.keepAliveInfo i (s.server.keepAliveInfo i).advanced j =
      if j = i then (s.server.keepAliveInfo i).advanced else s.server.keepAliveInfo j := fun j => Function.update_apply _ _ _ _
  have hconnfd : ∀ j, (Function.update s.server.keepAliveInfo i (s.server.keepAliveInfo i).advanced j).connfd =
      (s.server.keepAliveInfo j).connfd := by
    intro j
    rw [hentry]
    split
    · rename_i hji
      rw [hji, KeepAliveInfo.advanced_connfd]
    · rfl
  have hsilence : ∀ c, s.server.clientAt c.fd = some c → s.heard (.keepAliveSync i) c =
      if c.fd = (s.server.keepAliveInfo i).connfd then (s.silence c).map (· + keepAlivePollingTime) else s.silence c := by
    intro c hc
    simp only [Timed.heard]
    by_cases hfd : c.fd = (s.server.keepAliveInfo i).connfd
    · rw [if_pos hfd, ← hfd, hc]
      exact Function.update_self _ _ _
    · rw [if_neg hfd]
      cases hclient : s.server.clientAt (s.server.keepAliveInfo i).connfd with
      | none => rfl
      | some c' =>
        refine Function.update_of_ne (fun hcc => hfd ?_) _ _
        rw [hcc]
        exact (h.clients _ c' hclient).1
  refine ⟨⟨fun j hj => ?_, fun j hj k hk => ?_⟩, fun j hj hne => ?_, fun j hj => ?_, h.clients, fun c n hn => ?_, fun c hc n => ?_,
    h.watched, h.ready, h.queue⟩
  · change Function.update s.server.keepAliveInfo i _ j = _ ∨ 3 ≤ (Function.update s.server.keepAliveInfo i _ j).connfd
    rw [hconnfd, hentry]
    split
    · rename_i hji
      rw [hji]
      refine (h.entries.form i hi).imp_left fun hfree => ?_
      rw [hfree]
      rfl
    · exact h.entries.form j hj
  · change (Function.update s.server.keepAliveInfo i _ j).connfd = (Function.update s.server.keepAliveInfo i _ k).connfd →
      (Function.update s.server.keepAliveInfo i _ j).connfd ≠ -1 → j = k
    rw [hconnfd, hconnfd]
    exact h.entries.distinct j hj k hk
  · change (if _ then some i else s.server.expiring) ≠ some j at hne
    change (Function.update s.server.keepAliveInfo i _ j).flag ≤ _
    rw [hentry]
    split
    · rename_i hji
      subst hji
      by_cases hexp : (s.server.keepAliveInfo j).Expires
      · rw [if_pos hexp] at hne
        exact absurd rfl hne
      · exact Int.not_lt.1 hexp
    · exact h.young j hj (by rw [hidle]; exact (Option.some_ne_none j).symm)
  · change (if _ then some i else s.server.expiring) = some j at hj
    rw [hidle] at hj
    split at hj
    · rename_i hexp
      obtain rfl := Option.some.inj hj
      refine ⟨hi, ?_, fun c _ => ?_⟩
      · change (Function.update s.server.keepAliveInfo i _ i).connfd ≠ -1
        rw [hconnfd]
        rcases h.entries.form i hi with hfree | hhigh
        · rw [hfree] at hexp
          exact absurd hexp (by decide)
        · omega
      · change _ < (Function.update s.server.keepAliveInfo i _ i).flag
        rw [Function.update_self]
        exact hexp
    · cases hj
  · change s.heard (.keepAliveSync i) c = some n at hn
    simp only [Timed.heard] at hn
    cases hclient : s.server.clientAt (s.server.keepAliveInfo i).connfd with
    | none =>
      rw [hclient] at hn
      exact h.heard c n hn
    | some c' =>
      rw [hclient] at hn
      by_cases hcc : c = c'
      · exact hcc ▸ (h.clients _ c' hclient).2.2
      · exact h.heard c n ((Function.update_of_ne hcc _ _).symm.trans hn)
  · have hopen : s.server.clientAt c.fd = some c := hc
    change s.heard (.keepAliveSync i) c = some n ↔ ∃ j < K.maxtableDevices, Function.update s.server.keepAliveInfo i _ j = _
    rw [hsilence c hopen]
    split
    · -- the connection of the entry: the entry is its only one
      rename_i hfd
      have hhigh := h.high hi (hfd ▸ hopen)
      have hadvanced := KeepAliveInfo.advanced_of_pos (show 0 < (s.server.keepAliveInfo i).connfd by omega)
      have hself : s.silence c = some (s.server.keepAliveInfo i).flag := by
        refine (h.tracked c hopen _).2 ⟨i, hi, ?_⟩
        rw [hfd]
      rw [hself, Option.map_some, Option.some.injEq]
      constructor
      · rintro rfl
        exact ⟨i, hi, by rw [hentry, if_pos rfl, hadvanced, hfd]; rfl⟩
      · rintro ⟨j, hj, heq⟩
        have hji : j = i := by
          have hjfd := hconnfd j
          rw [heq] at hjfd
          exact h.entries.distinct j hj i hi (hjfd.symm.trans hfd) (by rw [← hjfd]; change c.fd ≠ -1; omega)
        rw [hji, hentry, if_pos rfl, hadvanced] at heq
        exact (KeepAliveInfo.mk.inj heq).2
    · rename_i hfd
      rw [h.tracked c hopen]
      refine exists_congr fun j => and_congr_right fun hj => ?_
      rw [hentry]
      split
      · rename_i hji
        subst hji
        refine iff_of_false (fun heq => hfd ?_) fun heq => hfd ?_
        · rw [heq]
        · rw [← KeepAliveInfo.advanced_connfd, heq]
      · exact Iff.rfl

/-- **The timer closes** the connection of the entry that was too old, which has a device. -/
theorem Synchronous.expire (h : s.Synchronous K) {i : Nat} (hexpiring : s.server.expiring = some i)
    (hdevice : s.server.clientAt (s.server.keepAliveInfo i).connfd ≠ none →
      (s.server.getDeviceByFd K (s.server.keepAliveInfo i).connfd).isSome) :
    (⟨s.server.expire K i, s.silence⟩ : Timed).Synchronous K ∧ Fair K s .expire ⟨s.server.expire K i, s.silence⟩ := by
  obtain ⟨hi, -, hold⟩ := h.old i hexpiring
  obtain ⟨hentries, hclients, hidle, haccepted, hserver, hready, hqueue, hwatched⟩ := Server.expire_closed K s.server i
  have hentry : ∀ j, (s.server.expire K i).keepAliveInfo j = if j = i then ⟨-1, -1⟩ else s.server.keepAliveInfo j := by
    intro j
    rw [hentries]
    exact Function.update_apply _ _ _ _
  have hclosed : ∀ fd, (s.server.expire K i).clientAt fd =
      if fd = (s.server.keepAliveInfo i).connfd then none else s.server.clientAt fd := by
    intro fd
    rw [hclients]
    by_cases hfd : fd = (s.server.keepAliveInfo i).connfd
    · rw [if_pos hfd]
      split
      · rfl
      · rename_i hnone
        by_contra hopen
        exact hnone ⟨hfd, hfd ▸ hdevice (hfd ▸ hopen)⟩
    · rw [if_neg hfd, if_neg fun hc => hfd hc.1]
  have hopen : ∀ fd c, (s.server.expire K i).clientAt fd = some c →
      fd ≠ (s.server.keepAliveInfo i).connfd ∧ s.server.clientAt fd = some c := by
    intro fd c hc
    rw [hclosed] at hc
    split at hc
    · cases hc
    · rename_i hfd
      exact ⟨hfd, hc⟩
  have hsync : (⟨s.server.expire K i, s.silence⟩ : Timed).Synchronous K := by
    refine ⟨⟨fun j hj => ?_, fun j hj k hk heq hne => ?_⟩, fun j hj _ => ?_, fun j hj => ?_, fun fd c hc => ?_, fun c n hn => ?_,
      fun c hc n => ?_, fun fd hfd => ?_, fun fd hfd => ?_, fun m hm => ?_⟩
    · change (s.server.expire K i).keepAliveInfo j = _ ∨ 3 ≤ ((s.server.expire K i).keepAliveInfo j).connfd
      rw [hentry]
      split
      · exact .inl rfl
      · exact h.entries.form j hj
    · change ((s.server.expire K i).keepAliveInfo j).connfd = ((s.server.expire K i).keepAliveInfo k).connfd at heq
      change ((s.server.expire K i).keepAliveInfo j).connfd ≠ -1 at hne
      rw [hentry] at hne
      rw [hentry, hentry] at heq
      split at hne
      · exact absurd rfl hne
      · rename_i hji
        rw [if_neg hji] at heq
        split at heq
        · exact absurd heq hne
        · exact h.entries.distinct j hj k hk heq hne
    · change ((s.server.expire K i).keepAliveInfo j).flag ≤ _
      rw [hentry]
      split
      · decide
      · rename_i hji
        exact h.young j hj fun he => hji (Option.some.inj (hexpiring.symm.trans he)).symm
    · change (s.server.expire K i).expiring = some j at hj
      rw [hidle] at hj
      cases hj
    · change _ ∧ _ ∧ _ < (s.server.expire K i).accepted
      rw [haccepted]
      exact h.clients fd c (hopen fd c hc).2
    · change _ < (s.server.expire K i).accepted
      rw [haccepted]
      exact h.heard c n hn
    · obtain ⟨hfd, hold'⟩ := hopen c.fd c hc
      change s.silence c = some n ↔ ∃ j < K.maxtableDevices, (s.server.expire K i).keepAliveInfo j = _
      rw [h.tracked c hold']
      refine exists_congr fun j => and_congr_right fun _ => ?_
      rw [hentry]
      split
      · rename_i hji
        subst hji
        refine iff_of_false (fun heq => hfd (by rw [heq])) fun heq => ?_
        have hpos := (h.clients c.fd c hold').2.1
        rw [← (KeepAliveInfo.mk.inj heq).1] at hpos
        exact absurd hpos (by decide)
      · exact Iff.rfl
    · change fd = (s.server.expire K i).gehServerFd ∨ _
      rw [hserver]
      exact h.watched fd (hwatched hfd)
    · change fd ∈ (s.server.expire K i).ready at hfd
      change fd = (s.server.expire K i).gehServerFd ∨ _
      rw [hready] at hfd
      rw [hserver]
      exact h.ready fd hfd
    · change m ∈ (s.server.expire K i).msgQueue at hm
      change _ ∧ ∀ c, _ → _ ∧ _ < (s.server.expire K i).accepted
      rw [hqueue] at hm
      rw [haccepted]
      exact h.queue m hm
  have hfair := hsync.fair (s := s) (a := .releaseToken) fun he => by cases he
  refine ⟨hsync, fun _ c hc hgone => ?_, hfair.expires, hfair.kept⟩
  -- the connection that is closed is that of the entry, whose time is its silence
  have hfd : c.fd = (s.server.keepAliveInfo i).connfd := by
    by_contra hfd
    refine hgone ?_
    change (s.server.expire K i).clientAt c.fd = _
    rw [hclosed, if_neg hfd, hc]
  refine ⟨(s.server.keepAliveInfo i).flag, (h.tracked c hc _).2 ⟨i, hi, ?_⟩, hold c (hfd ▸ hc)⟩
  rw [hfd]

/-! ## The other steps -/

/-- A step that opens no connection and leaves the entries as they are. -/
structure Lessens (s t : Server) : Prop where
  entries : t.keepAliveInfo = s.keepAliveInfo
  expiring : t.expiring = s.expiring
  accepted : t.accepted = s.accepted
  server : t.gehServerFd = s.gehServerFd
  clients : ∀ fd c, t.clientAt fd = some c → s.clientAt fd = some c
  watched : t.readFdsMaster ⊆ s.readFdsMaster
  ready : ∀ fd ∈ t.ready, fd ∈ s.ready ∨ fd ∈ s.readFdsMaster
  queue : ∀ m ∈ t.msgQueue, m ∈ s.msgQueue ∨
    m.connfd ∈ s.ready ∧ m.connfd ≠ s.gehServerFd ∧ m.source = s.clientAt m.connfd

/-- Such a step keeps all true. -/
theorem Synchronous.lessen (h : s.Synchronous K) {server : Server} (hl : Lessens s.server server) :
    (⟨server, s.silence⟩ : Timed).Synchronous K where
  entries := ⟨fun i hi => hl.entries ▸ h.entries.form i hi, fun i hi j hj => hl.entries ▸ h.entries.distinct i hi j hj⟩
  young := fun i hi hne => hl.entries ▸ h.young i hi (hl.expiring ▸ hne)
  old := fun i hi => by
    obtain ⟨hi, hne, hold⟩ := h.old i (hl.expiring ▸ hi)
    change _ ∧ (server.keepAliveInfo i).connfd ≠ -1 ∧ ∀ c, server.clientAt (server.keepAliveInfo i).connfd = some c → _ <
      (server.keepAliveInfo i).flag
    rw [hl.entries]
    exact ⟨hi, hne, fun c hc => hold c (hl.clients _ c hc)⟩
  clients := fun fd c hc => hl.accepted ▸ h.clients fd c (hl.clients fd c hc)
  heard := fun c n hn => hl.accepted ▸ h.heard c n hn
  tracked := fun c hc n => hl.entries ▸ h.tracked c (hl.clients c.fd c hc) n
  watched := fun fd hfd => hl.server ▸ h.watched fd (hl.watched hfd)
  ready := fun fd hfd => by
    change fd = server.gehServerFd ∨ _
    rw [hl.server]
    exact (hl.ready fd hfd).elim (h.ready fd) (h.watched fd)
  queue := fun m hm => by
    change _ ∧ ∀ c, _ → _ ∧ _ < server.accepted
    rw [hl.accepted]
    rcases hl.queue m hm with hold | ⟨hready, hne, hsource⟩
    · exact h.queue m hold
    · refine ⟨(h.ready _ hready).resolve_left hne, fun c hc => ?_⟩
      obtain ⟨hfd, -, hserial⟩ := h.clients m.connfd c (hsource ▸ hc)
      exact ⟨hfd, hserial⟩

theorem lessens_drop (server : Server) (fd : Int) : Lessens server (server.drop fd) :=
  ⟨rfl, rfl, rfl, rfl, fun _ _ hc => Server.clientAt_of_close (s := server) hc, Finset.erase_subset _ _, fun _ hfd => .inl hfd,
    fun _ hm => .inl hm⟩

theorem lessens_disconnect (server : Server) (fd : Int) (i : Nat) (device : DeviceInfo) :
    Lessens server (server.disconnect fd i device) := by
  obtain ⟨hentries, hexpiring, haccepted, hserver, hclients, hwatched, hready, hqueue⟩ := lessens_drop server fd
  unfold Server.disconnect
  split
  · exact ⟨hentries, hexpiring, haccepted, hserver, hclients, hwatched, hready, hqueue⟩
  · exact ⟨hentries, hexpiring, haccepted, hserver, hclients, hwatched, hready, hqueue⟩

/-- A message is delivered. -/
theorem lessens_deliver {server server' : Server} {fd : Int} (hready : fd ∈ server.ready) (hne : fd ≠ server.gehServerFd)
    (h : Lessens server server') (hqueue : server'.msgQueue = server.msgQueue) (hclient : server'.clientAt fd = server.clientAt fd)
    (i : Nat) (device : DeviceInfo) (msg : HomeMessage) : Lessens server (server'.deliver fd i device msg) := by
  have hmem : ∀ m ∈ (server'.deliver fd i device msg).msgQueue,
      m ∈ server'.msgQueue ∨ m = ⟨fd, msg, server'.clientAt fd, i⟩ ∧ passes device msg.type = true :=
    fun _ => Server.mem_deliver
  obtain ⟨msgQueue, heq⟩ := server'.deliver_eq fd i device msg
  rw [heq] at hmem ⊢
  refine ⟨h.entries, h.expiring, h.accepted, h.server, h.clients, h.watched, h.ready, fun m hm => ?_⟩
  rcases hmem m hm with hold | ⟨rfl, -⟩
  · exact .inl (hqueue ▸ hold)
  · exact .inr ⟨hready, hne, hclient⟩

/-- A descriptor is read. -/
theorem lessens_receive {server : Server} {fd : Int} (hready : server.ready.head? = some fd) (hne : fd ≠ server.gehServerFd)
    (input : Option HomeMessage) : Lessens server ({ server with ready := server.ready.tail }.receive K fd input) := by
  have hmem : fd ∈ server.ready := List.mem_of_head? hready
  have htail : Lessens server { server with ready := server.ready.tail } :=
    ⟨rfl, rfl, rfl, rfl, fun _ _ hc => hc, Finset.Subset.refl _, fun _ hfd => .inl (List.mem_of_mem_tail hfd), fun _ hm => .inl hm⟩
  have hthen : ∀ server', Lessens { server with ready := server.ready.tail } server' →
      (∀ m ∈ server'.msgQueue, m ∈ server.msgQueue) → Lessens server server' := by
    intro server' hl hqueue
    refine ⟨hl.entries, hl.expiring, hl.accepted, hl.server, hl.clients, hl.watched, fun fd hfd => ?_, fun m hm => .inl (hqueue m hm)⟩
    exact (hl.ready fd hfd).imp_left List.mem_of_mem_tail
  unfold Server.receive
  split
  · rename_i i device _
    refine hthen _ (lessens_disconnect _ fd i device) fun m hm => ?_
    unfold Server.disconnect at hm
    split at hm
    · exact hm
    · exact hm
  · rename_i i device msg _
    exact lessens_deliver hmem hne htail rfl rfl i device msg
  · exact hthen _ (lessens_drop _ fd) fun _ hm => hm
  · rename_i msg _
    unfold Server.bindByNumber
    split
    · exact hthen _ (lessens_drop _ fd) fun _ hm => hm
    · rename_i i device _
      have hbind : Lessens server (({ server with ready := server.ready.tail } : Server).bind i fd) :=
        ⟨htail.entries, htail.expiring, htail.accepted, htail.server, htail.clients, htail.watched, htail.ready, htail.queue⟩
      exact lessens_deliver hmem hne hbind rfl rfl i device msg

theorem lessens_deleteUnit (server : Server) : Lessens server (server.updateIndexDeviceArrayDeleteFromDb K) := by
  change Lessens server (Server.zeroRows K server (List.range K.maxtableDevices))
  have hz := Server.zeroRows_zeroed (K := K) (s := server) (List.nodup_range (n := K.maxtableDevices))
  obtain ⟨_, _, _, _, _, _, heq⟩ := Server.zeroRows_eq (K := K) server (List.range K.maxtableDevices)
  rw [heq] at hz ⊢
  refine ⟨rfl, rfl, rfl, rfl, fun fd c hc => ?_, fun fd hfd => ((hz.set fd).1 hfd).1, fun _ hfd => .inl hfd, fun _ hm => .inl hm⟩
  have hfile := (Server.clientAt_iff _).1 hc
  rw [hz.files] at hfile
  split at hfile
  · cases hfile
  · exact server.clientAt_iff.2 hfile

/-- **A connection is accepted**: when no entry is left for its descriptor, it has none. -/
theorem Synchronous.accept (h : s.Synchronous K) {fd : Nat} (mac : Option Text)
    (hc : ∀ i < K.maxtableDevices, (s.server.keepAliveInfo i).connfd ≠ fd) :
    (⟨{ s.server with ready := s.server.ready.tail }.acceptConnection K fd mac, s.silence⟩ : Timed).Synchronous K := by
  have hready : ∀ fd ∈ s.server.ready.tail, fd = s.server.gehServerFd ∨ 3 ≤ fd :=
    fun fd hfd => h.ready fd (List.mem_of_mem_tail hfd)
  -- the connection is open, or closed again
  have hrest : ∀ server : Server, server.keepAliveInfo = s.server.keepAliveInfo → server.expiring = s.server.expiring →
      server.accepted = s.server.accepted + 1 → server.gehServerFd = s.server.gehServerFd →
      server.ready = s.server.ready.tail → server.msgQueue = s.server.msgQueue →
      (∀ fd' c, server.clientAt fd' = some c → s.server.clientAt fd' = some c ∨ fd' = fd ∧ c = ⟨fd, s.server.accepted⟩) →
      (∀ fd' ∈ server.readFdsMaster, fd' ∈ s.server.readFdsMaster ∨ 3 ≤ fd') → (⟨server, s.silence⟩ : Timed).Synchronous K := by
    intro server hentries hexpiring haccepted hserver hready' hqueue hclients hwatched
    refine ⟨⟨fun i hi => hentries ▸ h.entries.form i hi, fun i hi j hj => hentries ▸ h.entries.distinct i hi j hj⟩,
      fun i hi hne => hentries ▸ h.young i hi (hexpiring ▸ hne), fun i hi => ?_, fun fd' c hopen => ?_, fun c n hn => ?_,
      fun c hopen n => ?_, fun fd' hfd => ?_, fun fd' hfd => ?_, fun m hm => ?_⟩
    · obtain ⟨hi, hne, hold⟩ := h.old i (hexpiring ▸ hi)
      change _ ∧ (server.keepAliveInfo i).connfd ≠ -1 ∧ ∀ c, server.clientAt (server.keepAliveInfo i).connfd = some c → _ <
        (server.keepAliveInfo i).flag
      rw [hentries]
      refine ⟨hi, hne, fun c hopen => ?_⟩
      rcases hclients _ c hopen with hopen | ⟨hfd, -⟩
      · exact hold c hopen
      · exact absurd hfd (hc i hi)
    · change _ ∧ _ ∧ _ < server.accepted
      rw [haccepted]
      rcases hclients fd' c hopen with hold | ⟨rfl, rfl⟩
      · obtain ⟨hfd, hpos, hserial⟩ := h.clients fd' c hold
        exact ⟨hfd, hpos, Nat.lt_succ_of_lt hserial⟩
      · exact ⟨rfl, Int.natCast_nonneg fd, Nat.lt_succ_self _⟩
    · change _ < server.accepted
      rw [haccepted]
      exact Nat.lt_succ_of_lt (h.heard c n hn)
    · change s.silence c = some n ↔ ∃ i < K.maxtableDevices, server.keepAliveInfo i = _
      rw [hentries]
      rcases hclients c.fd c hopen with hold | ⟨-, rfl⟩
      · exact h.tracked c hold n
      · refine iff_of_false (fun hn => Nat.lt_irrefl _ (h.heard _ n hn)) ?_
        rintro ⟨i, hi, hentry⟩
        exact hc i hi (by rw [hentry])
    · change fd' = server.gehServerFd ∨ _
      rw [hserver]
      exact (hwatched fd' hfd).elim (h.watched fd') .inr
    · change fd' = server.gehServerFd ∨ _
      rw [hserver]
      exact hready fd' (hready' ▸ hfd)
    · change _ ∧ ∀ c, _ → _ ∧ _ < server.accepted
      rw [haccepted]
      obtain ⟨hfd, hsource⟩ := h.queue m (hqueue ▸ hm)
      exact ⟨hfd, fun c hsrc => ⟨(hsource c hsrc).1, Nat.lt_succ_of_lt (hsource c hsrc).2⟩⟩
  have hopened : ∀ fd' c, (s.server.opens fd (.client ⟨fd, s.server.accepted⟩)).clientAt fd' = some c →
      s.server.clientAt fd' = some c ∨ fd' = fd ∧ c = ⟨fd, s.server.accepted⟩ := by
    intro fd' c hopen
    rw [Server.clientAt_opens] at hopen
    split at hopen
    · rename_i hfd
      cases hopen
      exact .inr ⟨hfd, rfl⟩
    · exact .inl hopen
  unfold Server.acceptConnection
  extract_lets server
  split
  · exact hrest _ rfl rfl rfl rfl rfl rfl hopened fun _ hfd => .inl hfd
  · rename_i hhigh
    have hwatch : ∀ fd' ∈ insert (fd : Int) s.server.readFdsMaster, fd' ∈ s.server.readFdsMaster ∨ 3 ≤ fd' := by
      intro fd' hfd
      rcases Finset.mem_insert.1 hfd with rfl | hold
      · exact .inr (by omega)
      · exact .inl hold
    split
    · refine hrest _ rfl rfl rfl rfl rfl rfl (fun fd' c hopen => hopened fd' c ?_) fun _ hfd => .inl hfd
      exact Server.clientAt_of_close hopen
    · split
      · exact hrest _ rfl rfl rfl rfl rfl rfl hopened hwatch
      · exact hrest _ rfl rfl rfl rfl rfl rfl hopened hwatch

/-! ## Keep-alives are handled -/

/-- What `updateKeepAliveStatus` does: the entry of the descriptor, or a free one, begins anew; it does nothing when there is
neither. -/
theorem updateKeepAliveStatus_cases (server : Server) (fd : Int) :
    (∃ i < K.maxtableDevices, ((server.keepAliveInfo i).connfd = fd ∨
        (∀ j < K.maxtableDevices, (server.keepAliveInfo j).connfd ≠ fd) ∧ (server.keepAliveInfo i).connfd = -1) ∧
      server.updateKeepAliveStatus K fd = { server with keepAliveInfo := Function.update server.keepAliveInfo i ⟨fd, 0⟩ }) ∨
    (∀ i < K.maxtableDevices, (server.keepAliveInfo i).connfd ≠ fd ∧ (server.keepAliveInfo i).connfd ≠ -1) ∧
      server.updateKeepAliveStatus K fd = server := by
  unfold Server.updateKeepAliveStatus
  split
  · rename_i i hfind
    have hfound := List.find?_some hfind
    have hfd : (server.keepAliveInfo i).connfd = fd := of_decide_eq_true hfound
    refine .inl ⟨i, List.mem_range.1 (List.mem_of_find?_eq_some hfind), .inl hfd, ?_⟩
    rw [← hfd]
  · rename_i hnone
    have hne : ∀ i < K.maxtableDevices, (server.keepAliveInfo i).connfd ≠ fd :=
      fun i hi => of_decide_eq_false (Bool.eq_false_iff.2 (List.find?_eq_none.1 hnone i (List.mem_range.2 hi)))
    split
    · rename_i i hfind
      have hfound := List.find?_some hfind
      exact .inl ⟨i, List.mem_range.1 (List.mem_of_find?_eq_some hfind), .inr ⟨hne, of_decide_eq_true hfound⟩, rfl⟩
    · rename_i hfull
      refine .inr ⟨fun i hi => ⟨hne i hi, ?_⟩, rfl⟩
      exact of_decide_eq_false (Bool.eq_false_iff.2 (List.find?_eq_none.1 hfull i (List.mem_range.2 hi)))

/-- Only a keep-alive changes the entries. -/
theorem handleMsg_keepAliveInfo (server : Server) {m : CtrlBlock} (h : m.msg.type ≠ .toMfcbKeepAlive) (written : Bool) :
    (server.handleMsg K m written).keepAliveInfo = server.keepAliveInfo := by
  unfold Server.handleMsg
  split
  · obtain ⟨_, _, heq⟩ := server.processIDPToMFCBPair_eq K m
    rw [heq]
  · obtain ⟨_, _, heq⟩ := server.processODPToMFCBPair_eq K m
    rw [heq]
  · obtain ⟨_, heq⟩ := server.processODPToMFCBQueryAccountInfo_eq K m
    rw [heq]
  · obtain ⟨_, _, _, heq⟩ := server.processIDPToMFCBTokenOperation_eq m
    rw [heq]
  · rename_i htype
    exact absurd htype h
  · obtain ⟨_, _, heq⟩ := server.handleIDPToMFCBOpenDoor_eq m
    rw [heq]
  · obtain ⟨_, _, heq⟩ := server.handleMFCBToODPOpenDoorAck_eq K m written
    rw [heq]
  · rfl

theorem lessens_handle {server : Server} {m : CtrlBlock} {msgQueue : List CtrlBlock} (hqueue : server.msgQueue = m :: msgQueue)
    (h : m.msg.type ≠ .toMfcbKeepAlive) (written : Bool) : Lessens server ({ server with msgQueue }.handleMsg K m written) := by
  have hentries := handleMsg_keepAliveInfo (K := K) { server with msgQueue } h written
  obtain ⟨_, _, _, _, _, _, _, _, _, heq⟩ := { server with msgQueue }.handleMsg_eq K m written
  rw [heq] at hentries ⊢
  refine ⟨hentries, rfl, rfl, rfl, fun _ _ hc => hc, Finset.Subset.refl _, fun _ hfd => .inl hfd, fun m' hm' => .inl ?_⟩
  rw [hqueue]
  exact List.mem_cons_of_mem m hm'

/-- **A keep-alive is handled**: when its descriptor is its own connection's and there is an entry for it, its silence ends. -/
theorem Synchronous.keepAlive (h : s.Synchronous K) {m : CtrlBlock} {msgQueue : List CtrlBlock}
    (hqueue : s.server.msgQueue = m :: msgQueue) (hown : s.server.clientAt m.connfd ≠ none → s.server.clientAt m.connfd = m.source)
    (hroom : s.server.clientAt m.connfd ≠ none →
      ∃ i < K.maxtableDevices, (s.server.keepAliveInfo i).connfd = m.connfd ∨ (s.server.keepAliveInfo i).connfd = -1)
    (hstays : s.server.clientAt m.connfd ≠ none → ∀ i ∈ s.server.expiring, (s.server.keepAliveInfo i).connfd ≠ m.connfd)
    {silence : Connection → Option Int}
    (hsilence : ∀ c, silence c = if m.source = some c then some 0 else s.silence c) :
    (⟨{ s.server with msgQueue }.updateKeepAliveStatus K m.connfd, silence⟩ : Timed).Synchronous K := by
  obtain ⟨hhigh, hsource⟩ := h.queue m (hqueue ▸ List.mem_cons_self)
  have hheard : ∀ c n, silence c = some n → c.serial < s.server.accepted := by
    intro c n hn
    rw [hsilence] at hn
    split at hn
    · rename_i hc
      exact (hsource c hc).2
    · exact h.heard c n hn
  have hmem : ∀ m' ∈ msgQueue, m' ∈ s.server.msgQueue := fun m' hm' => hqueue ▸ List.mem_cons_of_mem m hm'
  -- a connection at another descriptor has nothing to do with it
  have hother : ∀ c, c.fd ≠ m.connfd → silence c = s.silence c := by
    intro c hne
    rw [hsilence, if_neg]
    intro hc
    exact hne (hsource c hc).1
  rcases updateKeepAliveStatus_cases (K := K) { s.server with msgQueue } m.connfd with ⟨i, hi, hslot, heq⟩ | ⟨hfull, heq⟩
  · change (s.server.keepAliveInfo i).connfd = m.connfd ∨
      (∀ j < K.maxtableDevices, (s.server.keepAliveInfo j).connfd ≠ m.connfd) ∧ (s.server.keepAliveInfo i).connfd = -1 at hslot
    rw [heq]
    have hunique : ∀ j < K.maxtableDevices, j ≠ i → (s.server.keepAliveInfo j).connfd ≠ m.connfd := by
      intro j hj hji hfd
      rcases hslot with hfound | ⟨hnone, -⟩
      · exact hji (h.entries.distinct j hj i hi (hfd.trans hfound.symm) (by omega))
      · exact hnone j hj hfd
    have hentry : ∀ j, Function.update s.server.keepAliveInfo i ⟨m.connfd, 0⟩ j =
        if j = i then ⟨m.connfd, 0⟩ else s.server.keepAliveInfo j := fun j => Function.update_apply _ _ _ _
    refine ⟨⟨fun j hj => ?_, fun j hj k hk hjk hne => ?_⟩, fun j hj hne => ?_, fun j hj => ?_, h.clients, hheard, fun c hopen n => ?_,
      h.watched, h.ready, fun m' hm' => h.queue m' (hmem m' hm')⟩
    · change Function.update s.server.keepAliveInfo i _ j = _ ∨ 3 ≤ (Function.update s.server.keepAliveInfo i _ j).connfd
      rw [hentry]
      split
      · exact .inr hhigh
      · exact h.entries.form j hj
    · change (Function.update s.server.keepAliveInfo i _ j).connfd = (Function.update s.server.keepAliveInfo i _ k).connfd at hjk
      change (Function.update s.server.keepAliveInfo i _ j).connfd ≠ -1 at hne
      rw [hentry, hentry] at hjk
      rw [hentry] at hne
      split at hjk
      · rename_i hji
        split at hjk
        · rename_i hki
          rw [hji, hki]
        · rename_i hki
          exact absurd hjk.symm (hunique k hk hki)
      · rename_i hji
        rw [if_neg hji] at hne
        split at hjk
        · exact absurd hjk (hunique j hj hji)
        · exact h.entries.distinct j hj k hk hjk hne
    · change (Function.update s.server.keepAliveInfo i _ j).flag ≤ _
      rw [hentry]
      split
      · exact (by decide : (0 : Int) ≤ keepAliveCheckingTime)
      · exact h.young j hj hne
    · obtain ⟨hj', hne, hold⟩ := h.old j hj
      change _ ∧ (Function.update s.server.keepAliveInfo i _ j).connfd ≠ -1 ∧ ∀ c,
        s.server.clientAt (Function.update s.server.keepAliveInfo i _ j).connfd = some c → _ <
          (Function.update s.server.keepAliveInfo i _ j).flag
      rw [hentry]
      split
      · -- the timer is about to close the entry, so no connection is open at its descriptor
        rename_i hji
        refine ⟨hj', by change m.connfd ≠ -1; omega, fun c hopen => ?_⟩
        rcases hslot with hfound | ⟨-, hfree⟩
        · exact absurd hfound (hstays (by rw [show s.server.clientAt m.connfd = some c from hopen]; exact Option.some_ne_none c) i
            (hji ▸ hj))
        · exact absurd hfree (hji ▸ hne)
      · exact ⟨hj', hne, hold⟩
    · change silence c = some n ↔ ∃ j < K.maxtableDevices, Function.update s.server.keepAliveInfo i _ j = _
      simp only [hentry]
      have hopen : s.server.clientAt c.fd = some c := hopen
      by_cases hfd : c.fd = m.connfd
      · rw [hfd] at hopen
        have hc : m.source = some c := (hown (by rw [hopen]; exact Option.some_ne_none c)).symm.trans hopen
        rw [hsilence, if_pos hc]
        constructor
        · rintro hn
          obtain rfl := Option.some.inj hn
          exact ⟨i, hi, by rw [if_pos rfl, hfd]⟩
        · rintro ⟨j, hj, hentry'⟩
          split at hentry'
          · rw [(KeepAliveInfo.mk.inj hentry').2]
          · rename_i hji
            exact absurd (by rw [hentry']; exact hfd) (hunique j hj hji)
      · rw [hother c hfd, h.tracked c hopen]
        have hpos := (h.clients c.fd c hopen).2.1
        refine exists_congr fun j => and_congr_right fun hj => ?_
        split
        · rename_i hji
          refine iff_of_false (fun hentry' => ?_) fun hentry' => ?_
          · rw [hji] at hentry'
            rcases hslot with hfound | ⟨-, hfree⟩
            · rw [hentry'] at hfound
              exact hfd hfound
            · rw [hentry'] at hfree
              change c.fd = -1 at hfree
              omega
          · exact hfd (KeepAliveInfo.mk.inj hentry').1.symm
        · exact Iff.rfl
  · rw [heq]
    have hclosed : s.server.clientAt m.connfd = none := by
      by_contra hopen
      obtain ⟨i, hi, hfd⟩ := hroom hopen
      rcases hfd with hfd | hfd
      · exact (hfull i hi).1 hfd
      · exact (hfull i hi).2 hfd
    refine ⟨⟨h.entries.form, h.entries.distinct⟩, h.young, h.old, h.clients, hheard, fun c hopen n => ?_, h.watched, h.ready,
      fun m' hm' => h.queue m' (hmem m' hm')⟩
    have hopen : s.server.clientAt c.fd = some c := hopen
    have hne : c.fd ≠ m.connfd := by
      intro hfd
      rw [hfd, hclosed] at hopen
      cases hopen
    change silence c = some n ↔ _
    rw [hother c hne]
    exact h.tracked c hopen n

/-! ## Every step, and every run -/

/-- **A message is handled.** -/
theorem Synchronous.handle (h : s.Synchronous K) {written : Bool} (hc : s.Timely K (.handle written)) {m : CtrlBlock}
    {msgQueue : List CtrlBlock} (hqueue : s.server.msgQueue = m :: msgQueue) :
    (⟨{ s.server with msgQueue }.handleMsg K m written, s.heard (.handle written)⟩ : Timed).Synchronous K := by
  have hhead : s.server.msgQueue.head? = some m := by
    rw [hqueue]
    rfl
  by_cases htype : m.msg.type = .toMfcbKeepAlive
  · have hm := hc m hhead htype
    have hsilence : ∀ c, s.heard (.handle written) c = if m.source = some c then some 0 else s.silence c := by
      intro c
      simp only [Timed.heard]
      rw [hhead, Option.bind_some, if_pos htype]
      cases hsource : m.source with
      | none => rfl
      | some c' =>
        simp only [Option.some.injEq]
        by_cases hcc : c' = c
        · rw [hcc, Function.update_self, if_pos rfl]
        · rw [Function.update_of_ne (Ne.symm hcc), if_neg hcc]
    have heq : { s.server with msgQueue }.handleMsg K m written = { s.server with msgQueue }.updateKeepAliveStatus K m.connfd := by
      unfold Server.handleMsg
      rw [htype]
    rw [heq]
    exact h.keepAlive hqueue (fun hopen => (hm hopen).1) (fun hopen => (hm hopen).2.1) (fun hopen => (hm hopen).2.2) hsilence
  · have hsilence : s.heard (.handle written) = s.silence := by
      simp only [Timed.heard]
      rw [hhead, Option.bind_some, if_neg htype]
    rw [hsilence]
    exact h.lessen (lessens_handle hqueue htype written)

/-- **Every step** that meets its condition is fair and keeps all true. -/
theorem step_fair (h : s.Synchronous K) {a : Action} (hc : s.Timely K a) (hstep : s.step K a = some t) :
    t.Synchronous K ∧ Fair K s a t := by
  obtain ⟨server, hserver, rfl⟩ := Option.map_eq_some_iff.1 hstep
  have hleads := Server.leads_of_step hserver
  have hfair : ∀ {t : Timed}, a ≠ .expire → t.Synchronous K → t.Synchronous K ∧ Fair K s a t := fun ha ht => ⟨ht, ht.fair ha⟩
  cases a with
  | expire =>
    obtain ⟨i, hexpiring, rfl⟩ := hleads
    exact h.expire hexpiring (hc i hexpiring)
  | keepAliveSync i =>
    obtain ⟨hidle, rfl⟩ := hleads
    simp only [Server.step] at hserver
    split at hserver
    · rename_i hi
      exact hfair (by intro he; cases he) (h.sync hi.2 hidle)
    · cases hserver
  | select fds =>
    obtain ⟨-, -, rfl⟩ := hleads
    simp only [Server.step] at hserver
    split at hserver
    · rename_i hready
      refine hfair (by intro he; cases he) (h.lessen ⟨rfl, rfl, rfl, rfl, fun _ _ hopen => hopen, Finset.Subset.refl _,
        fun fd hfd => ?_, fun _ hm => .inl hm⟩)
      exact .inr (hready.2.2.2.1 fd hfd).1
    · cases hserver
  | accept fd mac =>
    obtain ⟨-, -, -, rfl⟩ := hleads
    exact hfair (by intro he; cases he) (h.accept mac hc)
  | acceptFails =>
    obtain rfl := hleads
    exact hfair (by intro he; cases he) (h.lessen ⟨rfl, rfl, rfl, rfl, fun _ _ hopen => hopen, Finset.Subset.refl _,
      fun _ hfd => .inl (List.mem_of_mem_tail hfd), fun _ hm => .inl hm⟩)
  | receive input =>
    obtain ⟨fd, hready, -, hne, -, rfl⟩ := hleads
    exact hfair (by intro he; cases he) (h.lessen (lessens_receive hready hne input))
  | releaseToken =>
    obtain ⟨fd, -, rfl⟩ := hleads
    obtain ⟨_, _, heq⟩ := s.server.releaseTokenByFD_eq fd
    rw [heq]
    exact hfair (by intro he; cases he) (h.lessen ⟨rfl, rfl, rfl, rfl, fun _ _ hopen => hopen, Finset.Subset.refl _,
      fun _ hfd => .inl hfd, fun _ hm => .inl hm⟩)
  | handle written =>
    obtain ⟨m, msgQueue, hqueue, rfl⟩ := hleads
    exact hfair (by intro he; cases he) (h.handle hc hqueue)
  | deleteUnit =>
    obtain rfl := hleads
    exact hfair (by intro he; cases he) (h.lessen (lessens_deleteUnit s.server))
  | writeUnit i device =>
    obtain rfl := hleads
    exact hfair (by intro he; cases he) (h.lessen ⟨rfl, rfl, rfl, rfl, fun _ _ hopen => hopen, Finset.Subset.refl _,
      fun _ hfd => .inl hfd, fun _ hm => .inl hm⟩)
  | openFile fd =>
    obtain ⟨-, rfl⟩ := hleads
    refine hfair (by intro he; cases he) (h.lessen ⟨rfl, rfl, rfl, rfl, fun fd' c hopen => ?_, Finset.Subset.refl _,
      fun _ hfd => .inl hfd, fun _ hm => .inl hm⟩)
    rw [Server.clientAt_opens] at hopen
    split at hopen
    · cases hopen
    · exact hopen
  | closeFile fd =>
    obtain ⟨-, rfl⟩ := hleads
    exact hfair (by intro he; cases he) (h.lessen ⟨rfl, rfl, rfl, rfl,
      fun _ _ hopen => Server.clientAt_of_close (s := s.server) hopen, Finset.Subset.refl _, fun _ hfd => .inl hfd,
      fun _ hm => .inl hm⟩)

/-- The server at its start, and no connection yet. -/
def start (opened : Finset Int) (gehServerFd : Nat) (units : Nat → Option DeviceInfo) : Timed :=
  ⟨Server.start opened gehServerFd units, fun _ => none⟩

/-- The steps of the server and its clock. -/
abbrev steps (K : Constants) : Step Timed Action := Step.ofOption fun s a => s.step K a

theorem start_synchronous (opened : Finset Int) (gehServerFd : Nat) (units : Nat → Option DeviceInfo) :
    (start opened gehServerFd units).Synchronous K := by
  have hnone : ∀ fd c, (start opened gehServerFd units).server.clientAt fd ≠ some c := by
    intro fd c hc
    rw [Server.clientAt_iff] at hc
    change (if fd = gehServerFd then _ else if fd ∈ opened then _ else _) = _ at hc
    split_ifs at hc <;> cases hc
  refine ⟨⟨fun _ _ => .inl rfl, fun _ _ _ _ _ hne => absurd rfl hne⟩, fun _ _ _ => (by decide : (-1 : Int) ≤ 10), fun i hi => ?_,
    fun fd c hc => absurd hc (hnone fd c), fun c n hn => ?_, fun c hc => absurd hc (hnone c.fd c), fun fd hfd => .inl ?_,
    fun _ hfd => absurd hfd List.not_mem_nil, fun _ hm => absurd hm List.not_mem_nil⟩
  · cases hi
  · cases hn
  · exact Finset.mem_singleton.1 hfd

/-- What is played from the start of a server with these rows in its unit table. -/
def played (maxtableDevices : Nat) (devices : List DeviceInfo) (actions : List Action) : List (Transition Timed Action) :=
  (play (fun s a => s.step (smallTables maxtableDevices) a) ⟨.startWith devices, fun _ => none⟩ actions).1

theorem run_played (maxtableDevices : Nat) (devices : List DeviceInfo) (actions : List Action) :
    ∃ s, Run (steps (smallTables maxtableDevices)) ⟨.startWith devices, fun _ => none⟩ (played maxtableDevices devices actions) s :=
  ⟨_, Run.ofPlay _ _ _⟩

/-- A device connects and registers, and sends one keep-alive. -/
def oneKeepAlive : List Action :=
  [.select [3], .accept 4 (some ['m']), .select [4], .receive (some (idpRegistration 5 53)), .handle true, .select [4],
    .receive (some (messageOf 5 0x100F [])), .handle true]

/-- The timer goes over the two entries five times, and finds the first one too old the sixth time. -/
def sixTicks : List Action := (List.replicate 5 [.keepAliveSync 0, .keepAliveSync 1]).flatten ++ [.keepAliveSync 0]

/-- The device disconnects instead, and its next connection gets the same descriptor. -/
def reconnected : List Action :=
  oneKeepAlive ++ [.select [4], .receive none, .releaseToken, .select [3], .accept 4 (some ['m'])] ++ sixTicks ++ [.expire]

end Timed

end CodeFactory.Ehcc
