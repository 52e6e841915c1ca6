import CodeFactory.Ehcc.Descriptors

/-!
# The token of the home server

One connection at a time may hold the token, and the server remembers its descriptor. The select loop releases the token of a device's
connection right after closing it, and `keepAliveSync` right before. The other paths that close a descriptor do not release it: an
unbound connection that ends or names no device, and the deletion of devices; and a request that was queued is granted although its
connection may be gone. What each step has to meet is said here, and that a run is right exactly when its steps meet it.
-/

namespace CodeFactory.Ehcc

namespace Server

variable {K : Constants} {s t : Server}

/-- At most one connection holds the token. While the token is taken, its owner's descriptor is the open connection that holds it, or
the select loop has just closed it and is about to release the token. -/
structure Exclusive (s : Server) : Prop where
  one : ∀ c ∈ s.holders, ∀ c' ∈ s.holders, c = c'
  held : s.gTokenStatus = .busy → (∃ c ∈ s.holders, s.clientAt s.gTokenOwern = some c) ∨ s.releasing = some s.gTokenOwern

/-- Each connection is at the descriptor that it was accepted at, and the messages in the queue carry it. -/
structure Located (s : Server) : Prop where
  clients : ∀ fd c, s.clientAt fd = some c → c.fd = fd
  messages : ∀ m ∈ s.msgQueue, ∀ c, m.source = some c → c.fd = m.connfd

theorem Exclusive.of_eq (h : s.Exclusive) (hfiles : t.files = s.files) (hstatus : t.gTokenStatus = s.gTokenStatus)
    (howner : t.gTokenOwern = s.gTokenOwern) (hholders : t.holders = s.holders) (hreleasing : t.releasing = s.releasing) :
    t.Exclusive := by
  refine ⟨fun c hc c' hc' => h.one c (hholders ▸ hc) c' (hholders ▸ hc'), fun hbusy => ?_⟩
  rw [hholders, howner, clientAt_congr hfiles, hreleasing]
  exact h.held (hstatus ▸ hbusy)

/-- A step that leaves these five parts leaves the token as it was. -/
theorem exclusive_congr (hfiles : t.files = s.files) (hstatus : t.gTokenStatus = s.gTokenStatus)
    (howner : t.gTokenOwern = s.gTokenOwern) (hholders : t.holders = s.holders) (hreleasing : t.releasing = s.releasing) :
    t.Exclusive ↔ s.Exclusive :=
  ⟨fun h => h.of_eq hfiles.symm hstatus.symm howner.symm hholders.symm hreleasing.symm,
    fun h => h.of_eq hfiles hstatus howner hholders hreleasing⟩

theorem Located.of_eq (h : s.Located) (hfiles : t.files = s.files) (hqueue : t.msgQueue = s.msgQueue) : t.Located :=
  ⟨fun fd c hc => h.clients fd c (clientAt_congr hfiles fd ▸ hc), fun m hm => h.messages m (hqueue ▸ hm)⟩

/-! ## Descriptors are opened and closed -/

/-- A descriptor that was not open is opened. -/
theorem Located.opens (h : s.Located) {fd : Int} {file : File} (hfile : ∀ c, file = .client c → c.fd = fd) :
    (s.opens fd file).Located := by
  refine ⟨fun fd' c hc => ?_, h.messages⟩
  rw [clientAt_opens] at hc
  split at hc
  · rename_i heq
    split at hc
    · cases hc
      exact (hfile c rfl).trans heq.symm
    · cases hc
  · exact h.clients fd' c hc

theorem Located.close (h : s.Located) (fd : Int) : (s.close fd).Located := by
  refine ⟨fun fd' c hc => ?_, h.messages⟩
  rw [clientAt_close] at hc
  split at hc
  · cases hc
  · exact h.clients fd' c hc

/-- Opening a descriptor that was not open has nothing to do with the token. -/
theorem Exclusive.opens (h : s.Exclusive) {fd : Int} (hfd : s.files fd = none) (file : File) : (s.opens fd file).Exclusive := by
  refine ⟨h.one, fun hbusy => ?_⟩
  rcases h.held hbusy with ⟨c, hc, hopen⟩ | hreleasing
  · refine .inl ⟨c, hc, ?_⟩
    change (s.opens fd file).clientAt s.gTokenOwern = _
    rw [clientAt_opens, if_neg]
    · exact hopen
    · rintro heq
      rw [clientAt_iff, heq, hfd] at hopen
      cases hopen
  · exact .inr hreleasing

/-- Other parts of the program close descriptors of their own. -/
theorem Exclusive.closeFile (h : s.Exclusive) {fd : Int} (hfd : s.files fd = some .other) :
    { s with files := Function.update s.files fd none }.Exclusive := by
  refine ⟨h.one, fun hbusy => ?_⟩
  rcases h.held hbusy with ⟨c, hc, hopen⟩ | hreleasing
  · refine .inl ⟨c, hc, ?_⟩
    change (s.close fd).clientAt s.gTokenOwern = _
    rw [clientAt_close, if_neg]
    · exact hopen
    · rintro heq
      rw [clientAt_iff, heq, hfd] at hopen
      cases hopen
  · exact .inr hreleasing

/-- **Closing a descriptor** is right exactly when it is not the owner's, or its token is about to be released. -/
theorem close_exclusive_iff (hl : s.Located) (h : s.Exclusive) (fd : Int) :
    (s.close fd).Exclusive ↔ (s.gTokenStatus = .busy → s.gTokenOwern = fd → s.releasing = some fd) := by
  constructor
  · intro ht hbusy howner
    rcases ht.held hbusy with ⟨c, -, hopen⟩ | hreleasing
    · change (s.close fd).clientAt s.gTokenOwern = _ at hopen
      rw [clientAt_close, if_pos howner] at hopen
      cases hopen
    · exact howner ▸ hreleasing
  · intro hclose
    refine ⟨fun c hc c' hc' => h.one c (List.mem_of_mem_filter hc) c' (List.mem_of_mem_filter hc'), fun hbusy => ?_⟩
    change (∃ c ∈ (s.close fd).holders, (s.close fd).clientAt s.gTokenOwern = some c) ∨ s.releasing = some s.gTokenOwern
    by_cases howner : s.gTokenOwern = fd
    · exact .inr (howner ▸ hclose hbusy howner)
    · rcases h.held hbusy with ⟨c, hc, hopen⟩ | hreleasing
      · refine .inl ⟨c, List.mem_filter.2 ⟨hc, decide_eq_true fun hfile => howner ?_⟩, ?_⟩
        · -- the connection that is closed is another, since it is at another descriptor
          rw [← hl.clients _ _ hopen, hl.clients _ _ (s.clientAt_iff.2 hfile)]
        · rw [clientAt_close, if_neg howner]
          exact hopen
      · exact .inr hreleasing

theorem drop_exclusive_iff (hl : s.Located) (h : s.Exclusive) (fd : Int) :
    (s.drop fd).Exclusive ↔ (s.gTokenStatus = .busy → s.gTokenOwern = fd → s.releasing = some fd) :=
  Iff.trans (b := (s.close fd).Exclusive) (exclusive_congr rfl rfl rfl rfl rfl) (close_exclusive_iff hl h fd)

theorem Located.drop (h : s.Located) (fd : Int) : (s.drop fd).Located := (h.close fd).of_eq rfl rfl

/-! ## Accepting and reading -/

/-- Accepting a connection has nothing to do with the token, whatever becomes of the connection. -/
theorem Exclusive.acceptConnection (hl : s.Located) (h : s.Exclusive) {fd : Nat} (hfd : s.files fd = none) (mac : Option Text) :
    (s.acceptConnection K fd mac).Exclusive := by
  have hl' : (s.opens fd (.client ⟨fd, s.accepted⟩)).Located := hl.opens fun c hc => by cases hc; rfl
  have h' := h.opens hfd (.client ⟨fd, s.accepted⟩)
  unfold Server.acceptConnection
  extract_lets s'
  split
  · exact h'.of_eq rfl rfl rfl rfl rfl
  · split
    · refine Exclusive.of_eq (s := (s.opens fd (.client ⟨fd, s.accepted⟩)).close fd) ?_ rfl rfl rfl rfl rfl
      refine (close_exclusive_iff hl' h' fd).2 fun hbusy howner => ?_
      rcases h.held hbusy with ⟨c, -, hopen⟩ | hreleasing
      · -- the owner's descriptor was open, this one was not
        change s.gTokenOwern = (fd : Int) at howner
        rw [howner, clientAt_iff, hfd] at hopen
        cases hopen
      · exact howner ▸ hreleasing
    · split
      · exact h'.of_eq rfl rfl rfl rfl rfl
      · exact h'.of_eq rfl rfl rfl rfl rfl

theorem Located.acceptConnection (h : s.Located) (fd : Nat) (mac : Option Text) : (s.acceptConnection K fd mac).Located := by
  have h' : (s.opens fd (.client ⟨fd, s.accepted⟩)).Located := h.opens fun c hc => by cases hc; rfl
  unfold Server.acceptConnection
  extract_lets s'
  split
  · exact h'.of_eq rfl rfl
  · split
    · exact (h'.close fd).of_eq rfl rfl
    · split
      · exact h'.of_eq rfl rfl
      · exact h'.of_eq rfl rfl

/-- A message in the queue is from the connection that is at the descriptor. -/
theorem Located.deliver (h : s.Located) (fd : Int) (i : Nat) (device : DeviceInfo) (msg : HomeMessage) :
    (s.deliver fd i device msg).Located := by
  unfold Server.deliver
  split
  · refine ⟨h.clients, fun m hm c hc => ?_⟩
    rcases List.mem_append.1 hm with hold | hnew
    · exact h.messages m hold c hc
    · obtain rfl := List.mem_singleton.1 hnew
      exact h.clients fd c hc
  · exact h

theorem deliver_exclusive_iff (fd : Int) (i : Nat) (device : DeviceInfo) (msg : HomeMessage) :
    (s.deliver fd i device msg).Exclusive ↔ s.Exclusive := by
  unfold deliver
  split
  · exact exclusive_congr rfl rfl rfl rfl rfl
  · exact Iff.rfl

/-- The end of a device's connection: its token is released next. -/
theorem Exclusive.disconnect (hl : s.Located) (h : s.Exclusive) (hreleasing : s.releasing = none) (fd : Int) (i : Nat)
    (device : DeviceInfo) : (s.disconnect fd i device).Exclusive := by
  have hr : { s with releasing := some fd }.Exclusive := by
    refine ⟨h.one, fun hbusy => ?_⟩
    rcases h.held hbusy with hopen | howner
    · exact .inl hopen
    · rw [hreleasing] at howner
      cases howner
  have hd : ({ s with releasing := some fd }.close fd).Exclusive :=
    (close_exclusive_iff (s := { s with releasing := some fd }) (hl.of_eq rfl rfl) hr fd).2 fun _ _ => rfl
  unfold Server.disconnect
  extract_lets s₁ s₂
  by_cases hstatus : device.status = .connected
  · rw [show s₂ = s₁.updateStatusByDeviceIndex .disconnected i from if_pos hstatus]
    exact hd.of_eq rfl rfl rfl rfl rfl
  · rw [show s₂ = s₁ from if_neg hstatus]
    exact hd.of_eq rfl rfl rfl rfl rfl

theorem Located.disconnect (h : s.Located) (fd : Int) (i : Nat) (device : DeviceInfo) : (s.disconnect fd i device).Located := by
  unfold Server.disconnect
  extract_lets s₁ s₂
  by_cases hstatus : device.status = .connected
  · rw [show s₂ = s₁.updateStatusByDeviceIndex .disconnected i from if_pos hstatus]
    exact (h.close fd).of_eq rfl rfl
  · rw [show s₂ = s₁ from if_neg hstatus]
    exact (h.close fd).of_eq rfl rfl

theorem Located.receive (h : s.Located) (fd : Int) (input : Option HomeMessage) : (s.receive K fd input).Located := by
  unfold Server.receive
  split
  · exact h.disconnect fd _ _
  · exact h.deliver fd _ _ _
  · exact h.drop fd
  · unfold bindByNumber
    split
    · exact h.drop fd
    · rename_i i device _
      have h' : (s.bind i fd).Located := h.of_eq rfl rfl
      exact h'.deliver fd i device _

/-- A descriptor is closed without its token being released: it is bound to no device, and it has ended or names no device. -/
def EndsUnbound (K : Constants) (s : Server) (fd : Int) (input : Option HomeMessage) : Prop :=
  s.getDeviceByFd K fd = none ∧ Ends K s fd input

/-- Reading a descriptor is right exactly when it does not close the owner's descriptor without a device. -/
theorem receive_exclusive_iff (hl : s.Located) (h : s.Exclusive) (hreleasing : s.releasing = none) (fd : Int)
    (input : Option HomeMessage) :
    (s.receive K fd input).Exclusive ↔ (EndsUnbound K s fd input → s.gTokenStatus = .busy → s.gTokenOwern ≠ fd) := by
  have hdrop : (s.drop fd).Exclusive ↔ (s.gTokenStatus = .busy → s.gTokenOwern ≠ fd) := by
    rw [drop_exclusive_iff hl h, hreleasing]
    exact forall_congr' fun _ => ⟨fun hc howner => (nomatch hc howner), fun hc howner => absurd howner hc⟩
  unfold receive
  split
  · rename_i hdevice
    refine iff_of_true (h.disconnect hl hreleasing fd _ _) fun hends => ?_
    rw [EndsUnbound, hdevice] at hends
    cases hends.1
  · rename_i hdevice
    refine iff_of_true ((deliver_exclusive_iff fd _ _ _).2 h) fun hends => ?_
    rw [EndsUnbound, hdevice] at hends
    cases hends.1
  · rename_i hdevice
    rw [hdrop]
    exact ⟨fun hc _ => hc, fun hc => hc ⟨hdevice, trivial⟩⟩
  · rename_i msg hdevice
    unfold bindByNumber
    split
    · rename_i hnumber
      rw [hdrop]
      exact ⟨fun hc _ => hc, fun hc => hc ⟨hdevice, hdevice, hnumber⟩⟩
    · rename_i hnumber
      refine iff_of_true ((deliver_exclusive_iff fd _ _ _).2 (h.of_eq rfl rfl rfl rfl rfl)) fun hends => ?_
      have hno := hends.2.2
      rw [hnumber] at hno
      cases hno

/-! ## Granting and releasing -/

/-- The connection that a message came from is still the one at its descriptor. -/
def StillOpen (s : Server) (m : CtrlBlock) : Prop := ∃ c, m.source = some c ∧ s.clientAt m.connfd = some c

/-- A message asks for the token. -/
def AsksToken (m : CtrlBlock) : Prop := m.msg.type = .idpToMfcbTokenOperation ∧ m.msg.octets 0 = 1

/-- The token may be granted to a message: nobody else holds it, and the connection that asks is still open. When it is gone, its
descriptor is that of the holder, or its token is about to be released. -/
def Grantable (s : Server) (m : CtrlBlock) : Prop :=
  (∀ c, m.source = some c → s.clientAt m.connfd = some c → ∀ c' ∈ s.holders, c' = c) ∧
    (s.StillOpen m ∨ (∃ c ∈ s.holders, s.clientAt m.connfd = some c) ∨ s.releasing = some m.connfd)

/-- The holders after a grant. -/
theorem mem_grant_holders (m : CtrlBlock) (c : Connection) :
    c ∈ (s.grant m).holders ↔ c ∈ s.holders ∨ m.source = some c ∧ s.clientAt c.fd = some c := by
  unfold grant
  cases m.source with
  | none => simp
  | some c' =>
    dsimp only
    split
    · rename_i hnew
      rw [List.mem_append, List.mem_singleton, Option.some.injEq]
      exact or_congr_right ⟨fun heq => ⟨heq.symm, heq ▸ hnew.1⟩, fun hc => hc.1.symm⟩
    · rename_i hold
      refine ⟨.inl, fun hc => hc.elim id fun ⟨heq, hopen⟩ => ?_⟩
      obtain rfl := Option.some.inj heq
      by_contra hnot
      exact hold ⟨hopen, hnot⟩

/-- Granting the token is right exactly when it may be granted. -/
theorem grant_exclusive_iff (h : s.Exclusive) {m : CtrlBlock} (hm : ∀ c, m.source = some c → c.fd = m.connfd) :
    (s.grant m).Exclusive ↔ s.Grantable m := by
  constructor
  · intro ht
    refine ⟨fun c hsource hopen c' hc' => ?_, ?_⟩
    · refine ht.one c' ((mem_grant_holders m c').2 (.inl hc')) c ((mem_grant_holders m c).2 (.inr ⟨hsource, ?_⟩))
      rw [hm c hsource]
      exact hopen
    · rcases ht.held rfl with ⟨c, hc, hopen⟩ | hreleasing
      · rcases (mem_grant_holders m c).1 hc with hold | ⟨hsource, -⟩
        · exact .inr (.inl ⟨c, hold, hopen⟩)
        · exact .inl ⟨c, hsource, hopen⟩
      · exact .inr (.inr hreleasing)
  · rintro ⟨halone, howner⟩
    -- whoever is a holder now and was none before is the connection that asked
    have hnew : ∀ c, m.source = some c ∧ s.clientAt c.fd = some c → ∀ c' ∈ s.holders, c' = c := by
      rintro c ⟨hsource, hopen⟩
      rw [hm c hsource] at hopen
      exact halone c hsource hopen
    refine ⟨fun c hc c' hc' => ?_, fun _ => ?_⟩
    · rcases (mem_grant_holders m c).1 hc with hold | hasked
      · rcases (mem_grant_holders m c').1 hc' with hold' | hasked'
        · exact h.one c hold c' hold'
        · exact hnew c' hasked' c hold
      · rcases (mem_grant_holders m c').1 hc' with hold' | hasked'
        · exact (hnew c hasked c' hold').symm
        · exact Option.some.inj (hasked.1.symm.trans hasked'.1)
    · rcases howner with ⟨c, hsource, hopen⟩ | ⟨c, hc, hopen⟩ | hreleasing
      · refine .inl ⟨c, (mem_grant_holders m c).2 (.inr ⟨hsource, ?_⟩), hopen⟩
        rw [hm c hsource]
        exact hopen
      · exact .inl ⟨c, (mem_grant_holders m c).2 (.inl hc), hopen⟩
      · exact .inr hreleasing

theorem Exclusive.free (hstatus : t.gTokenStatus = .free) (hone : ∀ c ∈ t.holders, ∀ c' ∈ t.holders, c = c') : t.Exclusive :=
  ⟨hone, fun hbusy => by rw [hstatus] at hbusy; cases hbusy⟩

theorem handBack_one (h : s.Exclusive) (m : CtrlBlock) :
    ∀ c ∈ (s.handBack m).holders, ∀ c' ∈ (s.handBack m).holders, c = c' :=
  fun c hc c' hc' => h.one c (List.mem_of_mem_filter hc) c' (List.mem_of_mem_filter hc')

/-- A token operation is right exactly when the token, if it is asked for and free, may be granted. -/
theorem tokenOperation_exclusive_iff (hl : s.Located) (h : s.Exclusive) {m : CtrlBlock}
    (hm : ∀ c, m.source = some c → c.fd = m.connfd) :
    (s.processIDPToMFCBTokenOperation m).Exclusive ↔ (m.msg.octets 0 = 1 → s.gTokenStatus = .free → s.Grantable m) := by
  unfold processIDPToMFCBTokenOperation
  split
  · rename_i hasks
    split
    · rename_i hfree
      rw [grant_exclusive_iff h hm]
      exact ⟨fun hc _ _ => hc, fun hc => hc hasks hfree⟩
    · rename_i hbusy
      exact iff_of_true h fun _ hfree => (by rw [hbusy] at hfree; cases hfree)
  · rename_i hasks
    refine iff_of_true ?_ fun hc => absurd hc hasks
    split
    · split
      · rename_i hfree
        exact Exclusive.free hfree (handBack_one h m)
      · split
        · exact Exclusive.free rfl (handBack_one h m)
        · rename_i hother
          refine ⟨handBack_one h m, fun hbusy => ?_⟩
          rcases h.held hbusy with ⟨c, hc, hopen⟩ | hreleasing
          · refine .inl ⟨c, List.mem_filter.2 ⟨hc, decide_eq_true fun hsource => hother ?_⟩, hopen⟩
            -- the connection that releases is at another descriptor than the owner
            rw [← hl.clients _ _ hopen, hm c hsource]
          · exact .inr hreleasing
    · exact h

/-- Handling a message is right exactly when it does not ask for the token, or the token may be granted, or is taken. -/
theorem handleMsg_exclusive_iff (hl : s.Located) (h : s.Exclusive) {m : CtrlBlock}
    (hm : ∀ c, m.source = some c → c.fd = m.connfd) (written : Bool) :
    (s.handleMsg K m written).Exclusive ↔ (AsksToken m → s.gTokenStatus = .free → s.Grantable m) := by
  by_cases htype : m.msg.type = .idpToMfcbTokenOperation
  · rw [show s.handleMsg K m written = s.processIDPToMFCBTokenOperation m by rw [handleMsg, htype],
      tokenOperation_exclusive_iff hl h hm]
    exact ⟨fun hc hasks => hc hasks.2, fun hc hasks => hc ⟨htype, hasks⟩⟩
  · refine iff_of_true ?_ fun hasks => absurd hasks.1 htype
    unfold handleMsg
    split
    · obtain ⟨_, _, heq⟩ := s.processIDPToMFCBPair_eq K m
      exact heq ▸ h.of_eq rfl rfl rfl rfl rfl
    · obtain ⟨_, _, heq⟩ := s.processODPToMFCBPair_eq K m
      exact heq ▸ h.of_eq rfl rfl rfl rfl rfl
    · obtain ⟨_, heq⟩ := s.processODPToMFCBQueryAccountInfo_eq K m
      exact heq ▸ h.of_eq rfl rfl rfl rfl rfl
    · rename_i hother
      exact absurd hother htype
    · obtain ⟨_, heq⟩ := s.updateKeepAliveStatus_eq K m.connfd
      exact heq ▸ h.of_eq rfl rfl rfl rfl rfl
    · obtain ⟨_, _, heq⟩ := s.handleIDPToMFCBOpenDoor_eq m
      exact heq ▸ h.of_eq rfl rfl rfl rfl rfl
    · obtain ⟨_, _, heq⟩ := s.handleMFCBToODPOpenDoorAck_eq K m written
      exact heq ▸ h.of_eq rfl rfl rfl rfl rfl
    · exact h

theorem Exclusive.releaseTokenByFD (h : s.Exclusive) (fd : Int) : (s.releaseTokenByFD fd).Exclusive := by
  unfold Server.releaseTokenByFD
  split
  · exact Exclusive.free rfl h.one
  · exact h

/-- The select loop has released the token, as it was about to. -/
theorem Exclusive.releaseToken (h : s.Exclusive) {fd : Int} (hreleasing : s.releasing = some fd) :
    { s.releaseTokenByFD fd with releasing := none }.Exclusive := by
  unfold Server.releaseTokenByFD
  split
  · exact Exclusive.free rfl h.one
  · rename_i hother
    refine ⟨h.one, fun hbusy => .inl ?_⟩
    rcases h.held hbusy with hopen | howner
    · exact hopen
    · exact absurd (Option.some.inj (howner.symm.trans hreleasing)) hother

/-! ## Keep-alives and deletions -/

theorem Exclusive.keepAliveSync (h : s.Exclusive) (i : Nat) : (s.keepAliveSync i).Exclusive := by
  obtain ⟨keepAliveInfo, hpoll⟩ := s.poll_eq i
  unfold Server.keepAliveSync
  rw [hpoll]
  dsimp only
  have h' : { s with keepAliveInfo }.Exclusive := h.of_eq rfl rfl rfl rfl rfl
  split
  · exact (h'.releaseTokenByFD _).of_eq rfl rfl rfl rfl rfl
  · exact h'

/-- A keep-alive that is over is dealt with rightly exactly when its descriptor, if it is a device's, is not the owner's again. -/
theorem expire_exclusive_iff (hl : s.Located) (h : s.Exclusive) (i : Nat) :
    (s.expire K i).Exclusive ↔ ((s.getDeviceByFd K (s.keepAliveInfo i).connfd).isSome → s.gTokenStatus = .busy →
      s.gTokenOwern = (s.keepAliveInfo i).connfd → s.releasing = some (s.keepAliveInfo i).connfd) := by
  unfold expire
  extract_lets fd s'
  refine Iff.trans (b := s'.Exclusive) (exclusive_congr rfl rfl rfl rfl rfl) ?_
  cases hdevice : s.getDeviceByFd K fd with
  | none =>
    rw [show s' = s by simp only [s', hdevice]]
    exact ⟨fun _ hsome => (nomatch hsome), fun _ => h⟩
  | some d =>
    obtain ⟨j, device⟩ := d
    have hs' : s' = ((s.drop fd).bind j zeroFd).updateStatusByDeviceIndex .disconnected j := by simp only [s', hdevice]
    rw [hs']
    refine Iff.trans (b := (s.drop fd).Exclusive) (exclusive_congr rfl rfl rfl rfl rfl) ?_
    rw [drop_exclusive_iff hl h]
    exact ⟨fun hc _ => hc, fun hc => hc rfl⟩

theorem Located.expire (h : s.Located) (i : Nat) : (s.expire K i).Located := by
  unfold Server.expire
  extract_lets fd s'
  have hs' : s'.Located := by
    cases hdevice : s.getDeviceByFd K fd with
    | none =>
      rw [show s' = s by simp only [s', hdevice]]
      exact h
    | some d =>
      rw [show s' = ((s.drop fd).bind d.1 zeroFd).updateStatusByDeviceIndex .disconnected d.1 by simp only [s', hdevice]]
      exact (h.drop fd).of_eq rfl rfl
  exact hs'.of_eq rfl rfl

theorem Exclusive.zeroIndexDevice (hl : s.Located) (h : s.Exclusive) (i : Nat)
    (hclose : s.devArray i ≠ zeroFd → s.gTokenStatus = .busy → s.gTokenOwern = s.devArray i →
      s.releasing = some (s.devArray i)) : (s.zeroIndexDevice K i).Located ∧ (s.zeroIndexDevice K i).Exclusive := by
  unfold Server.zeroIndexDevice
  by_cases hused : s.devArray i ≠ zeroFd
  · rw [if_pos hused]
    exact ⟨(hl.close _).of_eq rfl rfl, ((close_exclusive_iff hl h _).2 (hclose hused)).of_eq rfl rfl rfl rfl rfl⟩
  · rw [if_neg hused]
    exact ⟨hl.of_eq rfl rfl, h.of_eq rfl rfl rfl rfl rfl⟩

/-- The deletion keeps everything right when it does not close the owner's descriptor. By induction on the rows. -/
theorem Exclusive.zeroRows {rows : List Nat} (hnodup : rows.Nodup) (hl : s.Located) (h : s.Exclusive)
    (hclose : s.gTokenStatus = .busy → s.gTokenOwern ∈ s.gone rows → s.releasing = some s.gTokenOwern) :
    (zeroRows K s rows).Located ∧ (zeroRows K s rows).Exclusive := by
  induction rows generalizing s with
  | nil => exact ⟨hl, h⟩
  | cons i rows ih =>
    obtain ⟨hi, hnodup⟩ := List.nodup_cons.1 hnodup
    rw [gone_cons] at hclose
    rw [Server.zeroRows, List.foldl_cons]
    split
    · rename_i hrow
      have hz := zeroed_missing (K := K) hrow
      obtain ⟨hl', h'⟩ := h.zeroIndexDevice (K := K) hl i fun hused hbusy howner => howner ▸ hclose hbusy
        (List.mem_append_left _ (by rw [gone_single ⟨hrow, hused⟩, howner]; exact List.mem_singleton_self _))
      obtain ⟨_, _, _, _, _, _, heq⟩ := zeroRows_eq (K := K) s [i]
      rw [Server.zeroRows, List.foldl_cons, if_pos hrow, List.foldl_nil] at heq
      refine ih hnodup hl' h' ?_
      rw [gone_congr hz.units fun j hj => by rw [hz.dev, if_neg]; rintro ⟨hc, -⟩; exact hi (List.mem_singleton.1 hc ▸ hj), heq]
      exact fun hbusy hmem => hclose hbusy (List.mem_append_right _ hmem)
    · exact ih hnodup hl h fun hbusy hmem => hclose hbusy (List.mem_append_right _ hmem)

/-- Deleting devices is right exactly when it does not close the owner's descriptor. -/
theorem deleteUnit_exclusive_iff (hl : s.Located) (h : s.Exclusive) :
    (s.updateIndexDeviceArrayDeleteFromDb K).Exclusive ↔ (s.gTokenStatus = .busy →
      s.gTokenOwern ∈ s.gone (List.range K.maxtableDevices) → s.releasing = some s.gTokenOwern) := by
  refine ⟨fun ht hbusy hmem => ?_, fun hclose => (h.zeroRows List.nodup_range hl hclose).2⟩
  have hz := zeroRows_zeroed (K := K) (s := s) (List.nodup_range (n := K.maxtableDevices))
  obtain ⟨_, _, _, _, _, _, heq⟩ := zeroRows_eq (K := K) s (List.range K.maxtableDevices)
  change (Server.zeroRows K s (List.range K.maxtableDevices)).Exclusive at ht
  have hfile := hz.files s.gTokenOwern
  rw [if_pos hmem] at hfile
  rw [heq] at ht hfile
  rcases ht.held hbusy with ⟨c, -, hopen⟩ | hreleasing
  · rw [clientAt_iff] at hopen
    rw [hfile] at hopen
    cases hopen
  · exact hreleasing

/-! ## Every step, and every run -/

/-- What each step has to meet: the token is granted only when it may be, and a descriptor that is closed on a path that does not
release the token afterwards is not the owner's. -/
def Guarded (K : Constants) (s : Server) : Action → Prop
  | .receive input => ∀ fd, s.ready.head? = some fd → EndsUnbound K s fd input → s.gTokenStatus = .busy → s.gTokenOwern ≠ fd
  | .handle _ => ∀ m, s.msgQueue.head? = some m → AsksToken m → s.gTokenStatus = .free → s.Grantable m
  | .expire => ∀ i, s.expiring = some i → (s.getDeviceByFd K (s.keepAliveInfo i).connfd).isSome → s.gTokenStatus = .busy →
      s.gTokenOwern = (s.keepAliveInfo i).connfd → s.releasing = some (s.keepAliveInfo i).connfd
  | .deleteUnit => s.gTokenStatus = .busy → s.gTokenOwern ∈ s.gone (List.range K.maxtableDevices) →
      s.releasing = some s.gTokenOwern
  | _ => True

theorem Located.head (h : s.Located) {m : CtrlBlock} {msgQueue : List CtrlBlock} (hqueue : s.msgQueue = m :: msgQueue) :
    { s with msgQueue }.Located ∧ ∀ c, m.source = some c → c.fd = m.connfd := by
  refine ⟨⟨h.clients, fun m' hm' => h.messages m' ?_⟩, h.messages m ?_⟩
  · rw [hqueue]
    exact List.mem_cons_of_mem m hm'
  · rw [hqueue]
    exact List.mem_cons_self

/-- **One step.** From a state in which all is right a step leads to such a state exactly when it meets its condition. -/
theorem step_exclusive_iff (hl : s.Located) (h : s.Exclusive) {a : Action} (hstep : s.step K a = some t) :
    t.Exclusive ↔ s.Guarded K a := by
  have hleads := leads_of_step hstep
  cases a with
  | select fds =>
    obtain ⟨-, -, rfl⟩ := hleads
    exact iff_of_true (h.of_eq rfl rfl rfl rfl rfl) trivial
  | accept fd mac =>
    obtain ⟨-, -, hlow, rfl⟩ := hleads
    have h' : { s with ready := s.ready.tail }.Exclusive := h.of_eq rfl rfl rfl rfl rfl
    have hl' : { s with ready := s.ready.tail }.Located := hl.of_eq rfl rfl
    exact iff_of_true (h'.acceptConnection hl' hlow.1 mac) trivial
  | acceptFails =>
    obtain rfl := hleads
    exact iff_of_true (h.of_eq rfl rfl rfl rfl rfl) trivial
  | receive input =>
    obtain ⟨fd, hhead, hreleasing, -, -, rfl⟩ := hleads
    have h' : { s with ready := s.ready.tail }.Exclusive := h.of_eq rfl rfl rfl rfl rfl
    have hl' : { s with ready := s.ready.tail }.Located := hl.of_eq rfl rfl
    have hr := receive_exclusive_iff (K := K) hl' h' hreleasing fd input
    constructor
    · intro ht fd' hfd'
      obtain rfl := Option.some.inj (hhead.symm.trans hfd')
      exact hr.1 ht
    · intro hc
      exact hr.2 (hc fd hhead)
  | releaseToken =>
    obtain ⟨fd, hreleasing, rfl⟩ := hleads
    exact iff_of_true (h.releaseToken hreleasing) trivial
  | handle written =>
    obtain ⟨m, msgQueue, hqueue, rfl⟩ := hleads
    obtain ⟨hl', hm⟩ := hl.head hqueue
    have h' : { s with msgQueue }.Exclusive := h.of_eq rfl rfl rfl rfl rfl
    have hh := handleMsg_exclusive_iff (K := K) hl' h' hm written
    constructor
    · intro ht m' hm'
      rw [hqueue] at hm'
      obtain rfl := Option.some.inj hm'
      exact hh.1 ht
    · intro hc
      exact hh.2 (hc m (by rw [hqueue]; rfl))
  | keepAliveSync i =>
    obtain ⟨-, rfl⟩ := hleads
    exact iff_of_true (h.keepAliveSync i) trivial
  | expire =>
    obtain ⟨i, hexpiring, rfl⟩ := hleads
    have he := expire_exclusive_iff (K := K) hl h i
    constructor
    · intro ht j hj
      obtain rfl := Option.some.inj (hexpiring.symm.trans hj)
      exact he.1 ht
    · intro hc
      exact he.2 (hc i hexpiring)
  | deleteUnit =>
    obtain rfl := hleads
    exact deleteUnit_exclusive_iff hl h
  | writeUnit i device =>
    obtain rfl := hleads
    exact iff_of_true (h.of_eq rfl rfl rfl rfl rfl) trivial
  | openFile fd =>
    obtain ⟨hlow, rfl⟩ := hleads
    exact iff_of_true (h.opens hlow.1 .other) trivial
  | closeFile fd =>
    obtain ⟨hother, rfl⟩ := hleads
    exact iff_of_true (h.closeFile hother) trivial

/-- Connections stay where they are, as long as the token is in order. -/
theorem step_located (hl : s.Located) (h : s.Exclusive) {a : Action} (hc : s.Guarded K a) (hstep : s.step K a = some t) :
    t.Located := by
  have hleads := leads_of_step hstep
  cases a with
  | select fds =>
    obtain ⟨-, -, rfl⟩ := hleads
    exact hl.of_eq rfl rfl
  | accept fd mac =>
    obtain ⟨-, -, -, rfl⟩ := hleads
    have hl' : { s with ready := s.ready.tail }.Located := hl.of_eq rfl rfl
    exact hl'.acceptConnection fd mac
  | acceptFails =>
    obtain rfl := hleads
    exact hl.of_eq rfl rfl
  | receive input =>
    obtain ⟨fd, -, -, -, -, rfl⟩ := hleads
    have hl' : { s with ready := s.ready.tail }.Located := hl.of_eq rfl rfl
    exact hl'.receive fd input
  | releaseToken =>
    obtain ⟨fd, -, rfl⟩ := hleads
    obtain ⟨_, _, heq⟩ := s.releaseTokenByFD_eq fd
    exact heq ▸ hl.of_eq rfl rfl
  | handle written =>
    obtain ⟨m, msgQueue, hqueue, rfl⟩ := hleads
    obtain ⟨_, _, _, _, _, _, _, _, _, heq⟩ := { s with msgQueue }.handleMsg_eq K m written
    exact heq ▸ (hl.head hqueue).1.of_eq rfl rfl
  | keepAliveSync i =>
    obtain ⟨-, rfl⟩ := hleads
    obtain ⟨_, _, _, _, heq⟩ := s.keepAliveSync_eq i
    exact heq ▸ hl.of_eq rfl rfl
  | expire =>
    obtain ⟨i, -, rfl⟩ := hleads
    exact hl.expire i
  | deleteUnit =>
    obtain rfl := hleads
    exact (h.zeroRows List.nodup_range hl hc).1
  | writeUnit i device =>
    obtain rfl := hleads
    exact hl.of_eq rfl rfl
  | openFile fd =>
    obtain ⟨-, rfl⟩ := hleads
    exact hl.opens fun c hc => nomatch hc
  | closeFile fd =>
    obtain ⟨-, rfl⟩ := hleads
    exact (hl.close fd).of_eq rfl rfl

theorem start_exclusive (opened : Finset Int) (gehServerFd : Nat) (units : Nat → Option DeviceInfo) :
    (start opened gehServerFd units).Located ∧ (start opened gehServerFd units).Exclusive := by
  refine ⟨⟨fun fd c hc => ?_, fun m hm => absurd hm List.not_mem_nil⟩,
    Exclusive.free rfl fun c hc => absurd hc List.not_mem_nil⟩
  rw [clientAt_iff] at hc
  change (if fd = gehServerFd then _ else if fd ∈ opened then _ else _) = _ at hc
  split_ifs at hc <;> cases hc

/-- **The token of the home server.** From the start, every state of a run has at most one holder, who is the open connection of the
owner's descriptor as long as the token is taken, exactly when each step of the run meets its condition. -/
theorem token_exclusive_iff (opened : Finset Int) (gehServerFd : Nat) (units : Nat → Option DeviceInfo)
    {tr : List (Transition Server Action)} (hrun : Run (steps K) (start opened gehServerFd units) tr s) :
    Always (fun _ _ t => t.Exclusive) tr ↔ Meets (fun s a => s.Guarded K a) tr :=
  Run.all_iff (I := fun s => s.Located ∧ s.Exclusive) (start_exclusive opened gehServerFd units)
    (fun _ _ _ h hc hstep =>
      have ht := (step_exclusive_iff h.1 h.2 hstep).2 hc
      ⟨⟨step_located h.1 h.2 hc hstep, ht⟩, ht⟩)
    (fun _ _ _ h hc hstep ht => hc ((step_exclusive_iff h.1 h.2 hstep).1 ht)) hrun

/-- A device connects, registers, takes the token and gives it back; it takes the token again, and its connection ends. -/
def tokenTaken : List Action :=
  [.select [3], .accept 4 (some ['m']), .select [4], .receive (some (idpRegistration 5 53)), .handle true,
    .select [4], .receive (some (messageOf 5 0x1010 [1])), .handle true, .select [4], .receive (some (messageOf 5 0x1010 [2])),
    .handle true, .select [4], .receive (some (messageOf 5 0x1010 [1])), .handle true, .select [4], .receive none, .releaseToken]

/-- The token is taken when the connection ends, and free when all is done. -/
theorem token_exclusive_iff_example :
    Always (fun _ _ t => t.Exclusive) (played 2 [pairedDevice 'm' '5' .idp 3] tokenTaken) ∧
      (∃ x ∈ played 2 [pairedDevice 'm' '5' .idp 3] tokenTaken, x.2.2.gTokenStatus = .busy ∧ x.2.2.releasing = some 4) ∧
      ∃ x ∈ (played 2 [pairedDevice 'm' '5' .idp 3] tokenTaken).getLast?, x.2.2.gTokenStatus = .free := by
  obtain ⟨s, hrun⟩ := run_played 2 [pairedDevice 'm' '5' .idp 3] tokenTaken
  have hguard : ∀ x ∈ played 2 [pairedDevice 'm' '5' .idp 3] tokenTaken,
      (x.1.gTokenStatus = .busy → ∀ fd ∈ x.1.ready.head?, (x.1.getDeviceByFd (smallTables 2) fd).isSome) ∧
        ∀ m ∈ x.1.msgQueue.head?, x.1.gTokenStatus = .free → x.1.holders = [] ∧ m.source ≠ none ∧ x.1.clientAt m.connfd = m.source := by
    decide +kernel
  have hactions : ∀ a ∈ tokenTaken, a ≠ .expire ∧ a ≠ .deleteUnit := by simp [tokenTaken]
  refine ⟨(token_exclusive_iff {0, 1, 2} 3 _ hrun).2 fun x hx => ?_, by decide +kernel, by decide +kernel⟩
  obtain ⟨hreads, htakes⟩ := hguard x hx
  have hact := hactions _ (mem_of_mem_play hx)
  rcases x with ⟨s, a, t⟩
  cases a with
  | receive input =>
    rintro fd hfd ⟨hnone, -⟩ hbusy
    have hsome := hreads hbusy fd hfd
    rw [hnone] at hsome
    cases hsome
  | handle written =>
    intro m hm _ hfree
    obtain ⟨hholders, hsource, hopen⟩ := htakes m hm hfree
    obtain ⟨c, hc⟩ := Option.ne_none_iff_exists'.1 hsource
    refine ⟨fun _ _ _ c' hc' => absurd (hholders ▸ hc') List.not_mem_nil, .inl ⟨c, hc, hopen.trans hc⟩⟩
  | expire => exact absurd rfl hact.1
  | deleteUnit => exact absurd rfl hact.2
  | _ => trivial

/-- A device connects, registers and takes the token. Then it is deleted. -/
def deletedHolder : List Action :=
  [.select [3], .accept 4 (some ['m']), .select [4], .receive (some (idpRegistration 5 53)), .handle true,
    .select [4], .receive (some (messageOf 5 0x1010 [1])), .handle true, .writeUnit 0 none, .deleteUnit]

/-- Its connection is closed, and the token stays taken. -/
theorem token_not_exclusive :
    ∃ tr s, Run (steps (smallTables 2)) (startWith [pairedDevice 'm' '5' .idp 3]) tr s ∧
      ¬Always (fun _ _ t => t.Exclusive) tr := by
  obtain ⟨s, hrun⟩ := run_played 2 [pairedDevice 'm' '5' .idp 3] deletedHolder
  refine ⟨_, s, hrun, fun h => ?_⟩
  have htaken : ∃ x ∈ played 2 [pairedDevice 'm' '5' .idp 3] deletedHolder,
      x.2.2.gTokenStatus = .busy ∧ x.2.2.holders = [] ∧ x.2.2.releasing = none := by
    decide +kernel
  obtain ⟨x, hx, hbusy, hholders, hreleasing⟩ := htaken
  rcases (h x hx).held hbusy with ⟨c, hc, -⟩ | howner
  · rw [hholders] at hc
    exact List.not_mem_nil hc
  · rw [hreleasing] at howner
    cases howner

end Server

end CodeFactory.Ehcc
