import CodeFactory.Ehcc.Select

/-!
# The descriptors of the home server

When the set of watched descriptors, its maximum and the connections that are open stay in step. Every path that closes a descriptor
or watches a new one has its condition, and a run keeps the three in step exactly when each of its steps meets its condition. The
deletion of devices does not: the entries of `g_devArray` that were never used are still zero, and so the first deletion closes
descriptor zero; and it sets the maximum to what the entries hold, where connections may be watched that are in no entry yet.
-/

namespace CodeFactory.Ehcc

namespace Server

variable {K : Constants} {s t : Server}

/-- A descriptor is open for a client's connection. -/
def IsClient (s : Server) (fd : Int) : Prop := ∃ c, s.files fd = some (.client c)

/-- The books are right: what is watched is the server socket or an open connection and not above the maximum, every open connection
is watched, and only connections that were open have been closed. -/
structure Tracked (s : Server) : Prop where
  watched : ∀ fd ∈ s.readFdsMaster, fd = s.gehServerFd ∧ s.files fd = some .server ∨ s.IsClient fd
  below : ∀ fd ∈ s.readFdsMaster, fd ≤ s.gehMaxFd
  complete : ∀ fd, s.IsClient fd → fd ∈ s.readFdsMaster
  closed : ∀ file ∈ s.closes, ∃ c, file = some (.client c)

/-- The books are these five parts of the state. -/
theorem Tracked.of_eq (h : s.Tracked) (hfiles : t.files = s.files) (hserver : t.gehServerFd = s.gehServerFd)
    (hset : t.readFdsMaster = s.readFdsMaster) (hmax : t.gehMaxFd = s.gehMaxFd) (hcloses : t.closes = s.closes) :
    t.Tracked := by
  have hclient : ∀ fd, t.IsClient fd ↔ s.IsClient fd := fun fd => by rw [IsClient, IsClient, hfiles]
  refine ⟨fun fd hfd => ?_, fun fd hfd => ?_, fun fd hfd => ?_, fun file hfile => h.closed file (hcloses ▸ hfile)⟩
  · rw [hserver, hfiles, hclient]
    exact h.watched fd (hset ▸ hfd)
  · exact hmax ▸ h.below fd (hset ▸ hfd)
  · exact hset ▸ h.complete fd ((hclient fd).1 hfd)

/-- A step that leaves these five parts leaves the books. -/
theorem tracked_congr (hfiles : t.files = s.files) (hserver : t.gehServerFd = s.gehServerFd)
    (hset : t.readFdsMaster = s.readFdsMaster) (hmax : t.gehMaxFd = s.gehMaxFd) (hcloses : t.closes = s.closes) :
    t.Tracked ↔ s.Tracked :=
  ⟨fun h => h.of_eq hfiles.symm hserver.symm hset.symm hmax.symm hcloses.symm,
    fun h => h.of_eq hfiles hserver hset hmax hcloses⟩

/-! ## One descriptor -/

theorem isClient_close (fd fd' : Int) : (s.close fd).IsClient fd' ↔ fd' ≠ fd ∧ s.IsClient fd' := by
  by_cases h : fd' = fd
  · subst h
    simp [IsClient, close]
  · simp [IsClient, close, h]

theorem not_tracked_of_close {fd : Int} (hcloses : s.files fd ∈ t.closes) (hfd : ¬s.IsClient fd) : ¬t.Tracked :=
  fun h => hfd (h.closed _ hcloses)

/-- `FD_CLR` and `close` of an open connection leave what is watched, and what is open, without it. -/
theorem Tracked.clearAndClose (h : s.Tracked) {fd : Int} (hfd : s.IsClient fd) : (s.clearAndClose fd).Tracked := by
  obtain ⟨c, hc⟩ := hfd
  refine ⟨fun fd' hfd' => ?_, fun fd' hfd' => h.below fd' (Finset.mem_of_mem_erase hfd'), fun fd' hfd' => ?_,
    fun file hfile => ?_⟩
  · obtain ⟨hne, hmem⟩ := Finset.mem_erase.1 hfd'
    rcases h.watched fd' hmem with ⟨hserver, hopen⟩ | hclient
    · refine .inl ⟨hserver, ?_⟩
      change Function.update s.files fd none fd' = _
      rw [Function.update_of_ne hne]
      exact hopen
    · exact .inr ((isClient_close fd fd').2 ⟨hne, hclient⟩)
  · obtain ⟨hne, hclient⟩ := (isClient_close fd fd').1 hfd'
    exact Finset.mem_erase.2 ⟨hne, h.complete fd' hclient⟩
  · rcases List.mem_append.1 hfile with hold | hnew
    · exact h.closed file hold
    · exact ⟨c, (List.mem_singleton.1 hnew).trans hc⟩

/-- The same with the maximum one less when the descriptor was the highest. -/
theorem Tracked.drop (h : s.Tracked) {fd : Int} (hfd : s.IsClient fd) : (s.drop fd).Tracked := by
  have h' := h.clearAndClose hfd
  refine ⟨h'.watched, fun fd' hfd' => ?_, h'.complete, h'.closed⟩
  have hbelow := h'.below fd' hfd'
  have hne := Finset.ne_of_mem_erase hfd'
  change fd' ≤ s.gehMaxFd at hbelow
  change fd' ≤ if fd = s.gehMaxFd then s.gehMaxFd - 1 else s.gehMaxFd
  split
  · omega
  · exact hbelow

theorem drop_tracked_iff (h : s.Tracked) (fd : Int) : (s.drop fd).Tracked ↔ s.IsClient fd := by
  refine ⟨fun ht => ?_, h.drop⟩
  by_contra hfd
  exact not_tracked_of_close (List.mem_append_right _ (List.mem_singleton_self _)) hfd ht

theorem isClient_opens {fd : Int} (file : File) (fd' : Int) :
    (s.opens fd file).IsClient fd' ↔ (fd' = fd ∧ ∃ c, file = .client c) ∨ (fd' ≠ fd ∧ s.IsClient fd') := by
  by_cases h : fd' = fd
  · subst h
    simp [IsClient, opens]
  · simp [IsClient, opens, h]

theorem Tracked.not_mem (h : s.Tracked) {fd : Int} (hfd : s.files fd = none) : fd ∉ s.readFdsMaster := by
  intro hmem
  rcases h.watched fd hmem with ⟨-, hopen⟩ | ⟨c, hopen⟩
  · rw [hfd] at hopen
    cases hopen
  · rw [hfd] at hopen
    cases hopen

/-- What is watched stays what it is when another descriptor is opened. -/
theorem Tracked.watched_opens (h : s.Tracked) {fd : Int} (hfd : s.files fd = none) (file : File) {fd' : Int}
    (hmem : fd' ∈ s.readFdsMaster) :
    fd' = s.gehServerFd ∧ (s.opens fd file).files fd' = some .server ∨ (s.opens fd file).IsClient fd' := by
  have hne : fd' ≠ fd := fun heq => h.not_mem hfd (heq ▸ hmem)
  rcases h.watched fd' hmem with ⟨hserver, hopen⟩ | hclient
  · refine .inl ⟨hserver, ?_⟩
    change Function.update s.files fd (some file) fd' = _
    rw [Function.update_of_ne hne]
    exact hopen
  · exact .inr ((isClient_opens file fd').2 (.inr ⟨hne, hclient⟩))

theorem Tracked.opens_other (h : s.Tracked) {fd : Int} (hfd : s.files fd = none) : (s.opens fd .other).Tracked := by
  refine ⟨fun fd' hmem => h.watched_opens hfd .other hmem, h.below, fun fd' hclient => ?_, h.closed⟩
  rcases (isClient_opens .other fd').1 hclient with ⟨-, c, hc⟩ | ⟨-, hold⟩
  · cases hc
  · exact h.complete fd' hold

/-- Other parts of the program close descriptors of their own. -/
theorem Tracked.closeFile (h : s.Tracked) {fd : Int} (hfd : s.files fd = some .other) :
    { s with files := Function.update s.files fd none }.Tracked := by
  refine ⟨fun fd' hmem => ?_, h.below, fun fd' hclient => ?_, h.closed⟩
  · have hne : fd' ≠ fd := by
      rintro rfl
      rcases h.watched fd' hmem with ⟨-, hopen⟩ | ⟨c, hopen⟩
      · rw [hfd] at hopen
        cases hopen
      · rw [hfd] at hopen
        cases hopen
    rw [IsClient]
    change _ ∧ Function.update s.files fd none fd' = _ ∨ ∃ c, Function.update s.files fd none fd' = _
    rw [Function.update_of_ne hne]
    exact h.watched fd' hmem
  · exact h.complete fd' ((isClient_close fd fd').1 hclient).2

/-- A new connection is watched from now on. -/
theorem Tracked.watch_opens (h : s.Tracked) {fd : Int} (hfd : s.files fd = none) (c : Connection) :
    ((s.opens fd (.client c)).watch fd).Tracked := by
  refine ⟨fun fd' hmem => ?_, fun fd' hmem => ?_, fun fd' hclient => ?_, h.closed⟩
  · rcases Finset.mem_insert.1 hmem with rfl | hmem
    · exact .inr ((isClient_opens (.client c) fd').2 (.inl ⟨rfl, c, rfl⟩))
    · exact h.watched_opens hfd (.client c) hmem
  · change fd' ≤ if fd > s.gehMaxFd then fd else s.gehMaxFd
    rcases Finset.mem_insert.1 hmem with rfl | hmem
    · split <;> omega
    · have hbelow := h.below fd' hmem
      split <;> omega
  · rcases (isClient_opens (.client c) fd').1 hclient with ⟨rfl, -⟩ | ⟨-, hold⟩
    · exact Finset.mem_insert_self _ _
    · exact Finset.mem_insert_of_mem (h.complete fd' hold)

/-- A new connection is closed again. -/
theorem Tracked.close_opens (h : s.Tracked) {fd : Int} (hfd : s.files fd = none) (c : Connection) :
    ((s.opens fd (.client c)).close fd).Tracked := by
  refine ⟨fun fd' hmem => ?_, h.below, fun fd' hclient => ?_, fun file hfile => ?_⟩
  · have hne : fd' ≠ fd := fun heq => h.not_mem hfd (heq ▸ hmem)
    rcases h.watched_opens hfd (.client c) hmem with ⟨hserver, hopen⟩ | hclient
    · refine .inl ⟨hserver, ?_⟩
      change Function.update (s.opens fd (.client c)).files fd none fd' = _
      rw [Function.update_of_ne hne]
      exact hopen
    · exact .inr ((isClient_close fd fd').2 ⟨hne, hclient⟩)
  · obtain ⟨hne, hclient⟩ := (isClient_close fd fd').1 hclient
    rcases (isClient_opens (.client c) fd').1 hclient with ⟨heq, -⟩ | ⟨-, hold⟩
    · exact absurd heq hne
    · exact h.complete fd' hold
  · rcases List.mem_append.1 hfile with hold | hnew
    · exact h.closed file hold
    · refine ⟨c, (List.mem_singleton.1 hnew).trans ?_⟩
      change Function.update s.files fd (some (.client c)) fd = _
      rw [Function.update_self]

/-! ## Accepting and reading -/

/-- Accepting is right exactly when the descriptor is not below three: those are left open and not watched. -/
theorem accept_tracked_iff (h : s.Tracked) {fd : Nat} (hfd : s.files fd = none) (mac : Option Text) :
    (s.acceptConnection K fd mac).Tracked ↔ 3 ≤ fd := by
  unfold acceptConnection
  extract_lets s'
  split
  · rename_i hlow
    refine ⟨fun ht => ?_, fun hge => absurd hge (Nat.not_le.2 hlow)⟩
    -- the connection is open, and nothing watches it
    have hmem := ht.complete fd ((isClient_opens (s := s) _ _).2 (.inl ⟨rfl, _, rfl⟩))
    exact absurd hmem (h.not_mem hfd)
  · rename_i hhigh
    refine ⟨fun _ => Nat.not_lt.1 hhigh, fun _ => ?_⟩
    split
    · exact (h.close_opens hfd ⟨fd, s.accepted⟩).of_eq rfl rfl rfl rfl rfl
    · have hw := h.watch_opens hfd ⟨fd, s.accepted⟩
      split
      · exact hw.of_eq rfl rfl rfl rfl rfl
      · exact hw.of_eq rfl rfl rfl rfl rfl

/-- Reading a descriptor ends its connection: it has ended, or it is bound to no device and its message names none. -/
def Ends (K : Constants) (s : Server) (fd : Int) : Option HomeMessage → Prop
  | none => True
  | some msg => s.getDeviceByFd K fd = none ∧ s.getDeviceByNumber K (decimal msg.number) = none

/-- Putting a message into the queue leaves the books. -/
theorem deliver_tracked_iff (fd : Int) (i : Nat) (device : DeviceInfo) (msg : HomeMessage) :
    (s.deliver fd i device msg).Tracked ↔ s.Tracked := by
  unfold deliver
  split
  · exact tracked_congr rfl rfl rfl rfl rfl
  · exact Iff.rfl

/-- The end of a device's connection closes its descriptor, as far as the books go. -/
theorem disconnect_tracked_iff (fd : Int) (i : Nat) (device : DeviceInfo) :
    (s.disconnect fd i device).Tracked ↔ (s.drop fd).Tracked := by
  unfold disconnect
  extract_lets s₁ s₂
  refine Iff.trans (b := s₂.Tracked) (tracked_congr rfl rfl rfl rfl rfl) ?_
  by_cases hstatus : device.status = .connected
  · rw [show s₂ = s₁.updateStatusByDeviceIndex .disconnected i from if_pos hstatus]
    exact tracked_congr rfl rfl rfl rfl rfl
  · rw [show s₂ = s₁ from if_neg hstatus]
    exact tracked_congr rfl rfl rfl rfl rfl

/-- Reading a descriptor is right exactly when the descriptor that it closes, if it closes it, is an open connection. -/
theorem receive_tracked_iff (h : s.Tracked) (fd : Int) (input : Option HomeMessage) :
    (s.receive K fd input).Tracked ↔ (Ends K s fd input → s.IsClient fd) := by
  unfold receive
  split
  · rw [disconnect_tracked_iff, drop_tracked_iff h]
    exact ⟨fun hc _ => hc, fun hc => hc trivial⟩
  · rename_i hdevice
    rw [deliver_tracked_iff]
    refine ⟨fun _ hends => ?_, fun _ => h⟩
    rw [Ends, hdevice] at hends
    cases hends.1
  · rw [drop_tracked_iff h]
    exact ⟨fun hc _ => hc, fun hc => hc trivial⟩
  · rename_i msg hdevice
    unfold bindByNumber
    split
    · rename_i hnumber
      rw [drop_tracked_iff h]
      exact ⟨fun hc _ => hc, fun hc => hc ⟨hdevice, hnumber⟩⟩
    · rename_i hnumber
      rw [deliver_tracked_iff]
      refine ⟨fun _ hends => ?_, fun _ => h.of_eq rfl rfl rfl rfl rfl⟩
      rw [Ends, hnumber] at hends
      cases hends.2

/-- A keep-alive that is over is dealt with rightly exactly when its descriptor, if it is a device's, is an open connection. -/
theorem expire_tracked_iff (h : s.Tracked) (i : Nat) :
    (s.expire K i).Tracked ↔
      ((s.getDeviceByFd K (s.keepAliveInfo i).connfd).isSome → s.IsClient (s.keepAliveInfo i).connfd) := by
  unfold expire
  extract_lets fd s'
  refine Iff.trans (b := s'.Tracked) (tracked_congr rfl rfl rfl rfl rfl) ?_
  cases hdevice : s.getDeviceByFd K fd with
  | none =>
    rw [show s' = s by simp only [s', hdevice]]
    exact ⟨fun _ hsome => (nomatch hsome), fun _ => h⟩
  | some d =>
    obtain ⟨j, device⟩ := d
    have hs' : s' = ((s.drop fd).bind j zeroFd).updateStatusByDeviceIndex .disconnected j := by simp only [s', hdevice]
    rw [hs']
    refine Iff.trans (b := (s.drop fd).Tracked) (tracked_congr rfl rfl rfl rfl rfl) ?_
    rw [drop_tracked_iff h]
    exact ⟨fun hc _ => hc, fun hc => hc rfl⟩

/-! ## Deleting devices -/

/-- Up to which number `getEhMaxFd` goes. -/
theorem le_getEhMaxFd_iff (fd : Int) :
    fd ≤ s.getEhMaxFd K ↔
      fd ≤ s.gehServerFd ∨ ∃ j < K.maxtableDevices, s.devArray j ≠ zeroFd ∧ fd ≤ s.devArray j := by
  have hfold : ∀ (l : List Nat) (acc : Int),
      fd ≤ l.foldl (fun fdtmp i =>
        if s.devArray i ≠ zeroFd then (if fdtmp > s.devArray i then fdtmp else s.devArray i) else fdtmp) acc ↔
        fd ≤ acc ∨ ∃ j ∈ l, s.devArray j ≠ zeroFd ∧ fd ≤ s.devArray j := by
    intro l
    induction l with
    | nil => simp
    | cons i l ih =>
      intro acc
      rw [List.foldl_cons, ih, List.exists_mem_cons_iff]
      split
      · rename_i hused
        split
        · constructor
          · rintro (hle | hrest)
            · exact .inl hle
            · exact .inr (.inr hrest)
          · rintro (hle | ⟨-, hle⟩ | hrest)
            · exact .inl hle
            · exact .inl (by omega)
            · exact .inr hrest
        · constructor
          · rintro (hle | hrest)
            · exact .inr (.inl ⟨hused, hle⟩)
            · exact .inr (.inr hrest)
          · rintro (hle | ⟨-, hle⟩ | hrest)
            · exact .inl (by omega)
            · exact .inl hle
            · exact .inr hrest
      · rename_i hunused
        constructor
        · rintro (hle | hrest)
          · exact .inl hle
          · exact .inr (.inr hrest)
        · rintro (hle | ⟨hused, -⟩ | hrest)
          · exact .inl hle
          · exact absurd hused hunused
          · exact .inr hrest
  rw [getEhMaxFd, hfold]
  simp only [List.mem_range]

/-- The loop of `updateIndexDeviceArrayDeleteFromDb` over some of the rows. -/
def zeroRows (K : Constants) (s : Server) (rows : List Nat) : Server :=
  rows.foldl (fun s i => if s.units i = none then s.zeroIndexDevice K i else s) s

/-- The descriptors that it closes, in their order. -/
def gone (s : Server) (rows : List Nat) : List Int :=
  (rows.filter fun i => s.units i = none ∧ s.devArray i ≠ zeroFd).map s.devArray

theorem gone_congr {rows : List Nat} (hunits : t.units = s.units) (hdev : ∀ j ∈ rows, t.devArray j = s.devArray j) :
    t.gone rows = s.gone rows := by
  unfold gone
  rw [hunits, List.filter_congr fun j hj => by rw [hdev j hj]]
  exact List.map_congr_left fun j hj => hdev j (List.mem_of_mem_filter hj)

theorem gone_cons (i : Nat) (rows : List Nat) : s.gone (i :: rows) = s.gone [i] ++ s.gone rows := by
  unfold gone
  rw [← List.map_append, ← List.filter_append, List.singleton_append]

/-- Nothing is closed for a row that is there, or for an entry that is empty. -/
theorem gone_single_nil {i : Nat} (h : ¬(s.units i = none ∧ s.devArray i ≠ zeroFd)) : s.gone [i] = [] := by
  rw [gone, List.filter_eq_nil_iff.2, List.map_nil]
  intro j hj hc
  rw [List.mem_singleton.1 hj] at hc
  exact h (of_decide_eq_true hc)

/-- One descriptor is closed for a row that is missing. -/
theorem gone_single {i : Nat} (h : s.units i = none ∧ s.devArray i ≠ zeroFd) : s.gone [i] = [s.devArray i] := by
  rw [gone, List.filter_eq_self.2 fun j hj => decide_eq_true (List.mem_singleton.1 hj ▸ h), List.map_singleton]

/-- Only clients' connections were closed. -/
def ClosedClients (s : Server) : Prop := ∀ file ∈ s.closes, ∃ c, file = some (.client c)

/-- What the loop of the deletion comes to: the descriptors are closed and not watched, their entries are empty, the maximum is
computed anew if a row was missing, and the server has closed only connections exactly when no descriptor came twice and each was an
open connection. -/
structure Zeroed (K : Constants) (s : Server) (rows : List Nat) (t : Server) : Prop where
  units : t.units = s.units
  server : t.gehServerFd = s.gehServerFd
  set : ∀ fd, fd ∈ t.readFdsMaster ↔ fd ∈ s.readFdsMaster ∧ fd ∉ s.gone rows
  files : ∀ fd, t.files fd = if fd ∈ s.gone rows then none else s.files fd
  dev : ∀ j, t.devArray j = if j ∈ rows ∧ s.units j = none then zeroFd else s.devArray j
  max : t.gehMaxFd = if ∃ i ∈ rows, s.units i = none then t.getEhMaxFd K else s.gehMaxFd
  closes : t.ClosedClients ↔ s.ClosedClients ∧ (s.gone rows).Nodup ∧ ∀ fd ∈ s.gone rows, s.IsClient fd

/-- What is still a connection is not among what was closed. -/
theorem Zeroed.isClient {rows : List Nat} (h : Zeroed K s rows t) (fd : Int) :
    t.IsClient fd ↔ fd ∉ s.gone rows ∧ s.IsClient fd := by
  rw [IsClient, h.files]
  split
  · rename_i hmem
    exact ⟨fun hc => (nomatch hc), fun hc => absurd hmem hc.1⟩
  · rename_i hmem
    exact ⟨fun hc => ⟨hmem, hc⟩, And.right⟩

/-- Nothing is done for a row that is there. -/
theorem zeroed_present {i : Nat} (h : s.units i ≠ none) : Zeroed K s [i] s := by
  have hgone := gone_single_nil (s := s) (i := i) fun hc => h hc.1
  refine ⟨rfl, rfl, fun fd => ?_, fun fd => ?_, fun j => ?_, ?_, ?_⟩
  · rw [hgone, and_iff_left List.not_mem_nil]
  · rw [hgone, if_neg List.not_mem_nil]
  · rw [if_neg]
    rintro ⟨hj, hrow⟩
    exact h (List.mem_singleton.1 hj ▸ hrow)
  · rw [if_neg]
    rintro ⟨j, hj, hrow⟩
    exact h (List.mem_singleton.1 hj ▸ hrow)
  · rw [hgone]
    exact ⟨fun hc => ⟨hc, List.nodup_nil, fun fd hfd => absurd hfd List.not_mem_nil⟩, And.left⟩

/-- `zeroIndexDevice` for a row that is missing. -/
theorem zeroed_missing {i : Nat} (h : s.units i = none) : Zeroed K s [i] (s.zeroIndexDevice K i) := by
  have hmissing : ∃ j ∈ [i], s.units j = none := ⟨i, List.mem_singleton_self i, h⟩
  have hdev : ∀ j, (if j ∈ [i] ∧ s.units j = none then zeroFd else s.devArray j) =
      Function.update s.devArray i zeroFd j := by
    intro j
    rw [Function.update_apply]
    by_cases hj : j = i
    · rw [if_pos ⟨List.mem_singleton.2 hj, hj ▸ h⟩, if_pos hj]
    · rw [if_neg fun hc => hj (List.mem_singleton.1 hc.1), if_neg hj]
  unfold zeroIndexDevice
  by_cases hused : s.devArray i ≠ zeroFd
  · have hgone := gone_single ⟨h, hused⟩
    rw [if_pos hused]
    refine ⟨rfl, rfl, fun fd => ?_, fun fd => ?_, fun j => (hdev j).symm, ?_, ?_⟩
    · rw [hgone, List.mem_singleton]
      exact Finset.mem_erase.trans and_comm
    · simp only [hgone, List.mem_singleton]
      exact Function.update_apply _ _ _ _
    · rw [if_pos hmissing]
      rfl
    · rw [hgone]
      change (∀ file ∈ s.closes ++ [s.files (s.devArray i)], _) ↔ _
      rw [List.forall_mem_append, List.forall_mem_singleton, List.forall_mem_singleton]
      exact and_congr_right fun _ => ⟨fun hc => ⟨List.nodup_singleton _, hc⟩, And.right⟩
  · have hgone := gone_single_nil (s := s) (i := i) fun hc => hused hc.2
    rw [if_neg hused]
    refine ⟨rfl, rfl, fun fd => ?_, fun fd => ?_, fun j => (hdev j).symm, ?_, ?_⟩
    · rw [hgone, and_iff_left List.not_mem_nil]
      exact Iff.rfl
    · rw [hgone, if_neg List.not_mem_nil]
      rfl
    · rw [if_pos hmissing]
      rfl
    · rw [hgone]
      exact ⟨fun hc => ⟨hc, List.nodup_nil, fun fd hfd => absurd hfd List.not_mem_nil⟩, And.left⟩

theorem getEhMaxFd_congr (hserver : t.gehServerFd = s.gehServerFd) (hdev : t.devArray = s.devArray) :
    t.getEhMaxFd K = s.getEhMaxFd K := by
  rw [getEhMaxFd, getEhMaxFd, hserver, hdev]

/-- A row, and then the rows behind it. -/
theorem Zeroed.cons {i : Nat} {rows : List Nat} {u : Server} (h₁ : Zeroed K s [i] t) (h₂ : Zeroed K t rows u)
    (hi : i ∉ rows) : Zeroed K s (i :: rows) u := by
  have hgone : t.gone rows = s.gone rows := by
    refine gone_congr h₁.units fun j hj => ?_
    rw [h₁.dev, if_neg]
    rintro ⟨hc, -⟩
    exact hi (List.mem_singleton.1 hc ▸ hj)
  refine ⟨h₂.units.trans h₁.units, h₂.server.trans h₁.server, fun fd => ?_, fun fd => ?_, fun j => ?_, ?_, ?_⟩
  · rw [h₂.set, h₁.set, hgone, gone_cons i rows, List.mem_append, not_or, and_assoc]
  · rw [h₂.files, h₁.files, hgone, gone_cons i rows]
    by_cases hrest : fd ∈ s.gone rows
    · rw [if_pos hrest, if_pos (List.mem_append_right _ hrest)]
    · rw [if_neg hrest]
      by_cases hfirst : fd ∈ s.gone [i]
      · rw [if_pos hfirst, if_pos (List.mem_append_left _ hfirst)]
      · rw [if_neg hfirst, if_neg fun hc => (List.mem_append.1 hc).elim hfirst hrest]
  · rw [h₂.dev, h₁.dev, h₁.units]
    by_cases hrow : s.units j = none
    · by_cases hrest : j ∈ rows
      · rw [if_pos ⟨hrest, hrow⟩, if_pos ⟨List.mem_cons_of_mem i hrest, hrow⟩]
      · rw [if_neg fun hc => hrest hc.1]
        by_cases hj : j = i
        · rw [if_pos ⟨List.mem_singleton.2 hj, hrow⟩, if_pos ⟨List.mem_cons.2 (.inl hj), hrow⟩]
        · rw [if_neg fun hc => hj (List.mem_singleton.1 hc.1), if_neg fun hc => (List.mem_cons.1 hc.1).elim hj hrest]
    · rw [if_neg fun hc => hrow hc.2, if_neg fun hc => hrow hc.2, if_neg fun hc => hrow hc.2]
  · rw [h₂.max, h₁.units]
    by_cases hrest : ∃ j ∈ rows, s.units j = none
    · obtain ⟨j, hj, hrow⟩ := hrest
      rw [if_pos ⟨j, hj, hrow⟩, if_pos ⟨j, List.mem_cons_of_mem i hj, hrow⟩]
    · rw [if_neg hrest, h₁.max]
      by_cases hfirst : ∃ j ∈ [i], s.units j = none
      · obtain ⟨j, hj, hrow⟩ := hfirst
        rw [if_pos ⟨j, hj, hrow⟩, if_pos ⟨j, List.mem_cons.2 (.inl (List.mem_singleton.1 hj)), hrow⟩]
        -- the rows behind are all there, so that the entries are still those that the maximum was computed from
        refine (getEhMaxFd_congr h₂.server (funext fun k => ?_)).symm
        rw [h₂.dev, h₁.units, if_neg fun hc => hrest ⟨k, hc⟩]
      · rw [if_neg hfirst, if_neg]
        rintro ⟨j, hj, hrow⟩
        rcases List.mem_cons.1 hj with rfl | hj
        · exact hfirst ⟨j, List.mem_singleton_self j, hrow⟩
        · exact hrest ⟨j, hj, hrow⟩
  · rw [h₂.closes, h₁.closes, hgone, gone_cons i rows, List.nodup_append, List.forall_mem_append]
    constructor
    · rintro ⟨⟨hclosed, hnodup, hfirst⟩, hnodup', hrest⟩
      refine ⟨hclosed, ⟨hnodup, hnodup', fun fd hfd fd' hfd' heq => ?_⟩, hfirst, fun fd hfd => ?_⟩
      · exact ((h₁.isClient fd').1 (hrest fd' hfd')).1 (heq ▸ hfd)
      · exact ((h₁.isClient fd).1 (hrest fd hfd)).2
    · rintro ⟨hclosed, ⟨hnodup, hnodup', hdisjoint⟩, hfirst, hrest⟩
      refine ⟨⟨hclosed, hnodup, hfirst⟩, hnodup', fun fd hfd => (h₁.isClient fd).2 ⟨fun hc => ?_, hrest fd hfd⟩⟩
      exact hdisjoint fd hc fd hfd rfl

/-- **What the deletion closes.** By induction on the rows: each is dealt with once. -/
theorem zeroRows_zeroed {rows : List Nat} (hnodup : rows.Nodup) : Zeroed K s rows (zeroRows K s rows) := by
  induction rows generalizing s with
  | nil =>
    refine ⟨rfl, rfl, fun fd => ?_, fun fd => rfl, fun j => ?_, ?_, ?_⟩
    · exact (and_iff_left List.not_mem_nil).symm
    · rw [if_neg fun hc => List.not_mem_nil hc.1]
      rfl
    · rw [if_neg fun ⟨j, hj, _⟩ => List.not_mem_nil hj]
      rfl
    · exact ⟨fun hc => ⟨hc, List.nodup_nil, fun fd hfd => absurd hfd List.not_mem_nil⟩, And.left⟩
  | cons i rows ih =>
    obtain ⟨hi, hnodup⟩ := List.nodup_cons.1 hnodup
    rw [zeroRows, List.foldl_cons]
    split
    · rename_i hrow
      exact (zeroed_missing hrow).cons (ih hnodup) hi
    · rename_i hrow
      exact (zeroed_present hrow).cons (ih hnodup) hi

/-- What else the deletion leaves as it was. -/
theorem zeroRows_eq (s : Server) (rows : List Nat) :
    ∃ files readFdsMaster gehMaxFd devArray closes holders,
      zeroRows K s rows = { s with files, readFdsMaster, gehMaxFd, devArray, closes, holders } := by
  induction rows generalizing s with
  | nil => exact ⟨s.files, s.readFdsMaster, s.gehMaxFd, s.devArray, s.closes, s.holders, rfl⟩
  | cons i rows ih =>
    rw [zeroRows, List.foldl_cons]
    split
    · obtain ⟨files, readFdsMaster, gehMaxFd, devArray, closes, holders, hrest⟩ := ih (s.zeroIndexDevice K i)
      refine ⟨files, readFdsMaster, gehMaxFd, devArray, closes, holders, hrest.trans ?_⟩
      unfold zeroIndexDevice
      split
      · rfl
      · rfl
    · exact ih s

/-- The deletion finds only open connections in the entries of the rows that are missing, each once, and what stays watched is not
above the server socket and the entries that stay. -/
structure CleanDeletion (K : Constants) (s : Server) : Prop where
  once : (s.gone (List.range K.maxtableDevices)).Nodup
  clients : ∀ fd ∈ s.gone (List.range K.maxtableDevices), s.IsClient fd
  reached : (∃ i < K.maxtableDevices, s.units i = none) →
    ∀ fd ∈ s.readFdsMaster, fd ∉ s.gone (List.range K.maxtableDevices) →
      fd ≤ s.gehServerFd ∨ ∃ j < K.maxtableDevices, s.units j ≠ none ∧ s.devArray j ≠ zeroFd ∧ fd ≤ s.devArray j

/-- Deleting devices is right exactly when the deletion is clean. -/
theorem deleteUnit_tracked_iff (h : s.Tracked) : (s.updateIndexDeviceArrayDeleteFromDb K).Tracked ↔ s.CleanDeletion K := by
  change (zeroRows K s (List.range K.maxtableDevices)).Tracked ↔ _
  have hz := zeroRows_zeroed (K := K) (s := s) (List.nodup_range (n := K.maxtableDevices))
  generalize zeroRows K s (List.range K.maxtableDevices) = t at hz ⊢
  -- an entry that is left is that of a row that is there
  have hreach : ∀ fd, fd ≤ t.getEhMaxFd K ↔ fd ≤ s.gehServerFd ∨
      ∃ j < K.maxtableDevices, s.units j ≠ none ∧ s.devArray j ≠ zeroFd ∧ fd ≤ s.devArray j := by
    intro fd
    rw [le_getEhMaxFd_iff, hz.server]
    refine or_congr_right (exists_congr fun j => and_congr_right fun hj => ?_)
    rw [hz.dev]
    by_cases hrow : s.units j = none
    · rw [if_pos ⟨List.mem_range.2 hj, hrow⟩]
      exact ⟨fun hc => absurd rfl hc.1, fun hc => absurd hrow hc.1⟩
    · rw [if_neg fun hc => hrow hc.2]
      exact (and_iff_right hrow).symm
  have hmax := hz.max
  simp only [List.mem_range] at hmax
  constructor
  · intro ht
    obtain ⟨-, honce, hclients⟩ := hz.closes.1 ht.closed
    refine ⟨honce, hclients, fun hmissing fd hfd hgone => (hreach fd).1 ?_⟩
    rw [if_pos hmissing] at hmax
    rw [← hmax]
    exact ht.below fd ((hz.set fd).2 ⟨hfd, hgone⟩)
  · intro hclean
    refine ⟨fun fd hfd => ?_, fun fd hfd => ?_, fun fd hfd => ?_, hz.closes.2 ⟨h.closed, hclean.once, hclean.clients⟩⟩
    · obtain ⟨hfd, hgone⟩ := (hz.set fd).1 hfd
      rcases h.watched fd hfd with ⟨hserver, hopen⟩ | hclient
      · rw [hz.server, hz.files, if_neg hgone]
        exact .inl ⟨hserver, hopen⟩
      · exact .inr ((hz.isClient fd).2 ⟨hgone, hclient⟩)
    · obtain ⟨hfd, hgone⟩ := (hz.set fd).1 hfd
      rw [hmax]
      split
      · rename_i hmissing
        exact (hreach fd).2 (hclean.reached hmissing fd hfd hgone)
      · exact h.below fd hfd
    · obtain ⟨hgone, hclient⟩ := (hz.isClient fd).1 hfd
      exact (hz.set fd).2 ⟨h.complete fd hclient, hgone⟩

/-! ## Every step, and every run -/

/-- What each step has to meet: a descriptor that is accepted is not below three, a descriptor that is closed after it was read or
because its keep-alives stayed away is an open connection, and a deletion is clean. -/
def Bookkept (K : Constants) (s : Server) : Action → Prop
  | .accept fd _ => 3 ≤ fd
  | .receive input => ∀ fd, s.ready.head? = some fd → Ends K s fd input → s.IsClient fd
  | .expire => ∀ i, s.expiring = some i →
      (s.getDeviceByFd K (s.keepAliveInfo i).connfd).isSome → s.IsClient (s.keepAliveInfo i).connfd
  | .deleteUnit => s.CleanDeletion K
  | _ => True

/-- **One step.** From right books a step leads to right books exactly when it meets its condition. -/
theorem step_tracked_iff (h : s.Tracked) {a : Action} (hstep : s.step K a = some t) : t.Tracked ↔ s.Bookkept K a := by
  have hl := leads_of_step hstep
  cases a with
  | select fds =>
    obtain ⟨-, -, rfl⟩ := hl
    exact iff_of_true (h.of_eq rfl rfl rfl rfl rfl) trivial
  | accept fd mac =>
    obtain ⟨-, -, hlow, rfl⟩ := hl
    have h' : { s with ready := s.ready.tail }.Tracked := h.of_eq rfl rfl rfl rfl rfl
    exact accept_tracked_iff h' hlow.1 mac
  | acceptFails =>
    obtain rfl := hl
    exact iff_of_true (h.of_eq rfl rfl rfl rfl rfl) trivial
  | receive input =>
    obtain ⟨fd, hhead, -, -, -, rfl⟩ := hl
    have h' : { s with ready := s.ready.tail }.Tracked := h.of_eq rfl rfl rfl rfl rfl
    have hr := receive_tracked_iff (K := K) h' fd input
    constructor
    · intro ht fd' hfd'
      obtain rfl := Option.some.inj (hhead.symm.trans hfd')
      exact hr.1 ht
    · intro hc
      exact hr.2 (hc fd hhead)
  | releaseToken =>
    obtain ⟨fd, -, rfl⟩ := hl
    obtain ⟨_, _, hrelease⟩ := s.releaseTokenByFD_eq fd
    rw [hrelease]
    exact iff_of_true (h.of_eq rfl rfl rfl rfl rfl) trivial
  | handle written =>
    obtain ⟨m, msgQueue, -, rfl⟩ := hl
    obtain ⟨_, _, _, _, _, _, _, _, _, hhandle⟩ := { s with msgQueue }.handleMsg_eq K m written
    rw [hhandle]
    exact iff_of_true (h.of_eq rfl rfl rfl rfl rfl) trivial
  | keepAliveSync i =>
    obtain ⟨-, rfl⟩ := hl
    obtain ⟨_, _, _, _, hsync⟩ := s.keepAliveSync_eq i
    rw [hsync]
    exact iff_of_true (h.of_eq rfl rfl rfl rfl rfl) trivial
  | expire =>
    obtain ⟨i, hexpiring, rfl⟩ := hl
    have he := expire_tracked_iff (K := K) h i
    constructor
    · intro ht j hj
      obtain rfl := Option.some.inj (hexpiring.symm.trans hj)
      exact he.1 ht
    · intro hc
      exact he.2 (hc i hexpiring)
  | deleteUnit =>
    obtain rfl := hl
    exact deleteUnit_tracked_iff h
  | writeUnit i device =>
    obtain rfl := hl
    exact iff_of_true (h.of_eq rfl rfl rfl rfl rfl) trivial
  | openFile fd =>
    obtain ⟨hlow, rfl⟩ := hl
    exact iff_of_true (h.opens_other hlow.1) trivial
  | closeFile fd =>
    obtain ⟨hother, rfl⟩ := hl
    exact iff_of_true (h.closeFile hother) trivial

theorem start_tracked (opened : Finset Int) (gehServerFd : Nat) (units : Nat → Option DeviceInfo) :
    (start opened gehServerFd units).Tracked := by
  refine ⟨fun fd hfd => ?_, fun fd hfd => ?_, fun fd hfd => ?_, fun file hfile => absurd hfile List.not_mem_nil⟩
  · obtain rfl := Finset.mem_singleton.1 hfd
    exact .inl ⟨rfl, if_pos rfl⟩
  · exact (Finset.mem_singleton.1 hfd).le
  · obtain ⟨c, hc⟩ := hfd
    change (if fd = gehServerFd then _ else if fd ∈ opened then _ else _) = _ at hc
    split_ifs at hc <;> cases hc

/-- **The descriptors of the home server.** From the start, the books are right in every state of a run exactly when each of its steps
meets its condition. -/
theorem descriptors_tracked_iff (opened : Finset Int) (gehServerFd : Nat) (units : Nat → Option DeviceInfo)
    {tr : List (Transition Server Action)} (hrun : Run (steps K) (start opened gehServerFd units) tr s) :
    Always (fun _ _ t => t.Tracked) tr ↔ Meets (fun s a => s.Bookkept K a) tr :=
  Run.all_iff (start_tracked opened gehServerFd units)
    (fun _ _ _ h hc hstep => ⟨(step_tracked_iff h hstep).2 hc, (step_tracked_iff h hstep).2 hc⟩)
    (fun _ _ _ h hc hstep ht => hc ((step_tracked_iff h hstep).1 ht)) hrun

/-- A connection is bound to its device by its first message, sends a keep-alive, and is closed when no other comes; the device
connects again, and its connection ends. -/
def boundAndClosed : List Action :=
  [.select [3], .accept 4 (some []), .select [4], .receive (some (idpRegistration 5 53)), .handle true, .select [4],
    .receive (some (messageOf 5 0x100F [])), .handle true] ++ List.replicate 6 (.keepAliveSync 0) ++
  [.expire, .select [3], .accept 4 (some ['m']), .select [4], .receive none, .releaseToken]

/-- The action reads a descriptor. -/
def Action.reads : Action → Bool
  | .receive _ => true
  | _ => false

theorem descriptors_tracked_iff_example :
    Always (fun _ _ t => t.Tracked) (played 2 [pairedDevice 'm' '5' .idp 3] boundAndClosed) ∧
      ∃ x ∈ (played 2 [pairedDevice 'm' '5' .idp 3] boundAndClosed).getLast?,
        x.2.2.closes = [some (.client ⟨4, 0⟩), some (.client ⟨4, 1⟩)] := by
  obtain ⟨s, hrun⟩ := run_played 2 [pairedDevice 'm' '5' .idp 3] boundAndClosed
  have hopen : ∀ x ∈ played 2 [pairedDevice 'm' '5' .idp 3] boundAndClosed,
      (Action.reads x.2.1 = true → ∀ fd ∈ x.1.ready.head?, x.1.clientAt fd ≠ none) ∧
        ∀ i ∈ x.1.expiring, x.1.clientAt (x.1.keepAliveInfo i).connfd ≠ none := by
    decide +kernel
  have hactions : ∀ a ∈ boundAndClosed, (∀ fd mac, a = .accept fd mac → 3 ≤ fd) ∧ a ≠ .deleteUnit := by simp [boundAndClosed]
  have hclient : ∀ {s : Server} {fd : Int}, s.clientAt fd ≠ none → s.IsClient fd := fun h =>
    (Option.ne_none_iff_exists'.1 h).imp fun _ => (clientAt_iff _).1
  refine ⟨(descriptors_tracked_iff {0, 1, 2} 3 _ hrun).2 fun x hx => ?_, by decide +kernel⟩
  obtain ⟨hreads, hexpires⟩ := hopen x hx
  obtain ⟨haccepts, hdeletes⟩ := hactions _ (mem_of_mem_play hx)
  rcases x with ⟨s, a, t⟩
  cases a with
  | accept fd mac => exact haccepts fd mac rfl
  | receive input => exact fun fd hfd _ => hclient (hreads rfl fd hfd)
  | expire => exact fun i hi _ => hclient (hexpires i hi)
  | deleteUnit => exact absurd rfl hdeletes
  | _ => trivial

/-- A device was paired before; another row of the table is free. Somebody deletes a device. -/
theorem descriptors_not_tracked :
    ∃ tr s, Run (steps (smallTables 2)) (startWith [pairedDevice 'm' '5' .idp 3]) tr s ∧ ¬Always (fun _ _ t => t.Tracked) tr := by
  obtain ⟨s, hrun⟩ := run_played 2 [pairedDevice 'm' '5' .idp 3] [.deleteUnit]
  refine ⟨_, s, hrun, fun h => ?_⟩
  have hclosed : ∃ x ∈ played 2 [pairedDevice 'm' '5' .idp 3] [.deleteUnit], some .other ∈ x.2.2.closes := by
    decide +kernel
  -- the entry of the free row was never used, and zero is not a client's connection
  obtain ⟨x, hx, hother⟩ := hclosed
  obtain ⟨c, hc⟩ := (h x hx).closed _ hother
  cases hc

end Server

end CodeFactory.Ehcc
