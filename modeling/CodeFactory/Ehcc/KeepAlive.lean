import CodeFactory.Ehcc.Registration

/-!
# The timer at an entry

The timer calls `keepAliveSync` every two seconds, which goes over all entries of `g_keepAliveInfo`: the time of each goes on, and the
connection of one that is too old is closed, if it is a device's. It takes no lock for the test and waits for two mutexes behind it, so
the test and the close are two steps.
-/

namespace CodeFactory.Ehcc

namespace KeepAliveInfo

/-- The time of an entry with a descriptor goes on. -/
def advanced (e : KeepAliveInfo) : KeepAliveInfo := if e.connfd > 0 then { e with flag := e.flag + keepAlivePollingTime } else e

/-- The next visit of the timer finds that the entry has had no keep-alive for too long. -/
def Expires (e : KeepAliveInfo) : Prop := e.advanced.flag > keepAliveCheckingTime

instance (e : KeepAliveInfo) : Decidable e.Expires := inferInstanceAs (Decidable (_ > _))

theorem advanced_of_pos {e : KeepAliveInfo} (h : 0 < e.connfd) : e.advanced = ⟨e.connfd, e.flag + 2⟩ := if_pos h

theorem advanced_connfd (e : KeepAliveInfo) : e.advanced.connfd = e.connfd := by
  unfold advanced
  split <;> rfl

end KeepAliveInfo

namespace Server

variable {K : Constants} {s t : Server}

/-- The entries of the table: the ones that are not free have different descriptors above the standard ones. -/
structure ProperEntries (K : Constants) (s : Server) : Prop where
  form : ∀ i < K.maxtableDevices, s.keepAliveInfo i = ⟨-1, -1⟩ ∨ 3 ≤ (s.keepAliveInfo i).connfd
  distinct : ∀ i < K.maxtableDevices, ∀ j < K.maxtableDevices, (s.keepAliveInfo i).connfd = (s.keepAliveInfo j).connfd →
    (s.keepAliveInfo i).connfd ≠ -1 → i = j

/-- The timer looks at an entry. -/
theorem keepAliveSync_entry (s : Server) (i : Nat) : ∃ gTokenStatus gTokenOwern,
    s.keepAliveSync i =
      { s with
        keepAliveInfo := Function.update s.keepAliveInfo i (s.keepAliveInfo i).advanced
        gTokenStatus, gTokenOwern
        expiring := if (s.keepAliveInfo i).Expires then some i else s.expiring } := by
  have hpoll : s.poll i = { s with keepAliveInfo := Function.update s.keepAliveInfo i (s.keepAliveInfo i).advanced } := by
    unfold poll KeepAliveInfo.advanced
    extract_lets entry
    split
    · rfl
    · rw [Function.update_eq_self]
  unfold keepAliveSync
  rw [hpoll]
  simp only [Function.update_self]
  by_cases h : (s.keepAliveInfo i).Expires
  · have hflag : (s.keepAliveInfo i).advanced.flag > keepAliveCheckingTime := h
    obtain ⟨gTokenStatus, gTokenOwern, hrelease⟩ := releaseTokenByFD_eq
      { s with keepAliveInfo := Function.update s.keepAliveInfo i (s.keepAliveInfo i).advanced } (s.keepAliveInfo i).advanced.connfd
    refine ⟨gTokenStatus, gTokenOwern, ?_⟩
    rw [if_pos hflag, if_pos h, hrelease]
  · have hflag : ¬(s.keepAliveInfo i).advanced.flag > keepAliveCheckingTime := h
    refine ⟨s.gTokenStatus, s.gTokenOwern, ?_⟩
    rw [if_neg hflag, if_neg h]

/-- What is said of the server behind the close of an entry that was too old. -/
structure Closed (K : Constants) (s : Server) (i : Nat) (t : Server) : Prop where
  entries : t.keepAliveInfo = Function.update s.keepAliveInfo i ⟨-1, -1⟩
  clients : ∀ fd, t.clientAt fd =
    if fd = (s.keepAliveInfo i).connfd ∧ (s.getDeviceByFd K fd).isSome then none else s.clientAt fd
  rest : t.expiring = none ∧ t.accepted = s.accepted ∧ t.gehServerFd = s.gehServerFd ∧ t.ready = s.ready ∧
    t.msgQueue = s.msgQueue ∧ t.readFdsMaster ⊆ s.readFdsMaster

/-- An entry that was too old: its connection is closed if it is a device's, and the entry is free. -/
theorem expire_closed (K : Constants) (s : Server) (i : Nat) : Closed K s i (s.expire K i) := by
  unfold expire
  dsimp only
  split
  · rename_i j device hfound
    refine ⟨rfl, fun fd' => ?_, rfl, rfl, rfl, rfl, rfl, Finset.erase_subset _ _⟩
    change (s.close (s.keepAliveInfo i).connfd).clientAt fd' = _
    rw [clientAt_close]
    by_cases hfd : fd' = (s.keepAliveInfo i).connfd
    · rw [if_pos hfd, if_pos ⟨hfd, by rw [hfd, hfound]; rfl⟩]
    · rw [if_neg hfd, if_neg fun hc => hfd hc.1]
  · rename_i hnone
    refine ⟨rfl, fun fd' => ?_, rfl, rfl, rfl, rfl, rfl, Finset.Subset.refl _⟩
    rw [if_neg]
    · rfl
    · rintro ⟨rfl, hsome⟩
      rw [hnone] at hsome
      cases hsome

end Server

end CodeFactory.Ehcc
