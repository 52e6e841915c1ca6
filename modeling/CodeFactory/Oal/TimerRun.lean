import CodeFactory.Oal.Timer

/-!
# The timer list along a run

What `Proper` says of a state holds of every state of a run in which the milliseconds of every event that is set can be added
to the time on the clock and the events can be counted in 32 bits. A call of `tcmTmr_executeExpiredEvents` from inside a
handler is part of the call whose handler makes it: an event is run during the first call that is late enough for it.
-/

namespace CodeFactory.Oal

open TcmTimerEvent

namespace TimerState

/-- No call that has returned while the event was waiting was late enough for it. -/
def Waited (e : TcmTimerEvent) (returned : List ReturnedCall) : Prop :=
  ∀ r ∈ returned, e.serial < r.numSet → r.nowTms.nanos ≤ e.due

/-- The timer list is in order and every event is where it should be. -/
structure Proper (s : TimerState) : Prop where
  /-- No null pointer has been followed. -/
  alive : s.failed = false
  /-- Handlers have run, and will run, in the order of expiry, those of one expiry in the order in which they were set. -/
  ordered : (s.fired.map (·.event) ++ s.handle.events).Pairwise Before
  /-- The list is sorted by the times the events were set for. -/
  stored : ∀ e ∈ s.handle.events, e.Stored
  /-- No two events of the list have the same handler and context. -/
  keys : (s.handle.events.map key).Nodup
  /-- The count is the length of the list. -/
  counted : s.handle.numEvents.toNat = s.handle.events.length
  /-- Every event that was set is waiting, or its handler has run once, or it was cancelled. -/
  accounted : ((s.handle.events ++ (s.fired.map (·.event) ++ s.cancelled)).map (·.serial)).Perm (List.range s.numSet)
  /-- A handler is run by a call later than the expiry, and no earlier call could have done it. -/
  punctual : ∀ f ∈ s.fired, f.event.due < f.nowTms.nanos ∧ Waited f.event f.returned
  /-- No call has left an event behind that had expired. -/
  waiting : ∀ e ∈ s.handle.events, Waited e s.returned

/-- The invariant: the state is proper, and every time it holds has been on the clock. -/
structure Kept (s : TimerState) : Prop extends Proper s where
  called : ∀ c ∈ s.calls, c.nowTms.Valid ∧ c.nowTms.nanos ≤ s.clock.nanos
  ran : ∀ f ∈ s.fired, f.nowTms.nanos ≤ s.clock.nanos
  numbered : ∀ r ∈ s.returned, r.numSet ≤ s.numSet

/-- An event that is set is set for a time that can be formed, and the count of the events does not come back to zero. -/
def Fits (s : TimerState) : TimerAct → Prop
  | .set func ctxData ms name nowTms allocated =>
    tcmTmrIsEventPresent s.handle func ctxData = false → nameTooLong name = false → allocated = true →
      nowTms.Addable ms ∧ s.handle.events.length + 1 < 2 ^ 32
  | _ => True

instance (s : TimerState) (a : TimerAct) : Decidable (s.Fits a) :=
  match a with
  | .set .. => inferInstanceAs (Decidable (_ → _ → _ → _ ∧ _))
  | .cancel .. | .getTimeToNextEvent .. | .executeExpiredEvents .. | .loopTest | .handlerReturns =>
    inferInstanceAs (Decidable True)

/-- The number of events of the list that have expired at a time. -/
def expired (s : TimerState) (nowTms : TcmTimestamp) : Nat := s.handle.events.countP fun e => e.due < nowTms.nanos

/-- No step gives a call that is going on another event to run, and the test of its loop takes one or ends it: a call runs at
most the events that have expired when it begins. -/
def Drains (s : TimerState) (a : TimerAct) (t : TimerState) : Prop :=
  (∀ c ∈ s.calls, t.expired c.nowTms ≤ s.expired c.nowTms) ∧
    ∀ c rest, a = .loopTest → s.calls = c :: rest → t.calls = rest ∨ t.expired c.nowTms < s.expired c.nowTms

/-! ## The list -/

/-- Insertion keeps the order: an event that was set last comes after those of its expiry. -/
theorem orderedInsert_ordered {e : TcmTimerEvent} {es : List TcmTimerEvent} (hes : ∀ a ∈ es, a.Stored) (he : e.Stored)
    (hlast : ∀ a ∈ es, a.serial < e.serial) (h : es.Pairwise Before) : (es.orderedInsert Earlier e).Pairwise Before := by
  induction es with
  | nil => exact List.pairwise_singleton _ _
  | cons a es ih =>
    obtain ⟨ha, hrest⟩ := List.pairwise_cons.1 h
    have hstored := hes a List.mem_cons_self
    have hearlier : e.Earlier a ↔ e.due < a.due := by
      rw [← he.2, ← hstored.2]
      exact TcmTimestamp.isEarlierThan_iff he.1 hstored.1
    rw [List.orderedInsert_cons]
    by_cases hlt : e.Earlier a
    · rw [if_pos hlt]
      refine List.pairwise_cons.2 ⟨?_, h⟩
      intro b hb
      have hdue := hearlier.1 hlt
      rcases List.mem_cons.1 hb with rfl | hb
      · exact Or.inl hdue
      · have := ha b hb
        unfold Before at this ⊢
        omega
    · rw [if_neg hlt]
      refine List.pairwise_cons.2 ⟨?_, ih (fun b hb => hes b (List.mem_cons_of_mem a hb))
        (fun b hb => hlast b (List.mem_cons_of_mem a hb)) hrest⟩
      intro b hb
      rw [List.mem_orderedInsert] at hb
      rcases hb with rfl | hb
      · have hdue := mt hearlier.2 hlt
        have hser := hlast a List.mem_cons_self
        unfold Before
        omega
      · exact ha b hb

/-- With the count right, the insertion does not look at an empty list. -/
theorem enqueue_eq {handle : TcmTimerHandle} (h : handle.numEvents.toNat = handle.events.length) (e : TcmTimerEvent) :
    enqueue handle e = .done ⟨handle.events.orderedInsert Earlier e, handle.numEvents + 1⟩ := by
  unfold enqueue
  by_cases h0 : handle.numEvents = 0
  · rw [if_pos h0]
    rw [h0] at h
    have hnil : handle.events = [] := List.length_eq_zero_iff.1 h.symm
    rw [hnil, List.orderedInsert_nil]
  · rw [if_neg h0]
    cases hev : handle.events with
    | nil =>
      rw [hev] at h
      exact absurd (BitVec.eq_of_toNat_eq h) h0
    | cons a es => rfl

/-- What cancelling takes out of the list. -/
theorem tcmTmrCancel_eq_some {handle handle' : TcmTimerHandle} {func ctxData : Nat} {e : TcmTimerEvent}
    (h : tcmTmrCancel handle func ctxData = (some e, handle')) :
    ∃ before after, handle.events = before ++ e :: after ∧ handle' = ⟨before ++ after, handle.numEvents - 1⟩ := by
  unfold tcmTmrCancel at h
  split at h
  · exact absurd (congrArg Prod.fst h) (by simp)
  · rename_i a hfind
    obtain ⟨hkey, before, after, heq, hbefore⟩ := List.find?_eq_some_iff_append.1 hfind
    obtain ⟨ha, hh⟩ := Prod.mk.inj h
    obtain rfl := Option.some.inj ha
    refine ⟨before, after, heq, ?_⟩
    rw [← hh, heq, List.eraseP_append_right _ (fun b hb => by simpa using hbefore b hb),
      List.eraseP_cons_of_pos (p := fun b : TcmTimerEvent => b.key == (func, ctxData)) hkey]

/-- What is taken is the first event of the list, and it has expired. -/
theorem takeExpired_eq_some {handle handle' : TcmTimerHandle} {nowTms : TcmTimestamp} {e : TcmTimerEvent}
    (h : takeExpired handle nowTms = some (e, handle')) :
    e.expireTms.IsEarlierThan nowTms ∧ ∃ rest, handle.events = e :: rest ∧ handle' = ⟨rest, handle.numEvents - 1⟩ := by
  unfold takeExpired at h
  split at h
  · cases h
  · rename_i a rest heq
    split at h
    · rename_i hlt
      obtain ⟨ha, hh⟩ := Prod.mk.inj (Option.some.inj h)
      exact ⟨ha ▸ hlt, rest, ha ▸ heq, hh.symm⟩
    · cases h

/-- Nothing is taken when the first event has not expired; then none has. -/
theorem takeExpired_eq_none {handle : TcmTimerHandle} {nowTms : TcmTimestamp} (hnow : nowTms.Valid)
    (hstored : ∀ e ∈ handle.events, e.Stored) (hord : handle.events.Pairwise Before) (h : takeExpired handle nowTms = none) :
    ∀ e ∈ handle.events, nowTms.nanos ≤ e.due := by
  unfold takeExpired at h
  split at h
  · rename_i heq
    intro e he
    rw [heq] at he
    cases he
  · rename_i a rest heq
    split at h
    · cases h
    · rename_i hlt
      rw [heq] at hstored hord
      have ha := hstored a List.mem_cons_self
      rw [TcmTimestamp.isEarlierThan_iff ha.1 hnow, ha.2, Nat.not_lt] at hlt
      intro e he
      rw [heq] at he
      rcases List.mem_cons.1 he with rfl | he
      · exact hlt
      · have := (List.pairwise_cons.1 hord).1 e he
        unfold Before at this
        omega

/-! ## One step -/

variable {s t : TimerState}

/-- The process starts without events. -/
theorem kept_init {clock : TcmTimestamp} : Kept (init clock) where
  alive := rfl
  ordered := List.Pairwise.nil
  stored := by simp [init]
  keys := List.nodup_nil
  counted := rfl
  accounted := List.Perm.refl _
  punctual := by simp [init]
  waiting := by simp [init]
  called := by simp [init]
  ran := by simp [init]
  numbered := by simp [init]

theorem Proper.serial_lt (h : Proper s) : ∀ e ∈ s.handle.events, e.serial < s.numSet := by
  intro e he
  rw [← List.mem_range, ← h.accounted.mem_iff]
  exact List.mem_map_of_mem (List.mem_append_left _ he)

theorem Kept.fired_lt (h : Kept s) : ∀ f ∈ s.fired, f.event.due < s.clock.nanos := by
  intro f hf
  exact Nat.lt_of_lt_of_le (h.punctual f hf).1 (h.ran f hf)

theorem Kept.tick (h : Kept s) {nowTms : TcmTimestamp} (hl : s.Later nowTms) : Kept { s with clock := nowTms } where
  toProper := ⟨h.alive, h.ordered, h.stored, h.keys, h.counted, h.accounted, h.punctual, h.waiting⟩
  called := fun c hc => ⟨(h.called c hc).1, Nat.le_trans (h.called c hc).2 hl.2⟩
  ran := fun f hf => Nat.le_trans (h.ran f hf) hl.2
  numbered := h.numbered

/-- An event is added whose milliseconds can be added to the time. -/
theorem Kept.enqueue (h : Kept s) {func ctxData : Nat} {ms : BitVec 32} {name : Option (List Char)} {nowTms : TcmTimestamp}
    (hl : s.Later nowTms) (hnew : tcmTmrIsEventPresent s.handle func ctxData = false) (ha : nowTms.Addable ms)
    (hlen : s.handle.events.length + 1 < 2 ^ 32) :
    Kept { s with
      handle := ⟨s.handle.events.orderedInsert Earlier (newTimerEvent func ctxData ms name nowTms s.numSet),
        s.handle.numEvents + 1⟩
      clock := nowTms
      numSet := s.numSet + 1 } := by
  have hstored : (newTimerEvent func ctxData ms name nowTms s.numSet).Stored := (TcmTimestamp.addMilliSeconds_iff hl.1).2 ha
  have hserial : (newTimerEvent func ctxData ms name nowTms s.numSet).serial = s.numSet := rfl
  have hkey : (newTimerEvent func ctxData ms name nowTms s.numSet).key = (func, ctxData) := rfl
  have hdue : nowTms.nanos ≤ (newTimerEvent func ctxData ms name nowTms s.numSet).due := Nat.le_add_right _ _
  generalize newTimerEvent func ctxData ms name nowTms s.numSet = e at hstored hserial hkey hdue ⊢
  have hperm : (s.handle.events.orderedInsert Earlier e).Perm (e :: s.handle.events) := List.perm_orderedInsert _ _ _
  have hcounted := h.counted
  obtain ⟨hfired, hevents, hcross⟩ := List.pairwise_append.1 h.ordered
  refine ⟨⟨h.alive, ?_, ?_, ?_, ?_, ?_, h.punctual, ?_⟩, (h.tick hl).called, (h.tick hl).ran, ?_⟩
  · refine List.pairwise_append.2 ⟨hfired, orderedInsert_ordered h.stored hstored
      (fun a ha => hserial ▸ h.serial_lt a ha) hevents, ?_⟩
    intro a ha b hb
    rw [List.mem_orderedInsert] at hb
    rcases hb with rfl | hb
    · obtain ⟨f, hf, rfl⟩ := List.mem_map.1 ha
      exact Or.inl (Nat.lt_of_lt_of_le (h.fired_lt f hf) (Nat.le_trans hl.2 hdue))
    · exact hcross a ha b hb
  · intro a ha
    rcases List.mem_cons.1 (hperm.mem_iff.1 ha) with rfl | ha
    · exact hstored
    · exact h.stored a ha
  · rw [(hperm.map key).nodup_iff, List.map_cons, List.nodup_cons, hkey]
    refine ⟨?_, h.keys⟩
    intro hmem
    obtain ⟨a, ha, hak⟩ := List.mem_map.1 hmem
    exact absurd hnew (by rw [tcmTmrIsEventPresent, List.any_eq_false]; simpa using ⟨a, ha, hak⟩)
  · show (s.handle.numEvents + 1).toNat = _
    rw [hperm.length_eq, List.length_cons, BitVec.toNat_add, hcounted]
    exact Nat.mod_eq_of_lt hlen
  · rw [List.range_succ]
    have hcons := (hperm.append_right (s.fired.map (·.event) ++ s.cancelled)).map (·.serial)
    refine hcons.trans ?_
    rw [List.cons_append, List.map_cons, hserial]
    exact (h.accounted.cons s.numSet).trans (List.perm_append_singleton _ _).symm
  · intro a ha
    rcases List.mem_cons.1 (hperm.mem_iff.1 ha) with rfl | ha
    · intro r hr hlt
      exact absurd (h.numbered r hr) (by omega)
    · exact h.waiting a ha
  · intro r hr
    exact Nat.le_succ_of_le (h.numbered r hr)

/-- `tcmTmr_set` keeps the invariant. -/
theorem Kept.set (h : Kept s) {func ctxData : Nat} {ms : BitVec 32} {name : Option (List Char)} {nowTms : TcmTimestamp}
    {allocated : Bool} (hl : s.Later nowTms) (hfits : s.Fits (.set func ctxData ms name nowTms allocated)) :
    Kept (s.afterSet nowTms (tcmTmrSet s.handle func ctxData ms name nowTms allocated s.numSet)) := by
  unfold tcmTmrSet
  by_cases hnew : tcmTmrIsEventPresent s.handle func ctxData = true
  · rw [if_pos hnew]
    exact h.tick hl
  · rw [if_neg hnew]
    by_cases hname : nameTooLong name = true
    · rw [if_pos hname]
      exact h.tick hl
    · rw [if_neg hname]
      cases allocated with
      | false => exact h.tick hl
      | true =>
        obtain ⟨ha, hlen⟩ := hfits (eq_false_of_ne_true hnew) (eq_false_of_ne_true hname) rfl
        rw [enqueue_eq h.counted]
        exact h.enqueue hl (eq_false_of_ne_true hnew) ha hlen

/-- An event leaves the list; what is counted and looked up stays right. -/
theorem Kept.without (h : Kept s) {before after : List TcmTimerEvent} {e : TcmTimerEvent}
    (heq : s.handle.events = before ++ e :: after) :
    ((before ++ after).map key).Nodup ∧ (s.handle.numEvents - 1).toNat = (before ++ after).length ∧
      (∀ a ∈ before ++ after, a ∈ s.handle.events) ∧ s.handle.events.Perm (e :: (before ++ after)) := by
  have hsub : (before ++ after).Sublist s.handle.events := by
    rw [heq]
    exact (List.Sublist.refl before).append (List.sublist_cons_self e after)
  have hcounted := h.counted
  rw [heq, List.length_append, List.length_cons] at hcounted
  refine ⟨h.keys.sublist (hsub.map key), ?_, fun a ha => hsub.subset ha, heq ▸ List.perm_middle⟩
  have hone : (1 : BitVec 32).toNat = 1 := rfl
  have hlt := s.handle.numEvents.isLt
  rw [BitVec.toNat_sub, List.length_append, hone]
  omega

/-- `tcmTmr_cancel` keeps the invariant. -/
theorem Kept.cancel (h : Kept s) {func ctxData : Nat} : Kept (s.afterCancel (tcmTmrCancel s.handle func ctxData)) := by
  cases hc : tcmTmrCancel s.handle func ctxData with
  | mk found handle =>
    cases found with
    | none => exact h
    | some e =>
      obtain ⟨before, after, heq, rfl⟩ := tcmTmrCancel_eq_some hc
      obtain ⟨hkeys, hcount, hsub, hperm⟩ := h.without heq
      obtain ⟨hfired, hevents, hcross⟩ := List.pairwise_append.1 h.ordered
      refine ⟨⟨h.alive, ?_, fun a ha => h.stored a (hsub a ha), hkeys, hcount, ?_, h.punctual,
        fun a ha => h.waiting a (hsub a ha)⟩, h.called, h.ran, h.numbered⟩
      · refine List.pairwise_append.2 ⟨hfired, ?_, fun a ha b hb => hcross a ha b (hsub b hb)⟩
        rw [heq] at hevents
        exact hevents.sublist ((List.Sublist.refl before).append (List.sublist_cons_self e after))
      · refine List.Perm.trans (List.Perm.map _ ?_) h.accounted
        show ((before ++ after) ++ (s.fired.map (·.event) ++ (s.cancelled ++ [e]))).Perm _
        rw [← List.append_assoc, ← List.append_assoc, ← List.append_assoc]
        refine (List.perm_append_singleton e _).trans ?_
        exact (hperm.symm.append_right _).append_right _

/-- The test of the loop keeps the invariant: the first event is run when the call is later than its expiry, and the call
returns when it is not. -/
theorem Kept.test (h : Kept s) {nowTms : TcmTimestamp} {rest : List ExecuteCall} (hcalls : s.calls = ⟨nowTms, false⟩ :: rest) :
    Kept (s.afterTest ⟨nowTms, false⟩ rest (takeExpired s.handle nowTms)) := by
  have hcalled := h.called
  rw [hcalls] at hcalled
  obtain ⟨hvalid, hpast⟩ := hcalled _ List.mem_cons_self
  cases hx : takeExpired s.handle nowTms with
  | none =>
    have hleft := takeExpired_eq_none hvalid h.stored (List.pairwise_append.1 h.ordered).2.1 hx
    refine ⟨⟨h.alive, h.ordered, h.stored, h.keys, h.counted, h.accounted, h.punctual, ?_⟩,
      fun c hc => hcalled c (List.mem_cons_of_mem _ hc), h.ran, ?_⟩
    · intro e he r hr hlt
      rcases List.mem_append.1 hr with hr | hr
      · exact h.waiting e he r hr hlt
      · rw [List.mem_singleton.1 hr]
        exact hleft e he
    · intro r hr
      rcases List.mem_append.1 hr with hr | hr
      · exact h.numbered r hr
      · rw [List.mem_singleton.1 hr]
        exact Nat.le_refl _
  | some taken =>
    obtain ⟨e, handle⟩ := taken
    obtain ⟨hearlier, tail, heq, rfl⟩ := takeExpired_eq_some hx
    have hsplit : s.handle.events = [] ++ e :: tail := heq
    obtain ⟨hkeys, hcount, hsub, hperm⟩ := h.without hsplit
    have he : e ∈ s.handle.events := heq ▸ List.mem_cons_self
    have hstored := h.stored e he
    rw [TcmTimestamp.isEarlierThan_iff hstored.1 hvalid, hstored.2] at hearlier
    refine ⟨⟨h.alive, ?_, fun a ha => h.stored a (hsub a ha), hkeys, hcount, ?_, ?_,
      fun a ha => h.waiting a (hsub a ha)⟩, ?_, ?_, h.numbered⟩
    · have hordered := h.ordered
      rw [heq] at hordered
      simpa [afterTest] using hordered
    · refine List.Perm.trans (List.Perm.map _ ?_) h.accounted
      rw [heq]
      simp only [afterTest, List.map_append, List.map_cons, List.map_nil, List.append_assoc, List.cons_append, List.nil_append]
      rw [← List.append_assoc, ← List.append_assoc]
      exact List.perm_middle
    · intro f hf
      rcases List.mem_append.1 hf with hf | hf
      · exact h.punctual f hf
      · rw [List.mem_singleton.1 hf]
        exact ⟨hearlier, h.waiting e he⟩
    · intro c hc
      rcases List.mem_cons.1 hc with rfl | hc
      · exact ⟨hvalid, hpast⟩
      · exact hcalled c (List.mem_cons_of_mem _ hc)
    · intro f hf
      rcases List.mem_append.1 hf with hf | hf
      · exact h.ran f hf
      · rw [List.mem_singleton.1 hf]
        exact hpast

/-- Every step that fits keeps the invariant. -/
theorem Kept.step (h : Kept s) {a : TimerAct} (hfits : s.Fits a) (hs : s.step a = some t) : Kept t := by
  cases a with
  | set func ctxData ms name nowTms allocated =>
    simp only [TimerState.step] at hs
    split at hs
    · rename_i hc
      obtain rfl := Option.some.inj hs
      exact h.set hc.2 hfits
    · cases hs
  | cancel func ctxData =>
    simp only [TimerState.step] at hs
    split at hs
    · obtain rfl := Option.some.inj hs
      exact h.cancel
    · cases hs
  | getTimeToNextEvent nowTms =>
    simp only [TimerState.step] at hs
    split at hs
    · rename_i hc
      obtain rfl := Option.some.inj hs
      exact h.tick hc.2
    · cases hs
  | executeExpiredEvents nowTms =>
    simp only [TimerState.step] at hs
    split at hs
    · rename_i hc
      obtain rfl := Option.some.inj hs
      refine ⟨⟨h.alive, h.ordered, h.stored, h.keys, h.counted, h.accounted, h.punctual, h.waiting⟩, ?_,
        (h.tick hc.2).ran, h.numbered⟩
      intro c hmem
      rcases List.mem_cons.1 hmem with rfl | hmem
      · exact ⟨hc.2.1, Nat.le_refl _⟩
      · exact (h.tick hc.2).called c hmem
    · cases hs
  | loopTest =>
    simp only [TimerState.step] at hs
    split at hs
    · rename_i nowTms rest hcalls
      obtain rfl := Option.some.inj hs
      exact h.test hcalls
    · cases hs
  | handlerReturns =>
    simp only [TimerState.step] at hs
    split at hs
    · rename_i nowTms rest hcalls
      obtain rfl := Option.some.inj hs
      refine ⟨⟨h.alive, h.ordered, h.stored, h.keys, h.counted, h.accounted, h.punctual, h.waiting⟩, ?_, h.ran, h.numbered⟩
      have hcalled := h.called
      rw [hcalls] at hcalled
      intro c hmem
      rcases List.mem_cons.1 hmem with rfl | hmem
      · exact hcalled ⟨nowTms, true⟩ List.mem_cons_self
      · exact hcalled c (List.mem_cons_of_mem _ hmem)
    · cases hs

/-- A set event expires no earlier than the clock shows, so it is no event for a call that is going on. -/
theorem Kept.set_expired (h : Kept s) {func ctxData : Nat} {ms : BitVec 32} {name : Option (List Char)} {nowTms : TcmTimestamp}
    {allocated : Bool} (hl : s.Later nowTms) {c : ExecuteCall} (hc : c ∈ s.calls) :
    (s.afterSet nowTms (tcmTmrSet s.handle func ctxData ms name nowTms allocated s.numSet)).expired c.nowTms ≤
      s.expired c.nowTms := by
  unfold tcmTmrSet
  split
  · exact Nat.le_refl _
  split
  · exact Nat.le_refl _
  split
  · exact Nat.le_refl _
  rw [enqueue_eq h.counted]
  unfold expired
  have hdue : nowTms.nanos ≤ (newTimerEvent func ctxData ms name nowTms s.numSet).due := Nat.le_add_right _ _
  have hpast := (h.called c hc).2
  have hnew : ¬(newTimerEvent func ctxData ms name nowTms s.numSet).due < c.nowTms.nanos :=
    Nat.not_lt.2 (Nat.le_trans hpast (Nat.le_trans hl.2 hdue))
  refine Nat.le_of_eq ((List.Perm.countP_eq _ (List.perm_orderedInsert _ _ _)).trans ?_)
  exact List.countP_cons_of_neg (by simpa using hnew)

/-- The test of the loop ends the call or takes an expired event from the list. -/
theorem Kept.test_expired (h : Kept s) {nowTms : TcmTimestamp} {rest : List ExecuteCall}
    (hcalls : s.calls = ⟨nowTms, false⟩ :: rest) :
    s.Drains .loopTest (s.afterTest ⟨nowTms, false⟩ rest (takeExpired s.handle nowTms)) := by
  cases hx : takeExpired s.handle nowTms with
  | none =>
    refine ⟨fun c _ => Nat.le_refl _, ?_⟩
    intro c rest' _ heq
    rw [hcalls] at heq
    exact Or.inl (List.cons.inj heq).2
  | some taken =>
    obtain ⟨e, handle⟩ := taken
    obtain ⟨hearlier, tail, heq, rfl⟩ := takeExpired_eq_some hx
    have hvalid := (h.called ⟨nowTms, false⟩ (hcalls ▸ List.mem_cons_self)).1
    have hstored := h.stored e (heq ▸ List.mem_cons_self)
    rw [TcmTimestamp.isEarlierThan_iff hstored.1 hvalid, hstored.2] at hearlier
    refine ⟨?_, ?_⟩
    · intro c _
      unfold expired
      rw [heq]
      exact (List.sublist_cons_self e tail).countP_le
    · intro c rest' _ hc
      rw [hcalls] at hc
      obtain ⟨rfl, rfl⟩ := List.cons.inj hc
      right
      unfold expired
      rw [heq, List.countP_cons_of_pos (by simpa using hearlier)]
      exact Nat.lt_succ_self _

/-- Every step leaves a call at most the events it had to run. -/
theorem Kept.drains (h : Kept s) {a : TimerAct} (hs : s.step a = some t) : s.Drains a t := by
  cases a with
  | set func ctxData ms name nowTms allocated =>
    simp only [TimerState.step] at hs
    split at hs
    · rename_i hc
      obtain rfl := Option.some.inj hs
      refine ⟨fun c hmem => h.set_expired hc.2 hmem, ?_⟩
      intro c rest ha
      cases ha
    · cases hs
  | cancel func ctxData =>
    simp only [TimerState.step] at hs
    split at hs
    · obtain rfl := Option.some.inj hs
      refine ⟨?_, fun c rest ha => by cases ha⟩
      intro c _
      cases hx : tcmTmrCancel s.handle func ctxData with
      | mk found handle =>
        cases found with
        | none => exact Nat.le_refl _
        | some e =>
          obtain ⟨before, after, heq, rfl⟩ := tcmTmrCancel_eq_some hx
          unfold expired
          rw [heq]
          exact ((List.Sublist.refl before).append (List.sublist_cons_self e after)).countP_le
    · cases hs
  | loopTest =>
    simp only [TimerState.step] at hs
    split at hs
    · rename_i nowTms rest hcalls
      obtain rfl := Option.some.inj hs
      exact h.test_expired hcalls
    · cases hs
  | getTimeToNextEvent nowTms | executeExpiredEvents nowTms | handlerReturns =>
    simp only [TimerState.step] at hs
    split at hs
    · obtain rfl := Option.some.inj hs
      exact ⟨fun c _ => Nat.le_refl _, fun c rest ha => by cases ha⟩
    · cases hs

/-- An event is cancelled, and the handler of another one sets it again and looks for expired events itself. -/
def nestedActs : List TimerAct :=
  [.set 1 0 700 (some ['a']) ⟨5, 0⟩ true, .set 2 0 250 none ⟨5, 0⟩ true, .cancel 1 0, .getTimeToNextEvent ⟨5, 100000000⟩,
    .executeExpiredEvents ⟨6, 0⟩, .loopTest, .set 1 0 10 none ⟨6, 0⟩ true, .executeExpiredEvents ⟨7, 0⟩, .loopTest,
    .handlerReturns, .loopTest, .handlerReturns, .loopTest]

/-- Two events that expire together, the second set half a second after the first. -/
def togetherActs : List TimerAct :=
  [.set 1 0 1000 none ⟨5, 0⟩ true, .set 2 0 500 none ⟨5, 500000000⟩ true]

/-- **The timer list.** In every run whose steps all fit, every state is proper: the list is sorted with equal expiries in the
order of insertion, its keys are distinct and its length is the count, and every event that was set is waiting, cancelled, or
has run once, in order, during the first call that was late enough; and no call runs handlers for ever. -/
theorem timer_proper {clock : TcmTimestamp} {tr : List (Transition TimerState TimerAct)}
    (hr : Run (Step.ofOption TimerState.step) (init clock) tr s) (hfits : Meets Fits tr) : Proper s ∧ Always Drains tr :=
  ⟨(Run.invariant kept_init (fun _ _ _ hk hc hs => Kept.step hk hc hs) hr hfits).toProper,
    Run.always kept_init (fun _ _ _ hk hc hs => ⟨Kept.step hk hc hs, Kept.drains hk hs⟩) hr hfits⟩

/-- One event is set and cancelled, another one runs and sets it again from its handler, and both have run in the end. -/
theorem timer_proper_nested :
    (play TimerState.step (init ⟨4, 0⟩) nestedActs).2.fired.map (·.event.func) = [2, 1] ∧
      Proper (play TimerState.step (init ⟨4, 0⟩) nestedActs).2 ∧ Always Drains (play TimerState.step (init ⟨4, 0⟩) nestedActs).1 :=
  ⟨by decide +kernel, timer_proper (Run.ofPlay TimerState.step _ nestedActs) (by decide +kernel)⟩

/-- Two events expire at the same time and the one that was set later comes first: the nanoseconds of its expiry come to
exactly a second, which is not carried. -/
theorem timer_tie_reversed :
    ¬∀ (clock : TcmTimestamp) (tr : List (Transition TimerState TimerAct)) (s : TimerState),
      Run (Step.ofOption TimerState.step) (init clock) tr s → Proper s := by
  intro h
  have hordered := (h ⟨5, 0⟩ _ _ (Run.ofPlay TimerState.step _ togetherActs)).ordered
  revert hordered
  decide +kernel

/-! ## How long there is to wait -/

/-- While so many milliseconds have not passed, nothing expires that has not, and a millisecond later something has; that is left open
for the longest wait, which is also that for nothing. -/
def WaitsFor (handle : TcmTimerHandle) (nowTms : TcmTimestamp) (r : TcmRet × BitVec 32) : Prop :=
  (r.1 = .success ↔ handle.events ≠ []) ∧
    (takeExpired handle nowTms = none → ∀ t : TcmTimestamp, t.Valid → t.nanos ≤ nowTms.nanosAfter r.2 → takeExpired handle t = none) ∧
    (r.2 ≠ maxUint32 → ∀ t : TcmTimestamp, t.Valid → nowTms.nanosAfter r.2 + 1000000 ≤ t.nanos → takeExpired handle t ≠ none)

theorem takeExpired_cons {e : TcmTimerEvent} {es : List TcmTimerEvent} {numEvents : BitVec 32} (he : e.Stored) {t : TcmTimestamp}
    (ht : t.Valid) : takeExpired ⟨e :: es, numEvents⟩ t = none ↔ t.nanos ≤ e.due := by
  have hearlier := TcmTimestamp.isEarlierThan_iff he.1 ht
  rw [he.2] at hearlier
  unfold takeExpired
  simp only [hearlier, ite_eq_right_iff, reduceCtorEq, imp_false, Nat.not_lt]

/-- What is waited for in a list that is sorted by what its events were set for. -/
theorem waitsFor {handle : TcmTimerHandle} (hstored : ∀ e ∈ handle.events, e.Stored) {nowTms : TcmTimestamp} (hnow : nowTms.Valid) :
    WaitsFor handle nowTms (tcmTmrGetTimeToNextEvent handle nowTms) := by
  obtain ⟨events, numEvents⟩ := handle
  cases events with
  | nil => exact ⟨by simp [tcmTmrGetTimeToNextEvent], fun _ _ _ _ => rfl, fun hmax => absurd rfl hmax⟩
  | cons e es =>
    have he : e.Stored := hstored e List.mem_cons_self
    have hearlier := TcmTimestamp.isEarlierThan_iff he.1 hnow
    have hlt := TcmTimestamp.nanos_lt he.1
    rw [he.2] at hearlier hlt
    rw [tcmTmrGetTimeToNextEvent]
    dsimp only
    by_cases hpast : e.due < nowTms.nanos
    · rw [if_pos (hearlier.2 hpast)]
      refine ⟨by simp, fun hnone => ?_, fun _ t ht hle => ?_⟩
      · rw [takeExpired_cons he hnow] at hnone
        omega
      · rw [Ne, takeExpired_cons he ht]
        unfold TcmTimestamp.nanosAfter at hle
        omega
    · rw [if_neg (mt hearlier.1 hpast)]
      have hsec := he.1
      unfold TcmTimestamp.Valid at hsec
      have hms := TcmTimestamp.toNat_deltaInMilliSeconds (a := e.expireTms) hnow (by omega)
      have hsince : e.expireTms.nanosSince nowTms = e.due - nowTms.nanos := by
        have hnanos := he.2
        exact (TcmTimestamp.eq_nanosSince (by omega) (by omega)).symm
      rw [hsince] at hms
      refine ⟨by simp, fun _ t ht hle => ?_, fun hmax t ht hle => ?_⟩
      · rw [takeExpired_cons he ht]
        unfold TcmTimestamp.nanosAfter at hle
        dsimp only at hle
        omega
      · rw [Ne, takeExpired_cons he ht]
        have hne : (e.expireTms.deltaInMilliSeconds nowTms).toNat ≠ 4294967295 := fun h => hmax (BitVec.eq_of_toNat_eq h)
        unfold TcmTimestamp.nanosAfter at hle
        dsimp only at hle
        omega

/-- **The wait is exact**: in every state of a run whose steps all fit, whatever the clock shows. -/
theorem waits_exactly {clock : TcmTimestamp} {tr : List (Transition TimerState TimerAct)}
    (hr : Run (Step.ofOption TimerState.step) (init clock) tr s) (hfits : Meets Fits tr) {nowTms : TcmTimestamp} (hnow : nowTms.Valid) :
    WaitsFor s.handle nowTms (tcmTmrGetTimeToNextEvent s.handle nowTms) :=
  waitsFor (Run.invariant kept_init (fun _ _ _ hk hc hs => Kept.step hk hc hs) hr hfits).stored hnow

/-- Behind the third of the steps, the second event is waited for. -/
theorem waits_exactly_nested :
    (tcmTmrGetTimeToNextEvent (play TimerState.step (init ⟨4, 0⟩) (nestedActs.take 3)).2.handle ⟨5, 100000000⟩).2 = 150 ∧
      WaitsFor (play TimerState.step (init ⟨4, 0⟩) (nestedActs.take 3)).2.handle ⟨5, 100000000⟩
        (tcmTmrGetTimeToNextEvent (play TimerState.step (init ⟨4, 0⟩) (nestedActs.take 3)).2.handle ⟨5, 100000000⟩) :=
  ⟨by decide +kernel, waits_exactly (Run.ofPlay TimerState.step _ (nestedActs.take 3)) (by decide +kernel) (by decide)⟩

end TimerState

end CodeFactory.Oal
