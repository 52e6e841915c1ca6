import Mathlib.Algebra.Ring.Int.Defs
import Mathlib.Algebra.Ring.Nat
import CodeFactory.Sched.Moves

/-!
# Specific entity ids

`MAKE_SPECIFIC_EID` packs a process id and a generic id into a word, and the records of an application that can have several
instances are looked up by such words. `PID_IN_EID` takes its bits from the wrong half: it gives zero for every word.
-/

namespace CodeFactory.Sched

open Oal Msg Scheduler

/-! ## The word -/

theorem genericEid_toNat (e : BitVec 32) : (genericEid e).toNat = e.toNat % 2 ^ 16 := by
  rw [genericEid, BitVec.toNat_and]
  exact Nat.and_two_pow_sub_one_eq_mod e.toNat 16

theorem pidInEid_eq_zero (e : BitVec 32) : pidInEid e = 0 := by
  apply BitVec.eq_of_toNat_eq
  have hmask : (e &&& eidEidMask).toNat = e.toNat % 2 ^ 16 := genericEid_toNat e
  rw [pidInEid, BitVec.toNat_ushiftRight, hmask, Nat.shiftRight_eq_div_pow]
  exact Nat.div_eq_of_lt (Nat.mod_lt _ (by decide))

/-- The word of a process id of 16 bits. -/
theorem makeSpecificEid_toNat {p : BitVec 32} (hp : p.toNat < 2 ^ 16) (e : BitVec 32) :
    (makeSpecificEid p e).toNat = p.toNat * 2 ^ 16 + e.toNat % 2 ^ 16 := by
  have hmask : (e &&& eidEidMask).toNat = e.toNat % 2 ^ 16 := genericEid_toNat e
  have hlt : e.toNat % 2 ^ 16 < 2 ^ 16 := Nat.mod_lt _ (by decide)
  rw [makeSpecificEid, BitVec.toNat_or, BitVec.toNat_shiftLeft, hmask, Nat.mod_eq_of_lt, ← Nat.shiftLeft_add_eq_or_of_lt hlt,
    Nat.shiftLeft_eq]
  rw [Nat.shiftLeft_eq]
  omega

theorem genericEid_makeSpecificEid {p : BitVec 32} (hp : p.toNat < 2 ^ 16) (e : BitVec 32) :
    genericEid (makeSpecificEid p e) = genericEid e := by
  apply BitVec.eq_of_toNat_eq
  rw [genericEid_toNat, makeSpecificEid_toNat hp, genericEid_toNat]
  omega

/-- The word of a process that `fork` gave a process id of 16 bits. -/
def specificEidOf (pid : Int) (e : BitVec 32) : BitVec 32 := makeSpecificEid (BitVec.ofInt 32 pid) e

/-- Process ids are positive, and have 16 bits here. -/
def IsPid (pid : Int) : Prop := 0 < pid ∧ pid < 2 ^ 16

theorem toNat_ofInt_of_isPid {pid : Int} (h : IsPid pid) : (BitVec.ofInt 32 pid).toNat = pid.toNat := by
  obtain ⟨hpos, hlt⟩ := h
  rw [BitVec.toNat_ofInt]
  omega

theorem specificEidOf_toNat {pid : Int} (h : IsPid pid) (e : BitVec 32) :
    (specificEidOf pid e).toNat = pid.toNat * 2 ^ 16 + e.toNat % 2 ^ 16 := by
  obtain ⟨hpos, hlt⟩ := id h
  rw [specificEidOf, makeSpecificEid_toNat, toNat_ofInt_of_isPid h]
  rw [toNat_ofInt_of_isPid h]
  omega

/-- Two such words are the same when both parts are. -/
theorem specificEidOf_inj {pid pid' : Int} (h : IsPid pid) (h' : IsPid pid') {e e' : BitVec 32}
    (heq : specificEidOf pid e = specificEidOf pid' e') : pid = pid' ∧ genericEid e = genericEid e' := by
  have hnat := congrArg BitVec.toNat heq
  rw [specificEidOf_toNat h, specificEidOf_toNat h'] at hnat
  obtain ⟨hpos, hlt⟩ := h
  obtain ⟨hpos', hlt'⟩ := h'
  refine ⟨by omega, BitVec.eq_of_toNat_eq ?_⟩
  rw [genericEid_toNat, genericEid_toNat]
  omega

theorem specificEidOf_ne_generic {pid : Int} (h : IsPid pid) {e e' : BitVec 32} (he : genericEid e' = e') :
    specificEidOf pid e ≠ e' := by
  intro heq
  have hnat := congrArg BitVec.toNat heq
  rw [specificEidOf_toNat h, ← he, genericEid_toNat] at hnat
  obtain ⟨hpos, hlt⟩ := h
  omega

theorem specificEidOf_ne_zero {pid : Int} (h : IsPid pid) (e : BitVec 32) : specificEidOf pid e ≠ 0 :=
  specificEidOf_ne_generic h rfl

/-! ## What is claimed of the records -/

namespace Scheduler

/-- A record of an instance is found under the id that its process has, and under the id that it keeps. -/
def Identified (s : Scheduler) : Prop :=
  ∀ p d, s.dlsInfos.get? p = some d → d.eInfo.multiple = true →
    (d.pid ≠ 0 → getExistingDlsInfo s (specificEidOf d.pid d.eInfo.eid) = some (p, d)) ∧
      (d.specificEid ≠ 0 → getExistingDlsInfo s d.specificEid = some (p, d))

/-- The id has a process id in it, and its application can have several instances. -/
def IsInstance (T : EntityTable) (eid : BitVec 32) : Prop :=
  genericEid eid ≠ eid ∧ ∃ e, tcmEidGetEntityInfo T (genericEid eid) = some e ∧ e.multiple = true

/-- **What a step has to do with the ids**: leave every record where its id finds it, and give the connection of an instance to the
record that its id finds. -/
def KeepsIds (T : EntityTable) (s : Scheduler) (a : Kernel × Act) (t : Scheduler) : Prop :=
  Identified t ∧ ∀ c eid, s.connects T a.1 a.2 = some (c, eid) → IsInstance T eid →
    ∃ p d, getExistingDlsInfo t eid = some (p, d) ∧ d.commFd = c

/-- The processes that are started in a step have process ids that are in no record, and no two of them have the same; a connection
of an instance is of one that has a record. -/
def IdsFit (T : EntityTable) (s : Scheduler) (a : Kernel × Act) : Prop :=
  (∀ n pid, a.1.spawn n = some pid → IsPid pid ∧ (∀ m, a.1.spawn m = some pid → m = n) ∧
    ∀ p d, s.dlsInfos.get? p = some d → d.specificEid ≠ specificEidOf pid d.eInfo.eid) ∧
  ∀ c eid, s.connects T a.1 a.2 = some (c, eid) → IsInstance T eid → getExistingDlsInfo s eid ≠ none

end Scheduler

/-! ## The invariant -/

/-- The ids of the records of instances: an id is of a process id and of the application, that of the process as long as there is
one, and no two records have the same. -/
structure Ids (T : EntityTable) (s : Scheduler) : Prop where
  known : Known T s
  shape : ∀ p d, s.dlsInfos.get? p = some d → d.eInfo.multiple = true →
    (d.specificEid ≠ 0 → ∃ pid, IsPid pid ∧ d.specificEid = specificEidOf pid d.eInfo.eid) ∧
      (d.pid ≠ 0 → IsPid d.pid ∧ d.specificEid = specificEidOf d.pid d.eInfo.eid)
  unique : ∀ p q d d', s.dlsInfos.get? p = some d → s.dlsInfos.get? q = some d' → d.eInfo.multiple = true →
    d'.eInfo.multiple = true → d.specificEid = d'.specificEid → d.specificEid ≠ 0 → p = q

/-- The ids while a step from `s₀` is going on: each was there before, or is of a process that was started on the way. -/
structure StepIds (T : EntityTable) (k : Kernel) (s₀ s : Scheduler) : Prop where
  ids : Ids T s
  origin : ∀ p d, s.dlsInfos.get? p = some d → d.eInfo.multiple = true → d.specificEid ≠ 0 →
    (∃ p₀ d₀, s₀.dlsInfos.get? p₀ = some d₀ ∧ d₀.specificEid = d.specificEid ∧ d₀.eInfo.eid = d.eInfo.eid) ∨
      ∃ n pid, n < s.asked ∧ k.spawn n = some pid ∧ d.specificEid = specificEidOf pid d.eInfo.eid

variable {T : EntityTable} {k : Kernel} {L : Limits} {s₀ s t : Scheduler} {p q : Nat} {d d' : DlsInfo}

/-- The id of an instance finds its record only. -/
theorem Ids.getExisting (h : Ids T s) (hp : s.dlsInfos.get? p = some d) (hm : d.eInfo.multiple = true) (h0 : d.specificEid ≠ 0) :
    getExistingDlsInfo s d.specificEid = some (p, d) := by
  refine Pool.first_eq_some hp (by simp [hm]) fun q d' hq htest => ?_
  by_cases hm' : d'.eInfo.multiple = true
  · rw [if_pos hm', decide_eq_true_eq] at htest
    exact h.unique q p d' d hq hp hm' hm htest (htest ▸ h0)
  · rw [if_neg hm', decide_eq_true_eq] at htest
    obtain ⟨pid, hpid, heq⟩ := (h.shape p d hp hm).1 h0
    exact absurd (heq.symm.trans htest.symm) (specificEidOf_ne_generic hpid (h.known.entry q d' hq).2)

theorem Ids.identified (h : Ids T s) : Identified s := by
  intro p d hp hm
  refine ⟨fun hpid => ?_, h.getExisting hp hm⟩
  obtain ⟨hpid, heq⟩ := (h.shape p d hp hm).2 hpid
  rw [← heq]
  exact h.getExisting hp hm (heq ▸ specificEidOf_ne_zero hpid _)

theorem Ids.start (fd : Int) : Ids T (Scheduler.start fd) := by
  have hnone : ∀ p d, (Scheduler.start fd).dlsInfos.get? p ≠ some d := fun p d => nofun
  exact ⟨Known.start fd, fun p d hp => absurd hp (hnone p d), fun p _ d _ hp => absurd hp (hnone p d)⟩

theorem Ids.begin (h : Ids T s) : StepIds T k s s := ⟨h, fun p d hp _ _ => .inl ⟨p, d, hp, rfl, rfl⟩⟩

/-- The ids stay right when every record of an instance keeps its id, and its process id or none, or is without an id and a
process. -/
theorem StepIds.of_records (h : StepIds T k s₀ s) (hk : Known T t) (hasked : s.asked ≤ t.asked)
    (hrec : ∀ p d, t.dlsInfos.get? p = some d → d.eInfo.multiple = true →
      (∃ d₀, s.dlsInfos.get? p = some d₀ ∧ d₀.eInfo = d.eInfo ∧ d₀.specificEid = d.specificEid ∧ (d.pid = d₀.pid ∨ d.pid = 0)) ∨
        d.pid = 0 ∧ d.specificEid = 0) : StepIds T k s₀ t := by
  refine ⟨⟨hk, fun p d hp hm => ?_, fun p q d d' hp hq hm hm' heq h0 => ?_⟩, fun p d hp hm h0 => ?_⟩
  · rcases hrec p d hp hm with ⟨d₀, hp₀, he, hid, hpid⟩ | ⟨hpid, hid⟩
    · obtain ⟨hshape, hpid₀⟩ := h.ids.shape p d₀ hp₀ (he ▸ hm)
      rw [he, hid] at hshape hpid₀
      refine ⟨hshape, fun hne => ?_⟩
      have hpid := hpid.resolve_right hne
      rw [hpid] at hne ⊢
      exact hpid₀ hne
    · exact ⟨fun hne => absurd hid hne, fun hne => absurd hpid hne⟩
  · rcases hrec p d hp hm with ⟨d₀, hp₀, he, hid, -⟩ | ⟨-, hid⟩
    · rcases hrec q d' hq hm' with ⟨d₁, hq₁, he', hid', -⟩ | ⟨-, hid'⟩
      · exact h.ids.unique p q d₀ d₁ hp₀ hq₁ (he ▸ hm) (he' ▸ hm') (hid.trans (heq.trans hid'.symm)) (hid ▸ h0)
      · exact absurd (heq.trans hid') h0
    · exact absurd hid h0
  · rcases hrec p d hp hm with ⟨d₀, hp₀, he, hid, -⟩ | ⟨-, hid⟩
    · rcases h.origin p d₀ hp₀ (he ▸ hm) (hid ▸ h0) with ⟨p₁, d₁, hp₁, hid₁, he₁⟩ | ⟨n, pid, hn, hspawn, hid₁⟩
      · exact .inl ⟨p₁, d₁, hp₁, hid₁.trans hid, he₁.trans (congrArg _ he)⟩
      · exact .inr ⟨n, pid, Nat.lt_of_lt_of_le hn hasked, hspawn, by rw [← hid, hid₁, he]⟩
    · exact absurd hid h0

/-- What `IdsFit` says of the processes that are started. -/
def Spawns (k : Kernel) (s₀ : Scheduler) : Prop :=
  ∀ n pid, k.spawn n = some pid → IsPid pid ∧ (∀ m, k.spawn m = some pid → m = n) ∧
    ∀ p d, s₀.dlsInfos.get? p = some d → d.specificEid ≠ specificEidOf pid d.eInfo.eid

/-- The id of a process that is started now is in no record. -/
theorem StepIds.fresh (h : StepIds T k s₀ s) (hfit : Spawns k s₀) {pid : Int} (hspawn : k.spawn s.asked = some pid)
    (hp : s.dlsInfos.get? p = some d) (hm : d.eInfo.multiple = true) {e : BitVec 32} (he : genericEid e = e) :
    d.specificEid ≠ specificEidOf pid e := by
  obtain ⟨hpid, honly, hnew⟩ := hfit _ _ hspawn
  have hgen := (h.ids.known.entry p d hp).2
  intro heq
  have h0 : d.specificEid ≠ 0 := heq ▸ specificEidOf_ne_zero hpid e
  -- the id is of the same application
  obtain ⟨pid', hpid', heq'⟩ := (h.ids.shape p d hp hm).1 h0
  have he' : e = d.eInfo.eid := by
    have hinj := (specificEidOf_inj hpid hpid' (heq.symm.trans heq')).2
    rwa [he, hgen] at hinj
  subst he'
  rcases h.origin p d hp hm h0 with ⟨p₀, d₀, hp₀, hid, heid⟩ | ⟨n, pid₁, hn, hspawn₁, hid⟩
  · refine hnew p₀ d₀ hp₀ ?_
    rw [hid, heid, heq]
  · obtain ⟨hpid₁, -, -⟩ := hfit _ _ hspawn₁
    obtain rfl := (specificEidOf_inj hpid hpid₁ (heq.symm.trans hid)).1
    have hsame := honly n hspawn₁
    omega

theorem asked_launch (s : Scheduler) (p : Nat) (d : DlsInfo) :
    (s.launch k p d).asked = if d.eInfo.path = [] then s.asked else s.asked + 1 := by
  unfold launch
  split
  · rfl
  · split <;> rfl

/-- A launch keeps the ids right. -/
theorem StepIds.launch (h : StepIds T k s₀ s) (hfit : Spawns k s₀) (hp : s.dlsInfos.get? p = some d)
    (hk : Known T (s.launch k p d)) : StepIds T k s₀ (s.launch k p d) := by
  have hasked : s.asked ≤ (s.launch k p d).asked := by
    rw [asked_launch]
    split <;> omega
  by_cases hpath : d.eInfo.path = []
  · refine h.of_records hk hasked fun q d' hq _ => .inl ⟨d', ?_, rfl, rfl, .inl rfl⟩
    rwa [launch_dlsInfos, if_pos hpath] at hq
  have hinfos : (s.launch k p d).dlsInfos = s.dlsInfos.set p (launchedInfo d (k.spawn s.asked)) := by
    rw [launch_dlsInfos, if_neg hpath]
  cases hspawn : k.spawn s.asked with
  | none =>
    refine h.of_records hk hasked fun q d' hq _ => .inl ?_
    rw [hinfos, hspawn] at hq
    rcases get?_set_cases hp hq with hq | ⟨rfl, rfl⟩
    · exact ⟨d', hq, rfl, rfl, .inl rfl⟩
    · exact ⟨d, hp, rfl, rfl, .inr rfl⟩
  | some pid =>
    by_cases hm : d.eInfo.multiple = true
    swap
    · refine h.of_records hk hasked fun q d' hq hm' => .inl ?_
      rw [hinfos] at hq
      rcases get?_set_cases hp hq with hq | ⟨rfl, rfl⟩
      · exact ⟨d', hq, rfl, rfl, .inl rfl⟩
      · rw [launchedInfo_eInfo] at hm'
        exact absurd hm' hm
    have hnew : launchedInfo d (some pid) = { d with
        state := if d.eInfo.has appcfgMessagingCapable then .launched else .running
        pid := pid
        specificEid := specificEidOf pid d.eInfo.eid } := by
      unfold launchedInfo
      simp only [hm, if_true]
      rfl
    have hgen := (h.ids.known.entry p d hp).2
    obtain ⟨hpid, -, -⟩ := hfit _ _ hspawn
    have hcases : ∀ {q d'}, (s.launch k p d).dlsInfos.get? q = some d' → d'.eInfo.multiple = true →
        (s.dlsInfos.get? q = some d' ∧ d'.specificEid ≠ specificEidOf pid d.eInfo.eid) ∨
          q = p ∧ d'.eInfo = d.eInfo ∧ d'.pid = pid ∧ d'.specificEid = specificEidOf pid d.eInfo.eid := by
      intro q d' hq hm'
      rw [hinfos, hspawn, hnew] at hq
      rcases get?_set_cases hp hq with hq | ⟨rfl, rfl⟩
      · exact .inl ⟨hq, h.fresh hfit hspawn hq hm' hgen⟩
      · exact .inr ⟨rfl, rfl, rfl, rfl⟩
    refine ⟨⟨hk, fun q d' hq hm' => ?_, fun q₁ q₂ d₁ d₂ hq₁ hq₂ hm₁ hm₂ heq h0 => ?_⟩, fun q d' hq hm' h0 => ?_⟩
    · rcases hcases hq hm' with ⟨hq, -⟩ | ⟨rfl, he, hpid', hid⟩
      · exact h.ids.shape q d' hq hm'
      · rw [he, hpid', hid]
        exact ⟨fun _ => ⟨pid, hpid, rfl⟩, fun _ => ⟨hpid, rfl⟩⟩
    · rcases hcases hq₁ hm₁ with ⟨hq₁, hne₁⟩ | ⟨rfl, -, -, hid₁⟩
      · rcases hcases hq₂ hm₂ with ⟨hq₂, -⟩ | ⟨rfl, -, -, hid₂⟩
        · exact h.ids.unique q₁ q₂ d₁ d₂ hq₁ hq₂ hm₁ hm₂ heq h0
        · exact absurd (heq.trans hid₂) hne₁
      · rcases hcases hq₂ hm₂ with ⟨-, hne₂⟩ | ⟨rfl, -, -, -⟩
        · exact absurd (heq.symm.trans hid₁) hne₂
        · rfl
    · rcases hcases hq hm' with ⟨hq, -⟩ | ⟨rfl, he, hpid', hid⟩
      · rcases h.origin q d' hq hm' h0 with hold | ⟨n, pid₁, hn, hrest⟩
        · exact .inl hold
        · exact .inr ⟨n, pid₁, Nat.lt_of_lt_of_le hn hasked, hrest⟩
      · refine .inr ⟨s.asked, pid, ?_, hspawn, by rw [hid, he]⟩
        rw [asked_launch, if_neg hpath]
        exact Nat.lt_succ_self _

theorem asked_send (s : Scheduler) (fd : Int) (msg : TcmMsg) : (s.tcmMsgSendBySocket fd msg).asked = s.asked := by
  unfold tcmMsgSendBySocket
  split <;> rfl

theorem asked_hand (s : Scheduler) (p : Nat) (d : DlsInfo) (msg : TcmMsg) : (s.hand p d msg).asked = s.asked := by
  unfold hand
  split <;> rfl

theorem asked_deliver (s : Scheduler) (p : Nat) (d : DlsInfo) (msg : TcmMsg) : (s.deliver p d msg).asked = s.asked := by
  unfold deliver
  simp only
  split
  · exact asked_send s _ _
  · exact asked_send s _ _

theorem asked_insert (s : Scheduler) (eid : BitVec 32) : s.asked ≤ (insertDlsInfoEntry T k s eid).1.asked := by
  have hins := insertDlsInfoEntry_inserted (T := T) (k := k) s eid
  generalize insertDlsInfoEntry T k s eid = r at hins ⊢
  cases hins with
  | noFd hfd => exact Nat.le_succ _
  | server he heid hflags hfd => exact Nat.le_succ _
  | _ => exact Nat.le_refl _

/-- A move that starts no process asks the kernel perhaps. -/
theorem Move.asked_le (hm : Move T k L s t) : s.asked ≤ t.asked := by
  cases hm with
  | insert hmakes hnew => exact asked_insert s _
  | launch hp hstate =>
    rw [asked_launch]
    split <;> omega
  | take msg hp htakes =>
    refine Nat.le_of_eq ?_
    unfold takeMessage
    split
    · exact (asked_hand s _ _ _).symm
    · exact (asked_hand s _ _ _).symm
    · rw [asked_deliver, asked_hand]
    · exact (asked_hand s _ _ _).symm
  | write fd msg => exact Nat.le_of_eq (asked_send s fd msg).symm
  | disconnect hp hleaves =>
    unfold Scheduler.disconnect
    simp only
    split <;> exact Nat.le_refl _
  | @retire _ p d hp hdone ht =>
    unfold Scheduler.retire at ht
    simp only at ht
    split at ht
    · obtain ⟨evs, -, rfl⟩ := Outcome.map_eq_done.1 ht
      simp only
      split <;> exact Nat.le_refl _
    · cases ht
      split <;> exact Nat.le_refl _
  | ask => exact Nat.le_succ _

theorem newDlsInfo_specificEid (e : TcmEntityInfo) (eid : BitVec 32) : (newDlsInfo e eid).specificEid = 0 := by
  rw [newDlsInfo, if_neg]
  rw [pidInEid_eq_zero]
  rintro ⟨-, h⟩
  exact absurd h (by decide)

theorem StepIds.insert (h : StepIds T k s₀ s) (eid : BitVec 32) : StepIds T k s₀ (insertDlsInfoEntry T k s eid).1 := by
  refine h.of_records (h.ids.known.insert eid) (asked_insert s eid) fun p d hp _ => ?_
  rcases insertDlsInfoEntry_get? hp with hp | ⟨eInfo, fd, -, rfl, -⟩
  · exact .inl ⟨d, hp, rfl, rfl, .inl rfl⟩
  · exact .inr ⟨rfl, newDlsInfo_specificEid eInfo eid⟩

theorem StepIds.move (h : StepIds T k s₀ s) (hfit : Spawns k s₀) (hm : Move T k L s t) : StepIds T k s₀ t := by
  have hk := h.ids.known.move hm
  by_cases hlaunch : ∃ p d, s.dlsInfos.get? p = some d ∧ t = s.launch k p d
  · obtain ⟨p, d, hp, rfl⟩ := hlaunch
    exact h.launch hfit hp hk
  refine h.of_records hk hm.asked_le fun q d hq _ => ?_
  rcases hm.record hq with hq | ⟨eid, eInfo, fd, -, -, rfl⟩ | ⟨d₀, hq₀, hc⟩ | ⟨d₀, hq₀, ht, -⟩
  · exact .inl ⟨d, hq, rfl, rfl, .inl rfl⟩
  · exact .inr ⟨rfl, newDlsInfo_specificEid eInfo eid⟩
  · cases hc with
    | taken => exact .inl ⟨d₀, hq₀, rfl, rfl, .inl rfl⟩
    | disconnected => exact .inl ⟨d₀, hq₀, rfl, rfl, .inl rfl⟩
    | retired => exact .inr ⟨rfl, rfl⟩
  · exact absurd ⟨q, d₀, hq₀, ht⟩ hlaunch

/-! ## The steps -/

theorem foldl_deliver_asked (s : Scheduler) (p : Nat) (d : DlsInfo) (msgs : List TcmMsg) :
    (msgs.foldl (fun s msg => s.deliver p d msg) s).asked = s.asked := by
  induction msgs generalizing s with
  | nil => rfl
  | cons msg msgs ih => rw [List.foldl_cons, ih, asked_deliver]

theorem confirmed_asked (s : Scheduler) (p : Nat) (d : DlsInfo) : (s.processLaunchConfirmation p d).asked = s.asked :=
  foldl_deliver_asked _ _ _ _

/-- The acceptance of a connection keeps the ids right. -/
theorem StepIds.listen (h : Ids T s) (hk : Known T t) {fd : Int} {msg : Option TcmMsg}
    (hs : s.listenPart T k fd msg = .done t) : StepIds T k s t := by
  have hsame : ∀ {s' : Scheduler}, Known T s' → s'.dlsInfos = s.dlsInfos → s.asked ≤ s'.asked → StepIds T k s s' := by
    intro s' hk' hinfos hasked
    refine (Ids.begin h).of_records hk' hasked fun p d hp _ => .inl ⟨d, ?_, rfl, rfl, .inl rfl⟩
    rwa [hinfos] at hp
  rcases listen_cases hs with rfl | rfl | ⟨c, -, rfl | ⟨msg, -, -, -, -, s₁, rfl, hrest⟩⟩
  · exact hsame hk rfl (Nat.le_refl _)
  · exact hsame hk rfl (Nat.le_succ _)
  · exact hsame hk rfl (Nat.le_succ _)
  · have hacc : StepIds T k s (s.accepted c) := hsame ⟨h.known.interests, h.known.entry, h.known.state⟩ rfl (Nat.le_succ _)
    have hget : StepIds T k s (Sched.getDlsInfo T k (s.accepted c) msg.src).1 := by
      unfold Sched.getDlsInfo
      split
      · exact hacc
      · exact hacc.insert _
    rcases hrest with ⟨-, rfl⟩ | ⟨p, d, -, hd, rfl⟩
    · exact hget.of_records hk (Nat.le_refl _) fun p d hp _ => .inl ⟨d, hp, rfl, rfl, .inl rfl⟩
    · refine hget.of_records hk (Nat.le_of_eq (confirmed_asked _ _ _).symm) fun q d' hq _ => .inl ?_
      rw [confirmed_dlsInfos] at hq
      rcases get?_set_cases hd hq with hq | ⟨rfl, rfl⟩
      · exact ⟨d', hq, rfl, rfl, .inl rfl⟩
      · exact ⟨d, hd, rfl, rfl, .inl rfl⟩

/-- A step that fits keeps the ids right. -/
theorem Ids.step (h : Ids T s) {a : Kernel × Act} (hfit : IdsFit T s a) (hs : Scheduler.step T s a t) : Ids T t := by
  have hk := h.known.step hs
  obtain ⟨k, a⟩ := a
  obtain ⟨-, hs⟩ := hs
  by_cases hinit : ∃ stage, a = .initDls stage
  · obtain ⟨stage, rfl⟩ := hinit
    cases hs
    exact (initDls_keeps (I := StepIds T k s) (fun _ eid hs => hs.insert eid) (Ids.begin h)).ids
  by_cases hlisten : ∃ fd msg, a = .listen fd msg
  · obtain ⟨fd, msg, rfl⟩ := hlisten
    exact (StepIds.listen h hk hs).ids
  · have hparts := act_parts h.known (fun stage ha => hinit ⟨stage, ha⟩) (fun fd msg ha => hlisten ⟨fd, msg, ha⟩) hs
    exact (hparts.moves.keeps (fun _ _ hs hm => StepIds.move hs hfit.1 hm) (Ids.begin h)).ids

/-- A step that fits does with the ids what it has to do. -/
theorem Ids.keepsIds (h : Ids T s) {a : Kernel × Act} (hfit : IdsFit T s a) (hs : Scheduler.step T s a t) : KeepsIds T s a t := by
  have ht := h.step hfit hs
  refine ⟨ht.identified, fun c eid hc hinst => ?_⟩
  have hsome := hfit.2 c eid hc hinst
  obtain ⟨k, a⟩ := a
  cases a with
  | listen fd msg =>
    obtain ⟨p, d, hp, hd, rfl⟩ := listen_of_connects hc hs.2
    -- the record was there, and keeps its id
    obtain ⟨⟨q, d₀⟩, hfound⟩ := Option.ne_none_iff_exists'.1 hsome
    have hfound' : getExistingDlsInfo (s.accepted c) eid = some (q, d₀) := hfound
    have hget : getDlsInfo T k (s.accepted c) eid = (s.accepted c, some q) := by rw [getDlsInfo, hfound']
    rw [hget] at hp hd ht ⊢
    obtain rfl := Option.some.inj hp
    obtain ⟨hq, htest⟩ := Pool.get?_of_first hfound
    obtain rfl := Option.some.inj (hq.symm.trans hd)
    have hmult : d₀.eInfo.multiple = true := by
      by_contra hm
      rw [if_neg hm, decide_eq_true_eq] at htest
      have hgen := (h.known.entry q d₀ hq).2
      rw [htest] at hgen
      exact hinst.1 hgen
    rw [if_pos hmult, decide_eq_true_eq] at htest
    have h0 : d₀.specificEid ≠ 0 := by
      rw [htest]
      rintro rfl
      exact hinst.1 rfl
    refine ⟨q, { d₀ with state := .running, msgQueue := [], commFd := c }, ?_, rfl⟩
    rw [← htest]
    refine ht.getExisting (d := { d₀ with state := .running, msgQueue := [], commFd := c }) ?_ hmult h0
    rw [confirmed_dlsInfos]
    exact Pool.get?_set_self hd
  | _ => cases hc

/-- **What the specific ids are good for.** The generic id comes back from a specific id, the process id only when it is zero. In every
run of the scheduler whose steps all fit, every step leaves each record of an instance where its id finds it, so that there is one
record at most for an id, and gives the connections of instances to the records that their ids find. -/
theorem specificEid_correct (T : EntityTable) :
    (∀ p e : BitVec 32, p.toNat < 2 ^ 16 → genericEid e = e →
      genericEid (makeSpecificEid p e) = e ∧ (pidInEid (makeSpecificEid p e) = p ↔ p = 0)) ∧
    ∀ (fd : Int) (tr : List (Transition Scheduler (Kernel × Act))) (t : Scheduler), Run (Scheduler.step T) (Scheduler.start fd) tr t →
      Meets (IdsFit T) tr → Always (KeepsIds T) tr := by
  refine ⟨fun p e hp he => ⟨?_, ?_⟩, fun fd tr t hr hfits => ?_⟩
  · rw [genericEid_makeSpecificEid hp, he]
  · rw [pidInEid_eq_zero]
    exact eq_comm
  · exact hr.always (Ids.start fd) (fun _ _ _ h hfit hs => ⟨h.step hfit hs, h.keepsIds hfit hs⟩) hfits

/-- An application that can have several instances, and is started in both stages. -/
def instancesTable : EntityTable := [⟨2, ['a'], 0xCC, true⟩]

/-- A kernel that gives the process id 300 to the question of number 1, and descriptors from 7 on. -/
def instancesKernel : Kernel where
  fd n := some (7 + n)
  spawn n := if n = 1 then some 300 else none
  collect _ := none

/-- A kernel that starts no process. -/
def quietKernel : Kernel where
  fd n := some (7 + n)
  spawn _ := none
  collect _ := none

/-- The record of the application has been made. -/
def instanceKnown : Scheduler := (initDls instancesTable instancesKernel 1 (Scheduler.start 3) instancesTable).2

/-- The application has been started. -/
def instanceStarted : Scheduler :=
  instanceKnown.launch instancesKernel 0 { newDlsInfo ⟨2, ['a'], 0xCC, true⟩ 2 with serverFd := 7 }

/-- The launch message of the instance. -/
def instanceMsg : TcmMsg := { emptyMsgHeader with type := tcmMsgAppLaunched, src := 0x012C0002, dst := idSched }

/-- The connection of the instance has been accepted. -/
def instanceRunning : Scheduler :=
  (instanceStarted.accepted 9).processLaunchConfirmation 0
    { newDlsInfo ⟨2, ['a'], 0xCC, true⟩ 2 with
      state := .launched, serverFd := 7, commFd := 9, pid := 300, specificEid := 0x012C0002 }

/-- The id of the process 0 comes back; a run in which an instance is started and connects keeps the ids. -/
theorem specificEid_correct_started :
    (genericEid (makeSpecificEid 0 2) = 2 ∧ pidInEid (makeSpecificEid 0 2) = 0) ∧
    Always (KeepsIds instancesTable)
      [(Scheduler.start 3, (instancesKernel, Act.initDls 1), instanceKnown),
        (instanceKnown, (instancesKernel, Act.server 7), instanceStarted),
        (instanceStarted, (quietKernel, Act.listen 3 (some instanceMsg)), instanceRunning)] := by
  have hcorrect := specificEid_correct instancesTable
  refine ⟨?_, ?_⟩
  · obtain ⟨hgen, hpid⟩ := hcorrect.1 0 2 (by decide) (by decide)
    exact ⟨hgen, hpid.2 rfl⟩
  · refine hcorrect.2 3 _ instanceRunning (Run.cons ⟨⟨rfl, trivial⟩, rfl⟩
      (Run.cons ⟨⟨rfl, by decide⟩, rfl⟩ (Run.single ⟨⟨rfl, by decide⟩, rfl⟩))) ?_
    have hspawn : ∀ n pid, instancesKernel.spawn n = some pid → n = 1 ∧ pid = 300 := by
      intro n pid h
      obtain ⟨hn, h⟩ := Option.ite_none_right_eq_some.1 h
      exact ⟨hn, (Option.some.inj h).symm⟩
    have hfit : ∀ s : Scheduler, (∀ x ∈ s.dlsInfos.entries, x.2.specificEid ≠ specificEidOf 300 x.2.eInfo.eid) →
        ∀ n pid, instancesKernel.spawn n = some pid → IsPid pid ∧ (∀ m, instancesKernel.spawn m = some pid → m = n) ∧
          ∀ p d, s.dlsInfos.get? p = some d → d.specificEid ≠ specificEidOf pid d.eInfo.eid := by
      intro s hs n pid h
      obtain ⟨rfl, rfl⟩ := hspawn n pid h
      exact ⟨⟨by decide, by decide⟩, fun m hm => (hspawn m 300 hm).1, fun p d hp => hs (p, d) (Pool.mem_iff.2 hp)⟩
    intro x hx
    rcases List.mem_cons.1 hx with rfl | hx
    · exact ⟨hfit _ (by decide), nofun⟩
    rcases List.mem_cons.1 hx with rfl | hx
    · exact ⟨hfit _ (by decide), nofun⟩
    obtain rfl := List.mem_singleton.1 hx
    refine ⟨nofun, fun c eid hc _ => ?_⟩
    have hpair : some ((9 : Int), (0x012C0002 : BitVec 32)) = some (c, eid) := hc
    obtain ⟨-, rfl⟩ := Prod.mk.inj (Option.some.inj hpair)
    decide

/-- An instance that nobody has started from here connects. -/
def strangerMsg : TcmMsg := { emptyMsgHeader with type := tcmMsgAppLaunched, src := 0x00070002, dst := idSched }

/-- What the connection of the stranger leads to. -/
def strangerRunning : Scheduler :=
  (getDlsInfo instancesTable quietKernel ((Scheduler.start 3).accepted 7) 0x00070002).1.processLaunchConfirmation 0
    { newDlsInfo ⟨2, ['a'], 0xCC, true⟩ 2 with serverFd := 8, commFd := 7 }

/-- The process id 7 does not come back. An instance that was not started from here connects, and its id does not find its
record. -/
theorem not_specificEid_correct_stranger :
    (∃ p e : BitVec 32, p.toNat < 2 ^ 16 ∧ genericEid e = e ∧ pidInEid (makeSpecificEid p e) ≠ p) ∧
    ∃ tr t, Run (Scheduler.step instancesTable) (Scheduler.start 3) tr t ∧ ¬Always (KeepsIds instancesTable) tr := by
  refine ⟨⟨7, 2, by decide, by decide, by decide⟩,
    [(Scheduler.start 3, (quietKernel, Act.listen 3 (some strangerMsg)), strangerRunning)], strangerRunning,
    Run.single ⟨⟨rfl, by decide⟩, rfl⟩, fun h => ?_⟩
  have hkeeps := h _ List.mem_cons_self
  obtain ⟨p, d, hd, -⟩ := hkeeps.2 7 0x00070002 rfl ⟨by decide, ⟨2, ['a'], 0xCC, true⟩, rfl, by decide⟩
  have hnone : getExistingDlsInfo strangerRunning 0x00070002 = none := by decide
  rw [hnone] at hd
  cases hd

end CodeFactory.Sched
