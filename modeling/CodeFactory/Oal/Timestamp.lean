import Mathlib.Algebra.Ring.Nat
import Mathlib.Data.BitVec

/-!
# Timestamps

`timestamp.c`: seconds and nanoseconds of a clock that never goes back, 32 bits each, and the sums and differences that are formed of
them in milliseconds.
-/

namespace CodeFactory.Oal

def nsecsInSec : BitVec 32 := 1000000000

def nsecsInMsec : BitVec 32 := 1000000

def msecsInSec : BitVec 32 := 1000

def maxUint32 : BitVec 32 := 4294967295

structure TcmTimestamp where
  sec : BitVec 32
  nsec : BitVec 32
  deriving DecidableEq, Repr

namespace TcmTimestamp

def IsEarlierThan (a b : TcmTimestamp) : Prop := a.sec < b.sec ∨ a.sec = b.sec ∧ a.nsec < b.nsec

instance (a b : TcmTimestamp) : Decidable (a.IsEarlierThan b) := inferInstanceAs (Decidable (_ ∨ _ ∧ _))

/-- `tcmTms_addMilliSeconds`. -/
def addMilliSeconds (tms : TcmTimestamp) (ms : BitVec 32) : TcmTimestamp :=
  let tms : TcmTimestamp := ⟨tms.sec + ms / msecsInSec, tms.nsec + ms % msecsInSec * nsecsInMsec⟩
  if nsecsInSec < tms.nsec then ⟨tms.sec + 1, tms.nsec - nsecsInSec⟩ else tms

/-- `tcmTms_delta`. -/
def delta (newTms oldTms : TcmTimestamp) : TcmTimestamp :=
  if oldTms.sec ≤ newTms.sec then
    if oldTms.nsec ≤ newTms.nsec then ⟨newTms.sec - oldTms.sec, newTms.nsec - oldTms.nsec⟩
    else ⟨newTms.sec - oldTms.sec - 1, nsecsInSec - oldTms.nsec + newTms.nsec⟩
  else if oldTms.nsec ≤ newTms.nsec then ⟨maxUint32 - oldTms.sec + newTms.sec + 1, newTms.nsec - oldTms.nsec⟩
  else ⟨maxUint32 - oldTms.sec + newTms.sec, nsecsInSec - oldTms.nsec + newTms.nsec⟩

/-- `tcmTms_deltaInMilliSeconds`. -/
def deltaInMilliSeconds (newTms oldTms : TcmTimestamp) : BitVec 32 :=
  let deltaTms := newTms.delta oldTms
  if maxUint32 / msecsInSec < deltaTms.sec then maxUint32
  else
    let ms := deltaTms.sec * msecsInSec
    if maxUint32 - ms < deltaTms.nsec / nsecsInMsec then maxUint32 else ms + deltaTms.nsec / nsecsInMsec

/-- What the clock shows: the nanoseconds do not make up a second. -/
def Valid (tms : TcmTimestamp) : Prop := tms.nsec.toNat < 1000000000

instance (tms : TcmTimestamp) : Decidable tms.Valid := inferInstanceAs (Decidable (_ < _))

/-- The time in nanoseconds. -/
def nanos (tms : TcmTimestamp) : Nat := tms.sec.toNat * 1000000000 + tms.nsec.toNat

/-- The time `ms` milliseconds later, in nanoseconds. -/
def nanosAfter (tms : TcmTimestamp) (ms : BitVec 32) : Nat := tms.nanos + ms.toNat * 1000000

/-- The milliseconds can be added: the nanoseconds do not come to exactly a second, and the seconds fit 32 bits. -/
def Addable (tms : TcmTimestamp) (ms : BitVec 32) : Prop :=
  tms.nsec.toNat + ms.toNat % 1000 * 1000000 ≠ 1000000000 ∧ tms.nanosAfter ms < 2 ^ 32 * 1000000000

instance (tms : TcmTimestamp) (ms : BitVec 32) : Decidable (tms.Addable ms) := inferInstanceAs (Decidable (_ ∧ _))

variable {a b tms : TcmTimestamp} {ms : BitVec 32}

@[simp] theorem toNat_nsecsInSec : nsecsInSec.toNat = 1000000000 := rfl

@[simp] theorem toNat_nsecsInMsec : nsecsInMsec.toNat = 1000000 := rfl

@[simp] theorem toNat_msecsInSec : msecsInSec.toNat = 1000 := rfl

@[simp] theorem toNat_maxUint32 : maxUint32.toNat = 4294967295 := rfl

theorem isEarlierThan_iff (ha : a.Valid) (hb : b.Valid) : a.IsEarlierThan b ↔ a.nanos < b.nanos := by
  unfold IsEarlierThan nanos
  unfold Valid at ha hb
  rw [BitVec.lt_def, BitVec.lt_def, ← BitVec.toNat_inj]
  omega

/-- The nanoseconds the sum starts from. -/
theorem toNat_addNsec (h : tms.Valid) (ms : BitVec 32) :
    (tms.nsec + ms % msecsInSec * nsecsInMsec).toNat = tms.nsec.toNat + ms.toNat % 1000 * 1000000 := by
  have hr : ms.toNat % 1000 < 1000 := Nat.mod_lt _ (by decide)
  have hmul : (ms % msecsInSec * nsecsInMsec).toNat = ms.toNat % 1000 * 1000000 := by
    rw [BitVec.toNat_mul, BitVec.toNat_umod, toNat_msecsInSec, toNat_nsecsInMsec]
    exact Nat.mod_eq_of_lt (by omega)
  unfold Valid at h
  rw [BitVec.toNat_add, hmul]
  exact Nat.mod_eq_of_lt (by omega)

/-- The seconds the sum starts from. -/
theorem toNat_addSec (tms : TcmTimestamp) (ms : BitVec 32) : (tms.sec + ms / msecsInSec).toNat = (tms.sec.toNat + ms.toNat / 1000) % 2 ^ 32 := by
  simp only [BitVec.toNat_add, BitVec.toNat_udiv, toNat_msecsInSec]

theorem nanosAfter_eq : tms.nanosAfter ms =
    (tms.sec.toNat + ms.toNat / 1000) * 1000000000 + (tms.nsec.toNat + ms.toNat % 1000 * 1000000) := by
  unfold nanosAfter nanos
  omega

/-- The nanoseconds after which the seconds begin again at zero. -/
def turn : Nat := 2 ^ 32 * 1000000000

theorem nanos_lt (h : a.Valid) : a.nanos < turn := by
  have hsec := a.sec.isLt
  unfold Valid at h
  unfold nanos turn
  omega

/-- What the sum is: the time that much later, or a turn before that, with nanoseconds that may come to exactly a second. -/
theorem addMilliSeconds_spec (h : tms.Valid) (ms : BitVec 32) :
    ((tms.addMilliSeconds ms).nanos = tms.nanosAfter ms ∨ (tms.addMilliSeconds ms).nanos + turn = tms.nanosAfter ms) ∧
      (tms.addMilliSeconds ms).nsec.toNat < 1000000000 + tms.nsec.toNat ∧
      ((tms.addMilliSeconds ms).Valid ↔ tms.nsec.toNat + ms.toNat % 1000 * 1000000 ≠ 1000000000) := by
  have hnano := toNat_addNsec h ms
  have hseconds := toNat_addSec tms ms
  unfold addMilliSeconds
  simp only [BitVec.lt_def]
  rw [nanosAfter_eq, hnano, toNat_nsecsInSec]
  have hr : ms.toNat % 1000 < 1000 := Nat.mod_lt _ (by decide)
  have hs : tms.sec.toNat + ms.toNat / 1000 + 1 < 2 * 2 ^ 32 := by omega
  unfold Valid at h
  -- from here on the seconds and the nanoseconds are two numbers, the second below two seconds
  generalize ms.toNat % 1000 = r at hnano hr ⊢
  generalize tms.sec.toNat + ms.toNat / 1000 = s at hseconds hs ⊢
  by_cases hcarry : 1000000000 < tms.nsec.toNat + r * 1000000
  · rw [if_pos hcarry]
    have hone : (tms.sec + ms / msecsInSec + 1).toNat = (s + 1) % 2 ^ 32 := by
      rw [BitVec.toNat_add, hseconds]
      simp
    have hrest : (tms.nsec + ms % msecsInSec * nsecsInMsec - nsecsInSec).toNat =
        tms.nsec.toNat + r * 1000000 - 1000000000 := by
      rw [BitVec.toNat_sub, hnano, toNat_nsecsInSec]
      omega
    unfold Valid nanos turn
    rw [hone, hrest]
    omega
  · rw [if_neg hcarry]
    unfold Valid nanos turn
    rw [hseconds, hnano]
    omega

/-- **Adding milliseconds** gives the time that much later, as a valid timestamp, when they can be added, and only then. -/
theorem addMilliSeconds_iff (h : tms.Valid) :
    (tms.addMilliSeconds ms).Valid ∧ (tms.addMilliSeconds ms).nanos = tms.nanosAfter ms ↔ tms.Addable ms := by
  obtain ⟨hnanos, -, hvalid⟩ := addMilliSeconds_spec h ms
  unfold Addable
  rw [← hvalid]
  refine and_congr_right fun hv => ?_
  have hlt := nanos_lt hv
  change _ ↔ tms.nanosAfter ms < turn
  omega

/-! ## Differences -/

/-- The nanoseconds from one time to another, when the seconds may have begun again at zero in between. -/
def nanosSince (newTms oldTms : TcmTimestamp) : Nat := (newTms.nanos + turn - oldTms.nanos) % turn

/-- What is added to one time to come to the other, or to the other a turn later. -/
theorem eq_nanosSince {n : Nat} (hn : n < turn) (h : n + b.nanos = a.nanos ∨ n + b.nanos = a.nanos + turn) : n = a.nanosSince b := by
  unfold nanosSince
  obtain h | h := h
  · rw [← h, Nat.add_right_comm, Nat.add_sub_cancel, Nat.add_mod_right, Nat.mod_eq_of_lt hn]
  · rw [← h, Nat.add_sub_cancel, Nat.mod_eq_of_lt hn]

theorem toNat_borrow (hb : b.Valid) (h : a.nsec.toNat < b.nsec.toNat) :
    (nsecsInSec - b.nsec + a.nsec).toNat = 1000000000 + a.nsec.toNat - b.nsec.toNat := by
  unfold Valid at hb
  have hsub : (nsecsInSec - b.nsec).toNat = 1000000000 - b.nsec.toNat := by
    rw [BitVec.toNat_sub_of_le (by rw [BitVec.le_def, toNat_nsecsInSec]; omega), toNat_nsecsInSec]
  rw [BitVec.toNat_add, hsub, Nat.mod_eq_of_lt (by omega)]
  omega

/-- The seconds of a difference, less one, when they have begun again at zero. -/
theorem toNat_wrap (h : a.sec.toNat < b.sec.toNat) :
    (maxUint32 - b.sec + a.sec).toNat = 4294967295 + a.sec.toNat - b.sec.toNat := by
  have hbsec := b.sec.isLt
  have hsub : (maxUint32 - b.sec).toNat = 4294967295 - b.sec.toNat := by
    rw [BitVec.toNat_sub_of_le (by rw [BitVec.le_def, toNat_maxUint32]; omega), toNat_maxUint32]
  rw [BitVec.toNat_add, hsub, Nat.mod_eq_of_lt (by omega)]
  omega

/-- **A difference** is valid and that of the times, if the nanoseconds of the first are less than a second more than those of the
other. -/
theorem delta_spec (hb : b.Valid) (hab : a.nsec.toNat < 1000000000 + b.nsec.toNat) :
    (a.delta b).Valid ∧ (a.delta b).nanos = a.nanosSince b := by
  suffices h : (a.delta b).Valid ∧ ((a.delta b).nanos + b.nanos = a.nanos ∨ (a.delta b).nanos + b.nanos = a.nanos + turn) from
    ⟨h.1, eq_nanosSince (nanos_lt h.1) h.2⟩
  have hasec := a.sec.isLt
  have hbnsec : b.nsec.toNat < 1000000000 := hb
  unfold delta
  simp only [BitVec.le_def]
  by_cases hsec : b.sec.toNat ≤ a.sec.toNat
  · have hdiff : (a.sec - b.sec).toNat = a.sec.toNat - b.sec.toNat := BitVec.toNat_sub_of_le hsec
    rw [if_pos hsec]
    by_cases hnsec : b.nsec.toNat ≤ a.nsec.toNat
    · rw [if_pos hnsec]
      unfold Valid nanos
      rw [BitVec.toNat_sub_of_le hnsec, hdiff]
      omega
    · have hone : (a.sec - b.sec - 1).toNat = (4294967295 + (a.sec.toNat - b.sec.toNat)) % 2 ^ 32 := by
        rw [BitVec.toNat_sub, hdiff]
        rfl
      rw [if_neg hnsec]
      unfold Valid nanos turn
      rw [toNat_borrow hb (by omega), hone]
      omega
  · have hwrap := toNat_wrap (a := a) (b := b) (by omega)
    rw [if_neg hsec]
    by_cases hnsec : b.nsec.toNat ≤ a.nsec.toNat
    · have hone : (maxUint32 - b.sec + a.sec + 1).toNat = (4294967295 + a.sec.toNat - b.sec.toNat + 1) % 2 ^ 32 := by
        rw [BitVec.toNat_add, hwrap]
        rfl
      rw [if_pos hnsec]
      unfold Valid nanos turn
      rw [BitVec.toNat_sub_of_le hnsec, hone]
      omega
    · rw [if_neg hnsec]
      unfold Valid nanos turn
      rw [toNat_borrow hb (by omega), hwrap]
      omega

/-- A difference in milliseconds, or the greatest number where it is greater. -/
theorem toNat_deltaInMilliSeconds (hb : b.Valid) (hab : a.nsec.toNat < 1000000000 + b.nsec.toNat) :
    (a.deltaInMilliSeconds b).toNat = min (a.nanosSince b / 1000000) 4294967295 := by
  obtain ⟨hvalid, hnanos⟩ := delta_spec hb hab
  have hmillis : (a.delta b).nanos / 1000000 = (a.delta b).sec.toNat * 1000 + (a.delta b).nsec.toNat / 1000000 := by
    unfold nanos
    omega
  have hnsec : (a.delta b).nsec.toNat / 1000000 < 1000 := by
    unfold Valid at hvalid
    omega
  rw [← hnanos, hmillis]
  unfold deltaInMilliSeconds
  simp only [BitVec.lt_def, BitVec.toNat_udiv, toNat_maxUint32, toNat_msecsInSec, toNat_nsecsInMsec, Nat.reduceDiv]
  by_cases hlarge : 4294967 < (a.delta b).sec.toNat
  · rw [if_pos hlarge, toNat_maxUint32]
    exact (Nat.min_eq_right (by omega)).symm
  · have hms : ((a.delta b).sec * msecsInSec).toNat = (a.delta b).sec.toNat * 1000 := by
      rw [BitVec.toNat_mul, toNat_msecsInSec]
      exact Nat.mod_eq_of_lt (by omega)
    have hroom : (maxUint32 - (a.delta b).sec * msecsInSec).toNat = 4294967295 - (a.delta b).sec.toNat * 1000 := by
      rw [BitVec.toNat_sub_of_le (by rw [BitVec.le_def, hms, toNat_maxUint32]; omega), hms, toNat_maxUint32]
    rw [if_neg hlarge, hroom]
    clear hroom
    split
    · rw [toNat_maxUint32]
      exact (Nat.min_eq_right (by omega)).symm
    · rw [BitVec.toNat_add, hms, BitVec.toNat_udiv, toNat_nsecsInMsec, Nat.mod_eq_of_lt (by omega)]
      exact (Nat.min_eq_left (by omega)).symm

/-! ## Sums and differences -/

/-- A sum is right: it is valid and that much later, which is what the difference says. -/
def SumRight (tms : TcmTimestamp) (ms : BitVec 32) : Prop :=
  (tms.addMilliSeconds ms).Valid ∧ (tms.addMilliSeconds ms).nanosSince tms = ms.toNat * 1000000 ∧
    (tms.addMilliSeconds ms).deltaInMilliSeconds tms = ms

/-- A difference is right: it is valid and that of the times, also in milliseconds if these are not too many. -/
def DifferenceRight (newTms oldTms : TcmTimestamp) : Prop :=
  (newTms.delta oldTms).Valid ∧ (newTms.delta oldTms).nanos = newTms.nanosSince oldTms ∧
    (newTms.deltaInMilliSeconds oldTms).toNat = min (newTms.nanosSince oldTms / 1000000) 4294967295

theorem differenceRight (ha : a.Valid) (hb : b.Valid) : DifferenceRight a b := by
  unfold Valid at ha
  obtain ⟨hvalid, hnanos⟩ := delta_spec (a := a) hb (by omega)
  exact ⟨hvalid, hnanos, toNat_deltaInMilliSeconds hb (by omega)⟩

theorem nanosSince_addMilliSeconds (h : tms.Valid) : (tms.addMilliSeconds ms).nanosSince tms = ms.toNat * 1000000 := by
  have hms := ms.isLt
  obtain ⟨hnanos, -⟩ := addMilliSeconds_spec h ms
  have hafter : tms.nanosAfter ms = ms.toNat * 1000000 + tms.nanos := Nat.add_comm ..
  refine (eq_nanosSince ?_ ?_).symm
  · unfold turn
    omega
  · rw [← hafter]
    exact hnanos.imp Eq.symm Eq.symm

/-- **Timestamps are added and subtracted right**, whatever two times are subtracted, if and only if the nanoseconds of the sum do not
come to exactly a second. -/
theorem arithmetic_right_iff (h : tms.Valid) :
    (SumRight tms ms ∧ ∀ a b : TcmTimestamp, a.Valid → b.Valid → DifferenceRight a b) ↔
      tms.nsec.toNat + ms.toNat % 1000 * 1000000 ≠ 1000000000 := by
  obtain ⟨-, hnsec, hvalid⟩ := addMilliSeconds_spec h ms
  have hsince : (tms.addMilliSeconds ms).nanosSince tms = _ := nanosSince_addMilliSeconds h
  have hdelta : (tms.addMilliSeconds ms).deltaInMilliSeconds tms = ms := by
    have hms := ms.isLt
    apply BitVec.eq_of_toNat_eq
    rw [toNat_deltaInMilliSeconds h hnsec, hsince]
    omega
  rw [← hvalid]
  exact ⟨fun hright => hright.1.1, fun hv => ⟨⟨hv, hsince, hdelta⟩, fun a b ha hb => differenceRight ha hb⟩⟩

/-- Half a second is added to five seconds. -/
theorem arithmetic_right_iff_five :
    (SumRight ⟨5, 0⟩ 500 ∧ ∀ a b : TcmTimestamp, a.Valid → b.Valid → DifferenceRight a b) ↔
      (⟨5, 0⟩ : TcmTimestamp).nsec.toNat + (500 : BitVec 32).toNat % 1000 * 1000000 ≠ 1000000000 :=
  arithmetic_right_iff (by decide)

/-- Half a second more, and the sum is not valid. -/
theorem not_arithmetic_right : ¬∀ (tms : TcmTimestamp) (ms : BitVec 32), tms.Valid →
    SumRight tms ms ∧ ∀ a b : TcmTimestamp, a.Valid → b.Valid → DifferenceRight a b := by
  intro h
  have hvalid := (h ⟨5, 500000000⟩ 500 (by decide)).1.1
  revert hvalid
  decide

end TcmTimestamp

end CodeFactory.Oal
