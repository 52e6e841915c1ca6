import CodeFactory.Lib.Outcome
import CodeFactory.Result
import Mathlib.Tactic.ByContra

/-!
# The search for the lifetime of a NAT binding

`stun_binding_lifetime_query_task` waits, asks, and halves what is left between two bounds; behind an answer it looks whether what is
left is small enough, behind a timeout it sets up a new mapping and goes on. What it declares is the next time that it would have
waited for.
-/

namespace CodeFactory.Stun

/-! ## The task -/

/-- The members of `gManagementServer` that the task reads. -/
structure KeepAliveLimits where
  stunMinKeepAlivePeriod : UInt32
  stunMaxKeepAlivePeriod : UInt32

/-- What the task leaves in `gStunMappingLifetime` and `gStunKeepAlivetime`. -/
structure Discovered where
  gStunMappingLifetime : Int
  gStunKeepAlivetime : Int
  deriving DecidableEq

/-- A number as a `PAL_UINT32_T`. -/
def unsigned (n : Int) : Int := n % 4294967296

/-- A number as a `PAL_INT32_T`. -/
def signed (n : Int) : Int := n.bmod 4294967296

/-- The two globals are set. The comparisons are of unsigned numbers. The period is first set to the greater one of the lifetime and
the minimum, and then set once more. -/
def conclude (limits : KeepAliveLimits) (lifetime : Int) : Discovered where
  gStunMappingLifetime := lifetime
  gStunKeepAlivetime :=
    if limits.stunMinKeepAlivePeriod ≠ 0 ∧ limits.stunMaxKeepAlivePeriod ≠ 0 then
      signed (if unsigned lifetime < limits.stunMaxKeepAlivePeriod.toNat then unsigned lifetime
        else limits.stunMaxKeepAlivePeriod.toNat)
    else lifetime

/-- The result of an operation on numbers of type `PAL_INT32_T`. -/
def int32 (n : Int) : Outcome Int := if -2147483648 ≤ n ∧ n ≤ 2147483647 then .done n else .undefined

/-- `lowerBSearchLifetime`, `upperBSearchLifetime` and `lifetime`. -/
structure Search where
  lower : Int
  upper : Int
  lifetime : Int
  deriving DecidableEq

/-- What the calls of one round return: the request is sent and the response received, and, behind a timeout, the request for a new
mapping is sent, its response received and handled. -/
structure Exchange where
  sent : Result
  received : Result
  natSent : Result
  natReceived : Result
  natHandled : Result
  deriving DecidableEq

/-- How a round ends: with another round, or the task with `SE_NAT_MAPPING_LOST` or `SE_NAT_MAPPING_LIFETIME_DISCOVERED`. -/
inductive Next where
  | goOn (s : Search)
  | mappingLost
  | discovered (d : Discovered)
  deriving DecidableEq

/-- The bounds and the lifetime behind a timeout. -/
def Search.timedOut (s : Search) : Search :=
  if s.lifetime - s.lower ≤ 10 ∨ s.lifetime ≤ s.lower + 1 then ⟨s.lower, s.lifetime - 1, s.lower⟩
  else ⟨s.lower, s.lifetime - 1, (s.lifetime - 1 + s.lower).tdiv 2⟩

/-- One round of the loop. -/
def Search.round (limits : KeepAliveLimits) (s : Search) (x : Exchange) : Outcome Next :=
  (int32 (s.lifetime * 1000)).bind fun _ =>
    if x.sent ≠ .tcmagentOk then .done .mappingLost
    else
      match x.received with
      | .tcmagentOk =>
        (int32 (s.lifetime + 1 + s.upper)).map fun sum =>
          let lifetime := sum.tdiv 2
          if s.upper - lifetime ≤ 10 ∨ s.upper ≤ lifetime + 1 then .discovered (conclude limits lifetime)
          else .goOn ⟨s.lifetime + 1, s.upper, lifetime⟩
      | .stunErrTimeout =>
        if x.natSent ≠ .tcmagentOk ∨ x.natReceived ≠ .tcmagentOk ∨ x.natHandled ≠ .tcmagentOk then .done .mappingLost
        else .done (.goOn s.timedOut)
      | _ => .done .mappingLost

/-- A probe: how long was waited before it, and whether it was answered. -/
structure Probe where
  waited : Int
  answered : Bool
  deriving DecidableEq

/-- How the task ends. -/
inductive End where
  | mappingLost
  | discovered (d : Discovered)
  deriving DecidableEq

/-- The loop, in at most `rounds` rounds, with the probes made. What the calls return can depend on how many probes there have been
and on how long has been waited. -/
def search (limits : KeepAliveLimits) (network : Nat → Int → Exchange) :
    Nat → Search → List Probe → Outcome (End × List Probe)
  | 0, _, _ => .outOfFuel
  | rounds + 1, s, probes =>
    let x := network probes.length s.lifetime
    let probes := probes ++ [⟨s.lifetime, x.sent = .tcmagentOk ∧ x.received = .tcmagentOk⟩]
    (s.round limits x).bind fun
      | .goOn t => search limits network rounds t probes
      | .mappingLost => .done (.mappingLost, probes)
      | .discovered d => .done (.discovered d, probes)

/-- `gUpperBSearchLifetime`, which nothing changes. -/
def gUpperBSearchLifetime : Int := 120

/-- `stun_binding_lifetime_query_task` with the value of `gUpperBSearchLifetime`, in at most `rounds` rounds. -/
def stunBindingLifetimeQueryTask (limits : KeepAliveLimits) (upper : Int) (network : Nat → Int → Exchange) (rounds : Nat) :
    Outcome (End × List Probe) :=
  (int32 (1 + upper)).bind fun sum => search limits network rounds ⟨1, upper, sum.tdiv 2⟩ []

/-! ## What is found -/

section Sound

/-- A network whose binding lives for `L` seconds: a probe is answered if the wait before it was not longer, and a new mapping can
always be set up. -/
def bindingFor (L : Int) : Nat → Int → Exchange := fun _ waited =>
  ⟨.tcmagentOk, if waited ≤ L then .tcmagentOk else .stunErrTimeout, .tcmagentOk, .tcmagentOk, .tcmagentOk⟩

/-- The search is sound: after finitely many probes a lifetime is declared, it is not longer than the true one, and an answered
probe has confirmed it. -/
def Sound (limits : KeepAliveLimits) (upper L : Int) : Prop :=
  ∃ rounds d probes,
    stunBindingLifetimeQueryTask limits upper (bindingFor L) rounds = .done (.discovered d, probes) ∧
      d.gStunMappingLifetime ≤ L ∧ ∃ t, ⟨t, true⟩ ∈ probes ∧ d.gStunMappingLifetime ≤ t

variable {limits : KeepAliveLimits} {s t : Search} {x : Exchange} {network : Nat → Int → Exchange} {rounds : Nat} {L upper n : Int}
  {probes ps : List Probe} {d : Discovered}

theorem int32_eq_done {m : Int} : int32 n = .done m ↔ m = n ∧ -2147483648 ≤ n ∧ n ≤ 2147483647 := by
  unfold int32
  split
  · rename_i h
    rw [Outcome.done.injEq]
    exact ⟨fun e => ⟨e.symm, h⟩, fun e => e.1.symm⟩
  · rename_i h
    exact ⟨nofun, fun e => absurd e.2 h⟩

/-- Half of a number that is not negative lies between half of it and the next. -/
theorem tdiv_two (h : 0 ≤ n) : 2 * n.tdiv 2 ≤ n ∧ n ≤ 2 * n.tdiv 2 + 1 := by
  rw [Int.tdiv_eq_ediv_of_nonneg h]
  omega

/-- A round that goes on was answered, with more than ten seconds left above, or timed out. -/
theorem round_goOn (h : s.round limits x = .done (.goOn t)) :
    x.received = .tcmagentOk ∧ t = ⟨s.lifetime + 1, s.upper, (s.lifetime + 1 + s.upper).tdiv 2⟩ ∧ 10 < t.upper - t.lifetime ∨
      x.received = .stunErrTimeout ∧ t = s.timedOut := by
  unfold Search.round at h
  obtain ⟨_, -, h⟩ := Outcome.bind_eq_done.1 h
  split at h
  · cases h
  · split at h
    · rename_i hreceived
      obtain ⟨sum, hsum, h⟩ := Outcome.map_eq_done.1 h
      obtain ⟨rfl, -⟩ := int32_eq_done.1 hsum
      simp only at h
      split at h
      · cases h
      · rename_i hleft
        cases h
        rw [not_or] at hleft
        exact Or.inl ⟨hreceived, rfl, Int.not_le.1 hleft.1⟩
    · rename_i hreceived
      split at h
      · cases h
      · cases h
        exact Or.inr ⟨hreceived, rfl⟩
    · cases h

/-- What a round declares is the half of what was left behind an answered probe. -/
theorem round_discovered (h : s.round limits x = .done (.discovered d)) :
    x.received = .tcmagentOk ∧ d = conclude limits ((s.lifetime + 1 + s.upper).tdiv 2) ∧
      s.lifetime + 1 + s.upper ≤ 2147483647 := by
  unfold Search.round at h
  obtain ⟨_, -, h⟩ := Outcome.bind_eq_done.1 h
  split at h
  · cases h
  · split at h
    · rename_i hreceived
      obtain ⟨sum, hsum, h⟩ := Outcome.map_eq_done.1 h
      obtain ⟨rfl, -, hmax⟩ := int32_eq_done.1 hsum
      simp only at h
      split at h
      · cases h
        exact ⟨hreceived, rfl, hmax⟩
      · cases h
    · split at h <;> cases h
    · cases h

/-- The probe of a round. -/
def probe (network : Nat → Int → Exchange) (s : Search) (probes : List Probe) : Probe :=
  ⟨s.lifetime, (network probes.length s.lifetime).sent = .tcmagentOk ∧
    (network probes.length s.lifetime).received = .tcmagentOk⟩

/-- **The rule of the search.** What every round keeps of the state and of the probes, and what the declaring round gets from it,
holds of what is declared. -/
theorem search_rule {I : Search → List Probe → Prop} {P : Discovered → List Probe → Prop} {s : Search}
    (hgoOn : ∀ s probes t, I s probes → s.round limits (network probes.length s.lifetime) = .done (.goOn t) →
      I t (probes ++ [probe network s probes]))
    (hend : ∀ s probes d, I s probes → s.round limits (network probes.length s.lifetime) = .done (.discovered d) →
      P d (probes ++ [probe network s probes]))
    (hs : I s probes) (h : search limits network rounds s probes = .done (.discovered d, ps)) : P d ps := by
  induction rounds generalizing s probes with
  | zero => cases h
  | succ rounds ih =>
    rw [search] at h
    obtain ⟨next, hnext, h⟩ := Outcome.bind_eq_done.1 h
    cases next with
    | goOn t => exact ih (hgoOn s probes t hs hnext) h
    | mappingLost => cases h
    | discovered d' =>
      cases h
      exact hend s probes d hs hnext

/-- The states from which nothing sound is found: no answered probe was as long as the lower bound; and the next wait is the half
of what is left, and that is four seconds at least unless it is clear what comes next, or it is the lower bound, with something left
above it or longer than the binding lives. -/
structure Astray (L : Int) (s : Search) (probes : List Probe) : Prop where
  below : ∀ t, ⟨t, true⟩ ∈ probes → t < s.lower
  positive : 1 ≤ s.lower
  shape : s.lifetime = (s.lower + s.upper).tdiv 2 ∧ s.lower < s.upper ∧
      (s.lower + 4 ≤ s.upper ∨ s.lifetime ≤ L ∨ L < s.lower) ∨
    s.lifetime = s.lower ∧ (s.lower < s.upper ∨ L < s.lower)

/-- What the network answers is what a wait no longer than the lifetime of the binding gets. -/
theorem received_bindingFor (i : Nat) (w : Int) : (bindingFor L i w).received = .tcmagentOk ↔ w ≤ L := by
  unfold bindingFor
  by_cases h : w ≤ L <;> simp [h]

theorem probe_bindingFor (s : Search) (probes : List Probe) : probe (bindingFor L) s probes = ⟨s.lifetime, s.lifetime ≤ L⟩ := by
  unfold probe
  simp only [received_bindingFor]
  simp [bindingFor]

/-- The next wait is not shorter than the lower bound; and when it is too long, it is two seconds longer than that, or the lower
bound is too long too. -/
theorem Astray.lower_le (h : Astray L s probes) :
    s.lower ≤ s.lifetime ∧ (L < s.lifetime → s.lower + 2 ≤ s.lifetime ∨ L < s.lower) := by
  have hpositive := h.positive
  rcases h.shape with ⟨hhalf, hwide, hleft⟩ | ⟨hlow, -⟩
  · have := tdiv_two (n := s.lower + s.upper) (by omega)
    omega
  · omega

/-- When the next probe is answered, something is left above it. -/
theorem Astray.lt_upper (h : Astray L s probes) (hans : s.lifetime ≤ L) : s.lifetime < s.upper := by
  have hpositive := h.positive
  rcases h.shape with ⟨hhalf, hwide, -⟩ | ⟨hlow, hleft⟩
  · have := tdiv_two (n := s.lower + s.upper) (by omega)
    omega
  · omega

theorem Astray.below_snoc (h : Astray L s probes) {t : Int} {b : Bool} (ht : ⟨t, true⟩ ∈ probes ++ [⟨s.lifetime, b⟩]) :
    t < s.lower ∨ t = s.lifetime ∧ b = true := by
  rcases List.mem_append.1 ht with ht | ht
  · exact Or.inl (h.below t ht)
  · have heq := List.mem_singleton.1 ht
    exact Or.inr ⟨congrArg Probe.waited heq, (congrArg Probe.answered heq).symm⟩

/-- A round that goes on stays astray. -/
theorem Astray.goOn (h : Astray L s probes)
    (hr : s.round limits (bindingFor L probes.length s.lifetime) = .done (.goOn t)) :
    Astray L t (probes ++ [probe (bindingFor L) s probes]) := by
  obtain ⟨hlow, hhalf⟩ := h.lower_le
  have hpositive := h.positive
  rw [probe_bindingFor]
  rcases round_goOn hr with ⟨hans, rfl, hleft⟩ | ⟨hans, rfl⟩
  · -- the lower bound rises above the answered probe, and enough is left to halve
    have hup := h.lt_upper ((received_bindingFor _ _).1 hans)
    have htdiv := tdiv_two (n := s.lifetime + 1 + s.upper) (by omega)
    simp only at hleft
    refine ⟨?_, ?_, Or.inl ⟨rfl, ?_, Or.inl ?_⟩⟩
    · intro t ht
      change t < s.lifetime + 1
      rcases h.below_snoc ht with ht | ⟨rfl, -⟩ <;> omega
    · change 1 ≤ s.lifetime + 1
      omega
    · change s.lifetime + 1 < s.upper
      omega
    · change s.lifetime + 1 + 4 ≤ s.upper
      omega
  · have hlate : L < s.lifetime := by
      refine Int.not_le.1 fun hle => ?_
      rw [(received_bindingFor _ _).2 hle] at hans
      cases hans
    have hbelow : ∀ t, ⟨t, true⟩ ∈ probes ++ [⟨s.lifetime, decide (s.lifetime ≤ L)⟩] → t < s.lower := by
      intro t ht
      rcases h.below_snoc ht with ht | ⟨-, hans⟩
      · exact ht
      · exact absurd (of_decide_eq_true hans) (Int.not_le.2 hlate)
    unfold Search.timedOut
    split
    · -- the lower bound is tried again: there is something above it, or it is too long already
      refine ⟨hbelow, hpositive, Or.inr ⟨rfl, ?_⟩⟩
      change s.lower < s.lifetime - 1 ∨ L < s.lower
      omega
    · refine ⟨hbelow, hpositive, Or.inl ⟨?_, ?_, Or.inl ?_⟩⟩
      · change (s.lifetime - 1 + s.lower).tdiv 2 = (s.lower + (s.lifetime - 1)).tdiv 2
        rw [Int.add_comm]
      · change s.lower < s.lifetime - 1
        omega
      · change s.lower + 4 ≤ s.lifetime - 1
        omega

/-- What is declared from there is longer than every answered probe. -/
theorem Astray.discovered (h : Astray L s probes)
    (hr : s.round limits (bindingFor L probes.length s.lifetime) = .done (.discovered d)) (u : Int)
    (hu : ⟨u, true⟩ ∈ probes ++ [probe (bindingFor L) s probes]) : u < d.gStunMappingLifetime := by
  obtain ⟨hans, rfl, -⟩ := round_discovered hr
  obtain ⟨hlow, -⟩ := h.lower_le
  have hpositive := h.positive
  have hup := h.lt_upper ((received_bindingFor _ _).1 hans)
  have htdiv := tdiv_two (n := s.lifetime + 1 + s.upper) (by omega)
  rw [probe_bindingFor] at hu
  change u < (s.lifetime + 1 + s.upper).tdiv 2
  rcases h.below_snoc hu with hu | ⟨rfl, -⟩ <;> omega

theorem Astray.not_sound (h : Astray L ⟨1, upper, (1 + upper).tdiv 2⟩ []) : ¬Sound limits upper L := by
  rintro ⟨rounds, d, probes, htask, -, u, hu, hle⟩
  obtain ⟨sum, hsum, hsearch⟩ := Outcome.bind_eq_done.1 htask
  obtain ⟨rfl, -⟩ := int32_eq_done.1 hsum
  have hlt := search_rule (I := Astray L) (P := fun d ps => ∀ u, ⟨u, true⟩ ∈ ps → u < d.gStunMappingLifetime)
    (fun _ _ _ h hr => h.goOn hr) (fun _ _ _ h hr => h.discovered hr) h hsearch u hu
  omega

theorem astray_start (hupper : 1 ≤ upper) (h : ¬(upper = 1 ∧ 1 ≤ L ∨ (upper = 3 ∨ upper = 4) ∧ L = 1)) :
    Astray L ⟨1, upper, (1 + upper).tdiv 2⟩ [] := by
  have htdiv := tdiv_two (n := 1 + upper) (by omega)
  refine ⟨fun t ht => (by cases ht), Int.le_refl 1, ?_⟩
  change (1 + upper).tdiv 2 = (1 + upper).tdiv 2 ∧ 1 < upper ∧ (1 + 4 ≤ upper ∨ (1 + upper).tdiv 2 ≤ L ∨ L < 1) ∨
    (1 + upper).tdiv 2 = 1 ∧ (1 < upper ∨ L < 1)
  omega

/-- **When the search is sound**: never, unless the upper bound is one second, or three or four for a binding that lives for one.
What is declared is a wait that was not tried, and a binding that a wait has just missed is asked for ever. -/
theorem sound_iff (limits : KeepAliveLimits) (hupper : 1 ≤ upper) :
    Sound limits upper L ↔ upper = 1 ∧ 1 ≤ L ∨ (upper = 3 ∨ upper = 4) ∧ L = 1 := by
  constructor
  · intro hsound
    by_contra h
    exact (astray_start hupper h).not_sound hsound
  · rintro (⟨rfl, hL⟩ | ⟨hupper, rfl⟩)
    · refine ⟨1, conclude limits 1, [⟨1, true⟩], ?_, hL, 1, List.mem_cons_self, Int.le_refl 1⟩
      simp [stunBindingLifetimeQueryTask, search, Search.round, bindingFor, hL, int32, Outcome.bind, Outcome.map]
    · refine ⟨2, conclude limits 1, [⟨2, false⟩, ⟨1, true⟩], ?_, Int.le_refl 1, 1, ?_, Int.le_refl 1⟩
      · rcases hupper with rfl | rfl <;> rfl
      · exact List.mem_cons_of_mem _ List.mem_cons_self

/-- A binding that lives for one second, and a search up to four. -/
theorem sound_four_one : Sound ⟨0, 0⟩ 4 1 := (sound_iff ⟨0, 0⟩ (by decide)).2 (Or.inr ⟨Or.inr rfl, rfl⟩)

/-- With the bound of 120 seconds, four seconds are declared for a binding that lives for one: after a wait of one second was answered,
what is left is halved once more. -/
theorem not_sound_one :
    stunBindingLifetimeQueryTask ⟨0, 0⟩ gUpperBSearchLifetime (bindingFor 1) 5 =
        .done (.discovered ⟨4, 4⟩, [⟨60, false⟩, ⟨30, false⟩, ⟨15, false⟩, ⟨7, false⟩, ⟨1, true⟩]) ∧
      ¬Sound ⟨0, 0⟩ gUpperBSearchLifetime 1 :=
  ⟨by decide +kernel, (astray_start (by decide) (by decide)).not_sound⟩

/-! ## The period of the keep-alive requests -/

/-- The period lies between the configured limits, and is not longer than the lifetime unless that is below the minimum. -/
structure InLimits (limits : KeepAliveLimits) (d : Discovered) : Prop where
  min_le : (limits.stunMinKeepAlivePeriod.toNat : Int) ≤ d.gStunKeepAlivetime
  le_max : d.gStunKeepAlivetime ≤ limits.stunMaxKeepAlivePeriod.toNat
  le_lifetime : d.gStunKeepAlivetime ≤ d.gStunMappingLifetime ∨ d.gStunMappingLifetime < limits.stunMinKeepAlivePeriod.toNat

/-- What the bounds are like whatever the network does: the next wait is not shorter than the lower bound, and the upper bound at most
one second below it. -/
structure Ordered (s : Search) : Prop where
  positive : 1 ≤ s.lower
  lower_le : s.lower ≤ s.lifetime
  le_upper : s.lifetime ≤ s.upper + 1

theorem Ordered.goOn (h : Ordered s) (hr : s.round limits x = .done (.goOn t)) : Ordered t := by
  obtain ⟨hpositive, hlow, hup⟩ := h
  rcases round_goOn hr with ⟨-, rfl, hleft⟩ | ⟨-, rfl⟩
  · have htdiv := tdiv_two (n := s.lifetime + 1 + s.upper) (by omega)
    simp only at hleft
    exact ⟨by change 1 ≤ s.lifetime + 1; omega, by change s.lifetime + 1 ≤ (s.lifetime + 1 + s.upper).tdiv 2; omega,
      by change (s.lifetime + 1 + s.upper).tdiv 2 ≤ s.upper + 1; omega⟩
  · unfold Search.timedOut
    split
    · exact ⟨hpositive, Int.le_refl _, by change s.lower ≤ s.lifetime - 1 + 1; omega⟩
    · have htdiv := tdiv_two (n := s.lifetime - 1 + s.lower) (by omega)
      exact ⟨hpositive, by change s.lower ≤ (s.lifetime - 1 + s.lower).tdiv 2; omega,
        by change (s.lifetime - 1 + s.lower).tdiv 2 ≤ s.lifetime - 1 + 1; omega⟩

/-- What is declared is a positive number of type `PAL_INT32_T`, and the period is computed from it. -/
theorem Ordered.discovered (h : Ordered s) (hr : s.round limits x = .done (.discovered d)) :
    ∃ lifetime, 1 ≤ lifetime ∧ lifetime ≤ 2147483647 ∧ d = conclude limits lifetime := by
  obtain ⟨hpositive, hlow, hup⟩ := h
  obtain ⟨-, rfl, hmax⟩ := round_discovered hr
  have htdiv := tdiv_two (n := s.lifetime + 1 + s.upper) (by omega)
  exact ⟨_, by omega, by omega, rfl⟩

/-- Of a positive lifetime the period is the lesser of it and the maximum. -/
theorem conclude_eq {lifetime : Int} (hpositive : 1 ≤ lifetime) (hmax : lifetime ≤ 2147483647)
    (hlimits : limits.stunMinKeepAlivePeriod ≠ 0 ∧ limits.stunMaxKeepAlivePeriod ≠ 0) :
    conclude limits lifetime = ⟨lifetime, min lifetime limits.stunMaxKeepAlivePeriod.toNat⟩ := by
  have hunsigned : unsigned lifetime = lifetime := by
    unfold unsigned
    omega
  have hsigned : ∀ n : Int, 0 ≤ n → n ≤ lifetime → signed n = n := by
    intro n hn hle
    unfold signed
    rw [Int.bmod_def]
    omega
  unfold conclude
  rw [if_pos hlimits, hunsigned]
  congr 1
  split
  · rename_i hlt
    rw [hsigned lifetime (by omega) (Int.le_refl _), Int.min_eq_left (by omega)]
  · rename_i hge
    rw [hsigned _ (by omega) (by omega), Int.min_eq_right (by omega)]

/-- **The period of the keep-alive requests stays within the limits exactly when the lifetime discovered is not below the minimum**:
the maximum is taken of what was discovered, not of what the minimum made of it. -/
theorem inLimits_iff {network : Nat → Int → Exchange} (hupper : 1 ≤ upper) (hmin : 0 < limits.stunMinKeepAlivePeriod)
    (hle : limits.stunMinKeepAlivePeriod ≤ limits.stunMaxKeepAlivePeriod)
    (h : stunBindingLifetimeQueryTask limits upper network rounds = .done (.discovered d, probes)) :
    InLimits limits d ↔ limits.stunMinKeepAlivePeriod.toNat ≤ d.gStunMappingLifetime := by
  obtain ⟨sum, hsum, hsearch⟩ := Outcome.bind_eq_done.1 h
  obtain ⟨rfl, -⟩ := int32_eq_done.1 hsum
  have hstart : Ordered ⟨1, upper, (1 + upper).tdiv 2⟩ := by
    have htdiv := tdiv_two (n := 1 + upper) (by omega)
    exact ⟨Int.le_refl 1, by change 1 ≤ (1 + upper).tdiv 2; omega, by change (1 + upper).tdiv 2 ≤ upper + 1; omega⟩
  obtain ⟨lifetime, hpositive, hmax, rfl⟩ := search_rule (I := fun s _ => Ordered s)
    (P := fun d _ => ∃ lifetime, 1 ≤ lifetime ∧ lifetime ≤ 2147483647 ∧ d = conclude limits lifetime)
    (fun _ _ _ h hr => h.goOn hr) (fun _ _ _ h hr => h.discovered hr) hstart hsearch
  have hminNat : 0 < limits.stunMinKeepAlivePeriod.toNat := by simpa [UInt32.lt_iff_toNat_lt] using hmin
  have hleNat : limits.stunMinKeepAlivePeriod.toNat ≤ limits.stunMaxKeepAlivePeriod.toNat := UInt32.le_iff_toNat_le.1 hle
  have hlimits : limits.stunMinKeepAlivePeriod ≠ 0 ∧ limits.stunMaxKeepAlivePeriod ≠ 0 := by
    constructor
    · rintro heq
      simp [heq] at hminNat
    · rintro heq
      rw [heq] at hleNat
      simp at hleNat
      omega
  rw [conclude_eq hpositive hmax hlimits]
  constructor
  · rintro ⟨hmin, -, -⟩
    change _ ≤ min lifetime _ at hmin
    exact Int.le_trans hmin (Int.min_le_left _ _)
  · intro hlife
    exact ⟨Int.le_min.2 ⟨hlife, by omega⟩, Int.min_le_right _ _, Or.inl (Int.min_le_left _ _)⟩

/-- A lifetime of 113 seconds with limits of 30 and 60 seconds. -/
theorem inLimits_sixty : InLimits ⟨30, 60⟩ ⟨113, 60⟩ := by
  have h : stunBindingLifetimeQueryTask ⟨30, 60⟩ gUpperBSearchLifetime (bindingFor 115) 3 =
      .done (.discovered ⟨113, 60⟩, [⟨60, true⟩, ⟨90, true⟩, ⟨105, true⟩]) := by decide +kernel
  exact (inLimits_iff (by decide) (by decide) (by decide) h).2 (by decide)

/-- A lifetime of four seconds with the same limits: the period is four seconds. -/
theorem not_inLimits_four :
    stunBindingLifetimeQueryTask ⟨30, 60⟩ gUpperBSearchLifetime (bindingFor 6) 5 =
        .done (.discovered ⟨4, 4⟩, [⟨60, false⟩, ⟨30, false⟩, ⟨15, false⟩, ⟨7, false⟩, ⟨1, true⟩]) ∧
      ¬InLimits ⟨30, 60⟩ ⟨4, 4⟩ :=
  ⟨by decide +kernel, fun h => absurd h.min_le (by decide)⟩

end Sound

end CodeFactory.Stun
