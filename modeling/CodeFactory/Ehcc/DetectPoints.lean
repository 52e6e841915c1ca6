import CodeFactory.Ehcc.SecurityMode

/-!
# What is written of a security mode and what is reported

The update of a security mode, the report of the detection points and the setting of one value each have conversions of their own. What
the report says after an update is worked out here for every message, and compared with the message.
-/

namespace CodeFactory.Ehcc

/-! ## The message of an update -/

/-- A detection point in the message of an update. -/
structure PointItem where
  dpID : UInt8
  dpName : List UInt8
  delayTime : UInt8 × UInt8
  setStatus : UInt8
  visualStatus : UInt8
  dpAttribute : UInt8
  delayTimeSwitch : UInt8
  deriving DecidableEq, Repr

/-- The message of an update. -/
structure ModeUpdate where
  smID : UInt8
  items : List PointItem
  ring : UInt8
  deriving DecidableEq, Repr

def PointItem.octets (item : PointItem) : List UInt8 :=
  item.dpID :: UInt8.ofNat item.dpName.length :: (item.dpName ++
    [item.delayTime.1, item.delayTime.2, item.setStatus, item.visualStatus, item.dpAttribute, item.delayTimeSwitch])

/-- The value of the message. -/
def ModeUpdate.octets (u : ModeUpdate) : List UInt8 := u.smID :: (u.items.flatMap PointItem.octets ++ [u.ring])

/-- An item has a name within the limit, and values of the protocol. -/
structure PointItem.WellFormed (K : SecurityConstants) (item : PointItem) : Prop where
  name : item.dpName.length ≤ K.maxparaDpNameLen ∧ item.dpName.length < 256 ∧ 0 ∉ item.dpName
  setStatus : item.setStatus = 1 ∨ item.setStatus = 2
  visualStatus : item.visualStatus = 1 ∨ item.visualStatus = 2
  dpAttribute : item.dpAttribute = 1 ∨ item.dpAttribute = 2
  delayTimeSwitch : item.delayTimeSwitch = 0 ∨ item.delayTimeSwitch = 1

/-- A message lists the points from one to `n`, each of them once, and the length of its value is a `uint16_t`. -/
structure ModeUpdate.WellFormed (K : SecurityConstants) (n : Nat) (u : ModeUpdate) : Prop where
  mode : 1 ≤ u.smID.toNat ∧ u.smID.toNat ≤ K.maxtableModeType
  listed : (u.items.map fun item => item.dpID.toNat).Perm (List.range' 1 n)
  items : ∀ item ∈ u.items, item.WellFormed K
  ring : u.ring = 1 ∨ u.ring = 2 ∨ u.ring = 3
  length : u.octets.length < 65536

/-- The configuration has so many points. -/
structure Config.Configured (K : SecurityConstants) (n : Nat) (c : Config) : Prop where
  number : ∃ num, c K.currentDiNum = some num ∧ Conf.atoi num = n
  room : n ≤ K.maxtableDetactPoint
  userMode : (c K.userMode).isSome
  delayTime : (c K.delayTime).isSome
  points : ∀ i, 1 ≤ i → i ≤ n → (c (K.dpName i)).isSome ∧ (c (K.alarmStatus i)).isSome
  modes : ∀ m, 1 ≤ m → m ≤ K.maxtableModeType → (c (K.ringMode (K.modeAppID m))).isSome ∧
    ∀ i, 1 ≤ i → i ≤ n → (c (K.activeStatus (K.modeAppID m) i)).isSome ∧ (c (K.modeAttribute (K.modeAppID m) i)).isSome ∧
      (c (K.activeDelay (K.modeAppID m) i)).isSome

/-! ## What is asked -/

/-- The report has the values of the message for the mode. -/
def Report.Agrees (r : Report) (u : ModeUpdate) : Prop :=
  (∀ item ∈ u.items, (⟨item.dpID, item.dpName, [item.delayTime.1, item.delayTime.2]⟩ : PointReport) ∈ r.points) ∧
  ∃ m ∈ r.modes, m.smID = u.smID ∧ m.smRing = u.ring ∧
    ∀ item ∈ u.items, (⟨item.dpID, item.setStatus, item.visualStatus, item.dpAttribute, item.delayTimeSwitch⟩ :
      ModePointReport) ∈ m.smDP

/-- The four values that can be set on their own. -/
inductive SingleValue where
  | setStatus | dpName | dpAttribute | delayTime
  deriving DecidableEq, Repr

/-- The message that sets one value of an item. -/
def SingleValue.octets (smID : UInt8) (item : PointItem) : SingleValue → List UInt8
  | setStatus => [smID, item.dpID, 1, item.setStatus]
  | dpName => smID :: item.dpID :: 2 :: UInt8.ofNat item.dpName.length :: item.dpName
  | dpAttribute => [smID, item.dpID, 3, item.dpAttribute]
  | delayTime => [smID, item.dpID, 4, item.delayTime.1, item.delayTime.2]

/-- Where the update stores the value. -/
def SingleValue.cell (K : SecurityConstants) (smID : UInt8) (item : PointItem) : SingleValue → Cell
  | setStatus => K.activeStatus (K.modeAppID smID.toNat) item.dpID.toNat
  | dpName => K.dpName item.dpID.toNat
  | dpAttribute => K.modeAttribute (K.modeAppID smID.toNat) item.dpID.toNat
  | delayTime => K.delayTime

variable (K : SecurityConstants) (littleEndian : Bool)

/-- The update succeeds, the report has the values of the message, and each of them that is set on its own in the configuration
before is stored as the update stores it. -/
def ReadsBack (c : Config) (u : ModeUpdate) : Prop :=
  ∃ updated report, processIDPToMFCBUpdateOneSecurityMode K littleEndian c u.octets = .done ⟨true, updated, [u.smID, 1]⟩ ∧
    detectPointReport K littleEndian updated = some (.done report) ∧ report.Agrees u ∧
    ∀ item ∈ u.items, ∀ v : SingleValue, ∃ result,
      processIDPToMFCBSetSingleDetectPoint K littleEndian c (v.octets u.smID item) = .done result ∧
        result.config (v.cell K u.smID item) = updated (v.cell K u.smID item)

/-- The point that stands in the place of a number. -/
def ModeUpdate.place (u : ModeUpdate) (dpID : UInt8) : Option PointItem := u.items[dpID.toNat - 1]?

/-- The condition on an item of an update. -/
structure PointItem.Kept (c : Config) (u : ModeUpdate) (item : PointItem) : Prop where
  /-- The point in the place of its number has its values. -/
  place : ∃ p, u.place item.dpID = some p ∧ p.dpName = item.dpName ∧ p.setStatus = item.setStatus ∧
    p.dpAttribute = item.dpAttribute ∧ p.delayTimeSwitch = item.delayTimeSwitch
  visualStatus : item.visualStatus = 2
  dpAttribute : item.dpAttribute = 1
  /-- Its delay time is the one that the octets of the last point's are to the host. -/
  delayTime : ∀ last ∈ u.items.getLast?,
    hostNumber littleEndian last.delayTime.1 last.delayTime.2 = hostNumber false item.delayTime.1 item.delayTime.2
  name : item.dpName.length < K.maxparaDpNameLen
  /-- The application of the mode has the number of the mode, or the configuration has the values already. -/
  app : K.modeAppID u.smID.toNat = u.smID.toNat ∨
    c (K.activeStatus (K.modeAppID u.smID.toNat) item.dpID.toNat) = some (if item.setStatus = 2 then enable else disable) ∧
      c (K.modeAttribute (K.modeAppID u.smID.toNat) item.dpID.toNat) = some (if item.dpAttribute = 2 then enable else disable)

/-! ## Numbers and names -/

theorem hostNumber_lt (a b : UInt8) : hostNumber littleEndian a b < 65536 := by
  have ha := a.toNat_lt
  have hb := b.toNat_lt
  unfold hostNumber
  split <;> omega

/-- The two octets of a number, the higher one first, are the ones that `htons` is for. -/
theorem hostOctets_htons {n : Nat} (h : n < 65536) :
    hostOctets littleEndian (htons littleEndian n) = [UInt8.ofNat (n / 256), UInt8.ofNat (n % 256)] := by
  unfold hostOctets htons
  cases littleEndian with
  | false => rfl
  | true =>
    have hhigh : (n % 256 * 256 + n / 256) % 256 = n / 256 := by omega
    have hlow : (n % 256 * 256 + n / 256) / 256 = n % 256 := by omega
    simp only [if_true, hhigh, hlow]

theorem octets_eq_iff {n : Nat} (h : n < 65536) (a b : UInt8) :
    [UInt8.ofNat (n / 256), UInt8.ofNat (n % 256)] = [a, b] ↔ n = hostNumber false a b := by
  have ha := a.toNat_lt
  have hb := b.toNat_lt
  simp only [List.cons.injEq, and_true, ← UInt8.toNat_inj, UInt8.toNat_ofNat', hostNumber, Bool.false_eq_true, if_false]
  omega

/-- `ntohs` of the octets of a message gives their number. -/
theorem htons_hostNumber (a b : UInt8) : htons littleEndian (hostNumber littleEndian a b) = hostNumber false a b := by
  have ha := a.toNat_lt
  have hb := b.toNat_lt
  unfold htons hostNumber
  cases littleEndian
  · rfl
  · simp only [if_true, Bool.false_eq_true, if_false]
    omega

/-- A number that is written is read back. -/
theorem atoi16_sprintfD {n : Nat} (h : n < 65536) : atoi16 (sprintfD n) = n := by
  unfold atoi16 sprintfD
  rw [Conf.atoi_toDigits]
  omega

/-- A name without a zero is written, and read back, as it is. -/
theorem octetsOf_cText {name : List UInt8} (h : 0 ∉ name) : octetsOf (cText name) = name := by
  have hall : name.takeWhile (· ≠ 0) = name := by
    rw [List.takeWhile_eq_self_iff]
    intro b hb
    have hne : b ≠ 0 := fun heq => h (heq ▸ hb)
    simpa using hne
  unfold octetsOf cText
  rw [hall, List.map_map]
  refine (List.map_congr_left fun b _ => ?_).trans (List.map_id _)
  have hb := b.toNat_lt
  have hvalid : b.toNat.isValidChar := .inl (by omega)
  have hchar : (Char.ofNat b.toNat).toNat = b.toNat := by
    unfold Char.ofNat
    rw [dif_pos hvalid]
    rfl
  rw [Function.comp_apply, hchar, UInt8.ofNat_toNat, id]

/-! ## The message is parsed -/

def PointItem.parsed (item : PointItem) : EhomeDP :=
  ⟨item.dpID, item.dpName, hostNumber littleEndian item.delayTime.1 item.delayTime.2, item.setStatus, item.visualStatus,
    item.dpAttribute, item.delayTimeSwitch⟩

theorem PointItem.octets_length (item : PointItem) : item.octets.length = item.dpName.length + 8 := by
  simp [octets]

theorem items_length_le (items : List PointItem) : items.length ≤ (items.flatMap PointItem.octets).length := by
  induction items with
  | nil => exact Nat.le_refl _
  | cons item items ih =>
    rw [List.flatMap_cons, List.length_append, item.octets_length, List.length_cons]
    omega

/-- The items are parsed one by one, up to the ring type. -/
theorem parseDPs_octets {items : List PointItem} (h : ∀ item ∈ items, item.WellFormed K) (ring : UInt8) {fuel : Nat}
    (hfuel : items.length < fuel) :
    parseDPs K littleEndian fuel (items.flatMap PointItem.octets ++ [ring]) =
      .done (items.map (PointItem.parsed littleEndian), [ring]) := by
  induction items generalizing fuel with
  | nil =>
    obtain ⟨fuel, rfl⟩ := Nat.exists_eq_succ_of_ne_zero (Nat.ne_of_gt hfuel)
    rfl
  | cons item items ih =>
    obtain ⟨fuel, rfl⟩ := Nat.exists_eq_succ_of_ne_zero (Nat.ne_of_gt (Nat.zero_lt_of_lt hfuel))
    have hitem := h item List.mem_cons_self
    obtain ⟨hlimit, hbyte, -⟩ := hitem.name
    have hlen : (UInt8.ofNat item.dpName.length).toNat = item.dpName.length := by
      rw [UInt8.toNat_ofNat']
      exact Nat.mod_eq_of_lt hbyte
    have hih := @ih (fun x hx => h x (List.mem_cons_of_mem _ hx)) fuel (Nat.lt_of_succ_lt_succ hfuel)
    unfold parseDPs
    rw [if_neg]
    · simp only [List.flatMap_cons, PointItem.octets, List.cons_append, List.append_assoc, hlen]
      rw [if_neg (Nat.not_lt.2 hlimit), List.drop_left, List.take_left]
      simp only [List.nil_append]
      rw [hih]
      rfl
    · rw [List.length_append, List.flatMap_cons, List.length_append, item.octets_length, List.length_singleton]
      omega

/-- The message of an update is parsed to its items. -/
theorem parseSM_octets {n : Nat} {u : ModeUpdate} (h : u.WellFormed K n) (hroom : n ≤ K.maxtableDetactPoint) :
    parseSM K littleEndian u.octets = .done ⟨u.smID, u.ring, u.items.map (PointItem.parsed littleEndian)⟩ := by
  have hlen : u.items.length = n := by
    have hperm := h.listed.length_eq
    rwa [List.length_map, List.length_range'] at hperm
  have hfuel : u.items.length < (u.items.flatMap PointItem.octets ++ [u.ring]).length + 1 := by
    have hle := items_length_le u.items
    rw [List.length_append]
    omega
  unfold parseSM ModeUpdate.octets
  simp only [parseDPs_octets K littleEndian h.items u.ring hfuel, Outcome.bind_done]
  rw [if_pos]
  rw [List.length_map, hlen]
  exact hroom

/-! ## The cells after an update -/

namespace Config

/-- A write changes the value of a cell, not which cells are there. -/
theorem isSome_of_write {c c' : Config} {x : Cell} {value : Text} (h : c.write x value = some c') (y : Cell) :
    (c' y).isSome = (c y).isSome := by
  unfold write at h
  split at h
  · rename_i hx
    cases h
    by_cases hy : y = x
    · subst hy
      rw [Function.update_self, hx]
      rfl
    · rw [Function.update_of_ne hy]
  · cases h

theorem isSome_writes (c : Config) (ws : List (Cell × Text)) (y : Cell) : (c.writes ws y).isSome = (c y).isSome := by
  induction ws generalizing c with
  | nil => rfl
  | cons w ws ih =>
    rw [writes]
    cases hc : c.write w.1 w.2 with
    | none => rfl
    | some c' =>
      dsimp only
      rw [ih, isSome_of_write hc]

/-- Writes to other cells leave a cell as it is. -/
theorem writes_other {c : Config} {ws : List (Cell × Text)} {y : Cell} (h : ∀ w ∈ ws, y ≠ w.1) : c.writes ws y = c y := by
  induction ws generalizing c with
  | nil => rfl
  | cons w ws ih =>
    rw [writes]
    cases hc : c.write w.1 w.2 with
    | none => rfl
    | some c' =>
      dsimp only
      rw [ih fun x hx => h x (List.mem_cons_of_mem _ hx)]
      unfold write at hc
      split at hc
      · cases hc
        exact Function.update_of_ne (h w List.mem_cons_self) _ _
      · cases hc

/-- Writes to cells that are there, each to another one, are all made. -/
theorem writes_get {c : Config} {ws : List (Cell × Text)} (hsome : ∀ w ∈ ws, (c w.1).isSome)
    (hdistinct : (ws.map Prod.fst).Nodup) {w : Cell × Text} (hw : w ∈ ws) : c.writes ws w.1 = some w.2 := by
  induction ws generalizing c with
  | nil => cases hw
  | cons x ws ih =>
    rw [List.map_cons, List.nodup_cons] at hdistinct
    have hwrite : c.write x.1 x.2 = some (Function.update c x.1 (some x.2)) := if_pos (hsome x List.mem_cons_self)
    rw [writes, hwrite]
    dsimp only
    rcases List.mem_cons.1 hw with rfl | hmem
    · rw [writes_other, Function.update_self]
      intro y hy heq
      exact hdistinct.1 (heq ▸ List.mem_map_of_mem hy)
    · refine ih (fun y hy => ?_) hdistinct.2 hmem
      rw [isSome_of_write hwrite]
      exact hsome y (List.mem_cons_of_mem _ hy)

end Config

/-- An application that is none of those with parameters of their own. -/
structure SecurityConstants.ModeApp (app : Int) : Prop where
  securityMode : app ≠ K.idSecurityMode
  detactPoint : app ≠ K.idDetactPoint

/-- The cells of a point are different ones. -/
theorem dpWrites_nodup {app : Int} (happ : K.ModeApp app) (i : Nat) (dp : EhomeDP) :
    ((dpWrites K app i dp).map Prod.fst).Nodup := by
  have happs := K.apps
  have hpoint := K.pointParas
  obtain ⟨hactive, hactive', hattribute⟩ := K.modeParas
  obtain ⟨hsecurity, hdetact⟩ := happ
  simp only [dpWrites, List.map_cons, List.map_nil, List.nodup_cons, List.mem_cons, List.not_mem_nil, or_false, not_or,
    SecurityConstants.dpName, SecurityConstants.delayTime, SecurityConstants.activeStatus, SecurityConstants.alarmStatus,
    SecurityConstants.modeAttribute, SecurityConstants.activeDelay, Cell.mk.injEq, not_and]
  grind

/-- A point's writes are to its row, and to the delay time. -/
theorem row_of_mem_dpWrites {app : Int} {i : Nat} {dp : EhomeDP} {w : Cell × Text} (h : w ∈ dpWrites K app i dp) :
    w.1 = K.delayTime ∨ w.1.row = i ∧ (w.1.app = app ∨ w.1.app = K.idDetactPoint) := by
  simp only [dpWrites, List.mem_cons, List.not_mem_nil, or_false] at h
  rcases h with rfl | rfl | rfl | rfl | rfl | rfl
  · exact .inr ⟨rfl, .inr rfl⟩
  · exact .inl rfl
  · exact .inr ⟨rfl, .inl rfl⟩
  · exact .inr ⟨rfl, .inr rfl⟩
  · exact .inr ⟨rfl, .inl rfl⟩
  · exact .inr ⟨rfl, .inl rfl⟩

theorem isSome_updateDPs (app : Int) (i : Nat) (dps : List EhomeDP) (c : Config) (y : Cell) :
    (updateDPs K app i dps c y).isSome = (c y).isSome := by
  induction dps generalizing i c with
  | nil => rfl
  | cons dp dps ih => rw [updateDPs, ih, Config.isSome_writes]

/-- The update leaves what is not in the rows of the mode and of the points. -/
theorem updateDPs_other {app : Int} {i : Nat} {dps : List EhomeDP} {c : Config} {y : Cell} (hdelay : y ≠ K.delayTime)
    (hrow : y.row < i ∨ (y.app ≠ app ∧ y.app ≠ K.idDetactPoint)) : updateDPs K app i dps c y = c y := by
  induction dps generalizing i c with
  | nil => rfl
  | cons dp dps ih =>
    rw [updateDPs, ih (hrow.imp_left fun h => Nat.lt_succ_of_lt h), Config.writes_other]
    intro w hw heq
    rcases row_of_mem_dpWrites K hw with hd | ⟨hr, ha⟩
    · exact hdelay (heq.trans hd)
    · rw [← heq] at hr ha
      rcases hrow with hlt | ⟨hne, hne'⟩
      · omega
      · exact ha.elim hne hne'

/-- The cells of the points from a row on are there. -/
def Present (app : Int) (i n : Nat) (c : Config) : Prop :=
  ∀ j dp, i ≤ j → j < i + n → ∀ w ∈ dpWrites K app j dp, (c w.1).isSome

/-- **The cells after an update.** Each point's row has what the point's writes are, and the delay time is the last point's. -/
theorem updateDPs_get {app : Int} (happ : K.ModeApp app) {i : Nat} {dps : List EhomeDP} {c : Config}
    (hsome : Present K app i dps.length c) :
    (∀ j dp, dps[j]? = some dp → ∀ w ∈ dpWrites K app (i + j) dp, w.1 ≠ K.delayTime →
      updateDPs K app i dps c w.1 = some w.2) ∧
    ∀ last ∈ dps.getLast?, updateDPs K app i dps c K.delayTime = some (sprintfD last.dpDelayTime) := by
  induction dps generalizing i c with
  | nil => exact ⟨fun j dp h => (nomatch h), fun last h => (nomatch h)⟩
  | cons dp dps ih =>
    have hfirst := hsome i dp (Nat.le_refl i) (by rw [List.length_cons]; omega)
    have hrest : Present K app (i + 1) dps.length (c.writes (dpWrites K app i dp)) := by
      intro j dp' hle hlt w hw
      rw [Config.isSome_writes]
      exact hsome j dp' (by omega) (by rw [List.length_cons]; omega) w hw
    obtain ⟨hrows, hdelay⟩ := ih hrest
    constructor
    · intro j dp' hj w hw hne
      rw [updateDPs]
      cases j with
      | zero =>
        obtain rfl : dp = dp' := Option.some.inj hj
        obtain ⟨hrow, -⟩ := (row_of_mem_dpWrites K hw).resolve_left hne
        rw [updateDPs_other K hne (.inl (by omega))]
        exact Config.writes_get hfirst (dpWrites_nodup K happ i dp) hw
      | succ j =>
        refine hrows j dp' hj w ?_ hne
        rwa [Nat.add_right_comm, Nat.add_assoc]
    · intro last hlast
      rw [updateDPs]
      cases dps with
      | nil =>
        obtain rfl : dp = last := by simpa using hlast
        exact Config.writes_get hfirst (dpWrites_nodup K happ i dp) (w := (K.delayTime, sprintfD dp.dpDelayTime)) (by simp [dpWrites])
      | cons dp' dps => exact hdelay last (by simpa using hlast)

/-! ## The result of an update -/

theorem modeApp {m : Nat} (hpos : 1 ≤ m) (hle : m ≤ K.maxtableModeType) : K.ModeApp (K.modeAppID m) :=
  ⟨(K.modes m hpos hle).1, (K.modes m hpos hle).2⟩

/-- A message that lists all points has so many items. -/
theorem ModeUpdate.WellFormed.items_length {n : Nat} {u : ModeUpdate} (h : u.WellFormed K n) : u.items.length = n := by
  have hperm := h.listed.length_eq
  rwa [List.length_map, List.length_range'] at hperm

/-- Its numbers are those of the points. -/
theorem ModeUpdate.WellFormed.dpID {n : Nat} {u : ModeUpdate} (h : u.WellFormed K n) {item : PointItem} (hitem : item ∈ u.items) :
    1 ≤ item.dpID.toNat ∧ item.dpID.toNat ≤ n := by
  have hmem := h.listed.subset (List.mem_map_of_mem (f := fun item => item.dpID.toNat) hitem)
  rw [List.mem_range'_1] at hmem
  omega

/-- There are not more points than numbers. -/
theorem ModeUpdate.WellFormed.lt {n : Nat} {u : ModeUpdate} (h : u.WellFormed K n) : n < 256 := by
  rcases Nat.eq_zero_or_pos n with rfl | hpos
  · decide
  · have hmem : n ∈ u.items.map fun item => item.dpID.toNat := by
      rw [h.listed.mem_iff, List.mem_range'_1]
      omega
    obtain ⟨item, -, hn⟩ := List.mem_map.1 hmem
    rw [← hn]
    exact item.dpID.toNat_lt

/-- The configuration that an update leaves. -/
def updatedConfig (c : Config) (u : ModeUpdate) (ringTypeStr : Text) : Config :=
  Function.update (updateDPs K (K.modeAppID u.smID.toNat) 1 (u.items.map (PointItem.parsed littleEndian)) c)
    (K.ringMode (K.modeAppID u.smID.toNat)) (some ringTypeStr)

variable {K littleEndian} {n : Nat} {c : Config} {u : ModeUpdate} {ringTypeStr : Text}

/-- The cells of the points are there. -/
theorem Config.Configured.present (hc : c.Configured K n) {m : Nat} (hpos : 1 ≤ m) (hle : m ≤ K.maxtableModeType) :
    Present K (K.modeAppID m) 1 n c := by
  intro j dp hj hlt w hw
  obtain ⟨hname, halarm⟩ := hc.points j hj (by omega)
  obtain ⟨hactive, hattr, hdelay⟩ := (hc.modes m hpos hle).2 j hj (by omega)
  simp only [dpWrites, List.mem_cons, List.not_mem_nil, or_false] at hw
  rcases hw with rfl | rfl | rfl | rfl | rfl | rfl
  · exact hname
  · exact hc.delayTime
  · exact hactive
  · exact halarm
  · exact hattr
  · exact hdelay

/-- **The update succeeds.** -/
theorem update_done (littleEndian : Bool) (h : u.WellFormed K n) (hc : c.Configured K n) :
    ∃ ringTypeStr, convertRingTypeIDToStr K u.ring = some ringTypeStr ∧
      processIDPToMFCBUpdateOneSecurityMode K littleEndian c u.octets =
        .done ⟨true, updatedConfig K littleEndian c u ringTypeStr, [u.smID, 1]⟩ := by
  obtain ⟨num, hnum, hatoi⟩ := hc.number
  have hring : ∃ ringTypeStr, convertRingTypeIDToStr K u.ring = some ringTypeStr := by
    rcases h.ring with hr | hr | hr <;> rw [hr] <;> exact ⟨_, rfl⟩
  obtain ⟨ringTypeStr, hring⟩ := hring
  refine ⟨ringTypeStr, hring, ?_⟩
  have htake : (u.items.map (PointItem.parsed littleEndian)).take n = u.items.map (PointItem.parsed littleEndian) :=
    List.take_of_length_le (by rw [List.length_map, h.items_length])
  have hsome : (updateDPs K (K.modeAppID u.smID.toNat) 1 (u.items.map (PointItem.parsed littleEndian)) c
      (K.ringMode (K.modeAppID u.smID.toNat))).isSome := by
    rw [isSome_updateDPs]
    exact (hc.modes _ h.mode.1 h.mode.2).1
  unfold processIDPToMFCBUpdateOneSecurityMode
  rw [parseSM_octets K littleEndian h hc.room, Outcome.bind_done]
  dsimp only
  rw [hnum]
  dsimp only
  rw [hatoi, if_neg (by rw [List.length_map, h.items_length]; omega), hring, Int.toNat_natCast, htake]
  dsimp only
  rw [Config.write, if_pos hsome]
  rfl

variable (littleEndian ringTypeStr)

theorem isSome_updatedConfig (h : u.WellFormed K n) (hc : c.Configured K n) (y : Cell) :
    (updatedConfig K littleEndian c u ringTypeStr y).isSome = (c y).isSome := by
  unfold updatedConfig
  by_cases hy : y = K.ringMode (K.modeAppID u.smID.toNat)
  · rw [hy, Function.update_self, (hc.modes _ h.mode.1 h.mode.2).1]
    rfl
  · rw [Function.update_of_ne hy, isSome_updateDPs]

theorem updatedConfig_other {y : Cell} (hdelay : y ≠ K.delayTime) (happ : y.app ≠ K.modeAppID u.smID.toNat)
    (hrow : y.row = 0 ∨ y.app ≠ K.idDetactPoint) : updatedConfig K littleEndian c u ringTypeStr y = c y := by
  unfold updatedConfig
  rw [Function.update_of_ne, updateDPs_other K hdelay]
  · exact hrow.imp (fun h => by omega) fun h => ⟨happ, h⟩
  · rintro rfl
    exact happ rfl

/-- The configuration still has so many points. -/
theorem updatedConfig_configured (h : u.WellFormed K n) (hc : c.Configured K n) :
    (updatedConfig K littleEndian c u ringTypeStr).Configured K n := by
  have hsome := isSome_updatedConfig littleEndian ringTypeStr h hc
  refine ⟨?_, hc.room, ?_, ?_, fun i hi hin => ?_, fun m hm hmM => ⟨?_, fun i hi hin => ?_⟩⟩
  · obtain ⟨num, hnum, hatoi⟩ := hc.number
    refine ⟨num, ?_, hatoi⟩
    rw [updatedConfig_other]
    · exact hnum
    · exact fun heq => K.paras.2 (Cell.mk.inj heq).2.2.symm
    · exact fun heq => (modeApp K h.mode.1 h.mode.2).securityMode heq.symm
    · exact .inl rfl
  · rw [hsome]
    exact hc.userMode
  · rw [hsome]
    exact hc.delayTime
  · rw [hsome, hsome]
    exact hc.points i hi hin
  · rw [hsome]
    exact (hc.modes m hm hmM).1
  · rw [hsome, hsome, hsome]
    exact (hc.modes m hm hmM).2 i hi hin

/-- The rows have the values of the items in their places. -/
theorem updatedConfig_row (h : u.WellFormed K n) (hc : c.Configured K n) {j : Nat} {p : PointItem} (hj : u.items[j]? = some p)
    {w : Cell × Text} (hw : w ∈ dpWrites K (K.modeAppID u.smID.toNat) (1 + j) (p.parsed littleEndian))
    (hne : w.1 ≠ K.delayTime) : updatedConfig K littleEndian c u ringTypeStr w.1 = some w.2 := by
  have hpresent : Present K (K.modeAppID u.smID.toNat) 1 (u.items.map (PointItem.parsed littleEndian)).length c := by
    rw [List.length_map, h.items_length]
    exact hc.present h.mode.1 h.mode.2
  obtain ⟨hrow, -⟩ := (row_of_mem_dpWrites K hw).resolve_left hne
  unfold updatedConfig
  rw [Function.update_of_ne]
  · refine (updateDPs_get K (modeApp K h.mode.1 h.mode.2) hpresent).1 j (p.parsed littleEndian) ?_ w hw hne
    rw [List.getElem?_map, hj]
    rfl
  · intro heq
    rw [heq] at hrow
    change 0 = 1 + j at hrow
    omega

/-- The delay time is that of the last item. -/
theorem updatedConfig_delayTime (h : u.WellFormed K n) (hc : c.Configured K n) {last : PointItem} (hlast : u.items.getLast? = some last) :
    updatedConfig K littleEndian c u ringTypeStr K.delayTime =
      some (sprintfD (hostNumber littleEndian last.delayTime.1 last.delayTime.2)) := by
  have hpresent : Present K (K.modeAppID u.smID.toNat) 1 (u.items.map (PointItem.parsed littleEndian)).length c := by
    rw [List.length_map, h.items_length]
    exact hc.present h.mode.1 h.mode.2
  unfold updatedConfig
  rw [Function.update_of_ne]
  · refine (updateDPs_get K (modeApp K h.mode.1 h.mode.2) hpresent).2 (last.parsed littleEndian) ?_
    rw [List.getLast?_map, hlast]
    rfl
  · intro heq
    exact (modeApp K h.mode.1 h.mode.2).securityMode (Cell.mk.inj heq).1.symm

/-! ## The report -/

/-- The texts of a cell and of a delay time. -/
def cellText (c : Config) (x : Cell) : Text := (c x).getD []

/-- What is read of a point whose cells are there. -/
def pointOf (c : Config) (app : Int) (i : Nat) : EhomeDP where
  dpID := UInt8.ofNat i
  dpName := octetsOf (cellText c (K.dpName i))
  dpDelayTime := htons littleEndian (atoi16 (cellText c K.delayTime))
  dpSetStatus := if Server.sameNoCase (cellText c (K.activeStatus app i)) enable then 2 else 1
  dpVisualStatus := if Server.sameNoCase (cellText c (K.alarmStatus i)) normal then 1 else 2
  dpAttribute := if Server.sameNoCase (cellText c (K.modeAttribute app i)) enable then 2 else 1
  dpDelayTimeSwitch := if Server.sameNoCase (cellText c (K.activeDelay app i)) enable then 0 else 1

/-- The cells of a point are there, so it is read. -/
theorem ehEncodeParseDetectPoint_eq (hc : c.Configured K n) {m i : Nat} (hm : 1 ≤ m) (hmM : m ≤ K.maxtableModeType) (hi : 1 ≤ i)
    (hin : i ≤ n) :
    ehEncodeParseDetectPoint K littleEndian c (K.modeAppID m) i =
      .done (pointOf (K := K) littleEndian c (K.modeAppID m) i) := by
  obtain ⟨hactive, hattr, hdelay⟩ := (hc.modes m hm hmM).2 i hi hin
  obtain ⟨active, hactive⟩ := Option.isSome_iff_exists.1 hactive
  obtain ⟨attr, hattr⟩ := Option.isSome_iff_exists.1 hattr
  obtain ⟨delay, hdelay⟩ := Option.isSome_iff_exists.1 hdelay
  obtain ⟨alarm, halarm⟩ := Option.isSome_iff_exists.1 (hc.points i hi hin).2
  obtain ⟨time, htime⟩ := Option.isSome_iff_exists.1 hc.delayTime
  unfold ehEncodeParseDetectPoint pointOf cellText
  rw [hactive, hattr, hdelay, halarm, htime]
  rfl

/-- **The report.** It has the points one by one, and the modes one by one with all points each. -/
theorem detectPointReport_eq (hc : c.Configured K n) (hM : 1 ≤ K.maxtableModeType) :
    ∃ r, detectPointReport K littleEndian c = some (.done r) ∧
      r.points = ((List.range' 1 n).map fun i =>
        (⟨UInt8.ofNat i, octetsOf (cellText c (K.dpName i)),
          hostOctets littleEndian (htons littleEndian (atoi16 (cellText c K.delayTime)))⟩ : PointReport)) ∧
      r.modes = (List.range' 1 K.maxtableModeType).map fun m =>
        (⟨UInt8.ofNat m, getRingTypeIDBySM K c m, (List.range' 1 n).map (pointOf (K := K) littleEndian c (K.modeAppID m))⟩ :
          EhomeSM).report := by
  obtain ⟨num, hnum, hatoi⟩ := hc.number
  obtain ⟨userMode, huser⟩ := Option.isSome_iff_exists.1 hc.userMode
  have hread : ∀ m ∈ List.range' 1 K.maxtableModeType, readSM K littleEndian c n m =
      .done ⟨UInt8.ofNat m, getRingTypeIDBySM K c m, (List.range' 1 n).map (pointOf (K := K) littleEndian c (K.modeAppID m))⟩ := by
    intro m hm
    rw [List.mem_range'_1] at hm
    unfold readSM
    rw [Outcome.mapList_eq_done fun i hi => ?_]
    · rfl
    · rw [List.mem_range'_1] at hi
      exact ehEncodeParseDetectPoint_eq littleEndian hc (by omega) (by omega) (by omega) (by omega)
  obtain ⟨M, hMsucc⟩ := Nat.exists_eq_succ_of_ne_zero (Nat.ne_of_gt hM)
  unfold detectPointReport
  rw [huser, hnum]
  dsimp only
  rw [hatoi, Int.toNat_natCast, if_neg (Nat.not_lt.2 hc.room), Outcome.mapList_eq_done hread, Outcome.bind_done, hMsucc,
    List.range'_succ, List.map_cons]
  refine ⟨_, rfl, ?_, ?_⟩
  · dsimp only
    rw [List.map_map]
    rfl
  · dsimp only
    rw [List.map_cons, List.map_map, List.map_cons]
    rfl

/-! ## What the report says after an update -/

theorem ModeUpdate.WellFormed.place (h : u.WellFormed K n) {item : PointItem} (hitem : item ∈ u.items) :
    ∃ p, u.place item.dpID = some p ∧ p ∈ u.items := by
  obtain ⟨hpos, hle⟩ := h.dpID K hitem
  have hlt : item.dpID.toNat - 1 < u.items.length := by
    rw [h.items_length]
    omega
  exact ⟨u.items[item.dpID.toNat - 1], List.getElem?_eq_getElem hlt, List.getElem_mem hlt⟩

theorem shown_status {x : UInt8} (hx : x = 1 ∨ x = 2) :
    (if Server.sameNoCase (if x = 2 then enable else disable) enable then (2 : UInt8) else 1) = x := by
  rcases hx with rfl | rfl <;> decide

theorem shown_visualStatus (x : UInt8) :
    (if Server.sameNoCase (if x = 1 then enable else alert) normal then (1 : UInt8) else 2) = 2 := by
  have hnever : Server.sameNoCase (if x = 1 then enable else alert) normal = false := by split <;> decide
  rw [hnever]
  rfl

theorem shown_switch {x : UInt8} (hx : x = 0 ∨ x = 1) :
    (if Server.sameNoCase (if x = 0 then enable else disable) enable then (0 : UInt8) else 1) = x := by
  rcases hx with rfl | rfl <;> decide

variable (h : u.WellFormed K n) (hc : c.Configured K n)
include h hc

theorem updated_cell {item p : PointItem} (hitem : item ∈ u.items) (hplace : u.place item.dpID = some p) :
    ∀ w ∈ dpWrites K (K.modeAppID u.smID.toNat) item.dpID.toNat (p.parsed littleEndian), w.1.app ≠ K.idSecurityMode →
      updatedConfig K littleEndian c u ringTypeStr w.1 = some w.2 := by
  intro w hw hne
  obtain ⟨hpos, -⟩ := h.dpID K hitem
  have hi : 1 + (item.dpID.toNat - 1) = item.dpID.toNat := by omega
  exact updatedConfig_row littleEndian ringTypeStr h hc hplace (hi.symm ▸ hw) fun heq => hne (congrArg Cell.app heq)

/-- What is read of a point in the updated mode is what the item in its place says, but for the visual status and the delay time. -/
theorem pointOf_updated {item p : PointItem} (hitem : item ∈ u.items) (hplace : u.place item.dpID = some p) (hp : p ∈ u.items) :
    pointOf (K := K) littleEndian (updatedConfig K littleEndian c u ringTypeStr) (K.modeAppID u.smID.toNat) item.dpID.toNat =
      { dpID := item.dpID
        dpName := p.dpName
        dpDelayTime := htons littleEndian (atoi16 (cellText (updatedConfig K littleEndian c u ringTypeStr) K.delayTime))
        dpSetStatus := p.setStatus
        dpVisualStatus := 2
        dpAttribute := p.dpAttribute
        dpDelayTimeSwitch := p.delayTimeSwitch } := by
  have hwell := h.items p hp
  have happ := modeApp K h.mode.1 h.mode.2
  have hcell : ∀ w ∈ dpWrites K (K.modeAppID u.smID.toNat) item.dpID.toNat (p.parsed littleEndian), w.1.app ≠ K.idSecurityMode →
      cellText (updatedConfig K littleEndian c u ringTypeStr) w.1 = w.2 := by
    intro w hw hne
    rw [cellText, updated_cell littleEndian ringTypeStr h hc hitem hplace w hw hne]
    rfl
  simp only [dpWrites, List.forall_mem_cons, PointItem.parsed] at hcell
  obtain ⟨hname, -, hactive, halarm, hattr, hdelay, -⟩ := hcell
  unfold pointOf
  rw [hname K.apps.symm, hactive happ.securityMode, halarm K.apps.symm, hattr happ.securityMode, hdelay happ.securityMode,
    octetsOf_cText hwell.name.2.2, UInt8.ofNat_toNat]
  congr 1
  · exact shown_status hwell.setStatus
  · exact shown_visualStatus p.visualStatus
  · exact shown_status hwell.dpAttribute
  · exact shown_switch hwell.delayTimeSwitch

omit hc in
/-- The ring type is read back. -/
theorem ring_updated (hring : convertRingTypeIDToStr K u.ring = some ringTypeStr) :
    getRingTypeIDBySM K (updatedConfig K littleEndian c u ringTypeStr) u.smID.toNat = u.ring := by
  obtain ⟨hsmp, hnone, hnone'⟩ := K.ringGroups
  have hself : ∀ t : Text, Server.sameNoCase t t = true := fun t => decide_eq_true rfl
  unfold getRingTypeIDBySM updatedConfig
  rw [Function.update_self]
  dsimp only
  rcases h.ring with hr | hr | hr <;> rw [hr] at hring ⊢ <;> cases hring
  · rw [hself]
    rfl
  · rw [hsmp, hself]
    rfl
  · rw [hnone, hnone']
    rfl

theorem delayTime_updated (item : PointItem) {last : PointItem} (hlast : last ∈ u.items.getLast?) :
    hostOctets littleEndian (htons littleEndian (atoi16 (cellText (updatedConfig K littleEndian c u ringTypeStr) K.delayTime))) =
      [item.delayTime.1, item.delayTime.2] ↔
    hostNumber littleEndian last.delayTime.1 last.delayTime.2 = hostNumber false item.delayTime.1 item.delayTime.2 := by
  have hlt := hostNumber_lt littleEndian last.delayTime.1 last.delayTime.2
  rw [cellText, updatedConfig_delayTime littleEndian ringTypeStr h hc hlast, Option.getD_some, atoi16_sprintfD hlt,
    hostOctets_htons littleEndian hlt, octets_eq_iff hlt]

omit hc in
/-- A number of a point is one row of the report. -/
theorem mem_rows_iff {α : Type} {item : PointItem} (hitem : item ∈ u.items) (f : Nat → α) (dpID : α → UInt8)
    (hf : ∀ i, dpID (f i) = UInt8.ofNat i) {x : α} (hx : dpID x = item.dpID) :
    x ∈ (List.range' 1 n).map f ↔ f item.dpID.toNat = x := by
  obtain ⟨hpos, hle⟩ := h.dpID K hitem
  have hn := h.lt
  constructor
  · intro hmem
    obtain ⟨i, hi, rfl⟩ := List.mem_map.1 hmem
    rw [List.mem_range'_1] at hi
    have hsame := congrArg UInt8.toNat ((hf i).symm.trans hx)
    rw [UInt8.toNat_ofNat', Nat.mod_eq_of_lt (by omega)] at hsame
    rw [← hsame]
  · intro heq
    exact List.mem_map.2 ⟨item.dpID.toNat, by rw [List.mem_range'_1]; omega, heq⟩

/-- **The report of an update.** Of each item it has the values exactly when the point in the place of its number has them, apart
from those that are never reported. -/
theorem report_agrees_iff (hring : convertRingTypeIDToStr K u.ring = some ringTypeStr) {r : Report}
    (hr : detectPointReport K littleEndian (updatedConfig K littleEndian c u ringTypeStr) = some (.done r)) :
    r.Agrees u ↔ ∀ item ∈ u.items,
      (∃ p, u.place item.dpID = some p ∧ p.dpName = item.dpName ∧ p.setStatus = item.setStatus ∧
        p.dpAttribute = item.dpAttribute ∧ p.delayTimeSwitch = item.delayTimeSwitch) ∧
      item.visualStatus = 2 ∧ item.dpAttribute = 1 ∧
      ∀ last ∈ u.items.getLast?,
        hostNumber littleEndian last.delayTime.1 last.delayTime.2 = hostNumber false item.delayTime.1 item.delayTime.2 := by
  obtain ⟨r', hr', hpoints, hmodes⟩ := detectPointReport_eq littleEndian
    (updatedConfig_configured littleEndian ringTypeStr h hc) (Nat.le_trans h.mode.1 h.mode.2)
  obtain rfl : r' = r := Outcome.done.inj (Option.some.inj (hr'.symm.trans hr))
  have hlt : u.smID.toNat < 256 := u.smID.toNat_lt
  have hM := K.modeCount
  -- the mode is one entry of the report
  have hmode : (∃ m ∈ r'.modes, m.smID = u.smID ∧ m.smRing = u.ring ∧
      ∀ item ∈ u.items, (⟨item.dpID, item.setStatus, item.visualStatus, item.dpAttribute, item.delayTimeSwitch⟩ :
        ModePointReport) ∈ m.smDP) ↔
      ∀ item ∈ u.items, (⟨item.dpID, item.setStatus, item.visualStatus, item.dpAttribute, item.delayTimeSwitch⟩ :
        ModePointReport) ∈ (List.range' 1 n).map (EhomeDP.report ∘
          pointOf (K := K) littleEndian (updatedConfig K littleEndian c u ringTypeStr) (K.modeAppID u.smID.toNat)) := by
    rw [hmodes]
    constructor
    · rintro ⟨m, hm, hid, -, hall⟩ item hitem
      obtain ⟨k, hk, rfl⟩ := List.mem_map.1 hm
      rw [List.mem_range'_1] at hk
      have hsame : (UInt8.ofNat k).toNat = u.smID.toNat := congrArg UInt8.toNat hid
      rw [UInt8.toNat_ofNat', Nat.mod_eq_of_lt (by omega)] at hsame
      have hmem := hall item hitem
      rwa [EhomeSM.report, List.map_map, hsame] at hmem
    · intro hall
      refine ⟨_, List.mem_map.2 ⟨u.smID.toNat, ?_, rfl⟩, UInt8.ofNat_toNat, ring_updated littleEndian ringTypeStr h hring,
        fun item hitem => ?_⟩
      · rw [List.mem_range'_1]
        have hmode := h.mode
        omega
      · rw [EhomeSM.report, List.map_map]
        exact hall item hitem
  unfold Report.Agrees
  rw [hmode, hpoints, ← forall₂_and]
  refine forall₂_congr fun item hitem => ?_
  obtain ⟨p, hplace, hp⟩ := h.place hitem
  obtain ⟨last, hlast⟩ := Option.isSome_iff_exists.1 (List.getLast?_isSome.2 (List.ne_nil_of_mem hitem))
  have hname := octetsOf_cText (h.items p hp).name.2.2
  have hshown := pointOf_updated littleEndian ringTypeStr h hc hitem hplace hp
  have hshownName : octetsOf (cellText (updatedConfig K littleEndian c u ringTypeStr) (K.dpName item.dpID.toNat)) = p.dpName :=
    congrArg EhomeDP.dpName hshown
  rw [mem_rows_iff h hitem _ PointReport.dpID (fun _ => rfl) rfl, mem_rows_iff h hitem _ ModePointReport.dpID (fun _ => rfl) rfl,
    hshownName, Function.comp_apply, hshown, PointReport.mk.injEq, delayTime_updated littleEndian ringTypeStr h hc item hlast]
  simp only [EhomeDP.report, ModePointReport.mk.injEq, UInt8.ofNat_toNat, true_and, hplace, Option.some.injEq, exists_eq_left']
  have hdelay : (∀ last ∈ u.items.getLast?,
      hostNumber littleEndian last.delayTime.1 last.delayTime.2 = hostNumber false item.delayTime.1 item.delayTime.2) ↔
      hostNumber littleEndian last.delayTime.1 last.delayTime.2 = hostNumber false item.delayTime.1 item.delayTime.2 := by
    rw [hlast]
    simp
  rw [hdelay]
  constructor
  · rintro ⟨⟨hpname, htime⟩, hstatus, hvisual, hattr, hswitch⟩
    have hone : p.dpAttribute = 1 := by
      rcases (h.items p hp).dpAttribute with hone | htwo
      · exact hone
      · -- a point that is open for ever is reported with a status that no message has
        rw [htwo, if_pos rfl] at hstatus
        rcases (h.items item hitem).setStatus with hs | hs <;> rw [hs] at hstatus <;> exact absurd hstatus (by decide)
    rw [if_neg (by rw [hone]; decide)] at hstatus
    exact ⟨⟨hpname, hstatus, hattr, hswitch⟩, hvisual.symm, hattr ▸ hone, htime⟩
  · rintro ⟨⟨hpname, hstatus, hattr, hswitch⟩, hvisual, hone, htime⟩
    refine ⟨⟨hpname, htime⟩, ?_, hvisual.symm, hattr, hswitch⟩
    rw [if_neg (by rw [hattr, hone]; decide)]
    exact hstatus

/-! ## One value -/

omit h hc in
/-- What the write of one value leaves. -/
theorem single_done {value : List UInt8} {x : Cell} {v : Text} (hwrite : singleWrite K littleEndian value = .done (some (x, v))) :
    ∃ result, processIDPToMFCBSetSingleDetectPoint K littleEndian c value = .done result ∧
      ∀ y, result.config y = if y = x ∧ (c x).isSome then some v else c y := by
  unfold processIDPToMFCBSetSingleDetectPoint Config.write
  rw [hwrite]
  by_cases hsome : (c x).isSome
  · refine ⟨⟨true, Function.update c x (some v), value ++ [1]⟩, by simp [Outcome.map, hsome], fun y => ?_⟩
    change Function.update c x (some v) y = _
    rw [Function.update_apply]
    simp [hsome]
  · refine ⟨⟨false, c, value ++ [2]⟩, by simp [Outcome.map, hsome], fun y => ?_⟩
    rw [if_neg fun hand => hsome hand.2]

omit h hc in
/-- A value of a mode is written to the application that has the number of the mode. So it is stored for the mode when that is its
application, or when it was there before. -/
theorem single_mode_iff {value : List UInt8} (cell : Int → Cell) (hcell : ∀ app app', cell app = cell app' → app = app')
    {smID app : Int} {v : Text} (hthere : (c (cell app)).isSome)
    (hwrite : singleWrite K littleEndian value = .done (some (cell smID, v))) :
    (∃ result, processIDPToMFCBSetSingleDetectPoint K littleEndian c value = .done result ∧ result.config (cell app) = some v) ↔
      app = smID ∨ c (cell app) = some v := by
  obtain ⟨result, hdone, hconfig⟩ := single_done (c := c) littleEndian hwrite
  have hexists : (∃ result, processIDPToMFCBSetSingleDetectPoint K littleEndian c value = .done result ∧
      result.config (cell app) = some v) ↔ result.config (cell app) = some v := by
    rw [hdone]
    simp
  rw [hexists, hconfig]
  by_cases happ : app = smID
  · rw [if_pos ⟨by rw [happ], by rw [← happ]; exact hthere⟩]
    exact iff_of_true rfl (.inl happ)
  · rw [if_neg fun hand => happ (hcell _ _ hand.1)]
    exact (or_iff_right happ).symm

/-- **Each value on its own.** With the values in their places, what is set on its own is stored as the update stores it exactly when
the name leaves room for a zero, and the values of the mode reach it or were there. -/
theorem singles_iff {item p : PointItem} (hitem : item ∈ u.items) (hplace : u.place item.dpID = some p)
    (hpname : p.dpName = item.dpName) (hpstatus : p.setStatus = item.setStatus) (hpattr : p.dpAttribute = item.dpAttribute)
    (htime : ∀ last ∈ u.items.getLast?,
      hostNumber littleEndian last.delayTime.1 last.delayTime.2 = hostNumber false item.delayTime.1 item.delayTime.2) :
    (∀ v : SingleValue, ∃ result,
      processIDPToMFCBSetSingleDetectPoint K littleEndian c (v.octets u.smID item) = .done result ∧
        result.config (v.cell K u.smID item) = updatedConfig K littleEndian c u ringTypeStr (v.cell K u.smID item)) ↔
    item.dpName.length < K.maxparaDpNameLen ∧
      (K.modeAppID u.smID.toNat = u.smID.toNat ∨
        c (K.activeStatus (K.modeAppID u.smID.toNat) item.dpID.toNat) = some (if item.setStatus = 2 then enable else disable) ∧
          c (K.modeAttribute (K.modeAppID u.smID.toNat) item.dpID.toNat) =
            some (if item.dpAttribute = 2 then enable else disable)) := by
  have hwell := h.items item hitem
  have happ := modeApp K h.mode.1 h.mode.2
  have hthere := (hc.modes _ h.mode.1 h.mode.2).2 item.dpID.toNat (h.dpID K hitem).1 (h.dpID K hitem).2
  have hcell := updated_cell littleEndian ringTypeStr h hc hitem hplace
  simp only [dpWrites, List.forall_mem_cons, PointItem.parsed, hpname, hpstatus, hpattr] at hcell
  obtain ⟨hname, -, hactive, -, hattr, -⟩ := hcell
  -- the value of the mode that is written, in either of the two cells
  have hstatus : singleWrite K littleEndian (SingleValue.setStatus.octets u.smID item) =
      .done (some (K.activeStatus u.smID.toNat item.dpID.toNat, if item.setStatus = 2 then enable else disable)) := by
    rcases hwell.setStatus with hs | hs <;> simp [SingleValue.octets, singleWrite, hs]
  have hattribute : singleWrite K littleEndian (SingleValue.dpAttribute.octets u.smID item) =
      .done (some (K.modeAttribute u.smID.toNat item.dpID.toNat, if item.dpAttribute = 2 then enable else disable)) := by
    rcases hwell.dpAttribute with hs | hs <;> simp [SingleValue.octets, singleWrite, hs]
  have hstatus := single_mode_iff littleEndian (fun app => K.activeStatus app item.dpID.toNat)
    (fun _ _ heq => (Cell.mk.inj heq).1) hthere.1 hstatus
  have hattribute := single_mode_iff littleEndian (fun app => K.modeAttribute app item.dpID.toNat)
    (fun _ _ heq => (Cell.mk.inj heq).1) hthere.2.1 hattribute
  have hlen : (UInt8.ofNat item.dpName.length).toNat = item.dpName.length := by
    rw [UInt8.toNat_ofNat']
    exact Nat.mod_eq_of_lt hwell.name.2.1
  constructor
  · intro hall
    refine ⟨?_, ?_⟩
    · obtain ⟨result, hdone, -⟩ := hall .dpName
      by_contra hlong
      simp [processIDPToMFCBSetSingleDetectPoint, SingleValue.octets, singleWrite, hlen, Nat.not_lt.1 hlong, Outcome.map,
        Outcome.bind] at hdone
    · have hone := hall .setStatus
      have htwo := hall .dpAttribute
      simp only [SingleValue.cell] at hone htwo
      rw [hactive happ.securityMode] at hone
      rw [hattr happ.securityMode] at htwo
      rcases hstatus.1 hone with heq | hold
      · exact .inl heq
      · exact (hattribute.1 htwo).imp_right fun hold' => ⟨hold, hold'⟩
  · rintro ⟨hshort, happs⟩ v
    cases v with
    | setStatus =>
      simp only [SingleValue.cell]
      rw [hactive happ.securityMode]
      exact hstatus.2 (happs.imp_right And.left)
    | dpAttribute =>
      simp only [SingleValue.cell]
      rw [hattr happ.securityMode]
      exact hattribute.2 (happs.imp_right And.right)
    | dpName =>
      have hwrite : singleWrite K littleEndian (SingleValue.dpName.octets u.smID item) =
          .done (some (K.dpName item.dpID.toNat, cText item.dpName)) := by
        simp [SingleValue.octets, singleWrite, hlen, Nat.not_le.2 hshort]
      obtain ⟨result, hdone, hconfig⟩ := single_done (c := c) littleEndian hwrite
      refine ⟨result, hdone, ?_⟩
      have hsome := (hc.points _ (h.dpID K hitem).1 (h.dpID K hitem).2).1
      simp only [SingleValue.cell]
      rw [hconfig, if_pos ⟨rfl, hsome⟩, hname K.apps.symm]
    | delayTime =>
      obtain ⟨last, hlast⟩ := Option.isSome_iff_exists.1 (List.getLast?_isSome.2 (List.ne_nil_of_mem hitem))
      have hwrite : singleWrite K littleEndian (SingleValue.delayTime.octets u.smID item) =
          .done (some (K.delayTime, sprintfD (hostNumber false item.delayTime.1 item.delayTime.2))) := by
        simp [SingleValue.octets, singleWrite, htons_hostNumber]
      obtain ⟨result, hdone, hconfig⟩ := single_done (c := c) littleEndian hwrite
      refine ⟨result, hdone, ?_⟩
      simp only [SingleValue.cell]
      rw [hconfig, if_pos ⟨rfl, hc.delayTime⟩, updatedConfig_delayTime littleEndian ringTypeStr h hc hlast, htime last hlast]

/-- **Security modes read back.** After an update that lists all points the report has the values of the message, and each value that is
set on its own is stored as the update stores it, exactly when each item meets its condition. -/
theorem reads_back_iff : ReadsBack K littleEndian c u ↔ ∀ item ∈ u.items, item.Kept K littleEndian c u := by
  obtain ⟨ringTypeStr, hring, hupdate⟩ := update_done littleEndian h hc
  obtain ⟨r, hr, -⟩ := detectPointReport_eq littleEndian
    (updatedConfig_configured littleEndian ringTypeStr h hc) (Nat.le_trans h.mode.1 h.mode.2)
  have hagrees := report_agrees_iff littleEndian ringTypeStr h hc hring hr
  constructor
  · rintro ⟨updated, report, hdone, hreport, hall, hsingles⟩ item hitem
    obtain rfl : updatedConfig K littleEndian c u ringTypeStr = updated :=
      congrArg HandlerResult.config (Outcome.done.inj (hupdate.symm.trans hdone))
    obtain rfl : r = report := Outcome.done.inj (Option.some.inj (hr.symm.trans hreport))
    obtain ⟨⟨p, hplace, hpname, hpstatus, hpattr, hpswitch⟩, hvisual, hattr, htime⟩ := hagrees.1 hall item hitem
    obtain ⟨hname, happ⟩ := (singles_iff littleEndian ringTypeStr h hc hitem hplace hpname hpstatus hpattr htime).1
      (hsingles item hitem)
    exact ⟨⟨p, hplace, hpname, hpstatus, hpattr, hpswitch⟩, hvisual, hattr, htime, hname, happ⟩
  · intro hkept
    refine ⟨_, r, hupdate, hr, hagrees.2 fun item hitem => ?_, fun item hitem => ?_⟩
    · obtain ⟨hplace, hvisual, hattr, htime, -, -⟩ := hkept item hitem
      exact ⟨hplace, hvisual, hattr, htime⟩
    · obtain ⟨⟨p, hplace, hpname, hpstatus, hpattr, -⟩, -, -, htime, hname, happ⟩ := hkept item hitem
      exact (singles_iff littleEndian ringTypeStr h hc hitem hplace hpname hpstatus hpattr htime).2 ⟨hname, happ⟩

omit h hc

/-- A library in which each mode has its number for its application. -/
def plainConstants : SecurityConstants where
  idSecurityMode := 100
  idDetactPoint := 101
  modeAppID m := if m < 100 then m else 99
  modeIndex _ := 1
  paraDelayTime := 1
  paraUserMode := 2
  paraCurrentDiNum := 3
  paraRingMode := 1
  tabParaDpName := 1
  tabParaAlarmStatus := 2
  tabParaActiveStatus := 1
  tabParaAttribute := 2
  tabParaActiveDelay := 3
  maxtableModeType := 2
  maxtableDetactPoint := 16
  maxparaDpNameLen := 32
  ringGroupIdp := ['I']
  ringGroupSmp := ['S']
  ringGroupNone := ['N']
  modeCount := by decide
  apps := by decide
  modes m _ hm := by constructor <;> split <;> omega
  modes_inj m m' _ hm _ hm' heq := by
    rw [if_pos (by omega), if_pos (by omega)] at heq
    exact Int.ofNat.inj heq
  paras := by decide
  pointParas := by decide
  modeParas := by decide
  ringGroups := by decide
  nameLen := by decide

/-- One detection point is configured. -/
def onePoint : Config := fun x => if x = plainConstants.currentDiNum then some ['1'] else some []

/-- The message for the first mode, with a visual status. -/
def onePointUpdate (visualStatus : UInt8) : ModeUpdate := ⟨1, [⟨1, [100], (0, 0), 2, visualStatus, 1, 0⟩], 2⟩

theorem onePoint_configured : onePoint.Configured plainConstants 1 where
  number := ⟨['1'], by decide, by decide⟩
  room := by decide
  userMode := by decide
  delayTime := by decide
  points i _ _ := by
    unfold onePoint
    constructor <;> split <;> rfl
  modes m _ _ := by
    unfold onePoint
    refine ⟨by split <;> rfl, fun i _ _ => ⟨?_, ?_, ?_⟩⟩ <;> split <;> rfl

theorem onePointUpdate_wellFormed {visualStatus : UInt8} (hvisual : visualStatus = 1 ∨ visualStatus = 2) :
    (onePointUpdate visualStatus).WellFormed plainConstants 1 where
  mode := (by decide : 1 ≤ (1 : UInt8).toNat ∧ (1 : UInt8).toNat ≤ 2)
  listed := .refl _
  items item hitem := by
    obtain rfl := List.mem_singleton.1 hitem
    have hname : ([100] : List UInt8).length ≤ 32 ∧ ([100] : List UInt8).length < 256 ∧ (0 : UInt8) ∉ [100] := by decide
    exact ⟨hname, .inr rfl, hvisual, .inl rfl, .inl rfl⟩
  ring := .inr (.inl rfl)
  length := by
    change 11 < 65536
    decide

/-- A point with an alert reads back. -/
theorem reads_back_alert : ReadsBack plainConstants true onePoint (onePointUpdate 2) := by
  refine (reads_back_iff true (onePointUpdate_wellFormed (.inr rfl)) onePoint_configured).2 fun item hitem => ?_
  obtain rfl := List.mem_singleton.1 hitem
  refine ⟨⟨_, rfl, rfl, rfl, rfl, rfl⟩, rfl, rfl, fun last hlast => ?_, by decide, .inl rfl⟩
  obtain rfl := Option.some.inj hlast
  rfl

/-- A point without one is reported with an alert. -/
theorem not_reads_back_normal : (onePointUpdate 1).WellFormed plainConstants 1 ∧ onePoint.Configured plainConstants 1 ∧
    ¬ ReadsBack plainConstants true onePoint (onePointUpdate 1) := by
  refine ⟨onePointUpdate_wellFormed (.inl rfl), onePoint_configured, ?_⟩
  rintro ⟨updated, report, hdone, hreport, ⟨-, m, hm, -, -, hagrees⟩, -⟩
  have hrun : ((processIDPToMFCBUpdateOneSecurityMode plainConstants true onePoint (onePointUpdate 1).octets).map fun result =>
      (detectPointReport plainConstants true result.config).map fun report =>
        report.map fun r => r.modes.map ModeReport.smDP) =
      .done (some (.done [[⟨1, 2, 2, 1, 0⟩], [⟨1, 1, 2, 1, 1⟩]])) := by
    decide +kernel
  rw [hdone] at hrun
  have hmodes : report.modes.map ModeReport.smDP = [[⟨1, 2, 2, 1, 0⟩], [⟨1, 1, 2, 1, 1⟩]] := by
    simpa only [Outcome.map, Outcome.bind_done, hreport, Option.map_some, Outcome.done.injEq, Option.some.injEq] using hrun
  have hitem := hagrees _ (List.mem_singleton.2 rfl)
  have hrow : m.smDP ∈ report.modes.map ModeReport.smDP := List.mem_map_of_mem hm
  rw [hmodes] at hrow
  rcases List.mem_cons.1 hrow with hfirst | hsecond
  · rw [hfirst] at hitem
    exact absurd hitem (by decide)
  · rw [List.mem_singleton.1 hsecond] at hitem
    exact absurd hitem (by decide)

end CodeFactory.Ehcc
