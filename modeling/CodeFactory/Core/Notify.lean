import CodeFactory.Core.MainLoop
import CodeFactory.Soap.ParameterList
import CodeFactory.Tr69.Notification

/-!
# Value changes in an Inform

`get_inform_parameter_list`, and what becomes of the marks of changed leaves while `main_session` tries to bring an Inform to the
server. The marks go when the list is collected, before the Inform is sent.
-/

namespace CodeFactory.Core

open Soap (ParameterValueStruct ValueType)
open Tr69

/-! ## The list -/

def gRequiredInformParams : List Text :=
  ["InternetGatewayDevice.DeviceSummary",
    "InternetGatewayDevice.DeviceInfo.SpecVersion",
    "InternetGatewayDevice.DeviceInfo.HardwareVersion",
    "InternetGatewayDevice.DeviceInfo.SoftwareVersion",
    "InternetGatewayDevice.DeviceInfo.ProvisioningCode",
    "InternetGatewayDevice.ManagementServer.ConnectionRequestURL",
    "InternetGatewayDevice.ManagementServer.ParameterKey"].map String.toList

def defaultConnectionService : Text := "InternetGatewayDevice.Layer3Forwarding.DefaultConnectionService".toList

/-- What `get_inform_parameter_list` meets: the values, and where there is memory. -/
structure ListInput where
  /-- What `get_local_parameter_value` finds, which is nothing after an error. -/
  read : Text → Option Text
  /-- `gCB.get_wan_ipaddress`. -/
  wanIpaddress : Text
  /-- There is memory for the entries of the parameters that are in every Inform. -/
  requiredMade : Bool
  /-- There is memory for a leaf in the lists of the walk. -/
  malloc : Text → Bool
  /-- There is memory for the entries of the leaves. -/
  leavesMade : Bool

/-- The default connection, if the list gets as far as the walk. -/
def ListInput.connection (input : ListInput) : Option Text :=
  if input.requiredMade then input.read defaultConnectionService else none

/-- `node_value_convertion` for one leaf: a value that is not to be read is emptied. -/
def nodeValueConvertion (name : Tr069NameArg) (value : Tr069Value) : Tr069Value :=
  if name.accessType.read then value else
  match value with
  | .string _ => .string []
  | value => value.ofBits 0

/-- The text of a value; a number of any type is written as a signed one. -/
def valueText : Tr069Value → Text
  | .string string => string
  | value => decimal value.bits.toInt

def localTypeToSoap : Tr069Value → ValueType
  | .string _ => .xsdString
  | .unsigned _ => .xsdUint
  | .bool _ => .xsdBool
  | .int _ => .xsdInt

/-- The entries of the parameters that are in every Inform. -/
def requiredEntries (input : ListInput) (connection : Text) : List ParameterValueStruct :=
  gRequiredInformParams.map (fun name => ⟨name, input.read name, some .xsdString⟩) ++
    [⟨connection ++ ".ExternalIPAddress".toList, some input.wanIpaddress, some .xsdString⟩]

/-- The entries of the leaves in the two lists, but for those that are in every Inform. The type is that of the first leaf for all. -/
def leafEntries (lists : List Tr069NameArg × List Tr069Value) : List ParameterValueStruct :=
  ((lists.1.zip lists.2).filter fun leaf => !gRequiredInformParams.contains leaf.1.name).map fun leaf =>
    ⟨leaf.1.name, some (valueText (nodeValueConvertion leaf.1 leaf.2)), lists.2.head?.map localTypeToSoap⟩

/-- `get_inform_parameter_list`, and what is left of the list when `update_inform_content` has freed it after an error. -/
def getInformParameterList (s : TreeState) (input : ListInput) : Option (List ParameterValueStruct × TreeState) :=
  match input.connection with
  | none => some ([], s)
  | some connection =>
    match s.getTr069NotificationNode input.malloc with
    | none => none
    | some (.error _, s) => some (requiredEntries input connection, s)
    | some (.ok lists, s) =>
      let leaves := leafEntries lists
      some (if input.leavesMade = true ∨ leaves = [] then requiredEntries input connection ++ leaves else [], s)

/-! ## Runs -/

/-- The tree, the session thread, and the parameter list of the Inform at hand, with two ghosts. -/
structure NotifyState where
  tree : TreeState
  control : Control
  parameterList : List ParameterValueStruct
  /-- The leaves that have changed, and are in no Inform since that has been acknowledged. -/
  owed : List Pos
  /-- Those of them that are in the Inform at hand, and have not changed again. -/
  sent : List Pos

/-- Before the first session, with some leaves marked. -/
def NotifyState.start (tree : TreeState) : NotifyState :=
  ⟨tree, .init, [], (tree.tree.visited.filter fun v => v.cell.isChanged).map Visit.pos, []⟩

/-- What happens: a module sets a value or looks up a name, or the session thread goes on. Attributes are not set meanwhile, which would
clear marks as well. -/
inductive NotifyAct where
  | setValue (module : Tr069AccessModule) (name : Text) (value : Tr069Value)
  | lookup (name : Text)
  | session (a : SessionAct)
  | parameterList (input : ListInput)

/-- The leaf of which the ACS is to be notified when `set_tr069_value` has returned; none before the agent has started. -/
def changedLeaf (s : TreeState) (name : Text) (ret : Result) : Option Pos :=
  if NeedsNotification ret ∧ s.gInitSuccess = true then s.tree.leadsTo s.cache name else none

/-- The list has the name of the leaf at `p`. -/
def Lists (list : List ParameterValueStruct) (t : Tr069Tree) (p : Pos) : Prop :=
  ∃ v ∈ t.visited, v.pos = p ∧ v.allName ∈ list.map ParameterValueStruct.name

instance (list : List ParameterValueStruct) (t : Tr069Tree) (p : Pos) : Decidable (Lists list t p) :=
  inferInstanceAs (Decidable (∃ v ∈ t.visited, _))

/-- One step of one thread. -/
def notifyStep (s : NotifyState) : NotifyAct → Option NotifyState
  | .setValue module name value =>
    (s.tree.setTr069Value module name value).map fun (ret, tree) =>
      let leaf := changedLeaf s.tree name ret
      { s with tree := tree, owed := leaf.toList ++ s.owed, sent := s.sent.filter fun p => leaf ≠ some p }
  | .lookup name => some { s with tree := { s.tree with cache := s.tree.tree.cacheLookedUp s.tree.cache name } }
  | .parameterList input =>
    (mainSession s.control (.parameterList true)).bind fun control =>
      (getInformParameterList s.tree input).map fun (list, tree) =>
        { s with
          tree := tree
          control := control
          parameterList := list
          sent := s.owed.filter fun p => Lists list s.tree.tree p ∧ tree.changedAt p = false }
  | .session (.parameterList _) => none
  | .session .informResponse =>
    (mainSession s.control .informResponse).map fun control =>
      { s with control := control, owed := s.owed.filter fun p => !s.sent.contains p, sent := [] }
  | .session a => (mainSession s.control a).map fun control => { s with control := control }

/-! ## What becomes of a mark -/

/-- A mark is cleared only when the leaf has been in an Inform that has been acknowledged. -/
def MarkKept (s : NotifyState) (_ : NotifyAct) (t : NotifyState) : Prop :=
  ∀ p, s.tree.changedAt p = true → t.tree.changedAt p = false → p ∉ s.owed

/-- No marked leaf is collected. -/
def NothingCollected (s : NotifyState) : NotifyAct → Prop
  | .parameterList input => input.connection ≠ none → ∀ v ∈ s.tree.tree.visited, v.cell.isChanged = false
  | _ => True

instance (s : NotifyState) : (a : NotifyAct) → Decidable (NothingCollected s a)
  | .parameterList _ => inferInstanceAs (Decidable (_ → _))
  | .setValue .. | .lookup _ | .session _ => .isTrue trivial

/-- An Inform is made, sent, or waits for its answer. -/
def UnderWay : Point → Prop
  | .generate | .send | .response _ => True
  | _ => False

instance : (p : Point) → Decidable (UnderWay p)
  | .generate | .send | .response _ => .isTrue trivial
  | .waiting | .head | .transferCode | .mrebootCode | .testCode _ | .parameterList | .acknowledged | .serve | .tail | .ended =>
    .isFalse id

/-- An owed leaf is marked, or it is in an Inform that is under way. -/
def NoneLost (s : NotifyState) : Prop := ∀ p ∈ s.owed, s.tree.changedAt p = true ∨ p ∈ s.sent ∧ UnderWay s.control.point

instance (s : NotifyState) : Decidable (NoneLost s) := inferInstanceAs (Decidable (∀ p ∈ s.owed, _))

/-- The attempt fails with the Inform under way. -/
def Fails (c : Control) (a : SessionAct) : Prop := UnderWay c.point ∧ (mainSession c a).map Control.point = some .head

instance (c : Control) (a : SessionAct) : Decidable (Fails c a) := inferInstanceAs (Decidable (_ ∧ _))

/-- Memory does not run out while marked leaves are collected, and no attempt fails that has sent a leaf, unless the leaf has changed
again. -/
def AttemptKept (s : NotifyState) : NotifyAct → Prop
  | .parameterList input => input.connection ≠ none →
      ∀ v ∈ s.tree.tree.visited, v.cell.isChanged = true → input.malloc v.allName = true ∧ input.leavesMade = true
  | .session a => Fails s.control a → s.sent = []
  | .setValue .. | .lookup _ => True

instance (s : NotifyState) : (a : NotifyAct) → Decidable (AttemptKept s a)
  | .parameterList _ => inferInstanceAs (Decidable (_ → _))
  | .session _ => inferInstanceAs (Decidable (_ → _))
  | .setValue .. | .lookup _ => .isTrue trivial

/-! ## Collecting -/

section List

variable {s s' : TreeState} {input : ListInput} {list : List ParameterValueStruct}

/-- **Collecting the leaves** clears marks of visited leaves, and nothing else; if one of these is marked, a mark goes. -/
theorem changedAt_getInformParameterList (h : getInformParameterList s input = some (list, s')) :
    ∃ done, done ⊆ s.tree.visited ∧ (∀ p, s'.changedAt p = if p ∈ done.map Visit.pos then false else s.changedAt p) ∧
      (input.connection = none → done = []) ∧
      (input.connection ≠ none → ∀ v ∈ s.tree.visited, v.cell.isChanged = true → ∃ w ∈ done, w.cell.isChanged = true) := by
  unfold getInformParameterList at h
  split at h
  · rename_i hnone
    obtain ⟨_, rfl⟩ := Prod.mk.inj (Option.some.inj h)
    refine ⟨[], List.nil_subset _, ?_, fun _ => rfl, ?_⟩
    · simp
    · intro hsome
      exact absurd hnone hsome
  rename_i connection hconnection
  have hnot : input.connection ≠ none := by simp [hconnection]
  split at h
  · cases h
  · rename_i e s₁ hcollect
    obtain ⟨_, rfl⟩ := Prod.mk.inj (Option.some.inj h)
    obtain ⟨done, hprefix, _, herror, hchanged⟩ := TreeState.changedAt_getTr069NotificationNode hcollect
    refine ⟨done, hprefix.subset, hchanged, fun hnone => absurd hnone hnot, ?_⟩
    intro _ v hv hmarked
    obtain ⟨w, hw, hwmarked, _⟩ := herror e rfl
    exact ⟨w, hw, hwmarked⟩
  · rename_i lists s₁ hcollect
    obtain ⟨_, rfl⟩ := Prod.mk.inj (Option.some.inj h)
    obtain ⟨done, hprefix, hok, _, hchanged⟩ := TreeState.changedAt_getTr069NotificationNode hcollect
    refine ⟨done, hprefix.subset, hchanged, fun hnone => absurd hnone hnot, ?_⟩
    intro _ v hv hmarked
    exact ⟨v, hok lists rfl ▸ hv, hmarked⟩

/-- The tree is searched as before. -/
theorem sameSearch_getInformParameterList (h : getInformParameterList s input = some (list, s')) : s.tree.SameSearch s'.tree := by
  unfold getInformParameterList at h
  split at h
  · obtain ⟨_, rfl⟩ := Prod.mk.inj (Option.some.inj h)
    exact .refl _
  split at h
  · cases h
  · rename_i hcollect
    obtain ⟨_, rfl⟩ := Prod.mk.inj (Option.some.inj h)
    exact TreeState.sameSearch_getTr069NotificationNode hcollect
  · rename_i hcollect
    obtain ⟨_, rfl⟩ := Prod.mk.inj (Option.some.inj h)
    exact TreeState.sameSearch_getTr069NotificationNode hcollect

/-- The names in the two lists are in the parameter list, or in every Inform. -/
theorem mem_entries {lists : List Tr069NameArg × List Tr069Value} {name connection : Text} (h : name ∈ listed lists) :
    name ∈ (requiredEntries input connection ++ leafEntries lists).map ParameterValueStruct.name := by
  rw [List.map_append, List.mem_append]
  by_cases hrequired : name ∈ gRequiredInformParams
  · left
    rw [requiredEntries, List.map_append, List.map_map]
    exact List.mem_append_left _ (List.mem_map.2 ⟨name, hrequired, rfl⟩)
  · right
    obtain ⟨leaf, hleaf, rfl⟩ := List.mem_map.1 h
    rw [leafEntries, List.map_map]
    exact List.mem_map.2 ⟨leaf, List.mem_filter.2 ⟨hleaf, by simpa using hrequired⟩, rfl⟩

/-- While there is memory for them, all marked leaves are in the parameter list. -/
theorem mem_getInformParameterList (hconnection : input.connection ≠ none)
    (hmemory : ∀ v ∈ s.tree.visited, v.cell.isChanged = true → input.malloc v.allName = true ∧ input.leavesMade = true)
    (h : getInformParameterList s input = some (list, s')) :
    ∀ v ∈ s.tree.visited, v.cell.isChanged = true → v.allName ∈ list.map ParameterValueStruct.name := by
  intro v hv hchanged
  unfold getInformParameterList at h
  split at h
  · rename_i hnone
    exact absurd hnone hconnection
  split at h
  · cases h
  · rename_i hcollect
    obtain ⟨_, hret, _⟩ := TreeState.listed_getTr069NotificationNode (fun w hw hw' => (hmemory w hw hw').1) hcollect
    cases hret
  · rename_i hcollect
    obtain ⟨_, hret, hlisted⟩ := TreeState.listed_getTr069NotificationNode (fun w hw hw' => (hmemory w hw hw').1) hcollect
    cases hret
    simp only [(hmemory v hv hchanged).2, true_or, if_true, Option.some.injEq, Prod.mk.injEq] at h
    rw [← h.1]
    exact mem_entries (hlisted v hv hchanged)

end List

/-! ## Steps -/

section Steps

variable {s t : NotifyState}

/-- A value is set: one leaf may get a mark, and is owed then. -/
theorem notifyStep_setValue {module : Tr069AccessModule} {name : Text} {value : Tr069Value}
    (h : notifyStep s (.setValue module name value) = some t) :
    ∃ leaf, t.control = s.control ∧ s.tree.tree.SameSearch t.tree.tree ∧
      (∀ p, t.tree.changedAt p = (s.tree.changedAt p || decide (leaf = some p))) ∧
      (∀ p, p ∈ t.owed ↔ leaf = some p ∨ p ∈ s.owed) ∧ ∀ p, p ∈ t.sent ↔ p ∈ s.sent ∧ leaf ≠ some p := by
  obtain ⟨⟨ret, tree⟩, hset, rfl⟩ := Option.map_eq_some_iff.1 h
  refine ⟨changedLeaf s.tree name ret, rfl, TreeState.sameSearch_setTr069Value hset, ?_, ?_, ?_⟩
  · intro p
    have hchanged : tree.changedAt p = _ := TreeState.changedAt_setTr069Value hset p
    rw [hchanged]
    unfold changedLeaf
    by_cases hneeds : NeedsNotification ret ∧ s.tree.gInitSuccess = true
    · simp [hneeds]
    · have hnot : ¬(NeedsNotification ret ∧ s.tree.gInitSuccess = true ∧ s.tree.tree.leadsTo s.tree.cache name = some p) := by
        rintro ⟨hret, hinit, _⟩
        exact hneeds ⟨hret, hinit⟩
      simp only [if_neg hneeds, hnot, reduceCtorEq, decide_false]
  · intro p
    simp
  · intro p
    simp

/-- The list is collected. -/
theorem notifyStep_parameterList {input : ListInput} (h : notifyStep s (.parameterList input) = some t) :
    s.control.point = .parameterList ∧ t.control.point = .generate ∧
      getInformParameterList s.tree input = some (t.parameterList, t.tree) ∧ t.owed = s.owed ∧
      ∀ p, p ∈ t.sent ↔ p ∈ s.owed ∧ Lists t.parameterList s.tree.tree p ∧ t.tree.changedAt p = false := by
  obtain ⟨control, hcontrol, h⟩ := Option.bind_eq_some_iff.1 h
  obtain ⟨⟨list, tree⟩, hlist, rfl⟩ := Option.map_eq_some_iff.1 h
  simp only [mainSession, Option.ite_none_right_eq_some, Option.some.injEq] at hcontrol
  obtain ⟨hpoint, rfl⟩ := hcontrol
  refine ⟨hpoint, rfl, hlist, rfl, ?_⟩
  intro p
  simp

/-- The session thread goes on, and settles what has been sent if it is acknowledged. -/
theorem notifyStep_session {a : SessionAct} (h : notifyStep s (.session a) = some t) :
    mainSession s.control a = some t.control ∧ t.tree = s.tree ∧
      (a = .informResponse ∧ t.sent = [] ∧ (∀ p, p ∈ t.owed ↔ p ∈ s.owed ∧ p ∉ s.sent) ∨
        a ≠ .informResponse ∧ t.sent = s.sent ∧ t.owed = s.owed) := by
  cases a with
  | parameterList ok => cases h
  | informResponse =>
    obtain ⟨control, hcontrol, rfl⟩ := Option.map_eq_some_iff.1 h
    refine ⟨hcontrol, rfl, Or.inl ⟨rfl, rfl, ?_⟩⟩
    intro p
    simp
  | _ =>
    obtain ⟨control, hcontrol, rfl⟩ := Option.map_eq_some_iff.1 h
    exact ⟨hcontrol, rfl, Or.inr ⟨by simp, rfl, rfl⟩⟩

/-- What holds in every state of a run: a visited leaf with a mark is owed, and what has been sent is owed and has no mark. -/
structure NotifyInv (s : NotifyState) : Prop where
  owed : ∀ p ∈ s.tree.tree.visited.map Visit.pos, s.tree.changedAt p = true → p ∈ s.owed
  sent : ∀ p ∈ s.sent, s.tree.changedAt p = false

theorem NotifyInv.start (tree : TreeState) : NotifyInv (.start tree) := by
  refine ⟨?_, by simp [NotifyState.start]⟩
  intro p hp hchanged
  obtain ⟨v, hv, rfl⟩ := List.mem_map.1 hp
  have hmarked : v.cell.isChanged = true := (TreeState.changedAt_of_mem_visited hv).symm.trans hchanged
  exact List.mem_map.2 ⟨v, List.mem_filter.2 ⟨hv, hmarked⟩, rfl⟩

/-- Every step keeps the invariant. -/
theorem NotifyInv.step (h : NotifyInv s) {a : NotifyAct} (hs : notifyStep s a = some t) : NotifyInv t := by
  cases a with
  | setValue module name value =>
    obtain ⟨leaf, _, hsame, hchanged, howed, hsent⟩ := notifyStep_setValue hs
    constructor
    · intro p hp hmarked
      rw [hchanged, Bool.or_eq_true, decide_eq_true_eq] at hmarked
      rw [howed]
      rcases hmarked with hmarked | hleaf
      · exact Or.inr (h.owed p ((hsame.mem_visited p).1 hp) hmarked)
      · exact Or.inl hleaf
    · intro p hp
      obtain ⟨hp, hleaf⟩ := (hsent p).1 hp
      rw [hchanged, h.sent p hp, decide_eq_false hleaf]
      rfl
  | lookup name =>
    obtain rfl := Option.some.inj hs
    exact ⟨h.owed, h.sent⟩
  | parameterList input =>
    obtain ⟨_, _, hlist, howed, hsent⟩ := notifyStep_parameterList hs
    obtain ⟨done, _, hchanged, _⟩ := changedAt_getInformParameterList hlist
    constructor
    · intro p hp hmarked
      have hbefore : s.tree.changedAt p = true := by
        rw [hchanged] at hmarked
        split at hmarked
        · cases hmarked
        · exact hmarked
      rw [howed]
      exact h.owed p (((sameSearch_getInformParameterList hlist).mem_visited p).1 hp) hbefore
    · intro p hp
      exact ((hsent p).1 hp).2.2
  | session a =>
    obtain ⟨_, htree, hghosts⟩ := notifyStep_session hs
    rcases hghosts with ⟨_, hsent, howed⟩ | ⟨_, hsent, howed⟩
    · constructor
      · intro p hp hmarked
        rw [htree] at hp hmarked
        refine (howed p).2 ⟨h.owed p hp hmarked, ?_⟩
        intro hmem
        rw [h.sent p hmem] at hmarked
        cases hmarked
      · intro p hp
        rw [hsent] at hp
        cases hp
    · constructor
      · rw [htree, howed]
        exact h.owed
      · rw [htree, hsent]
        exact h.sent

/-- While no marked leaf is collected, no mark is cleared. -/
theorem markKept_of_nothingCollected {a : NotifyAct} (hC : NothingCollected s a) (hs : notifyStep s a = some t) : MarkKept s a t := by
  intro p hmarked hcleared
  cases a with
  | setValue module name value =>
    obtain ⟨_, _, _, hchanged, _⟩ := notifyStep_setValue hs
    rw [hchanged, hmarked] at hcleared
    cases hcleared
  | lookup name =>
    obtain rfl := Option.some.inj hs
    have hkept : s.tree.changedAt p = false := hcleared
    rw [hmarked] at hkept
    cases hkept
  | parameterList input =>
    obtain ⟨_, _, hlist, _⟩ := notifyStep_parameterList hs
    obtain ⟨done, hdone, hchanged, hnone, _⟩ := changedAt_getInformParameterList hlist
    rw [hchanged] at hcleared
    split at hcleared
    · rename_i hp
      obtain ⟨v, hv, rfl⟩ := List.mem_map.1 hp
      have hconnection : input.connection ≠ none := by
        intro h
        rw [hnone h] at hv
        cases hv
      rw [TreeState.changedAt_of_mem_visited (hdone hv), hC hconnection v (hdone hv)] at hmarked
      cases hmarked
    · rw [hmarked] at hcleared
      cases hcleared
  | session a =>
    rw [(notifyStep_session hs).2.1, hmarked] at hcleared
    cases hcleared

/-- Collecting a marked leaf clears the mark of a leaf that is owed. -/
theorem not_markKept_of_collected (h : NotifyInv s) {a : NotifyAct} (hC : ¬NothingCollected s a) (hs : notifyStep s a = some t) :
    ¬MarkKept s a t := by
  cases a with
  | parameterList input =>
    obtain ⟨_, _, hlist, _⟩ := notifyStep_parameterList hs
    obtain ⟨done, hdone, hchanged, _, hsome⟩ := changedAt_getInformParameterList hlist
    have hmarked : input.connection ≠ none ∧ ∃ v ∈ s.tree.tree.visited, v.cell.isChanged = true := by
      by_contra hnot
      refine hC ?_
      intro hconnection v hv
      by_contra hv'
      exact hnot ⟨hconnection, v, hv, by simpa using hv'⟩
    obtain ⟨hconnection, v, hv, hv'⟩ := hmarked
    obtain ⟨w, hw, hw'⟩ := hsome hconnection v hv hv'
    have hbefore : s.tree.changedAt w.pos = true := (TreeState.changedAt_of_mem_visited (hdone hw)).trans hw'
    have hpos : w.pos ∈ done.map Visit.pos := List.mem_map.2 ⟨w, hw, rfl⟩
    intro hkept
    refine hkept w.pos hbefore ?_ (h.owed w.pos (List.mem_map.2 ⟨w, hdone hw, rfl⟩) hbefore)
    rw [hchanged, if_pos hpos]
  | setValue module name value => exact absurd trivial hC
  | lookup name => exact absurd trivial hC
  | session a => exact absurd trivial hC

/-- An Inform that is under way stays so, or the attempt fails, until it is acknowledged. -/
theorem mainSession_underWay {c c' : Control} {a : SessionAct} (hc : UnderWay c.point) (h : mainSession c a = some c')
    (ha : a ≠ .informResponse) : UnderWay c'.point ∨ Fails c a := by
  have hpoint : UnderWay c'.point ∨ c'.point = .head := by
    obtain ⟨point, gRetryTimes⟩ := c
    cases point with
    | generate | send | response i => cases a <;> grind [mainSession, UnderWay]
    | _ => exact absurd hc id
  rcases hpoint with hpoint | hpoint
  · exact Or.inl hpoint
  · exact Or.inr ⟨hc, by rw [h, Option.map_some, hpoint]⟩

/-- While memory does not run out and no attempt fails that has sent a leaf, none is lost. -/
theorem noneLost_step (hlost : NoneLost s) {a : NotifyAct} (hC : AttemptKept s a) (hs : notifyStep s a = some t) : NoneLost t := by
  intro p hp
  cases a with
  | setValue module name value =>
    obtain ⟨leaf, hcontrol, _, hchanged, howed, hsent⟩ := notifyStep_setValue hs
    rw [hchanged, hsent, hcontrol]
    by_cases hleaf : leaf = some p
    · left
      simp [hleaf]
    rcases (howed p).1 hp with hp | hp
    · exact absurd hp hleaf
    rcases hlost p hp with hmarked | ⟨hp, hunder⟩
    · left
      simp [hmarked]
    · exact Or.inr ⟨⟨hp, hleaf⟩, hunder⟩
  | lookup name =>
    obtain rfl := Option.some.inj hs
    exact hlost p hp
  | parameterList input =>
    obtain ⟨hbefore, hafter, hlist, howed, hsent⟩ := notifyStep_parameterList hs
    rw [howed] at hp
    have hmarked : s.tree.changedAt p = true := by
      rcases hlost p hp with hmarked | ⟨_, hunder⟩
      · exact hmarked
      · rw [hbefore] at hunder
        exact absurd hunder id
    cases hcleared : t.tree.changedAt p with
    | true => exact Or.inl rfl
    | false =>
      right
      obtain ⟨done, hdone, hchanged, hnone, _⟩ := changedAt_getInformParameterList hlist
      rw [hchanged] at hcleared
      split at hcleared
      · rename_i hpos
        obtain ⟨v, hv, rfl⟩ := List.mem_map.1 hpos
        have hconnection : input.connection ≠ none := by
          intro h
          rw [hnone h] at hv
          cases hv
        have hv' : v.cell.isChanged = true := (TreeState.changedAt_of_mem_visited (hdone hv)).symm.trans hmarked
        have hname := mem_getInformParameterList hconnection (hC hconnection) hlist v (hdone hv) hv'
        refine ⟨(hsent v.pos).2 ⟨hp, ⟨v, hdone hv, rfl, hname⟩, ?_⟩, ?_⟩
        · rw [hchanged, if_pos hpos]
        · rw [hafter]
          trivial
      · rw [hmarked] at hcleared
        cases hcleared
  | session a =>
    obtain ⟨hcontrol, htree, hghosts⟩ := notifyStep_session hs
    rw [htree]
    rcases hghosts with ⟨_, _, howed⟩ | ⟨ha, hsent, howed⟩
    · obtain ⟨hp, hnot⟩ := (howed p).1 hp
      rcases hlost p hp with hmarked | ⟨hp, _⟩
      · exact Or.inl hmarked
      · exact absurd hp hnot
    · rw [howed] at hp
      rcases hlost p hp with hmarked | ⟨hp, hunder⟩
      · exact Or.inl hmarked
      rcases mainSession_underWay hunder hcontrol ha with hunder' | hfails
      · exact Or.inr ⟨hsent ▸ hp, hunder'⟩
      · rw [hC hfails] at hp
        cases hp

theorem noneLost_start (tree : TreeState) : NoneLost (.start tree) := by
  intro p hp
  obtain ⟨v, hv, rfl⟩ := List.mem_map.1 hp
  obtain ⟨hv, hmarked⟩ := List.mem_filter.1 hv
  exact Or.inl ((TreeState.changedAt_of_mem_visited hv).trans hmarked)

end Steps

/-! ## No notification is lost, and when one is -/

/-- **Marks are cleared too early**: in a run from any tree, every mark that is cleared belongs to a leaf that has been in an Inform
that was acknowledged, if and only if no marked leaf is ever collected. A leaf that is collected is not lost as long as memory does
not run out meanwhile and no attempt fails that has sent one. -/
theorem value_changes_kept {tree : TreeState} {tr : List (Transition NotifyState NotifyAct)} {s : NotifyState}
    (hr : Run (Step.ofOption notifyStep) (.start tree) tr s) :
    (Always MarkKept tr ↔ Meets NothingCollected tr) ∧ (Meets AttemptKept tr → Always (fun _ _ t => NoneLost t) tr) := by
  constructor
  · refine Run.all_iff (I := NotifyInv) (.start tree) ?_ ?_ hr
    · intro s a t hi hC hs
      exact ⟨hi.step hs, markKept_of_nothingCollected hC hs⟩
    · intro s a t hi hC hs
      exact not_markKept_of_collected hi hC hs
  · intro hC
    refine Run.always (I := NoneLost) (noneLost_start tree) ?_ hr hC
    intro s a t hlost hC hs
    exact ⟨noneLost_step hlost hC hs, noneLost_step hlost hC hs⟩

/-- An agent that has started, with two leaves below an instance. -/
def startedState : TreeState := ⟨twoLeafTree "A" "B" .active, ⟨"Device.".toList, .object, some [0]⟩, true⟩

/-- The connection is known and there is memory for everything. -/
def richInput : ListInput := ⟨fun _ => some [], [], true, fun _ => true, true⟩

/-- The session thread from the connection to the parameter list. -/
def beforeParameterList : List SessionAct :=
  [.connect true, .transferCode none, .mrebootCode none] ++ List.replicate 11 .testCode

/-- An attempt, up to the Inform ready to be sent. -/
def attempt : List NotifyAct :=
  beforeParameterList.map .session ++ [.parameterList richInput, .session (.generate true)]

/-- The Inform is sent and acknowledged. -/
def acknowledge : List NotifyAct := [.session (.send true), .session .informResponse]

/-- A leaf changes, and a session begins. -/
def change : List NotifyAct :=
  [.setValue .webModule "Device.Host.1.A".toList (.string ['x']), .session (.wakeUp false)]

/-- The Inform is acknowledged: the mark has been cleared before, but the leaf is not lost. -/
theorem value_changes_kept_acknowledged :
    ¬Always MarkKept (play notifyStep (.start startedState) (change ++ attempt ++ acknowledge)).1 ∧
      Always (fun _ _ t => NoneLost t) (play notifyStep (.start startedState) (change ++ attempt ++ acknowledge)).1 := by
  obtain ⟨hmarks, hlost⟩ := value_changes_kept (Run.ofPlay notifyStep (.start startedState) (change ++ attempt ++ acknowledge))
  refine ⟨?_, hlost (by decide +kernel)⟩
  rw [hmarks]
  decide +kernel

/-- The Inform cannot be sent: the mark of the leaf has been cleared, and the Inform of the next attempt does not have it. -/
theorem value_change_lost :
    ¬∀ (tree : TreeState) (tr : List (Transition NotifyState NotifyAct)) (s : NotifyState),
      Run (Step.ofOption notifyStep) (.start tree) tr s → Always MarkKept tr ∨ NoneLost s := by
  intro h
  rcases h _ _ _ (Run.ofPlay notifyStep (.start startedState)
    (change ++ attempt ++ [.session (.send false)] ++ attempt ++ acknowledge)) with hmarks | hlost
  · have hleaf := fun x hx => hmarks x hx [0, 0, 1, 0]
    exact absurd hleaf (by decide +kernel)
  · exact absurd hlost (by decide +kernel)

end CodeFactory.Core
