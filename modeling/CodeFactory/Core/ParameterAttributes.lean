import CodeFactory.Soap.ParameterList
import CodeFactory.Tr69.Attributes

/-!
# Attributes over RPC

What `handle_server_rpc_commands` does for SetParameterAttributes and GetParameterAttributes, and what becomes of an access list
between the two.
-/

namespace CodeFactory.Core

open Soap (ParameterSetAttributeStruct)
open Tr69

/-- `FaultType`, the members that a result is converted to. -/
inductive FaultType where
  | ok
  | requestDenied | internalError | invalidArguments | resourcesExceeded | invalidParameterName | invalidParameterType
  | invalidParameterValue | attemptSetNonWritable | notificationRequestRejected
  deriving DecidableEq, Repr

def resultToFault : Result → FaultType
  | .tcmagentOk => .ok
  | .nodeNameError => .invalidParameterName
  | .nodeNotFound => .invalidArguments
  | .nodeTypeError | .attributeTypeError => .invalidParameterType
  | .nodeValueError => .invalidParameterValue
  | .nodeAccessError => .attemptSetNonWritable
  | .instancesIsFull => .resourcesExceeded
  | .nodeAccesslistCheckError => .requestDenied
  | .attributeNotificationError => .notificationRequestRejected
  | _ => .internalError

def accessStringToType (accessList : Text) : Tr069AccessList :=
  if accessList.length = 0 then .all
  else if accessList = "Subscriber".toList then .acs
  else .all

/-- `ParameterAttributeStruct`. Of the array of access lists only the first is ever set. -/
structure ParameterAttributeStruct where
  name : Text
  notification : Int
  accessList : Text
  deriving DecidableEq, Repr

/-- The text of an access list in a response. -/
def accessTypeToString (accessList : Tr069AccessList) : Text :=
  if accessList = .all then "Subscriber".toList else []

/-- `convert_local_attribute_to_soap`: what is put behind the attributes that are there. -/
def convertLocalAttributeToSoap (names : List Tr069NameArg) (attributes : List Tr069AttributeArg) : List ParameterAttributeStruct :=
  (names.zip attributes).map fun arg => ⟨arg.1.name, arg.2.notification.toInt, accessTypeToString arg.2.accessList⟩

/-- The loop over the attributes that are to be set: the first error ends it, with a fault. -/
def setAttributeItems (s : TreeState) : List ParameterSetAttributeStruct → Option (Except FaultType Unit × TreeState)
  | [] => some (.ok (), s)
  | item :: items =>
    match s.setTr069Attribute item.name (if item.notificationChange then some item.notification else none)
        (if item.accessListChange then some (accessStringToType item.accessList).toInt else none) with
    | none => none
    | some (ret, s) =>
      if ret ≠ .tcmagentOk then some (.error (resultToFault ret), s) else setAttributeItems s items

/-- SetParameterAttributes: the response, which is empty, or a fault. -/
def setParameterAttributes (s : TreeState) (items : List ParameterSetAttributeStruct) :
    Option (Except FaultType Unit × TreeState) :=
  if items = [] then some (.error .invalidArguments, s) else setAttributeItems s items

/-- The loop over the names of which the attributes are to be got, with the attributes that are there. -/
def getAttributeItems (s : TreeState) (attributes : List ParameterAttributeStruct) :
    List Text → Option (Except FaultType (List ParameterAttributeStruct) × TreeState)
  | [] => some (.ok attributes, s)
  | name :: names =>
    match s.getTr069Attribute name with
    | none => none
    | some (.error ret, s) => some (.error (resultToFault ret), s)
    | some (.ok lists, s) => getAttributeItems s (attributes ++ convertLocalAttributeToSoap lists.1 lists.2) names

/-- GetParameterAttributes: the attributes of the response, or a fault. -/
def getParameterAttributes (s : TreeState) (names : List Text) :
    Option (Except FaultType (List ParameterAttributeStruct) × TreeState) :=
  if names = [] then some (.error .invalidArguments, s) else getAttributeItems s [] names

/-! ## Access lists -/

/-- **No access list is what becomes of it**: the one text of each of the two types is what the other one is made of. -/
theorem accessTypeToString_accessStringToType_ne (accessList : Text) :
    accessTypeToString (accessStringToType accessList) ≠ accessList := by
  unfold accessStringToType
  split
  · rename_i hlength
    rw [List.length_eq_zero_iff.1 hlength]
    decide
  split
  · rename_i htext
    rw [htext]
    decide
  · rename_i htext
    exact Ne.symm htext

example : accessTypeToString (accessStringToType []) = "Subscriber".toList := rfl
example : accessTypeToString (accessStringToType "Subscriber".toList) = [] := rfl

/-! ## What is requested -/

/-- What is reported of a leaf: its notification and its access list. -/
def reported (s : TreeState) (p : Pos) : Option (Int × Text) :=
  match s.tree.nodes.get? p with
  | some (.node n) =>
    if n.content.type.isLeaf then some (n.notification.toInt, accessTypeToString n.accessModule) else none
  | _ => none

/-- The cache when an item has been dealt with: its name is looked up if something is to be set. -/
def cacheAfterItem (t : Tr069Tree) (cache : Tr069NodeEntry) (item : ParameterSetAttributeStruct) : Tr069NodeEntry :=
  if item.notificationChange ∨ item.accessListChange then t.cacheAfter cache item.name else cache

/-- What is requested for the cell at `p`, of which `v` was reported: the last item to address it says what its notification is to
be, of those with NotificationChange, and the last one with AccessListChange what its access list is to be. -/
def requested (t : Tr069Tree) (p : Pos) : Tr069NodeEntry → List ParameterSetAttributeStruct → Int × Text → Int × Text
  | _, [], v => v
  | cache, item :: items, v =>
    requested t p (cacheAfterItem t cache item) items
      (if p ∈ t.addressed cache item.name then
        (if item.notificationChange then item.notification else v.1, if item.accessListChange then item.accessList else v.2)
      else v)

/-- An item with AccessListChange addresses the cell at `p`. -/
def AccessListChanged (t : Tr069Tree) (p : Pos) : Tr069NodeEntry → List ParameterSetAttributeStruct → Prop
  | _, [] => False
  | cache, item :: items =>
    (item.accessListChange = true ∧ p ∈ t.addressed cache item.name) ∨
      AccessListChanged t p (cacheAfterItem t cache item) items

/-- The name leads to the leaf at `p`. -/
def LeadsToLeaf (s : TreeState) (name : Text) (p : Pos) : Prop :=
  name ≠ [] ∧ name.getLast? ≠ some '.' ∧ ∃ entry cache, s.tree.getTr069NodeByName s.cache name = .ok (entry, cache) ∧
    entry.node = some p ∧ entry.type.isLeaf = true ∧ (s.tree.nodes.get? p).map Cell.type = some entry.type

/-- Between `s` and `s'` the items have been set: of each leaf what was requested is reported, which is what was reported before
where it was not addressed, and GetParameterAttributes of a name that leads to the leaf is answered with it. -/
def AttributesAgree (s s' : TreeState) (items : List ParameterSetAttributeStruct) : Prop :=
  ∀ p v, reported s p = some v →
    reported s' p = some (requested s.tree p s.cache items v) ∧
      ∀ name, LeadsToLeaf s' name p → ∃ s'', getParameterAttributes s' [name] =
        some (.ok [⟨name, (requested s.tree p s.cache items v).1, (requested s.tree p s.cache items v).2⟩], s'')

section Items

variable {t : Tr069Tree} {s s' : TreeState} {item : ParameterSetAttributeStruct} {items : List ParameterSetAttributeStruct}
  {p : Pos} {n : Tr069Node}

theorem reported_eq_some {v : Int × Text} : reported s p = some v ↔
    ∃ n : Tr069Node, s.tree.nodes.get? p = some (.node n) ∧ n.content.type.isLeaf = true ∧
      v = (n.notification.toInt, accessTypeToString n.accessModule) := by
  unfold reported
  constructor
  · intro h
    split at h
    · rename_i n hn
      split at h
      · rename_i hleaf
        exact ⟨n, hn, hleaf, (Option.some.inj h).symm⟩
      · cases h
    · cases h
  · rintro ⟨n, hn, hleaf, rfl⟩
    simp only [hn, hleaf, if_true]

/-- **GetParameterAttributes of a name that leads to a leaf** is answered with what is reported of the leaf. -/
theorem getParameterAttributes_leaf {name : Text} {v : Int × Text} (hname : LeadsToLeaf s name p) (hv : reported s p = some v) :
    ∃ s', getParameterAttributes s [name] = some (.ok [⟨name, v.1, v.2⟩], s') := by
  obtain ⟨hne, hdot, entry, cache, he, hp, _, htype⟩ := hname
  obtain ⟨n, hn, hleaf, rfl⟩ := reported_eq_some.1 hv
  rw [hn] at htype
  have hget := TreeState.getTr069Attribute_of_lookup hne hdot he hp (Option.some.inj htype).symm hn hleaf
  refine ⟨{ s with cache := cache }, ?_⟩
  simp [getParameterAttributes, getAttributeItems, hget, convertLocalAttributeToSoap]

/-- **One item**: it has been accepted, the tree is searched as before, and a leaf it addresses has got what it says. -/
theorem setAttributeItems_cons (h : setAttributeItems s (item :: items) = some (.ok (), s')) :
    ∃ s₁, setAttributeItems s₁ items = some (.ok (), s') ∧ s.tree.SameSearch s₁.tree ∧ s₁.cache = cacheAfterItem s.tree s.cache item ∧
      ∀ p n, s.tree.nodes.get? p = some (.node n) → n.content.type.isLeaf = true →
        ∃ n', s₁.tree.nodes.get? p = some (.node n') ∧ n'.content = n.content ∧
          n'.notification.toInt =
            (if p ∈ s.tree.addressed s.cache item.name ∧ item.notificationChange = true then item.notification
            else n.notification.toInt) ∧
          n'.accessModule =
            if p ∈ s.tree.addressed s.cache item.name ∧ item.accessListChange = true then accessStringToType item.accessList
            else n.accessModule := by
  unfold setAttributeItems at h
  split at h
  · cases h
  rename_i ret s₁ hset
  split at h
  · cases h
  rename_i hret
  obtain rfl : ret = .tcmagentOk := not_not.1 hret
  refine ⟨s₁, h, TreeState.sameSearch_setTr069Attribute hset, ?_, ?_⟩
  · rw [TreeState.setTr069Attribute_cache hset, cacheAfterItem]
    cases item.notificationChange <;> cases item.accessListChange <;> simp
  · intro p n hn hleaf
    obtain ⟨n', hn', hcontent, hnotification, haccess⟩ := TreeState.setTr069Attribute_leaf hset hn hleaf
    refine ⟨n', hn', hcontent, ?_, ?_⟩
    · rw [hnotification]
      by_cases haddressed : p ∈ s.tree.addressed s.cache item.name <;> cases item.notificationChange <;> simp [haddressed]
    · have hinj : ∀ a b : Tr069AccessList, a.toInt = b.toInt → a = b := by
        intro a b hab
        have hof := congrArg Tr069AccessList.ofInt? hab
        simpa using hof
      refine hinj _ _ ?_
      rw [haccess]
      by_cases haddressed : p ∈ s.tree.addressed s.cache item.name <;> cases item.accessListChange <;> simp [haddressed]

/-- **All items**: the notification is the one requested; the access list is if it was so before and no item with AccessListChange
addresses the leaf. -/
theorem setAttributeItems_leaf (h : setAttributeItems s items = some (.ok (), s')) (ht : t.SameSearch s.tree)
    (hn : s.tree.nodes.get? p = some (.node n)) (hleaf : n.content.type.isLeaf = true) {v : Int × Text}
    (hv : n.notification.toInt = v.1) :
    ∃ n', s'.tree.nodes.get? p = some (.node n') ∧ n'.content = n.content ∧
      n'.notification.toInt = (requested t p s.cache items v).1 ∧
      (accessTypeToString n'.accessModule = (requested t p s.cache items v).2 ↔
        accessTypeToString n.accessModule = v.2 ∧ ¬AccessListChanged t p s.cache items) := by
  induction items generalizing s n v with
  | nil =>
    cases h
    exact ⟨n, hn, rfl, hv, by simp [requested, AccessListChanged]⟩
  | cons item items ih =>
    obtain ⟨s₁, hitems, hsame, hcache, hset⟩ := setAttributeItems_cons h
    obtain ⟨n₁, hn₁, hcontent, hnotification, haccess⟩ := hset p n hn hleaf
    have haddressed := ht.mem_addressed s.cache item.name p
    have hcache' : s₁.cache = cacheAfterItem t s.cache item := by
      rw [hcache, cacheAfterItem, cacheAfterItem, ht.cacheAfter]
    simp only [haddressed] at hnotification haccess
    have hleaf₁ : n₁.content.type.isLeaf = true := by
      rw [hcontent]
      exact hleaf
    have hv₁ : n₁.notification.toInt =
        (if p ∈ t.addressed s.cache item.name then
          (if item.notificationChange then item.notification else v.1, if item.accessListChange then item.accessList else v.2)
        else v).1 := by
      rw [hnotification, hv]
      by_cases hp : p ∈ t.addressed s.cache item.name <;> cases item.notificationChange <;> simp [hp]
    obtain ⟨n', hn', hcontent', hnotification', haccess'⟩ := ih hitems (ht.trans hsame) hn₁ hleaf₁ hv₁
    rw [hcache'] at hnotification' haccess'
    refine ⟨n', hn', hcontent'.trans hcontent, hnotification', ?_⟩
    rw [requested, haccess', haccess, AccessListChanged]
    -- an access list that has been set is not the text it was set from
    have hne := accessTypeToString_accessStringToType_ne item.accessList
    by_cases hp : p ∈ t.addressed s.cache item.name <;> cases item.accessListChange <;> simp [hp, hne]

end Items

/-- **Attributes over RPC.** What has been accepted is reported, of every leaf, if and only if no item with AccessListChange
addresses a leaf. -/
theorem attributes_agree_iff {s s' : TreeState} {items : List ParameterSetAttributeStruct}
    (h : setParameterAttributes s items = some (.ok (), s')) :
    AttributesAgree s s' items ↔ ∀ p v, reported s p = some v → ¬AccessListChanged s.tree p s.cache items := by
  have hitems : setAttributeItems s items = some (.ok (), s') := by
    unfold setParameterAttributes at h
    split at h
    · cases h
    · exact h
  have hleaf : ∀ p v, reported s p = some v →
      (reported s' p = some (requested s.tree p s.cache items v) ↔ ¬AccessListChanged s.tree p s.cache items) := by
    intro p v hv
    obtain ⟨n, hn, hleaf, rfl⟩ := reported_eq_some.1 hv
    obtain ⟨n', hn', hcontent, hnotification, haccess⟩ := setAttributeItems_leaf hitems (.refl s.tree) hn hleaf
      (v := (n.notification.toInt, accessTypeToString n.accessModule)) rfl
    have hreported : reported s' p = some (n'.notification.toInt, accessTypeToString n'.accessModule) :=
      reported_eq_some.2 ⟨n', hn', by rw [hcontent]; exact hleaf, rfl⟩
    rw [hreported, Option.some_inj, Prod.ext_iff]
    simpa [hnotification] using haccess
  constructor
  · intro hagree p v hv
    exact (hleaf p v hv).1 (hagree p v hv).1
  · intro hkept p v hv
    have hreported := (hleaf p v hv).2 (hkept p v hv)
    refine ⟨hreported, ?_⟩
    intro name hname
    exact getParameterAttributes_leaf hname hreported

/-- A tree with two leaves, of an instance, and a cache that holds the root. -/
def hostState : TreeState := ⟨twoLeafTree "A" "B" .none, ⟨"Device.".toList, .object, some [0]⟩, true⟩

/-- One item for the first of the leaves: for its notification if `notificationChange`, else for its access list. -/
def hostItem (notificationChange : Bool) : ParameterSetAttributeStruct :=
  ⟨"Device.Host.1.A".toList, notificationChange, 2, !notificationChange, "Subscriber".toList⟩

/-- The state when the item has been set. -/
def hostStateAfter (notificationChange : Bool) : TreeState :=
  ((setParameterAttributes hostState [hostItem notificationChange]).map Prod.snd).getD hostState

theorem hostItem_accepted (notificationChange : Bool) :
    setParameterAttributes hostState [hostItem notificationChange] = some (.ok (), hostStateAfter notificationChange) := by
  have hok : ∀ b, ((setParameterAttributes hostState [hostItem b]).map fun r => decide (r.1.toOption = some ())) = some true := by
    decide +kernel
  obtain ⟨⟨ret, s'⟩, hr, hret⟩ := Option.map_eq_some_iff.1 (hok notificationChange)
  rw [hostStateAfter, hr]
  cases ret with
  | error fault => cases hret
  | ok u => rfl

/-- A notification that is requested is reported. -/
theorem attributes_agree_notification : AttributesAgree hostState (hostStateAfter true) [hostItem true] := by
  refine (attributes_agree_iff (hostItem_accepted true)).2 ?_
  rintro p v _ (⟨hchange, _⟩ | h)
  · cases hchange
  · exact h

/-- An access list is not: `Subscriber` is reported as no access list. -/
theorem attributes_disagree : ¬∀ (s s' : TreeState) (items : List ParameterSetAttributeStruct),
    setParameterAttributes s items = some (.ok (), s') → AttributesAgree s s' items := by
  intro h
  have hagree := h _ _ _ (hostItem_accepted false) [0, 0, 1, 0] (0, "Subscriber".toList) (by decide +kernel)
  exact absurd hagree.1 (by decide +kernel)

end CodeFactory.Core
