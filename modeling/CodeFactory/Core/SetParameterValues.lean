import CodeFactory.Core.ParameterAttributes
import CodeFactory.Tr69.LeafValues

/-!
# Values over RPC

What `handle_server_rpc_commands` does for SetParameterValues. The parameters are set one after the other, and nothing that has been
set is taken back.
-/

namespace CodeFactory.Core

open Soap (ParameterValueStruct)
open Tr69

def applied : Int := 0

def notApplied : Int := 1

def wanIpConnectionFlagName : Text :=
  "InternetGatewayDevice.WANDevice.1.WANConnectionDevice.1.WANIPConnection.1.Enable".toList

def wanPppConnectionFlagName : Text :=
  "InternetGatewayDevice.WANDevice.1.WANConnectionDevice.1.WANPPPConnection.1.Enable".toList

/-- `convert_soap_to_local_value`. A type that is none of the four stays a zero of no type, which is treated as a number. No result
for a null text of the type of strings, which `set_tr069_value` would read; the parser leaves none. -/
def convertSoapToLocalValue (v : ParameterValueStruct) : Option Tr069Value :=
  match v.type, v.value with
  | some .xsdString, value => value.map .string
  | some .xsdBool, value => some (.bool (if (value.map Soap.isTrue).getD false then 1 else 0))
  | some .xsdInt, some value =>
    some (.int (if sameWord value "true".toList then 1 else if sameWord value "false".toList then 0
      else BitVec.ofInt 32 (Soap.atoi value)))
  | some .xsdUint, some value => some (.unsigned (BitVec.ofInt 32 (Soap.atoi value)))
  | some .xsdUint, none => some (.unsigned 0)
  | some .xsdInt, none | none, _ => some (.int 0)

/-- One of the two WAN connections is enabled: the flag of the other one, which is then cleared. -/
def otherWanFlag (name : Text) (arg : Tr069Value) : Option Text :=
  if name = wanIpConnectionFlagName ∧ arg.bits = 1 then some wanPppConnectionFlagName
  else if name = wanPppConnectionFlagName ∧ arg.bits = 1 then some wanIpConnectionFlagName
  else none

/-- What is done for one parameter. The result of clearing the other flag takes the place of the one before. -/
def setParameterValue (s : TreeState) (name : Text) (arg : Tr069Value) : Option (Result × TreeState) :=
  match s.setTr069Value .acsModule name arg with
  | none => none
  | some (ret, s) =>
    match otherWanFlag name arg with
    | some other => s.setTr069Value .acsModule other (arg.ofBits 0)
    | none => some (ret, s)

/-- A parameter of the request, and what `gCB.set_value` returns for it. -/
structure ParameterItem where
  parameter : ParameterValueStruct
  status : Int
  deriving DecidableEq, Repr

/-- The loop over the parameters: the first error ends it, with a fault; at its end the last status is that of the response. -/
def setParameterItems (s : TreeState) (status : Int) : List ParameterItem → Option (Except FaultType Int × TreeState)
  | [] => some (.ok status, s)
  | item :: items =>
    if item.status ≠ notApplied ∧ item.status ≠ applied then some (.error .invalidParameterValue, s) else
    match convertSoapToLocalValue item.parameter with
    | none => none
    | some arg =>
      match setParameterValue s item.parameter.name arg with
      | none => none
      | some (ret, s) =>
        if ret ≠ .tcmagentOk then some (.error (resultToFault ret), s) else setParameterItems s item.status items

/-- SetParameterValues: the status of the response, or a fault. -/
def setParameterValues (s : TreeState) (parameters : Option (List ParameterItem)) : Option (Except FaultType Int × TreeState) :=
  match parameters with
  | some items => setParameterItems s 0 items
  | none => some (.error .invalidArguments, s)

example : convertSoapToLocalValue ⟨"A".toList, some "-7".toList, some .xsdInt⟩ = some (.int (-7)) := by decide

/-! ## What is requested -/

/-- The calls of `set_tr069_value` for a parameter. -/
def writes (name : Text) (arg : Tr069Value) : List (Text × Tr069Value) :=
  (name, arg) :: ((otherWanFlag name arg).map fun other => (other, arg.ofBits 0)).toList

/-- The calls of `set_tr069_value` for the parameters. -/
def writesOf (items : List ParameterItem) : List (Text × Tr069Value) :=
  items.flatMap fun item => ((convertSoapToLocalValue item.parameter).map (writes item.parameter.name)).getD []

/-- The parameter enables one of the two WAN connections. -/
def SwitchesWan (item : ParameterItem) : Prop :=
  ∃ arg, convertSoapToLocalValue item.parameter = some arg ∧ otherWanFlag item.parameter.name arg ≠ none

/-- A name leads to a leaf of `t`, and in `t'` the leaf holds the value, unless the values that are written later go there as well. -/
def Written (t t' : Tr069Tree) (cache : Tr069NodeEntry) (name : Text) (arg : Tr069Value) (later : List (Text × Tr069Value)) : Prop :=
  ∃ p, t.leadsTo cache name = some p ∧ (¬t.WrittenTo p (t.cacheLookedUp cache name) later → t'.HoldsAt p arg)

/-- All or nothing: a fault leaves every value as it was, and after a success every parameter holds the requested value. -/
structure AllOrNothing (s s' : TreeState) (items : List ParameterItem) (reply : Except FaultType Int) : Prop where
  fault : ∀ f, reply = .error f → ∀ p, s'.tree.valueAt p = s.tree.valueAt p
  success : ∀ status, reply = .ok status → ∀ before item after, items = before ++ item :: after →
    ∃ arg, convertSoapToLocalValue item.parameter = some arg ∧
      Written s.tree s'.tree (s.tree.cacheAfterWrites s.cache (writesOf before)) item.parameter.name arg []

/-- A parameter has been set: its leaf holds the value or, where it enables a WAN connection, the flag of the other one is cleared,
unless a parameter behind it has been written there. -/
def ItemWritten (t t' : Tr069Tree) (cache : Tr069NodeEntry) (item : ParameterItem) (after : List ParameterItem) : Prop :=
  ∃ arg, convertSoapToLocalValue item.parameter = some arg ∧
    match otherWanFlag item.parameter.name arg with
    | none => Written t t' cache item.parameter.name arg (writesOf after)
    | some other => Written t t' (t.cacheLookedUp cache item.parameter.name) other (arg.ofBits 0) (writesOf after)

/-- The parameters have been set in their order, up to the first one that is refused. -/
structure SetInOrder (s s' : TreeState) (items : List ParameterItem) (reply : Except FaultType Int) : Prop where
  /-- With a fault, those before the one that was refused have been set, as by a request of these alone. Nothing else has, except
  that enabling a WAN connection can be refused when the flag has been set. -/
  fault : ∀ f, reply = .error f → ∃ done item rest status s₁, items = done ++ item :: rest ∧
    setParameterValues s (some done) = some (.ok status, s₁) ∧
    ∀ p, (SwitchesWan item → ¬s₁.tree.WrittenTo p s₁.cache (writesOf [item])) → s'.tree.valueAt p = s₁.tree.valueAt p
  /-- With a success all have been set, and no other values. -/
  success : ∀ status, reply = .ok status →
    (∀ before item after, items = before ++ item :: after →
      ItemWritten s.tree s'.tree (s.tree.cacheAfterWrites s.cache (writesOf before)) item after) ∧
    ∀ p, ¬s.tree.WrittenTo p s.cache (writesOf items) → s'.tree.valueAt p = s.tree.valueAt p

section Items

variable {s s' : TreeState} {name : Text} {arg : Tr069Value} {ret : Result} {item : ParameterItem} {items : List ParameterItem}
  {status status' : Int} {reply : Except FaultType Int} {t : Tr069Tree}

theorem ret_of_isSet (h : s.setTr069Value .acsModule name arg = some (ret, s')) (hret : IsSet ret) : ret = .tcmagentOk := by
  rcases TreeState.setTr069Value_cases h with ⟨_, _, _, hnot⟩ | ⟨_, _, _, n, n', _, _, _, hset, _⟩
  · exact absurd hret hnot
  obtain ⟨_, _, _, _, _, _, _, hacs, _⟩ := Tr069Node.set_eq_ok hset
  exact hacs rfl

/-- **One call.** An accepted value is written to the leaf the name leads to; with an error nothing is. -/
theorem setTr069Value_acs (h : s.setTr069Value .acsModule name arg = some (ret, s')) :
    (ret = .tcmagentOk → ∃ p, s.tree.leadsTo s.cache name = some p ∧ s'.tree.HoldsAt p arg) ∧
      (ret ≠ .tcmagentOk → s'.tree = s.tree) ∧
      ∀ p, s.tree.leadsTo s.cache name ≠ some p → s'.tree.valueAt p = s.tree.valueAt p := by
  rcases TreeState.valueAt_setTr069Value h with ⟨hret, htree⟩ | ⟨hret, p, hp, hholds, hother⟩
  · refine ⟨?_, fun _ => htree, ?_⟩
    · intro hok
      exact absurd (Or.inl hok) hret
    · intro p _
      rw [htree]
  · refine ⟨fun _ => ⟨p, hp, hholds⟩, ?_, ?_⟩
    · intro hnot
      exact absurd (ret_of_isSet h hret) hnot
    · intro q hq
      refine hother q ?_
      rintro rfl
      exact hq hp

/-- **One parameter**: the tree is searched as before, nothing changes but what it is written to, and if it is accepted the last of
its calls has written its value. -/
theorem setParameterValue_spec (h : setParameterValue s name arg = some (ret, s')) :
    s.tree.SameSearch s'.tree ∧ s'.cache = s.tree.cacheAfterWrites s.cache (writes name arg) ∧
      (∀ p, ¬s.tree.WrittenTo p s.cache (writes name arg) → s'.tree.valueAt p = s.tree.valueAt p) ∧
      (ret ≠ .tcmagentOk → otherWanFlag name arg = none → s'.tree = s.tree) ∧
      (ret = .tcmagentOk →
        match otherWanFlag name arg with
        | none => ∃ p, s.tree.leadsTo s.cache name = some p ∧ s'.tree.HoldsAt p arg
        | some other => ∃ p, s.tree.leadsTo (s.tree.cacheLookedUp s.cache name) other = some p ∧ s'.tree.HoldsAt p (arg.ofBits 0)) := by
  unfold setParameterValue at h
  split at h
  · cases h
  rename_i ret₁ s₁ hset
  have hsame := TreeState.sameSearch_setTr069Value hset
  have hcache := TreeState.cache_setTr069Value hset
  obtain ⟨hok, hrefused, hkept⟩ := setTr069Value_acs hset
  unfold writes
  split at h
  · rename_i other hother
    have hsame' := TreeState.sameSearch_setTr069Value h
    have hcache' := TreeState.cache_setTr069Value h
    obtain ⟨hok', _, hkept'⟩ := setTr069Value_acs h
    rw [hsame.cacheLookedUp, hcache] at hcache'
    rw [hsame.leadsTo, hcache] at hok'
    simp only [hother]
    refine ⟨hsame.trans hsame', hcache', ?_, ?_, hok'⟩
    · intro p hp
      rw [Option.map_some, Option.toList_some, Tr069Tree.WrittenTo, Tr069Tree.WrittenTo, not_or, not_or] at hp
      rw [hkept' p, hkept p hp.1]
      rw [hsame.leadsTo, hcache]
      exact hp.2.1
    · intro _ hnone
      cases hnone
  · rename_i hother
    cases h
    simp only [hother]
    refine ⟨hsame, hcache, ?_, fun hret _ => hrefused hret, hok⟩
    intro p hp
    rw [Option.map_none, Option.toList_none, Tr069Tree.WrittenTo, not_or] at hp
    exact hkept p hp.1

/-- What an accepted parameter leads to: it has been set, and the loop has gone on. -/
theorem setParameterItems_cons (h : setParameterItems s status (item :: items) = some (reply, s')) :
    (∃ f, reply = .error f ∧ ∀ p, (SwitchesWan item → ¬s.tree.WrittenTo p s.cache (writesOf [item])) →
        s'.tree.valueAt p = s.tree.valueAt p) ∨
      ∃ arg s₁, convertSoapToLocalValue item.parameter = some arg ∧
        setParameterValue s item.parameter.name arg = some (.tcmagentOk, s₁) ∧
        setParameterItems s₁ item.status items = some (reply, s') ∧
        ∀ done, setParameterItems s status (item :: done) = setParameterItems s₁ item.status done := by
  unfold setParameterItems at h
  split at h
  · cases h
    exact Or.inl ⟨_, rfl, fun _ _ => rfl⟩
  rename_i hstatus
  split at h
  · cases h
  rename_i arg harg
  split at h
  · cases h
  rename_i ret s₁ hset
  split at h
  · rename_i hret
    cases h
    refine Or.inl ⟨_, rfl, ?_⟩
    intro p hp
    obtain ⟨_, _, hkept, hrefused, _⟩ := setParameterValue_spec hset
    cases hother : otherWanFlag item.parameter.name arg with
    | none => rw [hrefused hret hother]
    | some other =>
      refine hkept p ?_
      have hnot := hp ⟨arg, harg, by simp [hother]⟩
      simpa [writesOf, harg] using hnot
  · rename_i hret
    obtain rfl := not_not.1 hret
    refine Or.inr ⟨arg, s₁, harg, hset, h, ?_⟩
    intro done
    simp [setParameterItems, hstatus, harg, hset]

/-- **A fault**: the parameters before the one that was refused have been set. -/
theorem setParameterItems_fault {f : FaultType} (h : setParameterItems s status items = some (.error f, s')) :
    ∃ done item rest status' s₁, items = done ++ item :: rest ∧ setParameterItems s status done = some (.ok status', s₁) ∧
      ∀ p, (SwitchesWan item → ¬s₁.tree.WrittenTo p s₁.cache (writesOf [item])) → s'.tree.valueAt p = s₁.tree.valueAt p := by
  induction items generalizing s status with
  | nil => cases h
  | cons item items ih =>
    rcases setParameterItems_cons h with ⟨_, _, hkept⟩ | ⟨arg, s₁, harg, hset, hitems, hgoes⟩
    · exact ⟨[], item, items, status, s, rfl, rfl, hkept⟩
    · obtain ⟨done, refused, rest, status', s₂, rfl, hdone, hkept⟩ := ih hitems
      refine ⟨item :: done, refused, rest, status', s₂, rfl, ?_, hkept⟩
      rw [hgoes]
      exact hdone

/-- **A success**: each parameter has been set, and nothing but what the parameters lead to. -/
theorem setParameterItems_ok (h : setParameterItems s status items = some (.ok status', s')) (ht : t.SameSearch s.tree) :
    (∀ before item after, items = before ++ item :: after →
      ItemWritten t s'.tree (t.cacheAfterWrites s.cache (writesOf before)) item after) ∧
    ∀ p, ¬t.WrittenTo p s.cache (writesOf items) → s'.tree.valueAt p = s.tree.valueAt p := by
  induction items generalizing s status with
  | nil =>
    cases h
    refine ⟨?_, fun _ _ => rfl⟩
    intro before item after hitems
    cases before <;> cases hitems
  | cons first items ih =>
    rcases setParameterItems_cons h with ⟨_, hfault, _⟩ | ⟨arg, s₁, harg, hset, hitems, _⟩
    · cases hfault
    obtain ⟨hsame, hcache, hkept, _, hok⟩ := setParameterValue_spec hset
    obtain ⟨hwritten, hrest⟩ := ih hitems (ht.trans hsame)
    rw [ht.cacheAfterWrites] at hcache
    rw [hcache] at hwritten hrest
    have hfirst : ∀ rest, writesOf (first :: rest) = writes first.parameter.name arg ++ writesOf rest := by
      intro rest
      simp [writesOf, harg]
    refine ⟨?_, ?_⟩
    · intro before item after hsplit
      cases before with
      | nil =>
        obtain ⟨rfl, rfl⟩ := List.cons.inj hsplit
        refine ⟨arg, harg, ?_⟩
        -- a later parameter apart, what it has written is still there
        have hheld : ∀ p v, s₁.tree.HoldsAt p v →
            ¬t.WrittenTo p (t.cacheAfterWrites s.cache (writes first.parameter.name arg)) (writesOf items) → s'.tree.HoldsAt p v := by
          intro p v hholds hlater
          rw [Tr069Tree.HoldsAt, hrest p hlater]
          exact hholds
        replace hok := hok rfl
        unfold writes at hheld
        cases hother : otherWanFlag first.parameter.name arg with
        | none =>
          simp only [hother] at hok hheld
          obtain ⟨p, hp, hholds⟩ := hok
          rw [ht.leadsTo] at hp
          exact ⟨p, hp, hheld p arg hholds⟩
        | some other =>
          simp only [hother] at hok hheld
          obtain ⟨p, hp, hholds⟩ := hok
          rw [ht.leadsTo, ht.cacheLookedUp] at hp
          exact ⟨p, hp, hheld p _ hholds⟩
      | cons b before =>
        obtain ⟨rfl, rfl⟩ := List.cons.inj hsplit
        rw [hfirst, Tr069Tree.cacheAfterWrites_append]
        exact hwritten before item after rfl
    · intro p hp
      rw [hfirst, Tr069Tree.writtenTo_append, not_or] at hp
      rw [hrest p hp.2, hkept p]
      rw [ht.writtenTo]
      exact hp.1

end Items

/-- **SetParameterValues goes as far as it gets.** The parameters are set in their order. With a fault the values are those that the
parameters before the refused one have left; with a success each parameter has been set to what is requested. -/
theorem set_parameter_values_in_order {s s' : TreeState} {items : List ParameterItem} {reply : Except FaultType Int}
    (h : setParameterValues s (some items) = some (reply, s')) : SetInOrder s s' items reply where
  fault := by
    rintro f rfl
    exact setParameterItems_fault h
  success := by
    rintro status rfl
    exact setParameterItems_ok h (.refl s.tree)

/-- Two parameters, the second of which is too long. -/
def hostItems : List ParameterItem :=
  [⟨⟨"Device.Host.1.A".toList, some "x".toList, some .xsdString⟩, applied⟩,
    ⟨⟨"Device.Host.1.B".toList, some "more than sixteen".toList, some .xsdString⟩, applied⟩]

/-- The second one is refused when the first one has been set. -/
theorem hostItems_refused : ∃ f s', setParameterValues hostState (some hostItems) = some (.error f, s') ∧
    s'.tree.valueAt [0, 0, 1, 0] ≠ hostState.tree.valueAt [0, 0, 1, 0] := by
  have hrun : (setParameterValues hostState (some hostItems)).map
      (fun r => (r.1.toOption, decide (r.2.tree.valueAt [0, 0, 1, 0] = hostState.tree.valueAt [0, 0, 1, 0]))) =
      some (none, false) := by
    decide +kernel
  obtain ⟨⟨reply, s'⟩, hr, hreply⟩ := Option.map_eq_some_iff.1 hrun
  obtain ⟨hfault, hvalue⟩ := Prod.mk.inj hreply
  cases reply with
  | error f => exact ⟨f, s', hr, of_decide_eq_false hvalue⟩
  | ok status => cases hfault

theorem set_parameter_values_in_order_refused : ∃ f s', setParameterValues hostState (some hostItems) = some (.error f, s') ∧
    SetInOrder hostState s' hostItems (.error f) := by
  obtain ⟨f, s', hr, _⟩ := hostItems_refused
  exact ⟨f, s', hr, set_parameter_values_in_order hr⟩

/-- A fault does not leave every value as it was. -/
theorem set_parameter_values_not_all_or_nothing : ¬∀ (s s' : TreeState) (items : List ParameterItem) (reply : Except FaultType Int),
    setParameterValues s (some items) = some (reply, s') → AllOrNothing s s' items reply := by
  intro h
  obtain ⟨f, s', hr, hvalue⟩ := hostItems_refused
  exact hvalue ((h _ _ _ _ hr).fault f rfl [0, 0, 1, 0])

end CodeFactory.Core
