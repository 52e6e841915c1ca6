import CodeFactory.Soap.StructList

/-!
# Lists of parameters

`parse_SetParameterValues_packet` and `parse_SetParameterAttributes_packet`, given the elements behind the one of the method. What
they do with an element goes by its name alone, wherever in the packet it stands.
-/

namespace CodeFactory.Soap

open Tr69 (Text)

inductive ValueType where
  | xsdInt | xsdUint | xsdBool | xsdString
  deriving DecidableEq, Repr

/-- `ParameterValueStruct`. The value is null before the element for it, the type is 0 unless it is one of the four. -/
structure ParameterValueStruct where
  name : Text
  value : Option Text
  type : Option ValueType
  deriving DecidableEq, Repr

/-- The type an `xsi:type` stands for. -/
def valueType (type : Text) : Option ValueType :=
  if type = "xsd:string".toList then some .xsdString
  else if type = "xsd:int".toList then some .xsdInt
  else if type = "xsd:unsignedInt".toList then some .xsdUint
  else if type = "xsd:boolean".toList then some .xsdBool
  else none

/-- What `parse_SetParameterValues_packet` does at an element. -/
def valueRole (e : SOAPElement) : Role ParameterValueStruct :=
  if e.Named "ParameterValueStruct" then .struct
  else if e.Named "Name" then .field fun v => { v with name := textOf e.data }
  else if e.Named "Value" then
    .append fun v => { v with value := some (textOf e.data), type := (valueType e.type).or v.type }
  else if e.Named "ParameterKey" then
    -- the one text that is copied without a look whether it is there
    if e.data = none then .noText else .other
  else .other

structure ParameterListStruct where
  parameterKey : Text
  parameterValues : Entries ParameterValueStruct

def parseSetParameterValuesPacket (fuel : Nat) (els : List SOAPElement) : Outcome ParameterListStruct :=
  (parseStructs ⟨[], none, none⟩ fuel (els.map valueRole)).map fun s => ⟨textOf (lastData "ParameterKey" els), s⟩

structure ParameterSetAttributeStruct where
  name : Text
  notificationChange : Bool
  notification : Int
  accessListChange : Bool
  accessList : Text
  deriving DecidableEq, Repr

/-- What `parse_SetParameterAttributes_packet` does at an element. -/
def attributeRole (e : SOAPElement) : Role ParameterSetAttributeStruct :=
  if e.Named "SetParameterAttributesStruct" then .struct
  else if e.Named "Name" then .field fun v => { v with name := textOf e.data }
  else if e.Named "NotificationChange" then .field fun v => { v with notificationChange := flagOf e.data }
  else if e.Named "Notification" then .field fun v => { v with notification := intOf e.data }
  else if e.Named "AccessListChange" then .field fun v => { v with accessListChange := flagOf e.data }
  else if e.Named "AccessList" then .append fun v => { v with accessList := textOf e.data }
  else .other

def parseSetParameterAttributesPacket (fuel : Nat) (els : List SOAPElement) : Outcome (Entries ParameterSetAttributeStruct) :=
  parseStructs ⟨[], false, 0, false, []⟩ fuel (els.map attributeRole)

theorem isStruct_valueRole (e : SOAPElement) : (valueRole e).isStruct = decide (e.Named "ParameterValueStruct") := by
  unfold valueRole
  split
  · simp [Role.isStruct, *]
  · rename_i h
    rw [decide_eq_false h]
    repeat' split
    all_goals rfl

theorem isStruct_attributeRole (e : SOAPElement) :
    (attributeRole e).isStruct = decide (e.Named "SetParameterAttributesStruct") := by
  unfold attributeRole
  split
  · simp [Role.isStruct, *]
  · rename_i h
    rw [decide_eq_false h]
    repeat' split
    all_goals rfl

/-! ## Both lists -/

/-- `parse_SetParameterValues_packet` ends, and leaves a list with an end that holds one entry for each `ParameterValueStruct`, in
document order. -/
def ValuesParsed (els : List SOAPElement) : Prop :=
  ∃ fuel p, parseSetParameterValuesPacket fuel els = .done p ∧
    ChainFrom p.parameterValues.next p.parameterValues.list (List.range (els.countP (·.Named "ParameterValueStruct")))

/-- `parse_SetParameterAttributes_packet` ends, and leaves a list with an end that holds one entry for each
`SetParameterAttributesStruct`, in document order. -/
def AttributesParsed (els : List SOAPElement) : Prop :=
  ∃ fuel p, parseSetParameterAttributesPacket fuel els = .done p ∧
    ChainFrom p.next p.list (List.range (els.countP (·.Named "SetParameterAttributesStruct")))

theorem valuesParsed_iff (els : List SOAPElement) : ValuesParsed els ↔ ListParsed ⟨[], none, none⟩ (els.map valueRole) := by
  have hcount : (els.map valueRole).countP Role.isStruct = els.countP (·.Named "ParameterValueStruct") := by
    rw [List.countP_map]
    exact List.countP_congr fun e _ => by rw [Function.comp, isStruct_valueRole]
  unfold ValuesParsed ListParsed parseSetParameterValuesPacket
  rw [hcount]
  refine exists_congr fun fuel => ⟨fun ⟨p, hp, hc⟩ => ?_, fun ⟨s, hs, hc⟩ => ?_⟩
  · obtain ⟨s, hs, rfl⟩ := Outcome.map_eq_done.1 hp
    exact ⟨s, hs, hc⟩
  · exact ⟨_, Outcome.map_eq_done.2 ⟨s, hs, rfl⟩, hc⟩

theorem attributesParsed_iff (els : List SOAPElement) :
    AttributesParsed els ↔ ListParsed ⟨[], false, 0, false, []⟩ (els.map attributeRole) := by
  have hcount : (els.map attributeRole).countP Role.isStruct = els.countP (·.Named "SetParameterAttributesStruct") := by
    rw [List.countP_map]
    exact List.countP_congr fun e _ => by rw [Function.comp, isStruct_attributeRole]
  unfold AttributesParsed ListParsed parseSetParameterAttributesPacket
  rw [hcount]

/-- **Lists are parsed when each structure is appended once.** Either list comes out right exactly if in each structure the element
that appends its entry, `Value` or `AccessList`, comes once, no element of a structure comes before the first structure, and a
`ParameterKey` has a text. -/
theorem parameter_lists_parsed_iff (els : List SOAPElement) :
    (ValuesParsed els ↔ OncePerStruct false true (els.map valueRole)) ∧
      (AttributesParsed els ↔ OncePerStruct false true (els.map attributeRole)) :=
  ⟨(valuesParsed_iff els).trans (listParsed_iff _ _), (attributesParsed_iff els).trans (listParsed_iff _ _)⟩

/-- An element without a prefix. -/
def element (name : String) (data : Option String) : SOAPElement := ⟨name.toList, [], data.map String.toList, []⟩

/-- A structure with two values: its entry is linked to itself. -/
theorem parameter_lists_not_parsed : ¬∀ els, ValuesParsed els ∧ AttributesParsed els := by
  intro h
  have hvalues := (h [element "ParameterValueStruct" none, element "Name" (some "A.B"), element "Value" (some "1"),
    element "Value" (some "2")]).1
  have honce := (listParsed_iff _ _).1 ((valuesParsed_iff _).1 hvalues)
  -- at the second value the entry is appended already
  have hfilled : true = false := honce.2.2.2.2.2.1
  cases hfilled

end CodeFactory.Soap
