import CodeFactory.Conf.Load
import CodeFactory.Tr69.Children
import CodeFactory.Tr69.ExactValue

/-!
# Nodes and the attributes of XML nodes

`init_tr069_node` builds a node from the attributes of an XML node of the configuration file, `build_xml_node` builds the attributes
that the file is written with. `c` and `isChanged` of a node, which neither reads and which start as the default value or as zero, are
left out, and so is the array below an object, which is `childNum` free slots.
-/

namespace CodeFactory.Tr69

structure XmlAttribute where
  name : Text
  value : Text
  deriving DecidableEq, Repr

/-- The attributes of a node. -/
inductive AttributeName where
  | type | access | notification | needReboot | nextLevelNum | valueRange | lengthRange | style | accessList | maxNumOfEntries
  | defaultValue
  deriving DecidableEq, Repr

def AttributeName.text : AttributeName → Text
  | .type => "type".toList
  | .access => "access".toList
  | .notification => "notification".toList
  | .needReboot => "needReboot".toList
  | .nextLevelNum => "nextLevelNum".toList
  | .valueRange => "valueRange".toList
  | .lengthRange => "lengthRange".toList
  | .style => "style".toList
  | .accessList => "accessList".toList
  | .maxNumOfEntries => "maxNumOfEntries".toList
  | .defaultValue => "defaultValue".toList

/-! ## The texts of the enumerations -/

/-- The member of an enumeration that a text is compared equal with. -/
def ofText? {α : Type} (text : α → Text) (members : List α) (s : Text) : Option α := members.find? fun a => text a = s

def attributeName? : Text → Option AttributeName :=
  ofText? AttributeName.text [.type, .access, .notification, .needReboot, .nextLevelNum, .valueRange, .lengthRange, .style,
    .accessList, .maxNumOfEntries, .defaultValue]

/-- `Tr069TypeInfo`. -/
def typeInfo : Tr069Type → Text
  | .unknown => "Unknown".toList
  | .int => "Int".toList
  | .unsigned => "Unsigned".toList
  | .bool => "Bool".toList
  | .string => "String".toList
  | .inst => "Instance".toList
  | .object => "Object".toList
  | .multiObject => "MultiObject".toList

def type? : Text → Option Tr069Type := ofText? typeInfo [.string, .int, .unsigned, .bool, .inst, .object, .multiObject]

/-- `Tr069AccessInfo`. -/
def accessInfo : Tr069AccessType → Text
  | ⟨false, false⟩ => []
  | ⟨true, false⟩ => "readOnly".toList
  | ⟨false, true⟩ => "writeOnly".toList
  | ⟨true, true⟩ => "readWrite".toList

def access? : Text → Option Tr069AccessType := ofText? accessInfo [⟨true, false⟩, ⟨false, true⟩, ⟨true, true⟩]

/-- `Tr069NotificationInfo`. -/
def notificationInfo : Tr069Notification → Text
  | .none => "none".toList
  | .passive => "passive".toList
  | .active => "active".toList

def notification? : Text → Option Tr069Notification := ofText? notificationInfo [.none, .passive, .active]

def rebootInfo : Bool → Text
  | true => "yes".toList
  | false => "no".toList

def reboot? : Text → Option Bool := ofText? rebootInfo [true, false]

/-- `Tr069StyleInfo`. -/
def styleInfo : Tr069Style → Text
  | .configuration => "configuration".toList
  | .treeStatus => "status".toList

def style? : Text → Option Tr069Style := ofText? styleInfo [.configuration, .treeStatus]

/-- `Tr069AccessListInfo`. -/
def accessListInfo : Tr069AccessList → Text
  | .acs => []
  | .all => "subscriber".toList

def accessList? : Text → Option Tr069AccessList := ofText? accessListInfo [.acs, .all]

/-! ## Reading -/

/-- What is before the first `-` of a text, and what is behind it. -/
def cutMinus (s : Text) : Option (Text × Text) :=
  match s.span (· ≠ '-') with
  | (_, []) => none
  | (before, _ :: behind) => some (before, behind)

/-- The two parts of a range: it is cut at its first `-`, or at the second one if it starts with a `-` or has a third one. -/
def splitRange (value : Text) : Option (Text × Text) :=
  match cutMinus value with
  | none => none
  | some (before, ptr1) =>
    match cutMinus ptr1 with
    | none => some (before, ptr1)
    | some (middle, ptr2) =>
      if '-' ∈ ptr2 ∨ value.head? = some '-' then some (before ++ '-' :: middle, ptr2) else some (before, ptr1)

/-- The bounds that a range says. -/
def range? (value : Text) : Option (Int × Int) :=
  match splitRange value with
  | none => none
  | some (min, max) =>
    match stringToNum min, stringToNum max with
    | some min, some max => if min > max then none else some (min, max)
    | _, _ => none

/-- The local variables of `init_tr069_node` that the attributes are read into. -/
structure Settings where
  type : Tr069Type
  accessType : Tr069AccessType
  notification : Tr069Notification
  needReboot : Bool
  accessModule : Tr069AccessList
  style : Tr069Style
  lengthRange : Bool
  valueRange : Bool
  min : Int
  max : Int
  nextLevelNum : Int
  maxNumOfEntries : BitVec 32
  defaultValue : Option Text
  deriving DecidableEq, Repr

/-- Their initial values; `maxNumOfEntries` has none of its own. -/
def Settings.initial (maxNumOfEntries : BitVec 32) : Settings :=
  ⟨.unknown, ⟨true, true⟩, .none, false, .all, .configuration, false, false, 0, 0, 0, maxNumOfEntries, none⟩

/-- A value that is read, or an error. -/
def orError {α β : Type} (ret : Result) (value : Option α) (f : α → β) : Except Result β :=
  match value with
  | some a => .ok (f a)
  | none => .error ret

/-- One attribute. The later of two with the same name counts, and a range counts under both of its names. -/
def Settings.read (l : Settings) (attr : XmlAttribute) : Except Result Settings :=
  match attributeName? attr.name with
  | some .type => orError .attributeTypeError (type? attr.value) fun type => { l with type := type }
  | some .access => orError .attributeAccessError (access? attr.value) fun accessType => { l with accessType := accessType }
  | some .notification =>
    orError .attributeNotificationError (notification? attr.value) fun notification => { l with notification := notification }
  | some .needReboot => orError .attributeNeedrebootError (reboot? attr.value) fun needReboot => { l with needReboot := needReboot }
  | some .nextLevelNum =>
    orError .attributeNextlevelnumError ((stringToNum attr.value).filter fun num => 0 ≤ num) fun num => { l with nextLevelNum := num }
  | some .valueRange =>
    orError .attributeRangeError (range? attr.value) fun range => { l with min := range.1, max := range.2, valueRange := true }
  | some .lengthRange =>
    orError .attributeRangeError ((range? attr.value).filter fun range => 0 ≤ range.1 ∧ 0 ≤ range.2) fun range =>
      { l with min := range.1, max := range.2, lengthRange := true }
  | some .style => orError .attributeStyleError (style? attr.value) fun style => { l with style := style }
  | some .accessList =>
    orError .attributeAccesslistError (accessList? attr.value) fun accessModule => { l with accessModule := accessModule }
  | some .maxNumOfEntries =>
    -- the number is read into an unsigned variable, so that it is never less than 0
    orError .attributeMaxnumofentriesError (stringToNum attr.value) fun num => { l with maxNumOfEntries := BitVec.ofInt 32 num }
  | some .defaultValue => .ok { l with defaultValue := some attr.value }
  | none => .error .attributeNameError

def Settings.readAll (l : Settings) (attrs : List XmlAttribute) : Except Result Settings := attrs.foldlM Settings.read l

/-- The error that is found when the attributes have been read, by the type. -/
def Settings.fault (l : Settings) : Option Result :=
  match l.type with
  | .inst | .multiObject | .object => if l.nextLevelNum ≤ 0 then some .attributeNextlevelnumError else none
  | .string =>
    if ¬l.lengthRange then some .attributeRangeError
    else
      match l.defaultValue with
      | none => none
      | some text => if (Tr069Value.string text).inRange l.min l.max then none else some .attributeDefaultvallueError
  | .int | .unsigned =>
    if ¬l.valueRange then some .attributeRangeError
    else
      match l.defaultValue with
      | none => none
      | some text =>
        match stringToNum text with
        | none => some .attributeDefaultvallueError
        | some value => if value < l.min ∨ value > l.max then some .attributeDefaultvallueError else none
  | .bool => none
  | .unknown => some .attributeTypeError

/-- The default value of a leaf; where no default is given it is zero, which for a string is a null pointer. -/
def Settings.default (l : Settings) : Option Tr069Value :=
  match l.type with
  | .string => l.defaultValue.map .string
  | .bool => some (.bool (if (l.defaultValue.map Conf.atoi).getD 0 = 0 then 0 else 1))
  | .int => some (.int (BitVec.ofInt 32 ((l.defaultValue.bind stringToNum).getD 0)))
  | .unsigned => some (.unsigned (BitVec.ofInt 32 ((l.defaultValue.bind stringToNum).getD 0)))
  | _ => none

/-- `Tr069Node`, with the fields that are not read anywhere else. -/
structure LoadedNode where
  name : Text
  type : Tr069Type
  accessType : Tr069AccessType
  notification : Tr069Notification
  needReboot : Bool
  accessModule : Tr069AccessList
  style : Tr069Style
  childNum : Int
  defaultValue : Option Tr069Value
  min : Int
  max : Int
  deriving DecidableEq, Repr

/-- What the `node` of an entry points to. -/
inductive InitNode where
  | node (n : LoadedNode)
  | instances (template : Template)
  deriving DecidableEq, Repr

/-- The entry that `init_tr069_node` sets. -/
structure InitEntry where
  name : Text
  node : InitNode
  deriving DecidableEq, Repr

/-- `IS_TEMPLATE`. -/
def isTemplateName (nodeName : Text) : Prop := ['.', '0', '.'] <:+: nodeName

instance (nodeName : Text) : Decidable (isTemplateName nodeName) := inferInstanceAs (Decidable (_ <:+: _))

/-- The `Tr069Node` of the settings. -/
def Settings.loadedNode (l : Settings) (nodeName : Text) : LoadedNode where
  name := afterLastDot (cutDot nodeName)
  type := l.type
  accessType := l.accessType
  notification := if isTemplateName nodeName then .none else l.notification
  needReboot := l.needReboot
  accessModule := if isTemplateName nodeName then .all else l.accessModule
  style := l.style
  childNum := l.nextLevelNum
  defaultValue := l.default
  min := l.min
  max := l.max

/-- The node of the settings. Looking at the last character of an empty name is undefined. -/
def Settings.node (l : Settings) (nodeName : Text) : Option InitNode :=
  if l.type = .inst then
    some (.instances ⟨⟨1, l.maxNumOfEntries, 0⟩, ⟨0, l.accessType, l.notification, l.accessModule⟩,
      List.replicate l.nextLevelNum.toNat .free⟩)
  else if nodeName = [] then none
  else some (.node (l.loadedNode nodeName))

/-- The local variables that are read before anything is written to them: the array `name`, whose length is checked instead of that of
`nodeName`, and `maxNumOfEntries`. -/
structure Locals where
  nameLength : Nat
  maxNumOfEntries : BitVec 32
  deriving DecidableEq, Repr

/-- `init_tr069_node`. A name that does not fit in the array is written beyond it. -/
def initTr069Node (locals : Locals) (nodeName : Text) (attrs : List XmlAttribute) : Except Stop InitEntry :=
  if maxTr069NameLen < locals.nameLength then .error (.endret .nodeNameError)
  else if maxTr069NameLen < nodeName.length then .error .undefined
  else
    match (Settings.initial locals.maxNumOfEntries).readAll attrs with
    | .error ret => .error (.endret ret)
    | .ok l =>
      match l.fault with
      | some ret => .error (.endret ret)
      | none => (deref (l.node nodeName)).map fun node => ⟨nodeName, node⟩

/-! ## Writing -/

/-- The text of the default value, which must not be a null pointer. -/
def LoadedNode.defaultText (n : LoadedNode) : Option Text :=
  match n.defaultValue with
  | some (.string text) => some text
  | some (.int v) => some (decimal v.toInt)
  | some (.unsigned v) | some (.bool v) => some (decimal v.toNat)
  | none => none

def LoadedNode.leafAttributes (n : LoadedNode) (defaultText : Text) : List XmlAttribute :=
  [⟨AttributeName.type.text, typeInfo n.type⟩,
    ⟨AttributeName.access.text, accessInfo n.accessType⟩,
    ⟨AttributeName.notification.text, notificationInfo n.notification⟩,
    ⟨AttributeName.needReboot.text, rebootInfo n.needReboot⟩,
    ⟨AttributeName.accessList.text, accessListInfo n.accessModule⟩,
    ⟨AttributeName.style.text, styleInfo n.style⟩,
    ⟨(if n.type = .string then AttributeName.lengthRange else AttributeName.valueRange).text, decimal n.min ++ '-' :: decimal n.max⟩,
    ⟨AttributeName.defaultValue.text, defaultText⟩]

/-- `build_xml_node`, with the type that the entry says. -/
def buildXmlNode (type : Tr069Type) (node : InitNode) : Except Stop (List XmlAttribute) :=
  match type, node with
  | .object, .node n | .multiObject, .node n =>
    if n.type.isLeaf then (deref n.defaultText).map n.leafAttributes
    else .ok [⟨AttributeName.type.text, typeInfo n.type⟩, ⟨AttributeName.nextLevelNum.text, decimal n.childNum⟩]
  | .inst, .instances t =>
    .ok [⟨AttributeName.type.text, typeInfo .inst⟩, ⟨AttributeName.nextLevelNum.text, decimal t.subNode.length⟩,
      ⟨AttributeName.maxNumOfEntries.text, decimal t.instances.maxNumOfEntries.toInt⟩]
  | .object, .instances _ | .multiObject, .instances _ | .inst, .node _ => .error .undefined
  | _, _ => .ok []

/-- The type `write_xml_file` gives the entry of a node: leaves count as objects there. -/
def InitNode.entryType : InitNode → Tr069Type
  | .node n => if n.type = .multiObject then .multiObject else .object
  | .instances _ => .inst

end CodeFactory.Tr69
