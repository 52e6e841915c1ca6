import CodeFactory.Lib.Spelling
import CodeFactory.Soap.Builder

/-!
# What the packets are to say

For each packet the document it is to be, as a tree over the data it is built from: an element for each name, value and number, in
order, and with each list the number of its elements.
-/

namespace CodeFactory.Soap

open Tr69 (Text decimal)
open Xml (Element Plain IsDocument)

def leaf (t : Tag) (text : Text) : Element := .leaf t.word [] text

def node (t : Tag) (children : List Element) : Element := .node t.word [] children

/-- The attributes of a list of so many elements. -/
def arrayAttributes (type : String) (count : Nat) : List (Text × Text) :=
  [("xsi:type".toList, "SOAP-ENC:Array".toList),
    ("SOAP-ENC:arrayType".toList, type.toList ++ '[' :: (decimal count ++ [']']))]

/-- A list, with the number of its elements. -/
def array (t : Tag) (type : String) (children : List Element) : Element :=
  .node t.word (arrayAttributes type children.length) children

def number (n : UInt32) : Text := decimal n.toNat

def eventElement (e : EventCodeStruct) : Element :=
  node .eventStruct [leaf .eventCode e.eventCode, leaf .commandKey e.commandKey]

/-- The attribute for the type of a value, where it has one. -/
def typeAttributes (type : Option ValueType) : List (Text × Text) := ((getType type).map fun t => ("xsi:type".toList, t)).toList

def parameterElement (p : ParameterValueStruct) : Element :=
  node .parameterValueStruct [leaf .name p.name, .leaf Tag.value.word (typeAttributes p.type) (p.value.getD [])]

def informElement (inform : InformInfoStruct) : Element :=
  node .inform
    [node .deviceId [leaf .manufacturer (inform.deviceId.manufacturer.getD []), leaf .oui (inform.deviceId.oui.getD []),
      leaf .productClass (inform.deviceId.productClass.getD []), leaf .serialNumber (inform.deviceId.serialNumber.getD [])],
      array .event "cwmp:EventStruct" ((events inform.eventStruct).map eventElement),
      leaf .maxEnvelopes (number inform.maxEnvelopes),
      leaf .currentTime inform.currentTime,
      leaf .retryCount (number inform.retryCount),
      array .parameterList "cwmp:ParameterValueStruct" (inform.parameterList.map parameterElement)]

/-- The element of a parameter and whether it may be written. -/
def infoElement (p : ParameterInfoStruct) : Element :=
  node .parameterInfoStruct [leaf .name p.name, leaf .writable (printed p.writable)]

def attributeElement (p : ParameterAttributeStruct) : Element :=
  node .parameterAttributeStruct [leaf .name p.name, leaf .notification (number p.notification),
    array .accessList "xsd:string" ((p.accessList.takeWhile (· ≠ [])).map (leaf .string))]

/-- The element of a response with a status. -/
def statusElement (method : Tag) (status : Int32) : Element := node method [leaf .status (printed status)]

/-- The element of the response to a Download or an Upload. -/
def transferResponseElement (method : Tag) (r : TransferResponseStruct) : Element :=
  node method [leaf .status (printed r.status), leaf .startTime r.startTime, leaf .completeTime r.completeTime]

/-- The element of a transfer in the queue. -/
def transferElement (t : TransferStruct) : Element :=
  node .queuedTransferStruct [leaf .commandKey t.commandKey, leaf .state (printed t.state)]

/-- The element of an argument. -/
def argElement (a : FileArgStruct) : Element := node .argStruct [leaf .name a.name, leaf .value a.value]

def transferCompleteElement (t : TransferCompleteStruct) : Element :=
  node .transferComplete [leaf .commandKey t.commandKey,
    node .faultStruct [leaf .faultCode (number t.faultcode), leaf .faultString t.faultString],
    leaf .startTime t.startTime, leaf .completeTime t.completeTime]

/-- The element of a parameter that could not be set. -/
def parameterFaultElement (f : SetParameterFaultStruct) : Element :=
  node .setParameterValuesFault [leaf .parameterName f.parameterName, leaf .faultCode (number f.faultCode),
    leaf .faultString f.faultString]

def faultElement (faultCode faultString : String) (detail : List Element) : Element :=
  node .soapFault (leaf .faultcode faultCode.toList :: leaf .faultstring faultString.toList :: detail)

/-- The detail of a fault of CWMP. -/
def detailElement (faultCode : Int32) (setparameterfault : List SetParameterFaultStruct) : Element :=
  node .detail [node .cwmpFault (leaf .faultCode (printed faultCode) ::
    leaf .faultString (getFaultString faultCode.toInt) :: setparameterfault.map parameterFaultElement)]

/-- The element of a GetParameterValuesResponse. -/
def getParameterValuesElement (values : List ParameterValueStruct) : Element :=
  node .getParameterValuesResponse [array .parameterList "cwmp:ParameterValueStruct" (values.map parameterElement)]

/-- The element of a GetParameterNamesResponse. -/
def getParameterNamesElement (names : List ParameterInfoStruct) : Element :=
  node .getParameterNamesResponse [array .parameterList "cwmp:ParameterInfoStruct" (names.map infoElement)]

/-- The element of a GetParameterAttributesResponse. -/
def getParameterAttributesElement (attributes : List ParameterAttributeStruct) : Element :=
  node .getParameterAttributesResponse
    [array .parameterList "cwmp:ParameterAttributeStruct" (attributes.map attributeElement)]

def addObjectElement (object : AddObjectResponseStruct) : Element :=
  node .addObjectResponse [leaf .instanceNumber (number object.instanceID), leaf .status (printed object.status)]

/-- The element of a GetRPCMethodsResponse. -/
def getRpcmethodsElement : Element :=
  node .getRPCMethodsResponse
    [array .methodList "xsd:string" (gRPCMethodList.map fun method => leaf .string method.toList)]

/-- The element of a GetQueuedTransfersResponse. -/
def getQueuedtransfersElement (transfers : List TransferStruct) : Element :=
  node .getQueuedTransfersResponse [array .transferList "cwmp:QueuedTransfe" ((queued transfers).map transferElement)]

def requestDownloadElement (request : RequestDownloadStruct) : Element :=
  node .requestDownLoad [leaf .fileType request.fileType,
    array .fileTypeArg "cwmp:Arg" ((arguments request.arglist).map argElement)]

/-- What stands in the body of the packet. -/
def Parameter.body : Parameter → List Element
  | .sendInform inform => [informElement inform]
  | .transferComplete transfers => transfers.map transferCompleteElement
  | .setParameterValuesResp status => [statusElement .setParameterValuesResponse status]
  | .getParameterValuesResp values => [getParameterValuesElement values]
  | .getParameterNamesResp names => [getParameterNamesElement names]
  | .setParameterAttributesResp => [node .setParameterAttributesResponse []]
  | .getParameterAttributesResp attributes => [getParameterAttributesElement attributes]
  | .addObjectResp object => [addObjectElement object]
  | .deleteObjectResp status => [statusElement .deleteObjectResponse status]
  | .getRpcmethodsResp => [getRpcmethodsElement]
  | .downloadResp download => [transferResponseElement .downloadResponse download]
  | .rebootResp => [node .rebootResponse []]
  | .getQueuedtransfersResp transfers => [getQueuedtransfersElement transfers]
  | .scheduleInformResp => [node .scheduleInformResponse []]
  | .factoryResetResp => [node .factoryResetResponse []]
  | .uploadResp upload => [transferResponseElement .uploadResponse upload]
  | .requestDownload request => [requestDownloadElement request]
  | .fault faultCode setparameterfault =>
    [faultElement "Client" "CWMP fault" [detailElement faultCode setparameterfault]]

/-- The attributes of the envelope: the namespaces, each once. -/
def envelopeAttributes : List (Text × Text) :=
  localNamespaces.map (fun ns => ("xmlns:".toList ++ ns.nsname, ns.nsvalue)) ++
    [("SOAP-ENV:encodingStyle".toList, soapEnc1)]

/-- An envelope with the ID of the packet and what stands in the body. -/
def envelope (id : Text) (body : List Element) : Element :=
  .node Tag.envelope.word envelopeAttributes
    [node .header [.leaf Tag.id.word [("SOAP-ENV:mustUnderstand".toList, ['1'])] id], node .body body]

/-- The ID and the body of the packet of a call. -/
def Call.envelope (env : Surroundings) : Call → Element
  | .generate (.transferComplete transfers) =>
    Soap.envelope (decimal (env.rand 1)) (transfers.map transferCompleteElement)
  | .generate p => Soap.envelope (idOf env p) p.body
  | .mustUnderstand =>
    Soap.envelope env.gId [faultElement "SOAP-ENV:MustUnderstand" "SOAP Must Understand Error" []]
  | .versionMismatch =>
    Soap.envelope env.gId [faultElement "SOAP-ENV:VersionMismatch" "SOAP Version Mismatch Error" []]

/-- The text of the declaration a packet begins with. -/
def xmlDeclaration : Text := "xml version=\"1.0\" encoding=\"UTF-8\" ".toList

/-- The packet is well-formed XML, and says what it is to say. -/
def Says (env : Surroundings) (call : Call) (packet : Text) : Prop := IsDocument xmlDeclaration (call.envelope env) packet

instance (env : Surroundings) (call : Call) (packet : Text) : Decidable (Says env call packet) :=
  inferInstanceAs (Decidable (IsDocument _ _ _))

/-! ## No attribute is there twice -/

theorem distinctAll_map {α : Type} {xs : List α} {f : α → Element} (h : ∀ x, (f x).distinct = true) :
    Element.distinctAll (xs.map f) = true := by
  induction xs with
  | nil => rfl
  | cons x xs ih => rw [List.map_cons, Element.distinctAll, h x, ih, Bool.and_self]

theorem distinct_leaf (t : Tag) (text : Text) : (leaf t text).distinct = true := rfl

theorem distinct_node {t : Tag} {es : List Element} (h : Element.distinctAll es = true) : (node t es).distinct = true := by
  rw [node, Element.distinct, h]
  rfl

theorem distinct_array {t : Tag} {type : String} {es : List Element} (h : Element.distinctAll es = true) :
    (array t type es).distinct = true := by
  rw [array, Element.distinct, h]
  rfl

theorem distinctAll_cons {e : Element} {es : List Element} (he : e.distinct = true) (hes : Element.distinctAll es = true) :
    Element.distinctAll (e :: es) = true := by
  rw [Element.distinctAll, he, hes, Bool.and_self]

theorem distinct_parameterElement (p : ParameterValueStruct) : (parameterElement p).distinct = true := by
  refine distinct_node (distinctAll_cons rfl (distinctAll_cons ?_ rfl))
  cases p with
  | mk name value type =>
    match type with
    | none => rfl
    | some type => cases type <;> rfl

theorem distinct_attributeElement (p : ParameterAttributeStruct) : (attributeElement p).distinct = true :=
  distinct_node (distinctAll_cons rfl (distinctAll_cons rfl
    (distinctAll_cons (distinct_array (distinctAll_map (distinct_leaf .string))) rfl)))

theorem distinct_body (p : Parameter) : Element.distinctAll p.body = true := by
  cases p with
  | sendInform inform =>
    refine distinctAll_cons (distinct_node (distinctAll_cons rfl (distinctAll_cons (distinct_array (distinctAll_map fun e => rfl)) ?_)))
      rfl
    exact distinctAll_cons rfl (distinctAll_cons rfl (distinctAll_cons rfl
      (distinctAll_cons (distinct_array (distinctAll_map distinct_parameterElement)) rfl)))
  | transferComplete transfers => exact distinctAll_map fun t => rfl
  | getParameterValuesResp values =>
    exact distinctAll_cons (distinct_node (distinctAll_cons (distinct_array (distinctAll_map distinct_parameterElement)) rfl)) rfl
  | getParameterNamesResp names =>
    exact distinctAll_cons (distinct_node (distinctAll_cons (distinct_array (distinctAll_map fun p => rfl)) rfl)) rfl
  | getParameterAttributesResp attributes =>
    exact distinctAll_cons (distinct_node (distinctAll_cons (distinct_array (distinctAll_map distinct_attributeElement)) rfl)) rfl
  | getQueuedtransfersResp transfers =>
    exact distinctAll_cons (distinct_node (distinctAll_cons (distinct_array (distinctAll_map fun t => rfl)) rfl)) rfl
  | requestDownload request =>
    exact distinctAll_cons (distinct_node (distinctAll_cons rfl (distinctAll_cons (distinct_array (distinctAll_map fun a => rfl)) rfl)))
      rfl
  | fault faultCode faults =>
    refine distinctAll_cons (distinct_node (distinctAll_cons rfl (distinctAll_cons rfl (distinctAll_cons ?_ rfl)))) rfl
    exact distinct_node (distinctAll_cons (distinct_node (distinctAll_cons rfl (distinctAll_cons rfl
      (distinctAll_map fun f => rfl)))) rfl)
  | setParameterValuesResp status => rfl
  | setParameterAttributesResp => rfl
  | addObjectResp object => rfl
  | deleteObjectResp status => rfl
  | getRpcmethodsResp => rfl
  | downloadResp download => rfl
  | rebootResp => rfl
  | scheduleInformResp => rfl
  | factoryResetResp => rfl
  | uploadResp upload => rfl

theorem distinct_envelope (id : Text) {es : List Element} (h : Element.distinctAll es = true) :
    (envelope id es).distinct = true := by
  have hattrs : (envelopeAttributes.map Prod.fst).Nodup := by decide
  rw [envelope, Element.distinct, decide_eq_true hattrs, Bool.true_and]
  exact distinctAll_cons rfl (distinctAll_cons (distinct_node h) rfl)

/-! ## The data that the packets can say -/

/-- A number that an `int` can hold. -/
def Small (n : UInt32) : Prop := n.toNat < 2147483648

/-- What an Inform is built from can be said. A parameter of it needs a name, as its element is left out otherwise. -/
def InformInfoStruct.Sayable (inform : InformInfoStruct) : Prop :=
  (Plain (inform.deviceId.manufacturer.getD []) ∧ Plain (inform.deviceId.oui.getD []) ∧
    Plain (inform.deviceId.productClass.getD []) ∧ Plain (inform.deviceId.serialNumber.getD [])) ∧
  (∀ e ∈ events inform.eventStruct, Plain e.eventCode ∧ Plain e.commandKey) ∧
  Small inform.maxEnvelopes ∧ Plain inform.currentTime ∧ Small inform.retryCount ∧
  (∀ p ∈ inform.parameterList, p.name ≠ [] ∧ Plain p.name ∧ Plain (p.value.getD []))

/-- The attributes of a parameter can be said. -/
def ParameterAttributeStruct.Sayable (p : ParameterAttributeStruct) : Prop :=
  Plain p.name ∧ Small p.notification ∧ ∀ a ∈ p.accessList.takeWhile (· ≠ []), Plain a

/-- A transfer that is complete can be said. -/
def TransferCompleteStruct.Sayable (t : TransferCompleteStruct) : Prop :=
  Plain t.commandKey ∧ (Small t.faultcode ∧ Plain t.faultString) ∧ Plain t.startTime ∧ Plain t.completeTime

/-- A parameter that could not be set can be said. -/
def SetParameterFaultStruct.Sayable (f : SetParameterFaultStruct) : Prop :=
  Plain f.parameterName ∧ Small f.faultCode ∧ Plain f.faultString

/-- The names and the values, and the numbers that are sent, are such that the packet can say them. -/
def Parameter.Sayable : Parameter → Prop
  | .sendInform inform => inform.Sayable
  | .transferComplete transfers => ∃ t, transfers = [t] ∧ t.Sayable
  | .getParameterValuesResp values => ∀ p ∈ values, Plain p.name ∧ Plain (p.value.getD [])
  | .getParameterNamesResp names => ∀ p ∈ names, Plain p.name
  | .getParameterAttributesResp attributes => ∀ p ∈ attributes, p.Sayable
  | .addObjectResp object => Small object.instanceID
  | .downloadResp r | .uploadResp r => Plain r.startTime ∧ Plain r.completeTime
  | .getQueuedtransfersResp transfers => ∀ t ∈ queued transfers, Plain t.commandKey
  | .requestDownload _ => False
  | .fault faultCode setparameterfault => faultCode ≠ 0 ∧ ∀ f ∈ setparameterfault, f.Sayable
  | .setParameterValuesResp _ | .setParameterAttributesResp | .deleteObjectResp _ | .getRpcmethodsResp | .rebootResp
  | .scheduleInformResp | .factoryResetResp => True

/-- The ID that the packet carries can be said. -/
def IdSayable (env : Surroundings) : Call → Prop
  | .generate (.sendInform _) | .generate (.transferComplete _) | .generate (.requestDownload _) => True
  | _ => Plain env.gId

/-- The call finds what it needs: no namespaces from before and the memory for its own, and an empty buffer. A TransferComplete
empties the buffer by itself. -/
def Ready (env : Surroundings) (gLocalNSptr : List NameSpace) : Call → Prop
  | .generate (.transferComplete _) => initLocalNamespace env gLocalNSptr = localNamespaces
  | _ => env.soapSize = 0 ∧ initLocalNamespace env gLocalNSptr = localNamespaces

/-- What the call is given can be said. -/
def Call.Sayable : Call → Prop
  | .generate p => p.Sayable
  | .mustUnderstand | .versionMismatch => True

end CodeFactory.Soap
