import CodeFactory.Soap.ParameterList

/-!
# Building SOAP packets

`generate_soap_packet` of `soap_build.c` with the methods of `soap_client.c`, and the two builders of SOAP faults. A text is a row
of octets. What the builders write goes into a buffer of zeros, behind the first `*soapSize` of them, and writing behind the end
of it is undefined. The list of namespaces is a global, which each call is given and leaves.
-/

namespace CodeFactory.Soap

open Tr69 (Text decimal)

def bufferSize : Nat := 400000

/-! ## What the packets are built from -/

/-- `sprintf` with `%d` of a `PAL_INT32_T`. -/
def printed (n : Int32) : Text := decimal n.toInt

/-- `sprintf` with `%d` of a `PAL_UINT32_T`, which takes it for an `int`. -/
def printedUnsigned (n : UInt32) : Text := decimal n.toBitVec.toInt

/-- `DeviceIdStruct`; what is null is not there. -/
structure DeviceIdStruct where
  manufacturer : Option Text
  oui : Option Text
  productClass : Option Text
  serialNumber : Option Text

structure EventCodeStruct where
  eventCode : Text
  commandKey : Text

structure InformInfoStruct where
  deviceId : DeviceIdStruct
  eventStruct : List EventCodeStruct
  currentTime : Text
  maxEnvelopes : UInt32
  retryCount : UInt32
  parameterList : List ParameterValueStruct

structure ParameterInfoStruct where
  name : Text
  writable : Int32

/-- `ParameterAttributeStruct`, with the `ACCESS_NUM` entries of its list. -/
structure ParameterAttributeStruct where
  name : Text
  notification : UInt32
  accessList : List Text

structure AddObjectResponseStruct where
  instanceID : UInt32
  status : Int32

/-- `DownloadResponseStruct` and `UploadResponseStruct`. -/
structure TransferResponseStruct where
  status : Int32
  startTime : Text
  completeTime : Text

/-- `TransferCompleteStruct`, with the fields of its `FaultStruct`. -/
structure TransferCompleteStruct where
  commandKey : Text
  faultcode : UInt32
  faultString : Text
  startTime : Text
  completeTime : Text

structure TransferStruct where
  commandKey : Text
  state : Int32

structure FileArgStruct where
  name : Text
  value : Text

/-- `RequestDownloadStruct`, with the `DOWNLOAD_STRUCT_NUM` entries of its list. -/
structure RequestDownloadStruct where
  fileType : Text
  arglist : List FileArgStruct

structure SetParameterFaultStruct where
  parameterName : Text
  faultCode : UInt32
  faultString : Text

/-- `PacketType`, each with what `generate_soap_packet` is given for it. -/
inductive Parameter where
  | sendInform (inform : InformInfoStruct)
  | transferComplete (transfers : List TransferCompleteStruct)
  | setParameterValuesResp (status : Int32)
  | getParameterValuesResp (values : List ParameterValueStruct)
  | getParameterNamesResp (names : List ParameterInfoStruct)
  | setParameterAttributesResp
  | getParameterAttributesResp (attributes : List ParameterAttributeStruct)
  | addObjectResp (object : AddObjectResponseStruct)
  | deleteObjectResp (status : Int32)
  | getRpcmethodsResp
  | downloadResp (download : TransferResponseStruct)
  | rebootResp
  | getQueuedtransfersResp (transfers : List TransferStruct)
  | scheduleInformResp
  | factoryResetResp
  | uploadResp (upload : TransferResponseStruct)
  | requestDownload (request : RequestDownloadStruct)
  | fault (faultCode : Int32) (setparameterfault : List SetParameterFaultStruct)

/-! ## Sending -/

/-- The elements of the packets. -/
inductive Tag where
  | eventStruct | eventCode | commandKey | value | parameterValueStruct | name | manufacturer | inform | deviceId
  | oui | productClass | serialNumber | event | maxEnvelopes | currentTime | retryCount | parameterList
  | getParameterValuesResponse | parameterInfoStruct | writable | getParameterNamesResponse
  | parameterAttributeStruct | notification | string | accessList | getParameterAttributesResponse | status
  | addObjectResponse | instanceNumber | getRPCMethodsResponse | methodList | startTime | completeTime
  | queuedTransferStruct | state | getQueuedTransfersResponse | transferList | argStruct | requestDownLoad
  | fileType | fileTypeArg | setParameterValuesFault | parameterName | faultCode | faultString | detail | cwmpFault
  | soapFault | faultcode | faultstring | header | id | body | envelope | transferComplete | faultStruct
  | setParameterValuesResponse | setParameterAttributesResponse | deleteObjectResponse | downloadResponse
  | rebootResponse | scheduleInformResponse | factoryResetResponse | uploadResponse
  deriving DecidableEq

/-- The name of an element. -/
def Tag.word (t : Tag) : Text :=
  (match t with
    | .eventStruct => "EventStruct"
    | .eventCode => "EventCode"
    | .commandKey => "CommandKey"
    | .value => "Value"
    | .parameterValueStruct => "ParameterValueStruct"
    | .name => "Name"
    | .manufacturer => "Manufacturer"
    | .inform => "cwmp:Inform"
    | .deviceId => "DeviceId"
    | .oui => "OUI"
    | .productClass => "ProductClass"
    | .serialNumber => "SerialNumber"
    | .event => "Event"
    | .maxEnvelopes => "MaxEnvelopes"
    | .currentTime => "CurrentTime"
    | .retryCount => "RetryCount"
    | .parameterList => "ParameterList"
    | .getParameterValuesResponse => "cwmp:GetParameterValuesResponse"
    | .parameterInfoStruct => "ParameterInfoStruct"
    | .writable => "Writable"
    | .getParameterNamesResponse => "cwmp:GetParameterNamesResponse"
    | .parameterAttributeStruct => "ParameterAttributeStruct"
    | .notification => "Notification"
    | .string => "string"
    | .accessList => "AccessList"
    | .getParameterAttributesResponse => "cwmp:GetParameterAttributesResponse"
    | .status => "Status"
    | .addObjectResponse => "cwmp:AddObjectResponse"
    | .instanceNumber => "InstanceNumber"
    | .getRPCMethodsResponse => "cwmp:GetRPCMethodsResponse"
    | .methodList => "cwmp:MethodList"
    | .startTime => "StartTime"
    | .completeTime => "CompleteTime"
    | .queuedTransferStruct => "QueuedTransferStruct"
    | .state => "State"
    | .getQueuedTransfersResponse => "cwmp:GetQueuedTransfersResponse"
    | .transferList => "cwmp:TransferList"
    | .argStruct => "ArgStruct"
    | .requestDownLoad => "cwmp:RequestDownLoad"
    | .fileType => "FileType"
    | .fileTypeArg => "cwmp:FileTypeArg"
    | .setParameterValuesFault => "SetParameterValuesFault"
    | .parameterName => "ParameterName"
    | .faultCode => "FaultCode"
    | .faultString => "FaultString"
    | .detail => "detail"
    | .cwmpFault => "cwmp:Fault"
    | .soapFault => "SOAP-ENV:Fault"
    | .faultcode => "faultcode"
    | .faultstring => "faultstring"
    | .header => "SOAP-ENV:Header"
    | .id => "cwmp:ID"
    | .body => "SOAP-ENV:Body"
    | .envelope => "SOAP-ENV:Envelope"
    | .transferComplete => "cwmp:TransferComplete"
    | .faultStruct => "FaultStruct"
    | .setParameterValuesResponse => "cwmp:SetParameterValuesResponse"
    | .setParameterAttributesResponse => "cwmp:SetParameterAttributesResponse"
    | .deleteObjectResponse => "cwmp:DeleteObjectResponse"
    | .downloadResponse => "cwmp:DownloadResponse"
    | .rebootResponse => "cwmp:RebootResponse"
    | .scheduleInformResponse => "cwmp:ScheduleInformResponse"
    | .factoryResetResponse => "cwmp:FactoryResetResponse"
    | .uploadResponse => "cwmp:UploadResponse").toList

/-- `soap_send_raw` of a tag without attributes. -/
def tag (t : Tag) : Text := '<' :: (t.word ++ ['>'])

/-- `soap_send_raw` of an end tag, with what stands behind the name. -/
def endTag (t : Tag) (pad : Text := []) : Text := '<' :: '/' :: (t.word ++ (pad ++ ['>']))

/-- Three calls of `soap_send_raw`: a tag, a text and the end tag. -/
def sendText (t : Tag) (text : Text) : Text := tag t ++ (text ++ endTag t)

/-- `soap_add_attribute`; nothing where the value is null. -/
def soapAddAttribute (attrname : String) (attrvalue : Option Text) : Text :=
  match attrvalue with
  | some value => ' ' :: (attrname.toList ++ '=' :: Char.ofNat 34 :: (value ++ [Char.ofNat 34]))
  | none => []

/-- The tag of a list: its name and what stands behind it, and the type and the number of what is in the list. -/
def sendArray (t : Tag) (pad : Text) (type : String) (count : Nat) : Text :=
  '<' :: (t.word ++ (pad ++ (soapAddAttribute "xsi:type" (some "SOAP-ENC:Array".toList) ++
    (soapAddAttribute "SOAP-ENC:arrayType" (some (type.toList ++ '[' :: (decimal count ++ [']']))) ++ ['>']))))

/-- What a method has sent when it returns, and whether it gives `SUCCESS_OK`. -/
structure Sent where
  text : Text
  ok : Bool

/-! ## The methods -/

/-- A part of the device id: nothing is sent, and the method gives up, where it is empty. -/
def sendDeviceId (t : Tag) (part : Option Text) (sofar : Text) (go : Text → Outcome Sent) : Outcome Sent :=
  (follow part).bind fun text => if text = [] then .done ⟨sofar, false⟩ else go (sofar ++ sendText t text)

/-- The `EVENT_CODE_NUM` events at most, up to the first without a code. -/
def events (eventStruct : List EventCodeStruct) : List EventCodeStruct := (eventStruct.take 16).takeWhile fun e => e.eventCode ≠ []

/-- An event of an Inform. -/
def sendEvent (e : EventCodeStruct) : Text :=
  tag .eventStruct ++ (sendText .eventCode e.eventCode ++ (sendText .commandKey e.commandKey ++ endTag .eventStruct))

def getType : Option ValueType → Option Text
  | some .xsdString => some "xsd:string".toList
  | some .xsdUint => some "xsd:unsignedInt".toList
  | some .xsdInt => some "xsd:int".toList
  | some .xsdBool => some "xsd:boolean".toList
  | none => none

/-- The value of a parameter, with its type. -/
def sendValue (type : Option ValueType) (value : Text) : Text :=
  '<' :: (Tag.value.word ++ (soapAddAttribute "xsi:type" (getType type) ++ '>' :: (value ++ endTag .value)))

/-- A parameter of an Inform: an empty name is left out, and so is the text of a value that is null. -/
def sendInformParameter (p : ParameterValueStruct) : Text :=
  tag .parameterValueStruct ++
    ((if p.name ≠ [] then sendText .name p.name else []) ++ (sendValue p.type (p.value.getD []) ++ endTag .parameterValueStruct))

def addInformMethod (inform : InformInfoStruct) : Outcome Sent :=
  sendDeviceId .manufacturer inform.deviceId.manufacturer (tag .inform ++ tag .deviceId) fun sofar =>
  sendDeviceId .oui inform.deviceId.oui sofar fun sofar =>
  sendDeviceId .productClass inform.deviceId.productClass sofar fun sofar =>
  sendDeviceId .serialNumber inform.deviceId.serialNumber sofar fun sofar =>
  .done ⟨sofar ++ (endTag .deviceId ++
    (sendArray .event [] "cwmp:EventStruct" (events inform.eventStruct).length ++
    ((events inform.eventStruct).flatMap sendEvent ++ (endTag .event ++
    (sendText .maxEnvelopes (printedUnsigned inform.maxEnvelopes) ++
    (sendText .currentTime inform.currentTime ++
    (sendText .retryCount (printedUnsigned inform.retryCount) ++
    (sendArray .parameterList [' '] "cwmp:ParameterValueStruct" inform.parameterList.length ++
    (inform.parameterList.flatMap sendInformParameter ++ (endTag .parameterList ++ endTag .inform)))))))))), true⟩

/-- A parameter of a GetParameterValuesResponse. -/
def sendParameterValue (p : ParameterValueStruct) (value : Text) : Text :=
  tag .parameterValueStruct ++ (sendText .name p.name ++ (sendValue p.type value ++ endTag .parameterValueStruct))

/-- The loop of `add_getparametervalues_res_method`, in which no value may be null. -/
def sendParameterValues : List ParameterValueStruct → Outcome Text
  | [] => .done []
  | p :: values =>
    (follow p.value).bind fun value => (sendParameterValues values).map fun text => sendParameterValue p value ++ text

def addGetparametervaluesResMethod (values : List ParameterValueStruct) : Outcome Sent :=
  (sendParameterValues values).map fun text =>
    ⟨tag .getParameterValuesResponse ++ (sendArray .parameterList [] "cwmp:ParameterValueStruct" values.length ++
      (text ++ (endTag .parameterList ++ endTag .getParameterValuesResponse))), true⟩

/-- A parameter of a GetParameterNamesResponse. -/
def sendParameterInfo (p : ParameterInfoStruct) : Text :=
  tag .parameterInfoStruct ++
    (sendText .name p.name ++ (sendText .writable (printed p.writable) ++ endTag .parameterInfoStruct))

def addGetparameternamesResMethod (names : List ParameterInfoStruct) : Text :=
  tag .getParameterNamesResponse ++ (sendArray .parameterList [] "cwmp:ParameterInfoStruct" names.length ++
    (names.flatMap sendParameterInfo ++ (endTag .parameterList ++ endTag .getParameterNamesResponse)))

/-- The entries of an access list up to the first empty one; behind an array without one it is not known what is read. -/
def accesses (accessList : List Text) : Outcome (List Text) :=
  if accessList.contains [] then .done (accessList.takeWhile (· ≠ [])) else .undefined

/-- A parameter of a GetParameterAttributesResponse. -/
def sendParameterAttribute (p : ParameterAttributeStruct) (accessList : List Text) : Text :=
  tag .parameterAttributeStruct ++ (sendText .name p.name ++ (sendText .notification (printedUnsigned p.notification) ++
    (sendArray .accessList [] "xsd:string" accessList.length ++ (accessList.flatMap (sendText .string) ++
    (endTag .accessList ++ endTag .parameterAttributeStruct)))))

/-- The loop of `add_getparameterattributes_res_method`. -/
def sendParameterAttributes : List ParameterAttributeStruct → Outcome Text
  | [] => .done []
  | p :: attributes =>
    (accesses p.accessList).bind fun accessList =>
      (sendParameterAttributes attributes).map fun text => sendParameterAttribute p accessList ++ text

def addGetparameterattributesResMethod (attributes : List ParameterAttributeStruct) : Outcome Sent :=
  (sendParameterAttributes attributes).map fun text =>
    ⟨tag .getParameterAttributesResponse ++
      (sendArray .parameterList [] "cwmp:ParameterAttributeStruct" attributes.length ++
      (text ++ (endTag .parameterList ++ endTag .getParameterAttributesResponse))), true⟩

/-- The methods that send a status: `add_setparametervalues_res_method` and `add_deleteobject_res_method`. -/
def sendStatus (method : Tag) (status : Int32) : Text := tag method ++ (sendText .status (printed status) ++ endTag method)

/-- The methods that send nothing: `add_setparameterattributes_res_method`, `add_reboot_res_method`,
`add_scheduleinform_res_method` and `add_factoryreset_res_method`. -/
def sendEmpty (method : Tag) : Text := tag method ++ endTag method

def addAddobjectResMethod (object : AddObjectResponseStruct) : Text :=
  tag .addObjectResponse ++ (sendText .instanceNumber (printedUnsigned object.instanceID) ++
    (sendText .status (printed object.status) ++ endTag .addObjectResponse))

def gRPCMethodList : List String :=
  ["Inform", "TransferComplete", "AddObject", "DeleteObject", "GetRPCMethods", "SetParameterValues", "GetParameterValues",
    "GetParameterNames", "SetParameterAttributes", "GetParameterAttributes", "Download", "Upload", "GetQueuedTransfer", "Reboot",
    "FactoryReset", "ScheduleInform"]

def addGetrpcmethodsResMethod : Text :=
  tag .getRPCMethodsResponse ++ (sendArray .methodList [] "xsd:string" 16 ++
    (gRPCMethodList.flatMap (fun method => sendText .string method.toList) ++
    (endTag .methodList ++ endTag .getRPCMethodsResponse)))

/-- `add_download_res_method` and `add_upload_res_method`. -/
def sendTransferResponse (method : Tag) (r : TransferResponseStruct) : Text :=
  tag method ++ (sendText .status (printed r.status) ++ (sendText .startTime r.startTime ++
    (sendText .completeTime r.completeTime ++ endTag method)))

/-- The `TRANSFER_STRUCT_NUM` transfers at most, up to the first without a key. -/
def queued (transfers : List TransferStruct) : List TransferStruct := (transfers.take 16).takeWhile fun t => t.commandKey ≠ []

/-- A transfer of a GetQueuedTransfersResponse. -/
def sendTransfer (t : TransferStruct) : Text :=
  tag .queuedTransferStruct ++
    (sendText .commandKey t.commandKey ++ (sendText .state (printed t.state) ++ endTag .queuedTransferStruct))

def addGetqueuedtransfersResMethod (transfers : List TransferStruct) : Text :=
  tag .getQueuedTransfersResponse ++ (sendArray .transferList [] "cwmp:QueuedTransfe" (queued transfers).length ++
    ((queued transfers).flatMap sendTransfer ++ (endTag .transferList [' '] ++ endTag .getQueuedTransfersResponse)))

/-- The arguments of a RequestDownload, up to the first without a name. -/
def arguments (arglist : List FileArgStruct) : List FileArgStruct := (arglist.take 16).takeWhile fun a => a.name ≠ []

/-- An argument of a RequestDownload. -/
def sendArg (a : FileArgStruct) : Text :=
  tag .argStruct ++ (sendText .name a.name ++ (sendText .value a.value ++ endTag .argStruct))

/-- `add_requestdownload_method`. `ArgCount` is 1 at first, so that the entry behind the last with a name is sent, too. -/
def addRequestdownloadMethod (request : RequestDownloadStruct) : Outcome Sent :=
  let count := (arguments request.arglist).length + 1
  if count ≤ request.arglist.length then
    .done ⟨tag .requestDownLoad ++ (sendText .fileType request.fileType ++
      (sendArray .fileTypeArg [' '] "cwmp:Arg" count ++
      ((request.arglist.take count).flatMap sendArg ++ (endTag .fileTypeArg ++ endTag .requestDownLoad)))), true⟩
  else .undefined

def getFaultString (faultcode : Int) : Text :=
  (match faultcode with
    | 9000 => "Method Not Supported"
    | 9001 => "Request Denied"
    | 9002 => "Internal Error"
    | 9003 => "Invalid Arguments"
    | 9004 => "Resource Exceed"
    | 9005 => "Invalid Parametername"
    | 9006 => "Invalid Paramtertype"
    | 9007 => "Invalid Parametervalue"
    | 9008 => "Parameter Readonly"
    | 9009 => "Notification Request Rejected"
    | 9010 => "Download Failure"
    | 9011 => "Upload Failure"
    | 9012 => "File Transfer Authority Failure"
    | 9013 => "NoT Support Protocol Transfer"
    | 0 => "OK"
    | _ => "Internal Error").toList

/-- A number printed into the eight octets of `tmp`. -/
def printedShort (text : Text) : Outcome Text := if text.length < 8 then .done text else .undefined

/-- The loop over the parameters that could not be set. -/
def sendParameterFaults : List SetParameterFaultStruct → Outcome Text
  | [] => .done []
  | f :: faults =>
    (printedShort (printedUnsigned f.faultCode)).bind fun code => (sendParameterFaults faults).map fun text =>
      tag .setParameterValuesFault ++ (sendText .parameterName f.parameterName ++ (sendText .faultCode code ++
        (sendText .faultString f.faultString ++ endTag .setParameterValuesFault))) ++ text

/-- The `detail` of a fault: `build_fault_struct`, and `envelope_fault` as far as the detail goes. -/
def sendDetail (faultCode : Int32) (setparameterfault : List SetParameterFaultStruct) : Outcome Text :=
  (if faultCode = 0 then .done [] else (printedShort (printed faultCode)).map (sendText .faultCode)).bind fun code =>
    (sendParameterFaults setparameterfault).map fun text =>
      tag .detail ++ (tag .cwmpFault ++ (code ++ (sendText .faultString (getFaultString faultCode.toInt) ++
        (text ++ (endTag .cwmpFault ++ endTag .detail)))))

/-- `envelope_fault`, given the detail that it sends. -/
def envelopeFault (faultCode faultString : String) (detail : Text) : Text :=
  tag .soapFault ++ (sendText .faultcode faultCode.toList ++ (sendText .faultstring faultString.toList ++
    (detail ++ endTag .soapFault)))

/-! ## The envelope -/

/-- What a call finds: whether its allocations succeed, in their order, what `rand` gives, the `ID` of the last request and
`*soapSize`. -/
structure Surroundings where
  malloc : Nat → Bool
  rand : Nat → Nat
  gId : Text
  soapSize : Nat

/-- `soap_enc1`, which is the style of the encoding, too. -/
def soapEnc1 : Text := "http://schemas.xmlsoap.org/soap/encoding/".toList

def soapXsi2 : Text := "http://www.w3.org/2001/XMLSchema-instance".toList

def soapXsd : Text := "http://www.w3.org/2001/XMLSchema".toList

/-- The namespaces of `init_local_namespace`. -/
def localNamespaces : List NameSpace :=
  [⟨"SOAP-ENV".toList, soapEnv1⟩, ⟨"SOAP-ENC".toList, soapEnc1⟩, ⟨"xsi".toList, soapXsi2⟩, ⟨"xsd".toList, soapXsd⟩,
    ⟨"cwmp".toList, soapCwmp⟩]

/-- `init_local_namespace`: the five are added to those that are there, as far as memory can be had. -/
def initLocalNamespace (env : Surroundings) (gLocalNSptr : List NameSpace) : List NameSpace :=
  gLocalNSptr ++ ((localNamespaces.zipIdx 1).filter fun ns => env.malloc ns.2).map Prod.fst

/-- `put_loacal_namespace`. -/
def putLocalNamespace (gLocalNSptr : List NameSpace) : Text :=
  gLocalNSptr.flatMap fun ns =>
    " xmlns:".toList ++ (ns.nsname ++ '=' :: Char.ofNat 34 :: (ns.nsvalue ++ [Char.ofNat 34]))

def xmlHead : Text := "<?xml version=\"1.0\" encoding=\"UTF-8\" ?>".toList

def envelopeTag (gLocalNSptr : List NameSpace) : Text :=
  '<' :: (Tag.envelope.word ++
    (putLocalNamespace gLocalNSptr ++ (soapAddAttribute "SOAP-ENV:encodingStyle" (some soapEnc1) ++ ['>'])))

def addEnvelopeStart (gLocalNSptr : List NameSpace) : Text := xmlHead ++ envelopeTag gLocalNSptr

def idTag : Text := '<' :: (Tag.id.word ++ (soapAddAttribute "SOAP-ENV:mustUnderstand" (some ['1']) ++ ['>']))

/-- `add_header_start`, up to the text of the ID. -/
def addHeaderStart : Text := tag .header ++ idTag

/-- The header, and the start of the body. -/
def addHeader (id : Text) : Text :=
  addHeaderStart ++ (id ++ (endTag .id ++ (endTag .header ++ tag .body)))

/-- `add_body_end` and `add_envelope_end`. -/
def addEnvelopeEnd : Text := endTag .body ++ endTag .envelope

/-- One round of `add_transfercomplete_method`, with the ID that it makes. -/
def sendTransferComplete (gLocalNSptr : List NameSpace) (id : Text) (t : TransferCompleteStruct) : Text :=
  addEnvelopeStart gLocalNSptr ++ (addHeader id ++
    (tag .transferComplete ++ (sendText .commandKey t.commandKey ++
    (tag .faultStruct ++ (sendText .faultCode (printedUnsigned t.faultcode) ++ (sendText .faultString t.faultString ++
    (endTag .faultStruct ++ (sendText .startTime t.startTime ++ (sendText .completeTime t.completeTime ++
    (endTag .transferComplete ++ addEnvelopeEnd))))))))))

/-- `add_transfercomplete_method`: it sets `*soapSize` to 0 and writes an envelope for each transfer, the first of them over the
one that has been begun. -/
def addTransfercompleteMethod (env : Surroundings) (gLocalNSptr : List NameSpace) (transfers : List TransferCompleteStruct) : Text :=
  (transfers.zipIdx 1).flatMap fun t => sendTransferComplete gLocalNSptr (decimal (env.rand t.2)) t.1

/-- `add_RPC_palload`, but for a fault and for TransferComplete. -/
def addRPCPalload : Parameter → Outcome Sent
  | .sendInform inform => addInformMethod inform
  | .setParameterValuesResp status => .done ⟨sendStatus .setParameterValuesResponse status, true⟩
  | .getParameterValuesResp values => addGetparametervaluesResMethod values
  | .getParameterNamesResp names => .done ⟨addGetparameternamesResMethod names, true⟩
  | .setParameterAttributesResp => .done ⟨sendEmpty .setParameterAttributesResponse, true⟩
  | .getParameterAttributesResp attributes => addGetparameterattributesResMethod attributes
  | .addObjectResp object => .done ⟨addAddobjectResMethod object, true⟩
  | .deleteObjectResp status => .done ⟨sendStatus .deleteObjectResponse status, true⟩
  | .getRpcmethodsResp => .done ⟨addGetrpcmethodsResMethod, true⟩
  | .downloadResp download => .done ⟨sendTransferResponse .downloadResponse download, true⟩
  | .rebootResp => .done ⟨sendEmpty .rebootResponse, true⟩
  | .getQueuedtransfersResp transfers => .done ⟨addGetqueuedtransfersResMethod transfers, true⟩
  | .scheduleInformResp => .done ⟨sendEmpty .scheduleInformResponse, true⟩
  | .factoryResetResp => .done ⟨sendEmpty .factoryResetResponse, true⟩
  | .uploadResp upload => .done ⟨sendTransferResponse .uploadResponse upload, true⟩
  | .requestDownload request => addRequestdownloadMethod request
  | .transferComplete _ | .fault _ _ => .done ⟨[], false⟩

/-! ## The packets -/

/-- What a builder gives: a packet, or one of its errors. -/
inductive Built where
  | packet (text : Text)
  | parameterError
  | mallocFailure

/-- Go on, if what has been written fits the buffer. -/
def within {α : Type} (text : Text) (x : Outcome α) : Outcome α := if text.length ≤ bufferSize then x else .undefined

/-- The zero behind the packet, for which there must be room, and the packet. -/
def finish (text : Text) (gLocalNSptr : List NameSpace) : Outcome (Built × List NameSpace) :=
  if text.length < bufferSize then .done (.packet text, gLocalNSptr) else .undefined

/-- The ID of a packet: a random number for a request, for a response the ID that is answered. -/
def idOf (env : Surroundings) : Parameter → Text
  | .sendInform _ | .transferComplete _ | .requestDownload _ => decimal (env.rand 0)
  | _ => env.gId

/-- `generate_soap_packet` behind `add_body_start`. -/
def generateBody (env : Surroundings) (gLocalNSptr : List NameSpace) (head : Text) :
    Parameter → Outcome (Built × List NameSpace)
  | .fault faultCode setparameterfault =>
    if env.malloc 6 && env.malloc 7 && env.malloc 8 then
      (sendDetail faultCode setparameterfault).bind fun detail =>
        finish (head ++ (envelopeFault "Client" "CWMP fault" detail ++ addEnvelopeEnd)) []
    else .done (.mallocFailure, gLocalNSptr)
  | .transferComplete transfers => finish (addTransfercompleteMethod env gLocalNSptr transfers) []
  | p =>
    (addRPCPalload p).bind fun sent => within (head ++ sent.text) <|
      if sent.ok then finish (head ++ (sent.text ++ addEnvelopeEnd)) [] else .done (.parameterError, gLocalNSptr)

/-- What has been written when the header is begun. An ID of no octets is an error of `soap_add_ID`. -/
def withHeader (env : Surroundings) (id : Text) (gLocalNSptr : List NameSpace)
    (go : List NameSpace → Text → Outcome (Built × List NameSpace)) : Outcome (Built × List NameSpace) :=
  if env.malloc 0 then
    let gLocalNSptr := initLocalNamespace env gLocalNSptr
    let head := List.replicate env.soapSize '\x00' ++ addEnvelopeStart gLocalNSptr
    if id = [] then within (head ++ addHeaderStart) (.done (.parameterError, gLocalNSptr))
    else within (head ++ addHeader id) (go gLocalNSptr (head ++ addHeader id))
  else .done (.mallocFailure, gLocalNSptr)

def generateSoapPacket (env : Surroundings) (p : Parameter) (gLocalNSptr : List NameSpace) : Outcome (Built × List NameSpace) :=
  withHeader env (idOf env p) gLocalNSptr fun gLocalNSptr head => generateBody env gLocalNSptr head p

/-- `build_mustunderstand_fault` and `build_versionmismatch_fault`, which leave the list of namespaces as it is. -/
def buildSoapFault (faultCode faultString : String) (env : Surroundings) (gLocalNSptr : List NameSpace) :
    Outcome (Built × List NameSpace) :=
  withHeader env env.gId gLocalNSptr fun gLocalNSptr head =>
    if env.malloc 6 then finish (head ++ (envelopeFault faultCode faultString [] ++ addEnvelopeEnd)) gLocalNSptr
    else .done (.mallocFailure, gLocalNSptr)

def buildMustunderstandFault := buildSoapFault "SOAP-ENV:MustUnderstand" "SOAP Must Understand Error"

def buildVersionmismatchFault := buildSoapFault "SOAP-ENV:VersionMismatch" "SOAP Version Mismatch Error"

/-- A call of one of the builders. -/
inductive Call where
  | generate (p : Parameter)
  | mustUnderstand
  | versionMismatch

/-- Make a call. -/
def Call.run (env : Surroundings) (gLocalNSptr : List NameSpace) : Call → Outcome (Built × List NameSpace)
  | .generate p => generateSoapPacket env p gLocalNSptr
  | .mustUnderstand => buildMustunderstandFault env gLocalNSptr
  | .versionMismatch => buildVersionmismatchFault env gLocalNSptr

end CodeFactory.Soap
