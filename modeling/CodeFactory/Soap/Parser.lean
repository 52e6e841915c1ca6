import CodeFactory.Soap.ParameterList

/-!
# The SOAP parser

`soap_parser`: the header elements up to the body, the element behind the body that names the method, and the packet parser of that
method on the rest. A packet parser looks for elements by name in all of the rest. What it does not find it leaves zero; but the
header elements, the fault elements and the elements of the parameter lists are written to structures that an earlier element has
to have made.
-/

namespace CodeFactory.Soap

open Tr69 (Text)

/-- The answers of `soap_parser`, of those of `ErrorCode`. -/
inductive ErrorCode where
  | successOk | errorParser | faultPackets
  deriving DecidableEq, Repr

inductive RPCType where
  | fault | informResponse | transferCompleteResponse | getRPCMethods | upload | download | addObject | deleteObject
  | setParameterValues | getParameterValues | getParameterNames | getParameterAttributes | setParameterAttributes | reboot
  | getQueuedTransfer | requestDownload | requestDownloadResponse | scheduleInform | factoryReset
  deriving DecidableEq, Repr

structure SOAPHeader where
  cwmpID : Text
  cwmpHoldRequests : Int
  cwmpNoMoreRequests : Int
  deriving DecidableEq, Repr

structure CWMPFault where
  faultCode : Int
  faultString : Text
  deriving DecidableEq, Repr

/-- `SOAPFault`, the subcodes as a list. -/
structure SOAPFault where
  faultCode : Text
  faultString : Text
  faultActor : Text
  detail : Option CWMPFault
  soapCode : List Text
  soapReason : Option Text
  soapNode : Text
  soapRole : Text
  soapDetail : Option CWMPFault
  deriving DecidableEq, Repr

/-- A fault as `memset` leaves it. -/
def SOAPFault.zero : SOAPFault := ⟨[], [], [], none, [], none, [], [], none⟩

structure ParameterNameStruct where
  name : Text
  nextLevel : Bool

/-- `AddObjectStruct` and `DeleteObjectStruct`. -/
structure ObjectStruct where
  name : Text
  parameterKey : Text

structure DownloadStruct where
  commandKey : Text
  fileType : Text
  url : Text
  username : Text
  password : Text
  filesize : Int
  targetFileName : Text
  delaySeconds : Int
  successURL : Text
  failureURL : Text

structure UploadStruct where
  commandKey : Text
  fileType : Text
  url : Text
  username : Text
  password : Text
  delaySeconds : Int

structure ScheduleInformStruct where
  delaySeconds : Int
  commandKey : Text

/-- What `soap->parameters` points to; null is `none`. -/
inductive Parameters where
  | none
  | maxEnvelopes (n : Int)
  | values (p : ParameterListStruct)
  | attributes (p : Entries ParameterSetAttributeStruct)
  | names (names : List Text)
  | parameterNames (p : ParameterNameStruct)
  | object (p : ObjectStruct)
  | download (p : DownloadStruct)
  | upload (p : UploadStruct)
  | scheduleInform (p : ScheduleInformStruct)
  | commandKey (key : Text)

/-! ## The header -/

/-- What the loop over the header elements writes: `soap->header` and the `gHoldRequest` of `soap_parser.c`. -/
structure HeaderState where
  header : Option SOAPHeader
  gHoldRequest : Int
  deriving DecidableEq, Repr

/-- The three elements the loop looks for, given the namespace of the element. -/
def headerElement (h : HeaderState) (e : SOAPElement) (ns : Text) : Outcome HeaderState :=
  if e.Named "ID" ∧ ns = soapCwmp then
    (follow e.data).bind fun id => .done { h with header := some ⟨id, 0, 0⟩ }
  else if e.Named "HoldRequests" ∧ ns = soapCwmp then
    let hold : Int := if flagOf e.data then 1 else 0
    (follow h.header).bind fun header => .done ⟨some { header with cwmpHoldRequests := hold }, hold⟩
  else if e.Named "NoMoreRequests" ∧ ns = soapCwmp then
    -- the source writes the number to `gHoldRequest` here too
    let number := intOf e.data
    (follow h.header).bind fun header => .done ⟨some { header with cwmpNoMoreRequests := number }, number⟩
  else .done h

/-- The loop over the elements up to the body, with the elements behind the body, if there is one. -/
def parseHeader (soap : Packet) : HeaderState → List SOAPElement → Outcome (HeaderState × Option (List SOAPElement))
  | h, [] => .done (h, none)
  | h, e :: els =>
    (follow (getRemoteNamespace e.nstr soap)).bind fun ns =>
      (headerElement h e ns).bind fun h =>
        if e.Named "Body" ∧ ns = soap.soapEnv then .done (h, some els) else parseHeader soap h els

/-! ## Faults -/

/-- What `parse_fault_packet` does at an element. -/
def parseFaultElement (soap : Packet) (fault : Option SOAPFault) (e : SOAPElement) : Outcome (Option SOAPFault) :=
  let write (f : SOAPFault → SOAPFault) : Outcome (Option SOAPFault) := (follow fault).bind fun fault => .done (some (f fault))
  let ns := textOf (getRemoteNamespace e.nstr soap)
  if e.Named "Fault" then .done (some .zero)
  else if e.Named "faultcode" ∧ soap.version = 1 then write fun fault => { fault with faultCode := textOf e.data }
  else if e.Named "faultstring" then write fun fault => { fault with faultString := textOf e.data }
  else if e.Named "faultactor" then write fun fault => { fault with faultActor := textOf e.data }
  else if e.Named "FaultCode" then
    if soap.version = 1 then write fun fault => { fault with detail := some ⟨intOf e.data, []⟩ }
    else if soap.version = 2 then write fun fault => { fault with soapDetail := some ⟨intOf e.data, []⟩ }
    else .done fault
  else if e.Named "FaultString" then
    if soap.version = 1 then
      (follow fault).bind fun fault => (follow fault.detail).bind fun detail =>
        .done (some { fault with detail := some { detail with faultString := textOf e.data } })
    else if soap.version = 2 then
      (follow fault).bind fun fault => (follow fault.soapDetail).bind fun detail =>
        .done (some { fault with soapDetail := some { detail with faultString := textOf e.data } })
    else .done fault
  else if e.Named "Code" ∧ ns = soapEnv2 then write fun fault => { fault with soapCode := fault.soapCode ++ [textOf e.data] }
  else if e.Named "Reason" ∧ ns = soapEnv2 then write fun fault => { fault with soapReason := some (textOf e.data) }
  else if e.Named "Node" ∧ ns = soapEnv2 then write fun fault => { fault with soapNode := textOf e.data }
  else if e.Named "Role" ∧ ns = soapEnv2 then write fun fault => { fault with soapRole := textOf e.data }
  else .done fault

/-- `parse_fault_packet`, from the given element on. -/
def parseFaultPacket (soap : Packet) (els : List SOAPElement) : Outcome (Option SOAPFault) :=
  Outcome.foldl (parseFaultElement soap) none els

/-! ## The packet parsers -/

/-- What a packet parser leaves in `soap`. -/
structure Parsed where
  methodName : Text
  rpcType : RPCType
  parameters : Parameters
  fault : Option SOAPFault

/-- The loop of `parse_inform_packet`: `all` are the elements from the response on, a fault in which is parsed from there. -/
def parseInformPacket (soap : Packet) (all : List SOAPElement) :
    Parameters → List SOAPElement → Outcome (Parameters × Option SOAPFault)
  | p, [] => .done (p, none)
  | p, e :: els =>
    let p := if e.Named "MaxEnvelopes" then .maxEnvelopes (intOf e.data) else p
    if e.Named "Fault" then (parseFaultPacket soap all).map fun fault => (p, fault) else parseInformPacket soap all p els

/-- `parse_transfercomplete_packet`: only a fault is looked for. -/
def parseTransfercompletePacket (soap : Packet) (all els : List SOAPElement) : Outcome (Parameters × Option SOAPFault) :=
  if els.any (·.Named "Fault") then (parseFaultPacket soap all).map fun fault => (.none, fault) else .done (.none, none)

/-- `parse_GetParameterValues_packet` and `parse_GetParameterAttributes_packet`. -/
def parseNames (els : List SOAPElement) : List Text := (els.filter (·.Named "string")).map fun e => textOf e.data

def parseGetParameterNamesPacket (els : List SOAPElement) : ParameterNameStruct where
  name := textOf (lastData "ParameterPath" els)
  nextLevel := flagOf (lastData "NextLevel" els)

/-- `parse_AddObject_packet` and `parse_DeleteObject_packet`. -/
def parseObjectPacket (els : List SOAPElement) : ObjectStruct where
  name := textOf (lastData "ObjectName" els)
  parameterKey := textOf (lastData "ParameterKey" els)

def parseDownloadPacket (els : List SOAPElement) : DownloadStruct where
  commandKey := textOf (lastData "CommandKey" els)
  fileType := textOf (lastData "FileType" els)
  url := textOf (lastData "URL" els)
  username := textOf (lastData "Username" els)
  password := textOf (lastData "Password" els)
  filesize := intOf (lastData "FileSize" els)
  targetFileName := textOf (lastData "TargetFileName" els)
  delaySeconds := intOf (lastData "DelaySeconds" els)
  successURL := textOf (lastData "SuccessURL" els)
  failureURL := textOf (lastData "FailureURL" els)

def parseUploadPacket (els : List SOAPElement) : UploadStruct where
  commandKey := textOf (lastData "CommandKey" els)
  fileType := textOf (lastData "FileType" els)
  url := textOf (lastData "URL" els)
  username := textOf (lastData "Username" els)
  password := textOf (lastData "Password" els)
  delaySeconds := intOf (lastData "DelaySeconds" els)

def parseScheduleInformPacket (els : List SOAPElement) : ScheduleInformStruct where
  delaySeconds := intOf (lastData "DelaySeconds" els)
  commandKey := textOf (lastData "CommandKey" els)

/-- The method element that the chain of comparisons finds; `tmpns` is its namespace. -/
def methodOf (soap : Packet) (e : SOAPElement) (tmpns : Text) : Option RPCType :=
  if e.Named "InformResponse" ∧ tmpns = soapCwmp then some .informResponse
  else if e.Named "TransferCompleteResponse" ∧ tmpns = soapCwmp then some .transferCompleteResponse
  else if e.Named "SetParameterValues" ∧ tmpns = soapCwmp then some .setParameterValues
  else if e.Named "GetParameterValues" ∧ tmpns = soapCwmp then some .getParameterValues
  else if e.Named "GetParameterNames" ∧ tmpns = soapCwmp then some .getParameterNames
  else if e.Named "SetParameterAttributes" ∧ tmpns = soapCwmp then some .setParameterAttributes
  else if e.Named "GetParameterAttributes" ∧ tmpns = soapCwmp then some .getParameterAttributes
  else if e.Named "AddObject" ∧ tmpns = soapCwmp then some .addObject
  else if e.Named "DeleteObject" ∧ tmpns = soapCwmp then some .deleteObject
  else if e.Named "GetRPCMethods" ∧ tmpns = soapCwmp then some .getRPCMethods
  else if e.Named "Download" ∧ tmpns = soapCwmp then some .download
  else if e.Named "Reboot" ∧ tmpns = soapCwmp then some .reboot
  else if e.Named "GetQueuedTransfer" ∧ tmpns = soapCwmp then some .getQueuedTransfer
  else if e.Named "ScheduleInform" ∧ tmpns = soapCwmp then some .scheduleInform
  else if e.Named "FactoryReset" ∧ tmpns = soapCwmp then some .factoryReset
  else if e.Named "Upload" ∧ tmpns = soapCwmp then some .upload
  else if e.Named "RequestDownloadResponse" ∧ tmpns = soapCwmp then some .requestDownloadResponse
  else if e.Named "Fault" ∧ tmpns = soap.soapEnv then some .fault
  else none

/-- The packet parser of a method, on the elements `els` behind the method element `e`. -/
def parsePacket (fuel : Nat) (soap : Packet) (e : SOAPElement) (els : List SOAPElement) :
    RPCType → Outcome (Parameters × Option SOAPFault)
  | .informResponse => parseInformPacket soap (e :: els) .none els
  | .transferCompleteResponse => parseTransfercompletePacket soap (e :: els) els
  | .setParameterValues => (parseSetParameterValuesPacket fuel els).map fun p => (.values p, none)
  | .setParameterAttributes => (parseSetParameterAttributesPacket fuel els).map fun p => (.attributes p, none)
  | .getParameterValues | .getParameterAttributes => .done (.names (parseNames els), none)
  | .getParameterNames => .done (.parameterNames (parseGetParameterNamesPacket els), none)
  | .addObject | .deleteObject => .done (.object (parseObjectPacket els), none)
  | .download => .done (.download (parseDownloadPacket els), none)
  | .upload => .done (.upload (parseUploadPacket els), none)
  | .scheduleInform => .done (.scheduleInform (parseScheduleInformPacket els), none)
  | .reboot => .done (.commandKey (textOf (lastData "CommandKey" els)), none)
  | .fault => (parseFaultPacket soap (e :: els)).map fun fault => (.none, fault)
  | .getRPCMethods | .getQueuedTransfer | .factoryReset | .requestDownloadResponse | .requestDownload => .done (.none, none)

/-- What `soap_parser` returns and leaves behind. -/
structure Answer where
  code : ErrorCode
  header : HeaderState
  parsed : Option Parsed

/-- `soap_parser`, from what an earlier packet left in `gHoldRequest`. -/
def soapParser (fuel : Nat) (gHoldRequest : Int) (soap : Packet) : Outcome Answer :=
  let start : HeaderState := ⟨none, gHoldRequest⟩
  if soap.version ≠ 1 ∧ soap.version ≠ 2 then .done ⟨.errorParser, start, none⟩
  else
    (parseHeader soap start soap.element).bind fun r =>
      match r.2 with
      | none => .done ⟨.errorParser, r.1, none⟩
      | some els =>
        -- `SOAPElementptr = SOAPElementptr->next`, which is null behind a body that comes last
        (follow els.head?).bind fun e =>
          (follow (getRemoteNamespace e.nstr soap)).bind fun tmpns =>
            match methodOf soap e tmpns with
            | none => .done ⟨.errorParser, r.1, none⟩
            | some rpcType =>
              (parsePacket fuel soap e els.tail rpcType).map fun p =>
                ⟨if rpcType = .fault then .faultPackets else .successOk, r.1,
                  some ⟨if rpcType = .fault then [] else e.name, rpcType, p.1, p.2⟩⟩

/-! ## When the parser follows no null pointer -/

/-- The element is one that `parse_fault_packet` writes to the fault. -/
def NeedsFault (soap : Packet) (e : SOAPElement) : Prop :=
  e.Named "faultcode" ∧ soap.version = 1 ∨ e.Named "faultstring" ∨ e.Named "faultactor" ∨ e.Named "FaultCode" ∨
    e.Named "FaultString" ∨
      (e.Named "Code" ∨ e.Named "Reason" ∨ e.Named "Node" ∨ e.Named "Role") ∧
        textOf (getRemoteNamespace e.nstr soap) = soapEnv2

/-- What is written to a fault comes behind a `Fault`, and a `FaultString` behind a `FaultCode` in the same fault: `seen` says that
there was a `Fault`, `coded` that there was a `FaultCode` since. -/
def FaultSafe (soap : Packet) : (seen coded : Bool) → List SOAPElement → Prop
  | _, _, [] => True
  | seen, coded, e :: els =>
    if e.Named "Fault" then FaultSafe soap true false els
    else (NeedsFault soap e → seen = true) ∧ (e.Named "FaultString" → coded = true) ∧
      FaultSafe soap seen (coded || decide (e.Named "FaultCode")) els

/-- What a packet parser asks of the elements `els` behind the method element `e`. -/
def PacketSafe (soap : Packet) (e : SOAPElement) (els : List SOAPElement) : RPCType → Prop
  | .informResponse | .transferCompleteResponse => (∃ f ∈ els, f.Named "Fault") → FaultSafe soap false false (e :: els)
  | .fault => FaultSafe soap false false (e :: els)
  | .setParameterValues => Followed 0 (els.map valueRole) ∧ (appended 0 (els.map valueRole)).dropLast.Nodup
  | .setParameterAttributes => Followed 0 (els.map attributeRole) ∧ (appended 0 (els.map attributeRole)).dropLast.Nodup
  | _ => True

/-- Behind the body stands an element with a declared prefix, and the rest is what the packet parser of its method asks for. -/
def MethodSafe (soap : Packet) : List SOAPElement → Prop
  | [] => False
  | e :: els => ∃ ns, getRemoteNamespace e.nstr soap = some ns ∧ ∀ rpcType, methodOf soap e ns = some rpcType → PacketSafe soap e els rpcType

/-- Up to the body the prefixes are declared, the `ID` has a text, and `HoldRequests` and `NoMoreRequests` come behind it, which
`identified` tells; and so on behind the body. -/
def HeaderSafe (soap : Packet) : (identified : Bool) → List SOAPElement → Prop
  | _, [] => True
  | identified, e :: els => ∃ ns, getRemoteNamespace e.nstr soap = some ns ∧
      (e.Named "ID" ∧ ns = soapCwmp → e.data ≠ none) ∧
        ((e.Named "HoldRequests" ∨ e.Named "NoMoreRequests") ∧ ns = soapCwmp → identified = true) ∧
          if e.Named "Body" ∧ ns = soap.soapEnv then MethodSafe soap els
          else HeaderSafe soap (identified || decide (e.Named "ID" ∧ ns = soapCwmp)) els

/-- What `soap_parser` asks of a packet: nothing, if it has no version. -/
def Safe (soap : Packet) : Prop := soap.version = 1 ∨ soap.version = 2 → HeaderSafe soap false soap.element

/-! ### Faults -/

/-- The detail of a fault is there, to which a `FaultString` is written. -/
def codedIn (soap : Packet) : Option SOAPFault → Bool
  | none => false
  | some fault => if soap.version = 1 then fault.detail.isSome else fault.soapDetail.isSome

theorem SOAPElement.Named.not {e : SOAPElement} {word : String} (h : e.Named word) (word' : String)
    (hne : word.toList ≠ word'.toList) : ¬e.Named word' := fun h' => hne (h.symm.trans h')

/-- What `parse_fault_packet` asks for at an element other than `Fault`: a fault to write to, and for a `FaultString` a detail. -/
def FaultAsks (soap : Packet) (seen coded : Bool) (e : SOAPElement) : Prop :=
  (NeedsFault soap e → seen = true) ∧ (e.Named "FaultString" → coded = true)

/-- The outcome `x` at the element `e` is there if what the element asks for is, and a detail is then there if it was or the element
made it. -/
structure FaultStep (soap : Packet) (fault : Option SOAPFault) (e : SOAPElement) (x : Outcome (Option SOAPFault)) : Prop where
  ends : (∃ fault', x = .done fault') ↔ FaultAsks soap fault.isSome (codedIn soap fault) e
  keeps : ∀ fault', x = .done fault' → fault'.isSome = fault.isSome ∧
    codedIn soap fault' = (codedIn soap fault || decide (e.Named "FaultCode"))

section Fault

variable {soap : Packet} {fault : Option SOAPFault} {e : SOAPElement}

/-- A fault right behind a `Fault` has no detail. -/
theorem codedIn_zero : codedIn soap (some .zero) = false := by
  simp [codedIn, SOAPFault.zero]

theorem FaultStep.write (hneeds : NeedsFault soap e) (hcode : ¬e.Named "FaultCode") (hstring : ¬e.Named "FaultString")
    {f : SOAPFault → SOAPFault} (hf : ∀ x, codedIn soap (some (f x)) = codedIn soap (some x)) :
    FaultStep soap fault e ((follow fault).bind fun x => .done (some (f x))) := by
  cases fault with
  | none => exact ⟨by simp [follow, Outcome.bind, FaultAsks, hneeds], by simp [follow, Outcome.bind]⟩
  | some x => exact ⟨by simp [follow, FaultAsks, hstring], by simp [follow, hcode, hf]⟩

theorem FaultStep.code (hcode : e.Named "FaultCode") {f : SOAPFault → SOAPFault}
    (hf : ∀ x, codedIn soap (some (f x)) = true) :
    FaultStep soap fault e ((follow fault).bind fun x => .done (some (f x))) := by
  have hneeds : NeedsFault soap e := by simp [NeedsFault, hcode]
  have hstring : ¬e.Named "FaultString" := hcode.not _ (by decide)
  cases fault with
  | none => exact ⟨by simp [follow, Outcome.bind, FaultAsks, hneeds], by simp [follow, Outcome.bind]⟩
  | some x => exact ⟨by simp [follow, FaultAsks, hstring], by simp [follow, hcode, hf]⟩

/-- A `FaultString` is written to the detail. -/
theorem FaultStep.string (hstring : e.Named "FaultString") {g : SOAPFault → Option CWMPFault} {f : SOAPFault → CWMPFault → SOAPFault}
    (hg : ∀ x, codedIn soap (some x) = (g x).isSome) (hf : ∀ x d, codedIn soap (some (f x d)) = true) :
    FaultStep soap fault e ((follow fault).bind fun x => (follow (g x)).bind fun d => .done (some (f x d))) := by
  have hneeds : NeedsFault soap e := by simp [NeedsFault, hstring]
  have hcode : ¬e.Named "FaultCode" := hstring.not _ (by decide)
  cases fault with
  | none => exact ⟨by simp [follow, Outcome.bind, FaultAsks, hneeds], by simp [follow, Outcome.bind]⟩
  | some x =>
    have hx := hg x
    cases hd : g x with
    | none =>
      rw [hd] at hx
      exact ⟨by simp [follow, Outcome.bind, FaultAsks, hstring, hx, hd], by simp [follow, Outcome.bind, hd]⟩
    | some d =>
      rw [hd] at hx
      exact ⟨by simp [follow, FaultAsks, hx, hd], by simp [follow, hcode, hf, hx, hd]⟩

theorem FaultStep.pass (hneeds : ¬NeedsFault soap e) : FaultStep soap fault e (.done fault) := by
  have hcode : ¬e.Named "FaultCode" := fun h => hneeds (by simp [NeedsFault, h])
  have hstring : ¬e.Named "FaultString" := fun h => hneeds (by simp [NeedsFault, h])
  exact ⟨by simp [FaultAsks, hneeds, hstring], by simp [hcode]⟩

/-- **What `parse_fault_packet` does at an element** other than `Fault`. -/
theorem parseFaultElement_step (fault : Option SOAPFault) (hv : soap.version = 1 ∨ soap.version = 2) (hfault : ¬e.Named "Fault") :
    FaultStep soap fault e (parseFaultElement soap fault e) := by
  simp only [parseFaultElement]
  rw [if_neg hfault]
  by_cases h1 : e.Named "faultcode" ∧ soap.version = 1
  · rw [if_pos h1]
    exact .write (Or.inl h1) (h1.1.not _ (by decide)) (h1.1.not _ (by decide)) fun _ => rfl
  rw [if_neg h1]
  by_cases h2 : e.Named "faultstring"
  · rw [if_pos h2]
    exact .write (by simp [NeedsFault, h2]) (h2.not _ (by decide)) (h2.not _ (by decide)) fun _ => rfl
  rw [if_neg h2]
  by_cases h3 : e.Named "faultactor"
  · rw [if_pos h3]
    exact .write (by simp [NeedsFault, h3]) (h3.not _ (by decide)) (h3.not _ (by decide)) fun _ => rfl
  rw [if_neg h3]
  by_cases h4 : e.Named "FaultCode"
  · rw [if_pos h4]
    rcases hv with hv | hv
    · rw [if_pos hv]
      exact .code h4 fun _ => by simp [codedIn, hv]
    · rw [if_neg (by omega), if_pos hv]
      exact .code h4 fun _ => by simp [codedIn, hv]
  rw [if_neg h4]
  by_cases h5 : e.Named "FaultString"
  · rw [if_pos h5]
    rcases hv with hv | hv
    · rw [if_pos hv]
      exact .string h5 (fun _ => by simp [codedIn, hv]) fun _ _ => by simp [codedIn, hv]
    · rw [if_neg (by omega), if_pos hv]
      exact .string h5 (fun _ => by simp [codedIn, hv]) fun _ _ => by simp [codedIn, hv]
  rw [if_neg h5]
  -- the four of the newer envelope
  by_cases h6 : e.Named "Code" ∧ textOf (getRemoteNamespace e.nstr soap) = soapEnv2
  · rw [if_pos h6]
    exact .write (by simp [NeedsFault, h6]) h4 h5 fun _ => rfl
  rw [if_neg h6]
  by_cases h7 : e.Named "Reason" ∧ textOf (getRemoteNamespace e.nstr soap) = soapEnv2
  · rw [if_pos h7]
    exact .write (by simp [NeedsFault, h7]) h4 h5 fun _ => rfl
  rw [if_neg h7]
  by_cases h8 : e.Named "Node" ∧ textOf (getRemoteNamespace e.nstr soap) = soapEnv2
  · rw [if_pos h8]
    exact .write (by simp [NeedsFault, h8]) h4 h5 fun _ => rfl
  rw [if_neg h8]
  by_cases h9 : e.Named "Role" ∧ textOf (getRemoteNamespace e.nstr soap) = soapEnv2
  · rw [if_pos h9]
    exact .write (by simp [NeedsFault, h9]) h4 h5 fun _ => rfl
  rw [if_neg h9]
  refine .pass ?_
  rintro (h | h | h | h | h | ⟨h | h | h | h, hns⟩)
  · exact h1 h
  · exact h2 h
  · exact h3 h
  · exact h4 h
  · exact h5 h
  · exact h6 ⟨h, hns⟩
  · exact h7 ⟨h, hns⟩
  · exact h8 ⟨h, hns⟩
  · exact h9 ⟨h, hns⟩

/-- **When a fault is parsed**, from a fault that is there or not and has a detail or not. -/
theorem parseFault_ends_iff (hv : soap.version = 1 ∨ soap.version = 2) (fault : Option SOAPFault) (els : List SOAPElement) :
    (∃ fault', Outcome.foldl (parseFaultElement soap) fault els = .done fault') ↔
      FaultSafe soap fault.isSome (codedIn soap fault) els := by
  induction els generalizing fault with
  | nil => exact iff_of_true ⟨fault, rfl⟩ trivial
  | cons e els ih =>
    rw [Outcome.foldl, FaultSafe]
    by_cases he : e.Named "Fault"
    · rw [if_pos he, parseFaultElement]
      simp only [if_pos he, Outcome.bind_done]
      rw [ih, codedIn_zero, Option.isSome_some]
    · rw [if_neg he]
      obtain ⟨hends, hkeeps⟩ := parseFaultElement_step fault hv he
      constructor
      · rintro ⟨fault', h⟩
        obtain ⟨u, hu, hrest⟩ := Outcome.bind_eq_done.1 h
        obtain ⟨hsome, hcoded⟩ := hkeeps u hu
        have hsafe := (ih u).1 ⟨fault', hrest⟩
        rw [hsome, hcoded] at hsafe
        obtain ⟨hneeds, hstring⟩ := hends.1 ⟨u, hu⟩
        exact ⟨hneeds, hstring, hsafe⟩
      · rintro ⟨hneeds, hstring, hsafe⟩
        obtain ⟨u, hu⟩ := hends.2 ⟨hneeds, hstring⟩
        obtain ⟨hsome, hcoded⟩ := hkeeps u hu
        rw [← hsome, ← hcoded] at hsafe
        rw [hu, Outcome.bind_done]
        exact (ih u).2 hsafe

theorem parseFaultPacket_ends_iff (hv : soap.version = 1 ∨ soap.version = 2) (els : List SOAPElement) :
    (∃ fault', parseFaultPacket soap els = .done fault') ↔ FaultSafe soap false false els :=
  parseFault_ends_iff hv none els

end Fault

/-! ### Packets -/

section Packets

variable {soap : Packet}

theorem parseInformPacket_ends_iff (hv : soap.version = 1 ∨ soap.version = 2) (all : List SOAPElement) (p : Parameters)
    (els : List SOAPElement) :
    (∃ r, parseInformPacket soap all p els = .done r) ↔ ((∃ f ∈ els, f.Named "Fault") → FaultSafe soap false false all) := by
  induction els generalizing p with
  | nil => exact iff_of_true ⟨(p, none), rfl⟩ (by simp)
  | cons e els ih =>
    simp only [parseInformPacket]
    by_cases he : e.Named "Fault"
    · rw [if_pos he, ← parseFaultPacket_ends_iff hv]
      constructor
      · rintro ⟨r, hr⟩ -
        obtain ⟨fault, hf, -⟩ := Outcome.map_eq_done.1 hr
        exact ⟨fault, hf⟩
      · intro h
        obtain ⟨fault, hf⟩ := h ⟨e, List.mem_cons_self, he⟩
        exact ⟨_, Outcome.map_eq_done.2 ⟨fault, hf, rfl⟩⟩
    · rw [if_neg he, ih]
      simp [he]

theorem parseTransfercompletePacket_ends_iff (hv : soap.version = 1 ∨ soap.version = 2) (all els : List SOAPElement) :
    (∃ r, parseTransfercompletePacket soap all els = .done r) ↔
      ((∃ f ∈ els, f.Named "Fault") → FaultSafe soap false false all) := by
  unfold parseTransfercompletePacket
  by_cases hf : ∃ f ∈ els, f.Named "Fault"
  · have hany : els.any (·.Named "Fault") = true := by simpa using hf
    rw [if_pos hany, ← parseFaultPacket_ends_iff hv]
    constructor
    · rintro ⟨r, hr⟩ -
      obtain ⟨fault, hfault, -⟩ := Outcome.map_eq_done.1 hr
      exact ⟨fault, hfault⟩
    · intro h
      obtain ⟨fault, hfault⟩ := h hf
      exact ⟨_, Outcome.map_eq_done.2 ⟨fault, hfault, rfl⟩⟩
  · have hany : ¬els.any (·.Named "Fault") = true := by simpa using hf
    rw [if_neg hany]
    exact iff_of_true ⟨_, rfl⟩ fun h => absurd h hf

/-- **When the packet of a method is parsed.** -/
theorem parsePacket_ends_iff (hv : soap.version = 1 ∨ soap.version = 2) (e : SOAPElement) (els : List SOAPElement)
    (rpcType : RPCType) :
    (∃ fuel r, parsePacket fuel soap e els rpcType = .done r) ↔ PacketSafe soap e els rpcType := by
  cases rpcType with
  | informResponse =>
    have h := parseInformPacket_ends_iff hv (e :: els) .none els
    exact ⟨fun ⟨_, r, hr⟩ => h.1 ⟨r, hr⟩, fun hs => ⟨0, h.2 hs⟩⟩
  | transferCompleteResponse =>
    have h := parseTransfercompletePacket_ends_iff hv (e :: els) els
    exact ⟨fun ⟨_, r, hr⟩ => h.1 ⟨r, hr⟩, fun hs => ⟨0, h.2 hs⟩⟩
  | fault =>
    have h := parseFaultPacket_ends_iff hv (e :: els)
    constructor
    · rintro ⟨fuel, r, hr⟩
      obtain ⟨fault, hf, -⟩ := Outcome.map_eq_done.1 hr
      exact h.1 ⟨fault, hf⟩
    · intro hs
      obtain ⟨fault, hf⟩ := h.2 hs
      exact ⟨0, _, Outcome.map_eq_done.2 ⟨fault, hf, rfl⟩⟩
  | setParameterValues =>
    have h := parseStructs_ends_iff ⟨[], none, none⟩ (els.map valueRole)
    constructor
    · rintro ⟨fuel, r, hr⟩
      obtain ⟨p, hp, -⟩ := Outcome.map_eq_done.1 hr
      obtain ⟨s, hs, -⟩ := Outcome.map_eq_done.1 hp
      exact h.1 ⟨fuel, s, hs⟩
    · intro hsafe
      obtain ⟨fuel, s, hs⟩ := h.2 hsafe
      exact ⟨fuel, _, Outcome.map_eq_done.2 ⟨_, Outcome.map_eq_done.2 ⟨s, hs, rfl⟩, rfl⟩⟩
  | setParameterAttributes =>
    have h := parseStructs_ends_iff ⟨[], false, 0, false, []⟩ (els.map attributeRole)
    constructor
    · rintro ⟨fuel, r, hr⟩
      obtain ⟨s, hs, -⟩ := Outcome.map_eq_done.1 hr
      exact h.1 ⟨fuel, s, hs⟩
    · intro hsafe
      obtain ⟨fuel, s, hs⟩ := h.2 hsafe
      exact ⟨fuel, _, Outcome.map_eq_done.2 ⟨s, hs, rfl⟩⟩
  | _ => exact iff_of_true ⟨0, _, rfl⟩ trivial

end Packets

/-! ### The header -/

section Header

variable {soap : Packet} {h h' : HeaderState} {e : SOAPElement} {ns : Text}

/-- **What the loop over the header does at an element**: a header is there behind an `ID`, and if it was. -/
theorem headerElement_step (h : HeaderState) (e : SOAPElement) (ns : Text) :
    ((∃ h', headerElement h e ns = .done h') ↔
        (e.Named "ID" ∧ ns = soapCwmp → e.data ≠ none) ∧
          ((e.Named "HoldRequests" ∨ e.Named "NoMoreRequests") ∧ ns = soapCwmp → h.header.isSome = true)) ∧
      ∀ h', headerElement h e ns = .done h' → h'.header.isSome = (h.header.isSome || decide (e.Named "ID" ∧ ns = soapCwmp)) := by
  unfold headerElement
  by_cases h1 : e.Named "ID" ∧ ns = soapCwmp
  · have hnot : ¬(e.Named "HoldRequests" ∨ e.Named "NoMoreRequests") :=
      not_or.2 ⟨h1.1.not _ (by decide), h1.1.not _ (by decide)⟩
    rw [if_pos h1]
    cases hd : e.data with
    | none => exact ⟨by simp [follow, Outcome.bind, h1], by simp [follow, Outcome.bind]⟩
    | some id => exact ⟨by simp [follow, hnot], by simp [follow, h1]⟩
  rw [if_neg h1]
  by_cases h2 : e.Named "HoldRequests" ∧ ns = soapCwmp
  · rw [if_pos h2]
    cases hd : h.header with
    | none => exact ⟨by simp [follow, Outcome.bind, h2], by simp [follow, Outcome.bind]⟩
    | some header => exact ⟨by simp [follow, h1], by simp [follow]⟩
  rw [if_neg h2]
  by_cases h3 : e.Named "NoMoreRequests" ∧ ns = soapCwmp
  · rw [if_pos h3]
    cases hd : h.header with
    | none => exact ⟨by simp [follow, Outcome.bind, h3], by simp [follow, Outcome.bind]⟩
    | some header => exact ⟨by simp [follow, h1], by simp [follow]⟩
  rw [if_neg h3]
  have hnot : ¬((e.Named "HoldRequests" ∨ e.Named "NoMoreRequests") ∧ ns = soapCwmp) := by
    rintro ⟨h | h, hns⟩
    · exact h2 ⟨h, hns⟩
    · exact h3 ⟨h, hns⟩
  exact ⟨iff_of_true ⟨h, rfl⟩ ⟨fun hid => absurd hid h1, fun hreq => absurd hreq hnot⟩, by simp [h1]⟩

/-- **When the header is parsed** and what comes behind the body can be. -/
theorem parseHeader_ends_iff (soap : Packet) (h : HeaderState) (els : List SOAPElement) :
    (∃ r, parseHeader soap h els = .done r ∧ ∀ rest, r.2 = some rest → MethodSafe soap rest) ↔
      HeaderSafe soap h.header.isSome els := by
  induction els generalizing h with
  | nil => exact iff_of_true ⟨(h, none), rfl, nofun⟩ trivial
  | cons e els ih =>
    rw [parseHeader, HeaderSafe]
    constructor
    · rintro ⟨r, hr, hrest⟩
      obtain ⟨ns, hns, hr⟩ := Outcome.bind_eq_done.1 hr
      obtain ⟨h', hh, hr⟩ := Outcome.bind_eq_done.1 hr
      obtain ⟨hends, hkeeps⟩ := headerElement_step h e ns
      obtain ⟨hid, hreq⟩ := hends.1 ⟨h', hh⟩
      refine ⟨ns, follow_eq_done.1 hns, hid, hreq, ?_⟩
      split at hr
      · rename_i hbody
        obtain rfl := Outcome.done.inj hr
        rw [if_pos hbody]
        exact hrest els rfl
      · rename_i hbody
        rw [if_neg hbody, ← hkeeps h' hh]
        exact (ih h').1 ⟨r, hr, hrest⟩
    · rintro ⟨ns, hns, hid, hreq, hsafe⟩
      obtain ⟨hends, hkeeps⟩ := headerElement_step h e ns
      obtain ⟨h', hh⟩ := hends.2 ⟨hid, hreq⟩
      rw [hns, follow, Outcome.bind_done, hh, Outcome.bind_done]
      split at hsafe
      · rename_i hbody
        rw [if_pos hbody]
        refine ⟨(h', some els), rfl, fun rest hrest => ?_⟩
        obtain rfl := Option.some.inj hrest
        exact hsafe
      · rename_i hbody
        rw [if_neg hbody]
        rw [← hkeeps h' hh] at hsafe
        exact (ih h').2 hsafe

end Header

/-! ### The parser -/

/-- `soap_parser` ends without following a null pointer, and either has parsed a packet or says that it could not. -/
def ParserAnswers (gHoldRequest : Int) (soap : Packet) : Prop :=
  ∃ fuel a, soapParser fuel gHoldRequest soap = .done a ∧ (a.parsed.isSome = true ∨ a.code = .errorParser)

/-- **The parser answers exactly the packets that are safe**: in which, up to the element behind the body, every prefix is declared,
an `ID` has a text and the other two header elements come behind it, an element follows the body, and the packet parser of its
method finds what it writes to. -/
theorem soap_parser_answers_iff (gHoldRequest : Int) (soap : Packet) : ParserAnswers gHoldRequest soap ↔ Safe soap := by
  unfold ParserAnswers Safe soapParser
  by_cases hv : soap.version = 1 ∨ soap.version = 2
  · have hversion : ¬(soap.version ≠ 1 ∧ soap.version ≠ 2) := by omega
    have hheader := parseHeader_ends_iff soap ⟨none, gHoldRequest⟩ soap.element
    simp only [if_neg hversion]
    constructor
    · rintro ⟨fuel, a, ha, -⟩ -
      obtain ⟨⟨h, behind⟩, hr, ha⟩ := Outcome.bind_eq_done.1 ha
      refine hheader.1 ⟨⟨h, behind⟩, hr, fun rest hrest => ?_⟩
      obtain rfl : behind = some rest := hrest
      obtain ⟨e, he, ha⟩ := Outcome.bind_eq_done.1 ha
      obtain ⟨ns, hns, ha⟩ := Outcome.bind_eq_done.1 ha
      obtain ⟨els, rfl⟩ : ∃ els, rest = e :: els := List.head?_eq_some_iff.1 (follow_eq_done.1 he)
      refine ⟨ns, follow_eq_done.1 hns, fun rpcType hm => ?_⟩
      simp only [hm] at ha
      obtain ⟨p, hp, -⟩ := Outcome.map_eq_done.1 ha
      exact (parsePacket_ends_iff hv e els rpcType).1 ⟨fuel, p, hp⟩
    · intro hsafe
      obtain ⟨⟨h, behind⟩, hr, hrest⟩ := hheader.2 (hsafe hv)
      rw [hr]
      cases behind with
      | none => exact ⟨0, _, rfl, Or.inr rfl⟩
      | some rest =>
        cases rest with
        | nil => exact (hrest [] rfl).elim
        | cons e els =>
          obtain ⟨ns, hns, hpacket⟩ := hrest (e :: els) rfl
          simp only [Outcome.bind_done, List.head?_cons, follow, hns, List.tail_cons]
          cases hm : methodOf soap e ns with
          | none => exact ⟨0, _, rfl, Or.inr rfl⟩
          | some rpcType =>
            obtain ⟨fuel, p, hp⟩ := (parsePacket_ends_iff hv e els rpcType).2 (hpacket rpcType hm)
            exact ⟨fuel, _, Outcome.map_eq_done.2 ⟨p, hp, rfl⟩, Or.inl rfl⟩
  · have hversion : soap.version ≠ 1 ∧ soap.version ≠ 2 := by omega
    simp only [if_pos hversion]
    exact iff_of_true ⟨0, _, rfl, Or.inr rfl⟩ fun h => absurd h hv

/-- An envelope of which nothing comes behind the body. -/
theorem soap_parser_follows_null : ¬∀ gHoldRequest soap, ParserAnswers gHoldRequest soap := by
  intro h
  obtain ⟨fuel, a, ha, -⟩ := h 0 ⟨1, [⟨"soap".toList, soapEnv1⟩],
    [⟨"Envelope".toList, "soap".toList, none, []⟩, ⟨"Body".toList, "soap".toList, none, []⟩]⟩
  have hnull : soapParser fuel 0 ⟨1, [⟨"soap".toList, soapEnv1⟩],
      [⟨"Envelope".toList, "soap".toList, none, []⟩, ⟨"Body".toList, "soap".toList, none, []⟩]⟩ = .undefined := rfl
  rw [hnull] at ha
  cases ha

end CodeFactory.Soap
