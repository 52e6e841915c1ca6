import Mathlib.Algebra.Ring.Int.Defs
import CodeFactory.Core.MainLoop
import CodeFactory.Soap.Parser

/-!
# Sessions

Steps 5 to 8 of `main_session`, between the answer to the Inform and the end of the session: the TransferComplete of stored results,
the RequestDownload, and the requests of the server. The event thread stores results meanwhile, and the agent may be started anew.
Files that are there can be read and deleted, and `malloc` succeeds.
-/

namespace CodeFactory.Core

open Soap (Packet Parameters RPCType soapParser)
open Tr69 (Text)

/-- `EventFileType`, what a RequestDownload asks for. -/
inductive EventFileType where
  | firmware | webContent | vendorConfigurationFile
  deriving DecidableEq, Repr

/-- `UploadResponseArg` and `DownloadResponseArg`, all of which goes into a TransferComplete, in the file `fileName` of
`PAL_TMP_RESULT_DIR`. -/
structure TransferResult where
  fileName : Text
  commandKey : Text
  status : Int
  startTime : Text
  completeTime : Text
  deriving DecidableEq, Repr

/-! ## Packets -/

/-- What has been received: nothing, a text that is no XML, or an XML text, of which `xml2soap` makes a packet or not. Where an error
is found `reply` says whether a fault is made to be sent back. -/
inductive Received where
  | empty
  | notXml
  | notSoap (reply : Bool)
  | packet (soap : Packet) (reply : Bool)
  deriving DecidableEq, Repr

/-- What `handle_soap_packet` returns, with what it leaves in `rSoapInfo`, and whether it leaves a fault in `sSoapBuf`. -/
inductive Handled where
  | ok (rpcType : RPCType) (parameters : Parameters)
  | emptyPacket
  | faultPacket
  | soapParserError (reply : Bool)
  /-- An error of `xml2soap`, which is handed on as it is. -/
  | otherError (reply : Bool)

/-- `handle_soap_packet`, from what the packets before have left in the `gHoldRequest` of `soap_parser.c`, and what this one leaves
there; no result if `soap_parser` follows a null pointer or does not end. -/
def handleSoapPacket (gHoldRequest : Int) : Received → Option (Handled × Int)
  | .empty => some (.emptyPacket, gHoldRequest)
  | .notXml => some (.soapParserError false, gHoldRequest)
  | .notSoap reply => some (.otherError reply, gHoldRequest)
  | .packet soap reply =>
    match soapParser soap.element.length gHoldRequest soap with
    | .done answer =>
      match answer.code, answer.parsed with
      | .successOk, some parsed => some (.ok parsed.rpcType parsed.parameters, answer.header.gHoldRequest)
      | .faultPackets, _ => some (.faultPacket, answer.header.gHoldRequest)
      | _, _ => some (.soapParserError reply, answer.header.gHoldRequest)
    | _ => none

/-! ## The session thread -/

/-- Where the session thread stands. -/
inductive SessionPoint where
  /-- Outside of the steps 5 to 8. -/
  | outside
  /-- Step 5, with the `i`-th answer to the Inform at hand. -/
  | response (i : Nat)
  /-- Step 6, before the test of the loop. -/
  | transferComplete
  /-- Step 6, with the TransferComplete to be sent. -/
  | transferCompleteSent
  /-- Step 6, behind the loop. -/
  | requestDownload
  /-- Step 6, with the RequestDownload to be sent. -/
  | requestDownloadSent
  /-- Step 7. -/
  | nullPacket
  /-- Step 8. -/
  | requests
  /-- `main_session` has returned. -/
  | ended
  deriving DecidableEq, Repr

/-- The state of the session thread, and the results that are stored. -/
structure SessionState where
  point : SessionPoint
  results : List TransferResult
  /-- The results that were read into `transferCompletePtr`. -/
  transferComplete : List TransferResult
  gMaxSendEnvelopes : Nat
  gRequestDownloadType : Option EventFileType
  /-- The `gHoldRequest` of `mainloop.c`. -/
  gHoldRequest : Int
  /-- The `gHoldRequest` of `soap_parser.c`, a static variable there. -/
  parserHoldRequest : Int
  deriving DecidableEq, Repr

/-- The agent when it is started. -/
def SessionState.init (results : List TransferResult) : SessionState := ⟨.outside, results, [], 1, none, 0, 0⟩

/-- What the session thread meets, and what the event thread does. -/
inductive SessionEvent where
  /-- Steps 0 to 4: an Inform has been sent and an answer is at hand; the request for a download that was found, if one was. -/
  | inform (requestDownload : Option EventFileType)
  /-- `handle_soap_packet`; whether what is sent back, if anything is, is sent and answered. -/
  | receive (received : Received) (sent : Bool)
  /-- A round of the loop of step 6: the results in the order in which the directory is read, and whether `generate_soap_packet`
  succeeds. -/
  | transferComplete (scanned : List TransferResult) (generated : Bool)
  /-- `generate_soap_packet` of the RequestDownload, if there is one. -/
  | requestDownload (generated : Bool)
  /-- `send_packet_to_acs_server` fails, with the TransferComplete or the RequestDownload. -/
  | sendFailed
  /-- `send_packet_to_acs_server` with a null packet. -/
  | nullPacket (sent : Bool)
  /-- `event_download` or `event_upload` stores a result. -/
  | store (result : TransferResult)
  /-- The agent is started anew. -/
  | restart
  deriving DecidableEq, Repr

def updateTransferCompleteContent (list : List TransferResult) (maxMaxEnvelopes : Nat) (scanned : List TransferResult) :
    List TransferResult :=
  if maxMaxEnvelopes = 0 then list else scanned.take maxMaxEnvelopes

/-- `remove_transfer_done_event`: what is left of the results. -/
def removeTransferDoneEvent (list results : List TransferResult) : List TransferResult :=
  results.filter fun result => ∀ sent ∈ list, sent.commandKey ≠ result.commandKey

/-- A result is written to its file. -/
def storeResult (results : List TransferResult) (result : TransferResult) : List TransferResult :=
  results.filter (fun r => r.fileName ≠ result.fileName) ++ [result]

/-- Step 5, with the answer to the Inform: any but an InformResponse or a packet that is answered by a fault starts the session
over, and so does the third of these. -/
def handleInformResponse (s : SessionState) (i : Nat) (sent : Bool) : Handled → SessionState
  | .ok .informResponse _ => { s with point := .transferComplete }
  | .soapParserError true => { s with point := if sent ∧ i + 1 < maxAnswers then .response (i + 1) else .outside }
  | _ => { s with point := .outside }

/-- Step 6, with the answer to the TransferComplete. -/
def handleTransferCompleteResponse (s : SessionState) : Handled → SessionState
  | .ok .transferCompleteResponse _ =>
    { s with
      point := .transferComplete
      results := removeTransferDoneEvent s.transferComplete s.results
      transferComplete := [] }
  | _ => { s with point := .requestDownload, transferComplete := [] }

/-- Step 6, with the answer to the RequestDownload: any other leaves the loop of `main_session`. -/
def handleRequestDownloadResponse (s : SessionState) : Handled → SessionState
  | .ok .requestDownloadResponse _ => { s with point := .nullPacket, gRequestDownloadType := none }
  | _ => { s with point := .ended }

/-- Step 8, with a packet of the server. No result if the number is read of an InformResponse that has none. -/
def handleServerPacket (s : SessionState) (sent : Bool) : Handled → Option SessionState
  | .emptyPacket => some { s with point := .outside }
  | .ok rpcType parameters =>
    let s := { s with point := if sent then .requests else .outside }
    match rpcType, parameters with
    | .informResponse, .maxEnvelopes n => some { s with gMaxSendEnvelopes := (n % 2 ^ 32).toNat }
    | .informResponse, _ => none
    | _, _ => some s
  | .soapParserError true | .otherError true => some { s with point := if sent then .requests else .outside }
  | _ => some { s with point := .outside }

/-- What becomes of the state. Nothing is possible that the point does not lead to. -/
def session (s : SessionState) : SessionEvent → Option SessionState
  | .inform requestDownload =>
    if s.point = .outside then
      some { s with point := .response 0, gRequestDownloadType := requestDownload.or s.gRequestDownloadType }
    else none
  | .receive received sent =>
    (handleSoapPacket s.parserHoldRequest received).bind fun handled =>
      let s := { s with parserHoldRequest := handled.2 }
      match s.point with
      | .response i => some (handleInformResponse s i sent handled.1)
      | .transferCompleteSent => some (handleTransferCompleteResponse s handled.1)
      | .requestDownloadSent => some (handleRequestDownloadResponse s handled.1)
      | .requests => handleServerPacket s sent handled.1
      | _ => none
  | .transferComplete scanned generated =>
    if s.point ≠ .transferComplete ∨ ¬scanned.Perm s.results then none
    else if s.gHoldRequest ≠ 1 ∧ s.results ≠ [] then
      let list := updateTransferCompleteContent s.transferComplete s.gMaxSendEnvelopes scanned
      if generated then some { s with point := .transferCompleteSent, transferComplete := list }
      else some { s with point := .requestDownload, transferComplete := [] }
    else some { s with point := .requestDownload, transferComplete := [] }
  | .requestDownload generated =>
    if s.point ≠ .requestDownload then none
    else if s.gRequestDownloadType ≠ none ∧ s.gHoldRequest ≠ 1 then
      some { s with point := if generated then .requestDownloadSent else .ended }
    else some { s with point := .nullPacket }
  | .sendFailed =>
    -- `transferCompletePtr` is not freed
    if s.point = .transferCompleteSent ∨ s.point = .requestDownloadSent then some { s with point := .outside } else none
  | .nullPacket sent =>
    if s.point = .nullPacket then some { s with point := if sent then .requests else .outside } else none
  | .store result => some { s with results := storeResult s.results result }
  | .restart => some (.init s.results)

/-- A packet of the server, in SOAP 1.1: an `ID`, the header elements given, with their texts, and the element of the method. -/
def serverPacket (header : List (String × String)) (method : String) : Packet where
  version := 1
  nameSpaces := [⟨"soap".toList, Soap.soapEnv1⟩, ⟨"cwmp".toList, Soap.soapCwmp⟩]
  element := ⟨"ID".toList, "cwmp".toList, some "1".toList, []⟩ ::
    header.map (fun h => ⟨h.1.toList, "cwmp".toList, some h.2.toList, []⟩) ++
      [⟨"Body".toList, "soap".toList, none, []⟩, ⟨method.toList, "cwmp".toList, none, []⟩]

/-! ## Steps -/

/-- The step receives the acknowledgement of the TransferComplete. -/
def acknowledged (s : SessionState) : SessionEvent → Bool
  | .receive received _ =>
    match s.point, handleSoapPacket s.parserHoldRequest received with
    | .transferCompleteSent, some (.ok .transferCompleteResponse _, _) => true
    | _, _ => false
  | _ => false

variable {s t : SessionState} {a : SessionEvent}

/-- What `handle_soap_packet` is called for changes nothing of the results, unless it finds the acknowledgement. -/
structure KeepsResults (s t : SessionState) : Prop where
  results : t.results = s.results
  transferComplete : t.transferComplete = s.transferComplete ∨ t.transferComplete = []

theorem keepsResults_handleServerPacket {sent : Bool} {handled : Handled} (h : handleServerPacket s sent handled = some t) :
    KeepsResults s t := by
  unfold handleServerPacket at h
  split at h
  · cases h
    exact ⟨rfl, Or.inl rfl⟩
  · simp only at h
    split at h
    · cases h
      exact ⟨rfl, Or.inl rfl⟩
    · cases h
    · cases h
      exact ⟨rfl, Or.inl rfl⟩
  · cases h
    exact ⟨rfl, Or.inl rfl⟩
  · cases h
    exact ⟨rfl, Or.inl rfl⟩
  · cases h
    exact ⟨rfl, Or.inl rfl⟩

/-- **What a step does to the results**: it stores one, or removes those whose keys are acknowledged, or reads those that are to be
sent, or changes none. -/
theorem session_results (h : session s a = some t) :
    (∃ result, a = .store result ∧ t.results = storeResult s.results result ∧ t.transferComplete = s.transferComplete) ∨
      (acknowledged s a = true ∧ t.results = removeTransferDoneEvent s.transferComplete s.results ∧ t.transferComplete = []) ∨
      (∃ scanned generated, a = .transferComplete scanned generated ∧ scanned.Perm s.results ∧ t.results = s.results ∧
        t.transferComplete = updateTransferCompleteContent s.transferComplete s.gMaxSendEnvelopes scanned) ∨
      acknowledged s a = false ∧ (∀ result, a ≠ .store result) ∧ KeepsResults s t := by
  cases a with
  | store result =>
    cases h
    exact Or.inl ⟨result, rfl, rfl, rfl⟩
  | receive received sent =>
    obtain ⟨⟨handled, hold⟩, hhandled, h⟩ := Option.bind_eq_some_iff.1 h
    have hnot : ∀ result, SessionEvent.receive received sent ≠ .store result := nofun
    simp only at h
    split at h
    · rename_i hpoint
      cases h
      refine Or.inr (Or.inr (Or.inr ⟨by simp [acknowledged, hpoint], hnot, ?_⟩))
      unfold handleInformResponse
      split
      · exact ⟨rfl, Or.inl rfl⟩
      · exact ⟨rfl, Or.inl rfl⟩
      · exact ⟨rfl, Or.inl rfl⟩
    · rename_i hpoint
      cases h
      unfold handleTransferCompleteResponse
      split
      · exact Or.inr (Or.inl ⟨by simp [acknowledged, hpoint, hhandled], rfl, rfl⟩)
      · rename_i hother
        refine Or.inr (Or.inr (Or.inr ⟨?_, hnot, rfl, Or.inr rfl⟩))
        unfold acknowledged
        simp only [hpoint, hhandled]
        split
        · rename_i parameters _ heq
          cases heq
          exact absurd rfl (hother _)
        · rfl
    · rename_i hpoint
      cases h
      refine Or.inr (Or.inr (Or.inr ⟨by simp [acknowledged, hpoint], hnot, ?_⟩))
      unfold handleRequestDownloadResponse
      split
      · exact ⟨rfl, Or.inl rfl⟩
      · exact ⟨rfl, Or.inl rfl⟩
    · rename_i hpoint
      obtain ⟨hresults, hlist⟩ := keepsResults_handleServerPacket h
      exact Or.inr (Or.inr (Or.inr ⟨by simp [acknowledged, hpoint], hnot, hresults, hlist⟩))
    · cases h
  | transferComplete scanned generated =>
    simp only [session] at h
    split at h
    · cases h
    rename_i hpoint
    have hperm : scanned.Perm s.results := not_not.1 (not_or.1 hpoint).2
    split at h
    · split at h
      · cases h
        exact Or.inr (Or.inr (Or.inl ⟨scanned, generated, rfl, hperm, rfl, rfl⟩))
      · cases h
        exact Or.inr (Or.inr (Or.inr ⟨rfl, nofun, rfl, Or.inr rfl⟩))
    · cases h
      exact Or.inr (Or.inr (Or.inr ⟨rfl, nofun, rfl, Or.inr rfl⟩))
  | requestDownload generated =>
    simp only [session] at h
    split at h
    · cases h
    split at h
    · cases h
      exact Or.inr (Or.inr (Or.inr ⟨rfl, nofun, rfl, Or.inl rfl⟩))
    · cases h
      exact Or.inr (Or.inr (Or.inr ⟨rfl, nofun, rfl, Or.inl rfl⟩))
  | restart =>
    cases h
    exact Or.inr (Or.inr (Or.inr ⟨rfl, nofun, rfl, Or.inr rfl⟩))
  | inform _ | sendFailed | nullPacket _ =>
    simp only [session] at h
    split at h
    · cases h
      exact Or.inr (Or.inr (Or.inr ⟨rfl, nofun, rfl, Or.inl rfl⟩))
    · cases h

end CodeFactory.Core
