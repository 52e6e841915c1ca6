import CodeFactory.Lib.Literal
import CodeFactory.Soap.Envelope

/-!
# What the methods write

For each method that it is read as the elements it is to write, exactly if what it is given can be said. Nothing is escaped, and so
markup in a text becomes markup of the packet.
-/

namespace CodeFactory.Soap

open Tr69 (Text decimal decimal_injective notMem_decimal_of all_isDigit_toDigits)
open Xml (Element Markup Item Plain Lexes Spells isName blank quote attributeText Quotable safe)

/-! ## Tags -/

theorem Tag.isName (t : Tag) : isName t.word = true := by
  cases t <;> exact ofChars (P := fun s => Xml.isName s = true) rfl

theorem lexes_tag (t : Tag) : Lexes (tag t) (.start t.word []) :=
  Xml.lexes_start [] t.isName (fun _ hc => absurd hc List.not_mem_nil) fun _ ha => absurd ha List.not_mem_nil

theorem lexes_paddedEndTag (t : Tag) {pad : Text} (hpad : pad.all blank = true) : Lexes (endTag t pad) (.stop t.word) :=
  Xml.lexes_stop pad t.isName (List.all_eq_true.1 hpad)

theorem lexes_endTag (t : Tag) : Lexes (endTag t) (.stop t.word) := lexes_paddedEndTag t rfl

theorem soapAddAttribute_some (name : String) (value : Text) :
    soapAddAttribute name (some value) = attributeText (name.toList, value) := rfl

/-- What a number is written with means nothing to the reader. -/
theorem safe_decimal (i : Int) : ∀ c ∈ decimal i, safe c = true := by
  intro c hc
  by_contra hsafe
  by_cases hminus : c = '-'
  · exact hsafe (by rw [hminus]; decide)
  · refine notMem_decimal_of ?_ hminus i hc
    rw [Bool.eq_false_iff]
    intro hdigit
    have hrange : 48 ≤ c.toNat ∧ c.toNat ≤ 57 := by
      simp only [Char.isDigit, Bool.and_eq_true, decide_eq_true_eq] at hdigit
      exact ⟨UInt32.le_iff_toNat_le.1 hdigit.1, UInt32.le_iff_toNat_le.1 hdigit.2⟩
    refine hsafe ?_
    have hne : ∀ d : Char, d.toNat < 48 ∨ 57 < d.toNat → (c != d) = true := fun d hd =>
      bne_iff_ne.2 fun h => by
        rw [h] at hrange
        omega
    have hlow : decide (0x20 ≤ c.toNat) = true := decide_eq_true (by omega)
    have hhigh : decide (c.toNat ≤ 0x7E) = true := decide_eq_true (by omega)
    rw [safe, hlow, hhigh, hne '<' (by decide), hne '>' (by decide), hne '&' (by decide), hne quote (by decide)]
    rfl

theorem plain_decimal (i : Int) : Plain (decimal i) := Xml.plain_of_safe (safe_decimal i)

theorem safe_ofList {chars : Text} (h : chars.all safe = true) : (String.ofList chars).toList.all safe = true :=
  ofChars (P := fun s => s.all safe = true) h

theorem plain_ofList {chars : Text} (h : chars.all safe = true) : Plain (String.ofList chars).toList :=
  Xml.plain_of_safe (List.all_eq_true.1 (safe_ofList h))

/-- The attributes of a list can be read. -/
theorem readable_arrayAttributes {type : String} (count : Nat) (htype : ∀ c ∈ type.toList, safe c = true) :
    ∀ a ∈ arrayAttributes type count, isName a.1 = true ∧ Quotable a.2 := by
  intro a ha
  simp only [arrayAttributes, List.mem_cons, List.not_mem_nil, or_false] at ha
  obtain rfl | rfl := ha
  · exact ⟨by decide, by decide⟩
  · refine ⟨show isName "SOAP-ENC:arrayType".toList = true by decide, Xml.quotable_of_safe fun c hc => ?_⟩
    rw [List.mem_append, List.mem_cons, List.mem_append, List.mem_singleton] at hc
    obtain hc | rfl | hc | rfl := hc
    · exact htype c hc
    · decide
    · exact safe_decimal _ c hc
    · decide

theorem lexes_array (t : Tag) {pad : Text} {type : String} (count : Nat) (hpad : pad.all blank = true)
    (htype : type.toList.all safe = true) :
    Lexes (sendArray t pad type count) (.start t.word (arrayAttributes type count)) := by
  have h := Xml.lexes_start pad t.isName (List.all_eq_true.1 hpad) (readable_arrayAttributes count (List.all_eq_true.1 htype))
  rw [sendArray, soapAddAttribute_some, soapAddAttribute_some]
  simpa only [arrayAttributes, List.flatMap_cons, List.flatMap_nil, List.append_nil, List.append_assoc, List.cons_append] using h

/-! ## Elements -/

theorem spells_text (t : Tag) {text text' : Text} (hs : text = text' ∨ Plain text) :
    Spells (sendText t text) (leaf t text').items (text = text' ∧ Plain text) :=
  Spells.leaf (lexes_tag t) (lexes_endTag t) hs

theorem spells_same (t : Tag) (text : Text) : Spells (sendText t text) (leaf t text).items (Plain text) :=
  (spells_text t (.inl rfl)).congr (and_iff_right rfl)

theorem spells_plain (t : Tag) {text : Text} (hp : Plain text) : Spells (sendText t text) (leaf t text).items True :=
  (spells_same t text).congr (iff_true_intro hp)

/-- A number, which is written as it is. -/
theorem spells_printed (t : Tag) (n : Int32) : Spells (sendText t (printed n)) (leaf t (printed n)).items True :=
  spells_plain t (plain_decimal _)

/-- An unsigned number, which is written as an `int`. -/
theorem spells_unsigned (t : Tag) (n : UInt32) : Spells (sendText t (printedUnsigned n)) (leaf t (number n)).items (Small n) := by
  refine (spells_text t (.inr (plain_decimal _))).congr ?_
  rw [and_iff_left (plain_decimal n.toBitVec.toInt)]
  change decimal n.toBitVec.toInt = decimal n.toNat ↔ n.toNat < 2147483648
  have hlt := n.toNat_lt
  have hint := BitVec.toInt_eq_toNat_cond n.toBitVec
  rw [UInt32.toNat_toBitVec] at hint
  refine ⟨fun h => ?_, fun h => ?_⟩
  · have heq := decimal_injective h
    split at hint <;> omega
  · rw [hint, if_pos (by omega)]

theorem spells_cons {t t' : Text} {e : Element} {es : List Element} {c c' : Prop} (h : Spells t e.items c)
    (h' : Spells t' (Element.itemsAll es) c') : Spells (t ++ t') (Element.itemsAll (e :: es)) (c ∧ c') := h.append h'

theorem spells_nil : Spells [] (Element.itemsAll []) True := Spells.nil

theorem spells_node (t : Tag) {body : Text} {es : List Element} {c : Prop} (hbody : Spells body (Element.itemsAll es) c) :
    Spells (tag t ++ (body ++ endTag t)) (node t es).items c :=
  Spells.node (lexes_tag t) (lexes_endTag t) hbody

theorem spells_other {raw name : Text} (text : Text) {as : List (Text × Text)} {m : Markup} (t : Text) (es : List Element)
    (hm : Lexes raw m) (hne : m ≠ .start name as) : Spells (raw ++ t) (Element.itemsAll (.leaf name as text :: es)) False :=
  Spells.other _ hm hne

theorem spells_otherNode {raw name : Text} {as : List (Text × Text)} {m : Markup} (t : Text) (children es : List Element)
    (hm : Lexes raw m) (hne : m ≠ .start name as) :
    Spells (raw ++ t) (Element.itemsAll (.node name as children :: es)) False :=
  Spells.other _ hm hne

theorem spells_array (t : Tag) (pad endPad : Text) (type : String) {body : Text} {es : List Element} {c : Prop}
    (hpad : pad.all blank = true) (hendPad : endPad.all blank = true) (htype : type.toList.all safe = true)
    (hbody : Spells body (Element.itemsAll es) c) :
    Spells (sendArray t pad type es.length ++ (body ++ endTag t endPad)) (array t type es).items c :=
  Spells.node (lexes_array t es.length hpad htype) (lexes_paddedEndTag t hendPad) hbody

theorem lexes_value (type : Option ValueType) :
    Lexes ('<' :: (Tag.value.word ++ (soapAddAttribute "xsi:type" (getType type) ++ ['>'])))
      (.start Tag.value.word (typeAttributes type)) := by
  have hattrs : ∀ t ∈ getType type, Quotable t := by
    match type with
    | none => exact fun t ht => nomatch ht
    | some type =>
      cases type <;>
        exact fun t ht => by
          obtain rfl := Option.some.inj ht
          decide
  have htext : soapAddAttribute "xsi:type" (getType type) = (typeAttributes type).flatMap attributeText := by
    match type with
    | none => rfl
    | some type => cases type <;> rfl
  rw [htext]
  refine Xml.lexes_start [] (Tag.isName .value) (fun _ hc => absurd hc List.not_mem_nil) fun a ha => ?_
  rw [typeAttributes, Option.mem_toList, Option.map_eq_some_iff] at ha
  obtain ⟨t, ht, rfl⟩ := ha
  exact ⟨show isName "xsi:type".toList = true by decide, hattrs t ht⟩

theorem spells_value (type : Option ValueType) (value : Text) :
    Spells (sendValue type value) (Element.leaf Tag.value.word (typeAttributes type) value).items (Plain value) := by
  have h := (Spells.leaf (lexes_value type) (lexes_endTag .value) (.inl rfl : value = value ∨ Plain value)).congr
    (and_iff_right rfl)
  rw [sendValue]
  simpa only [List.append_assoc, List.cons_append, List.nil_append] using h

theorem spells_map {α : Type} (xs : List α) {f : α → Text} {g : α → Element} {c : α → Prop}
    (h : ∀ x, Spells (f x) (g x).items (c x)) : Spells (xs.flatMap f) (Element.itemsAll (xs.map g)) (∀ x ∈ xs, c x) :=
  Spells.flatMap fun x _ => h x

/-! ## The methods -/

theorem spells_event (e : EventCodeStruct) :
    Spells (sendEvent e) (eventElement e).items (Plain e.eventCode ∧ Plain e.commandKey) := by
  have h := spells_node .eventStruct
    (spells_cons (spells_same .eventCode e.eventCode) (spells_cons (spells_same .commandKey e.commandKey) spells_nil))
  rw [sendEvent, eventElement]
  simpa only [List.append_assoc, List.append_nil, and_true] using h

theorem spells_parameterValue (p : ParameterValueStruct) (value : Text) (hvalue : p.value.getD [] = value) :
    Spells (sendParameterValue p value) (parameterElement p).items (Plain p.name ∧ Plain value) := by
  have h := spells_node .parameterValueStruct
    (spells_cons (spells_same .name p.name) (spells_cons (spells_value p.type value) spells_nil))
  rw [sendParameterValue, parameterElement, hvalue]
  simpa only [List.append_assoc, List.append_nil, and_true] using h

theorem spells_informParameter (p : ParameterValueStruct) :
    Spells (sendInformParameter p) (parameterElement p).items (p.name ≠ [] ∧ Plain p.name ∧ Plain (p.value.getD [])) := by
  rw [sendInformParameter]
  by_cases hname : p.name = []
  · -- the value stands where the name is to stand
    have hother : Markup.start Tag.value.word (typeAttributes p.type) ≠ .start Tag.name.word [] := by
      intro h
      injection h with h
      exact absurd h (by decide)
    have h := spells_node .parameterValueStruct
      (spells_other p.name (p.value.getD [] ++ endTag .value)
        [.leaf Tag.value.word (typeAttributes p.type) (p.value.getD [])] (lexes_value p.type) hother)
    rw [if_neg (not_not.2 hname), List.nil_append, sendValue, parameterElement]
    refine Spells.congr ?_ (iff_of_false id fun h => h.1 hname)
    simpa only [leaf, List.append_assoc, List.cons_append, List.nil_append] using h
  · rw [if_pos hname]
    exact (spells_parameterValue p _ rfl).congr (and_iff_right hname).symm

theorem sendDeviceId_eq_done {t : Tag} {part : Option Text} {sofar : Text} {go : Text → Outcome Sent} {sent : Sent}
    (h : sendDeviceId t part sofar go = .done sent) (hok : sent.ok = true) :
    go (sofar ++ sendText t (part.getD [])) = .done sent := by
  obtain ⟨text, htext, h⟩ := Outcome.bind_eq_done.1 h
  rw [follow_eq_done.1 htext]
  split at h
  · cases h
    cases hok
  · exact h

theorem spells_inform {inform : InformInfoStruct} {sent : Sent} (h : addInformMethod inform = .done sent)
    (hok : sent.ok = true) :
    Spells sent.text (Element.itemsAll [informElement inform]) inform.Sayable := by
  have hsent := sendDeviceId_eq_done
    (sendDeviceId_eq_done (sendDeviceId_eq_done (sendDeviceId_eq_done h hok) hok) hok) hok
  have hid := spells_node .deviceId
    (spells_cons (spells_same .manufacturer (inform.deviceId.manufacturer.getD []))
    (spells_cons (spells_same .oui (inform.deviceId.oui.getD []))
    (spells_cons (spells_same .productClass (inform.deviceId.productClass.getD []))
    (spells_cons (spells_same .serialNumber (inform.deviceId.serialNumber.getD [])) spells_nil))))
  have hevents := spells_array .event [] [] "cwmp:EventStruct" rfl rfl (safe_ofList rfl)
    (spells_map (events inform.eventStruct) spells_event)
  have hlist := spells_array .parameterList [' '] [] "cwmp:ParameterValueStruct" rfl rfl (safe_ofList rfl)
    (spells_map inform.parameterList spells_informParameter)
  have hnode := spells_cons (spells_node .inform (spells_cons hid (spells_cons hevents
    (spells_cons (spells_unsigned .maxEnvelopes inform.maxEnvelopes)
    (spells_cons (spells_same .currentTime inform.currentTime)
    (spells_cons (spells_unsigned .retryCount inform.retryCount) (spells_cons hlist spells_nil))))))) spells_nil
  cases hsent
  rw [List.length_map, List.length_map] at hnode
  rw [informElement, InformInfoStruct.Sayable]
  simpa only [List.append_assoc, List.append_nil, and_true] using hnode

/-- The loop over the values, where none is null. -/
theorem spells_parameterValues {values : List ParameterValueStruct} {text : Text} (h : sendParameterValues values = .done text) :
    Spells text (Element.itemsAll (values.map parameterElement)) (∀ p ∈ values, Plain p.name ∧ Plain (p.value.getD [])) := by
  induction values generalizing text with
  | nil =>
    cases h
    exact spells_nil.congr (iff_of_true trivial fun p hp => absurd hp List.not_mem_nil)
  | cons p values ih =>
    obtain ⟨value, hvalue, h⟩ := Outcome.bind_eq_done.1 h
    obtain ⟨rest, hrest, rfl⟩ := Outcome.map_eq_done.1 h
    have hget : p.value.getD [] = value := by rw [follow_eq_done.1 hvalue]; rfl
    refine (spells_cons (spells_parameterValue p value hget) (ih hrest)).congr ?_
    rw [List.forall_mem_cons, hget]

theorem spells_getParameterValues {values : List ParameterValueStruct} {sent : Sent}
    (h : addGetparametervaluesResMethod values = .done sent) :
    Spells sent.text (Element.itemsAll [getParameterValuesElement values])
      (∀ p ∈ values, Plain p.name ∧ Plain (p.value.getD [])) := by
  obtain ⟨text, htext, rfl⟩ := Outcome.map_eq_done.1 h
  have harray := spells_array .parameterList [] [] "cwmp:ParameterValueStruct" rfl rfl (safe_ofList rfl)
    (spells_parameterValues htext)
  have hnode := spells_cons (spells_node .getParameterValuesResponse (spells_cons harray spells_nil)) spells_nil
  rw [List.length_map] at hnode
  rw [getParameterValuesElement]
  simpa only [List.append_assoc, List.append_nil, and_true] using hnode

theorem spells_parameterInfo (p : ParameterInfoStruct) : Spells (sendParameterInfo p) (infoElement p).items (Plain p.name) := by
  have h := spells_node .parameterInfoStruct
    (spells_cons (spells_same .name p.name) (spells_cons (spells_printed .writable p.writable) spells_nil))
  rw [sendParameterInfo, infoElement]
  simpa only [List.append_assoc, List.append_nil, and_true] using h

theorem spells_getParameterNames (names : List ParameterInfoStruct) :
    Spells (addGetparameternamesResMethod names) (Element.itemsAll [getParameterNamesElement names]) (∀ p ∈ names, Plain p.name) := by
  have harray := spells_array .parameterList [] [] "cwmp:ParameterInfoStruct" rfl rfl (safe_ofList rfl)
    (spells_map names spells_parameterInfo)
  have hnode := spells_cons (spells_node .getParameterNamesResponse (spells_cons harray spells_nil)) spells_nil
  rw [List.length_map] at hnode
  rw [addGetparameternamesResMethod, getParameterNamesElement]
  simpa only [List.append_assoc, List.append_nil, and_true] using hnode

theorem spells_parameterAttribute {p : ParameterAttributeStruct} {accessList : List Text}
    (h : accesses p.accessList = .done accessList) :
    Spells (sendParameterAttribute p accessList) (attributeElement p).items p.Sayable := by
  have haccess : p.accessList.takeWhile (· ≠ []) = accessList := by
    unfold accesses at h
    split at h
    · cases h
      rfl
    · cases h
  rw [sendParameterAttribute, attributeElement, ParameterAttributeStruct.Sayable, haccess]
  have harray := spells_array .accessList [] [] "xsd:string" rfl rfl (safe_ofList rfl)
    (spells_map accessList (spells_same .string))
  have hnode := spells_node .parameterAttributeStruct (spells_cons (spells_same .name p.name)
    (spells_cons (spells_unsigned .notification p.notification) (spells_cons harray spells_nil)))
  rw [List.length_map] at hnode
  simpa only [List.append_assoc, List.append_nil, and_true] using hnode

/-- The loop over the attributes, where each access list has an end. -/
theorem spells_parameterAttributes {attributes : List ParameterAttributeStruct} {text : Text}
    (h : sendParameterAttributes attributes = .done text) :
    Spells text (Element.itemsAll (attributes.map attributeElement)) (∀ p ∈ attributes, p.Sayable) := by
  induction attributes generalizing text with
  | nil =>
    cases h
    exact spells_nil.congr (iff_of_true trivial fun p hp => absurd hp List.not_mem_nil)
  | cons p attributes ih =>
    obtain ⟨accessList, haccess, h⟩ := Outcome.bind_eq_done.1 h
    obtain ⟨rest, hrest, rfl⟩ := Outcome.map_eq_done.1 h
    refine (spells_cons (spells_parameterAttribute haccess) (ih hrest)).congr ?_
    rw [List.forall_mem_cons]

theorem spells_getParameterAttributes {attributes : List ParameterAttributeStruct} {sent : Sent}
    (h : addGetparameterattributesResMethod attributes = .done sent) :
    Spells sent.text (Element.itemsAll [getParameterAttributesElement attributes]) (∀ p ∈ attributes, p.Sayable) := by
  obtain ⟨text, htext, rfl⟩ := Outcome.map_eq_done.1 h
  have harray := spells_array .parameterList [] [] "cwmp:ParameterAttributeStruct" rfl rfl (safe_ofList rfl)
    (spells_parameterAttributes htext)
  have hnode := spells_cons (spells_node .getParameterAttributesResponse (spells_cons harray spells_nil)) spells_nil
  rw [List.length_map] at hnode
  rw [getParameterAttributesElement]
  simpa only [List.append_assoc, List.append_nil, and_true] using hnode

theorem spells_status (method : Tag) (status : Int32) :
    Spells (sendStatus method status) (Element.itemsAll [statusElement method status]) True := by
  have hnode := spells_cons (spells_node method (spells_cons (spells_printed .status status) spells_nil)) spells_nil
  rw [sendStatus, statusElement]
  simpa only [List.append_assoc, List.append_nil, and_true] using hnode

theorem spells_empty (method : Tag) :
    Spells (sendEmpty method) (Element.itemsAll [node method []]) True := by
  have hnode := spells_cons (spells_node method spells_nil) spells_nil
  rw [sendEmpty]
  simpa only [List.nil_append, List.append_nil, and_true] using hnode

theorem spells_addObject (object : AddObjectResponseStruct) :
    Spells (addAddobjectResMethod object) (Element.itemsAll [addObjectElement object]) (Small object.instanceID) := by
  have hnode := spells_cons (spells_node .addObjectResponse (spells_cons (spells_unsigned .instanceNumber object.instanceID)
    (spells_cons (spells_printed .status object.status) spells_nil))) spells_nil
  rw [addAddobjectResMethod, addObjectElement]
  simpa only [List.append_assoc, List.append_nil, and_true] using hnode

theorem spells_getRpcmethods :
    Spells addGetrpcmethodsResMethod (Element.itemsAll [getRpcmethodsElement]) True := by
  have hplain : ∀ method ∈ gRPCMethodList, Plain method.toList := by
    unfold gRPCMethodList
    repeat refine List.forall_mem_cons.2 ⟨plain_ofList rfl, ?_⟩
    exact List.forall_mem_nil _
  have hmethods : Spells (gRPCMethodList.flatMap fun method => sendText .string method.toList)
      (Element.itemsAll (gRPCMethodList.map fun method => leaf .string method.toList)) True :=
    (Spells.flatMap fun method hm => spells_plain .string (hplain method hm)).congr (iff_true_intro fun _ _ => trivial)
  have harray := spells_array .methodList [] [] "xsd:string" rfl rfl (safe_ofList rfl) hmethods
  have hnode := spells_cons (spells_node .getRPCMethodsResponse (spells_cons harray spells_nil)) spells_nil
  rw [List.length_map, show gRPCMethodList.length = 16 from rfl] at hnode
  rw [addGetrpcmethodsResMethod, getRpcmethodsElement]
  simpa only [List.append_assoc, List.append_nil, and_true] using hnode

theorem spells_transferResponse (method : Tag) (r : TransferResponseStruct) :
    Spells (sendTransferResponse method r) (Element.itemsAll [transferResponseElement method r])
      (Plain r.startTime ∧ Plain r.completeTime) := by
  have hnode := spells_cons (spells_node method (spells_cons (spells_printed .status r.status)
    (spells_cons (spells_same .startTime r.startTime) (spells_cons (spells_same .completeTime r.completeTime) spells_nil))))
    spells_nil
  rw [sendTransferResponse, transferResponseElement]
  simpa only [List.append_assoc, List.append_nil, and_true, true_and] using hnode

theorem spells_transfer (t : TransferStruct) : Spells (sendTransfer t) (transferElement t).items (Plain t.commandKey) := by
  have h := spells_node .queuedTransferStruct
    (spells_cons (spells_same .commandKey t.commandKey) (spells_cons (spells_printed .state t.state) spells_nil))
  rw [sendTransfer, transferElement]
  simpa only [List.append_assoc, List.append_nil, and_true] using h

theorem spells_getQueuedtransfers (transfers : List TransferStruct) :
    Spells (addGetqueuedtransfersResMethod transfers) (Element.itemsAll [getQueuedtransfersElement transfers])
      (∀ t ∈ queued transfers, Plain t.commandKey) := by
  have harray := spells_array .transferList [] [' '] "cwmp:QueuedTransfe" rfl rfl (safe_ofList rfl)
    (spells_map (queued transfers) spells_transfer)
  have hnode := spells_cons (spells_node .getQueuedTransfersResponse (spells_cons harray spells_nil)) spells_nil
  rw [List.length_map] at hnode
  rw [addGetqueuedtransfersResMethod, getQueuedtransfersElement]
  simpa only [List.append_assoc, List.append_nil, and_true] using hnode

/-- The list of arguments is said to have one element more than there are arguments. -/
theorem spells_requestDownload {request : RequestDownloadStruct} {sent : Sent}
    (h : addRequestdownloadMethod request = .done sent) :
    Spells sent.text (Element.itemsAll [requestDownloadElement request]) False := by
  simp only [addRequestdownloadMethod] at h
  split at h
  · cases h
    have hother : Markup.start Tag.fileTypeArg.word (arrayAttributes "cwmp:Arg" ((arguments request.arglist).length + 1)) ≠
        .start Tag.fileTypeArg.word (arrayAttributes "cwmp:Arg" (arguments request.arglist).length) := by
      intro h
      injection h with _ h
      have hcount := List.append_cancel_left (Prod.mk.inj (List.cons.inj (List.cons.inj h).2).1).2
      have hnumber := decimal_injective (List.append_cancel_right (List.cons.inj hcount).2)
      omega
    have hlex := lexes_array .fileTypeArg ((arguments request.arglist).length + 1) (rfl : [' '].all blank = true)
      (safe_ofList rfl : "cwmp:Arg".toList.all safe = true)
    have hlist := spells_otherNode ((request.arglist.take ((arguments request.arglist).length + 1)).flatMap sendArg ++
      endTag .fileTypeArg) ((arguments request.arglist).map argElement) [] hlex hother
    have hnode := spells_cons (spells_node .requestDownLoad
      (spells_cons (spells_same .fileType request.fileType) hlist)) spells_nil
    rw [requestDownloadElement, array, List.length_map]
    simpa only [List.append_assoc, List.append_nil, and_true, and_false] using hnode
  · cases h

theorem printedShort_eq_done {text text' : Text} (h : printedShort text = .done text') : text = text' := by
  unfold printedShort at h
  split at h
  · cases h
    rfl
  · cases h

/-- The loop over the parameters that could not be set. -/
theorem spells_parameterFaults {faults : List SetParameterFaultStruct} {text : Text} (h : sendParameterFaults faults = .done text) :
    Spells text (Element.itemsAll (faults.map parameterFaultElement)) (∀ f ∈ faults, f.Sayable) := by
  induction faults generalizing text with
  | nil =>
    cases h
    exact spells_nil.congr (iff_of_true trivial fun p hp => absurd hp List.not_mem_nil)
  | cons f faults ih =>
    obtain ⟨code, hcode, h⟩ := Outcome.bind_eq_done.1 h
    obtain ⟨rest, hrest, rfl⟩ := Outcome.map_eq_done.1 h
    obtain rfl := printedShort_eq_done hcode
    have hnode := spells_node .setParameterValuesFault (spells_cons (spells_same .parameterName f.parameterName)
      (spells_cons (spells_unsigned .faultCode f.faultCode) (spells_cons (spells_same .faultString f.faultString) spells_nil)))
    have hcons := spells_cons hnode (ih hrest)
    rw [List.map_cons, List.forall_mem_cons, parameterFaultElement, SetParameterFaultStruct.Sayable]
    simpa only [List.append_assoc, List.append_nil, and_true] using hcons

theorem plain_getFaultString (faultcode : Int) : Plain (getFaultString faultcode) := by
  unfold getFaultString
  split <;> exact plain_ofList rfl

/-- The detail of a fault; that of a fault without a code has no `FaultCode`. -/
theorem spells_detail {faultCode : Int32} {faults : List SetParameterFaultStruct} {text : Text}
    (h : sendDetail faultCode faults = .done text) :
    Spells text (Element.itemsAll [detailElement faultCode faults]) (faultCode ≠ 0 ∧ ∀ f ∈ faults, f.Sayable) := by
  obtain ⟨code, hcode, h⟩ := Outcome.bind_eq_done.1 h
  obtain ⟨rest, hrest, rfl⟩ := Outcome.map_eq_done.1 h
  have hstring := spells_plain .faultString (plain_getFaultString faultCode.toInt)
  rw [detailElement]
  by_cases hzero : faultCode = 0
  · rw [if_pos hzero] at hcode
    cases hcode
    have hother := spells_other (printed faultCode) (getFaultString faultCode.toInt ++ (endTag .faultString ++ rest))
      (leaf .faultString (getFaultString faultCode.toInt) :: faults.map parameterFaultElement) (lexes_tag .faultString)
      (show Markup.start Tag.faultString.word [] ≠ .start Tag.faultCode.word [] by decide)
    have hnode := spells_cons (spells_node .detail (spells_cons (spells_node .cwmpFault hother) spells_nil)) spells_nil
    refine Spells.congr ?_ (iff_of_false id fun h => h.1 hzero)
    rw [sendText, List.nil_append]
    simpa only [leaf, List.append_assoc, List.append_nil, and_true] using hnode
  · rw [if_neg hzero] at hcode
    obtain ⟨digits, hdigits, rfl⟩ := Outcome.map_eq_done.1 hcode
    obtain rfl := printedShort_eq_done hdigits
    have hnode := spells_cons (spells_node .detail (spells_cons (spells_node .cwmpFault
      (spells_cons (spells_printed .faultCode faultCode) (spells_cons hstring (spells_parameterFaults hrest)))) spells_nil))
      spells_nil
    refine Spells.congr ?_ (and_iff_right hzero).symm
    simpa only [List.append_assoc, List.append_nil, and_true, true_and] using hnode

theorem spells_fault {faultCode faultString : String} {detail : Text} {es : List Element} {c : Prop}
    (hcode : Plain faultCode.toList) (hstring : Plain faultString.toList) (hdetail : Spells detail (Element.itemsAll es) c) :
    Spells (envelopeFault faultCode faultString detail) (Element.itemsAll [faultElement faultCode faultString es]) c := by
  have hnode := spells_cons (spells_node .soapFault (spells_cons (spells_plain .faultcode hcode)
    (spells_cons (spells_plain .faultstring hstring) hdetail))) spells_nil
  rw [envelopeFault, faultElement]
  simpa only [List.append_assoc, List.append_nil, and_true, true_and] using hnode

/-- The method for the packet writes what is to stand in its body. -/
theorem spells_method {p : Parameter} {sent : Sent} (h : addRPCPalload p = .done sent) (hok : sent.ok = true) :
    Spells sent.text (Element.itemsAll p.body) p.Sayable := by
  cases p with
  | sendInform inform => exact spells_inform h hok
  | getParameterValuesResp values => exact spells_getParameterValues h
  | getParameterAttributesResp attributes => exact spells_getParameterAttributes h
  | requestDownload request => exact spells_requestDownload h
  | setParameterValuesResp status =>
    cases h
    exact spells_status .setParameterValuesResponse status
  | getParameterNamesResp names =>
    cases h
    exact spells_getParameterNames names
  | setParameterAttributesResp =>
    cases h
    exact spells_empty .setParameterAttributesResponse
  | addObjectResp object =>
    cases h
    exact spells_addObject object
  | deleteObjectResp status =>
    cases h
    exact spells_status .deleteObjectResponse status
  | getRpcmethodsResp =>
    cases h
    exact spells_getRpcmethods
  | downloadResp download =>
    cases h
    exact spells_transferResponse .downloadResponse download
  | rebootResp =>
    cases h
    exact spells_empty .rebootResponse
  | getQueuedtransfersResp transfers =>
    cases h
    exact spells_getQueuedtransfers transfers
  | scheduleInformResp =>
    cases h
    exact spells_empty .scheduleInformResponse
  | factoryResetResp =>
    cases h
    exact spells_empty .factoryResetResponse
  | uploadResp upload =>
    cases h
    exact spells_transferResponse .uploadResponse upload
  | transferComplete transfers =>
    cases h
    cases hok
  | fault faultCode faults =>
    cases h
    cases hok

theorem spells_transferComplete (t : TransferCompleteStruct) :
    Spells (tag .transferComplete ++ (sendText .commandKey t.commandKey ++ (tag .faultStruct ++
      (sendText .faultCode (printedUnsigned t.faultcode) ++ (sendText .faultString t.faultString ++ (endTag .faultStruct ++
      (sendText .startTime t.startTime ++ (sendText .completeTime t.completeTime ++ endTag .transferComplete))))))))
      (transferCompleteElement t).items t.Sayable := by
  have hfault := spells_node .faultStruct (spells_cons (spells_unsigned .faultCode t.faultcode)
    (spells_cons (spells_same .faultString t.faultString) spells_nil))
  have hnode := spells_node .transferComplete (spells_cons (spells_same .commandKey t.commandKey) (spells_cons hfault
    (spells_cons (spells_same .startTime t.startTime) (spells_cons (spells_same .completeTime t.completeTime) spells_nil))))
  rw [transferCompleteElement, TransferCompleteStruct.Sayable]
  simpa only [List.append_assoc, List.append_nil, and_true] using hnode

end CodeFactory.Soap
