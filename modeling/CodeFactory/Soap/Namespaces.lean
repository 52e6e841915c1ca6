import CodeFactory.Soap.Packets

/-!
# The namespaces of the packets

The list of namespaces is filled for each packet, and emptied behind some of them only. What an envelope declares is read from its
start, and what it uses from the document it is to be.
-/

namespace CodeFactory.Soap

open Tr69 (Text decimal)
open Xml (Element)

/-! ## What is declared -/

/-- The attributes of the envelope a text begins with, behind the zeros of an earlier packet. -/
def envelopeStart (text : Text) : Option (List (Text × Text)) :=
  match Xml.readMarkup (text.dropWhile (· = '\x00')) with
  | some (.instruction _, rest) =>
    match Xml.readMarkup rest with
    | some (.start name attrs, _) => if name = Tag.envelope.word then some attrs else none
    | _ => none
  | _ => none

/-- The namespace that an attribute declares. -/
def declaration (a : Text × Text) : Option NameSpace := (a.1.dropPrefix? "xmlns:".toList).map fun name => ⟨name, a.2⟩

/-- The namespaces that an envelope declares. -/
def declares (text : Text) : List NameSpace := ((envelopeStart text).getD []).filterMap declaration

theorem declaration_some (ns : NameSpace) : declaration ("xmlns:".toList ++ ns.nsname, ns.nsvalue) = some ns := by
  rw [declaration, List.dropPrefix?_append_of_beq _ (beq_self_eq_true _)]
  rfl

theorem filterMap_declaredAttributes (gLocalNSptr : List NameSpace) :
    (declaredAttributes gLocalNSptr).filterMap declaration = gLocalNSptr := by
  have hstyle : declaration ("SOAP-ENV:encodingStyle".toList, soapEnc1) = none := by rfl
  have hname : (fun ns : NameSpace => declaration ("xmlns:".toList ++ ns.nsname, ns.nsvalue)) = some := funext declaration_some
  rw [declaredAttributes, List.filterMap_append, List.filterMap_map, Function.comp_def, hname, List.filterMap_some,
    List.filterMap_cons_none hstyle, List.filterMap_nil, List.append_nil]

/-- The start of an envelope is read, whatever is in front of it and behind it. -/
theorem envelopeStart_append (n : Nat) {gLocalNSptr : List NameSpace} (hknown : Known gLocalNSptr) (rest : Text) :
    envelopeStart (List.replicate n '\x00' ++ addEnvelopeStart gLocalNSptr ++ rest) = some (declaredAttributes gLocalNSptr) := by
  have hdrop : (List.replicate n '\x00' ++ addEnvelopeStart gLocalNSptr ++ rest).dropWhile (· = '\x00') =
      xmlHead ++ (envelopeTag gLocalNSptr ++ rest) := by
    rw [List.append_assoc, addEnvelopeStart, List.append_assoc]
    induction n with
    | zero => rfl
    | succ n ih => rw [List.replicate_succ, List.cons_append, List.dropWhile_cons_of_pos (by rfl), ih]
  rw [envelopeStart, hdrop, lexes_declaration.reads]
  change (match Xml.readMarkup (envelopeTag gLocalNSptr ++ rest) with
    | some (.start name attrs, _) => if name = Tag.envelope.word then some attrs else none
    | _ => none) = _
  rw [(lexes_envelope hknown).reads]
  exact if_pos rfl

theorem declares_append (n : Nat) {gLocalNSptr : List NameSpace} (hknown : Known gLocalNSptr) (rest : Text) :
    declares (List.replicate n '\x00' ++ addEnvelopeStart gLocalNSptr ++ rest) = gLocalNSptr := by
  rw [declares, envelopeStart_append n hknown, Option.getD_some, filterMap_declaredAttributes]

/-! ## What is used -/

def prefixOf (name : Text) : List Text := if ':' ∈ name then [name.takeWhile (· ≠ ':')] else []

/-- The prefixes that an attribute uses: that of its name, unless it is a declaration, and that of a type. -/
def attributePrefixes (a : Text × Text) : List Text :=
  if (declaration a).isSome then []
  else prefixOf a.1 ++ if a.1 = "xsi:type".toList ∨ a.1 = "SOAP-ENC:arrayType".toList then prefixOf a.2 else []

mutual

def elementPrefixes : Element → List Text
  | .leaf name attrs _ => prefixOf name ++ attrs.flatMap attributePrefixes
  | .node name attrs children => prefixOf name ++ (attrs.flatMap attributePrefixes ++ elementsPrefixes children)

def elementsPrefixes : List Element → List Text
  | [] => []
  | e :: es => elementPrefixes e ++ elementsPrefixes es

end

/-- All the prefixes are those of the five namespaces. -/
def Five (prefixes : List Text) : Prop := ∀ q ∈ prefixes, q ∈ localNamespaces.map NameSpace.nsname

instance (prefixes : List Text) : Decidable (Five prefixes) := inferInstanceAs (Decidable (∀ q ∈ prefixes, _))

theorem five_nil : Five [] := fun _ h => absurd h List.not_mem_nil

theorem five_append {ps qs : List Text} (hp : Five ps) (hq : Five qs) : Five (ps ++ qs) := List.forall_mem_append.2 ⟨hp, hq⟩

theorem five_tag (t : Tag) : Five (prefixOf t.word) := by
  cases t <;> decide

theorem five_leaf (t : Tag) (text : Text) : Five (elementPrefixes (leaf t text)) := five_append (five_tag t) five_nil

theorem five_cons {e : Element} {es : List Element} (he : Five (elementPrefixes e)) (hes : Five (elementsPrefixes es)) :
    Five (elementsPrefixes (e :: es)) := five_append he hes

theorem five_one {e : Element} (he : Five (elementPrefixes e)) : Five (elementsPrefixes [e]) := five_cons he five_nil

theorem five_before (t : Tag) (text : Text) {es : List Element} (hes : Five (elementsPrefixes es)) :
    Five (elementsPrefixes (leaf t text :: es)) := five_cons (five_leaf t text) hes

theorem five_node (t : Tag) {es : List Element} (hes : Five (elementsPrefixes es)) : Five (elementPrefixes (node t es)) :=
  five_append (five_tag t) hes

theorem five_map {α : Type} {f : α → Element} (h : ∀ x, Five (elementPrefixes (f x))) (xs : List α) :
    Five (elementsPrefixes (xs.map f)) := by
  induction xs with
  | nil => exact five_nil
  | cons x xs ih => exact five_cons (h x) ih

theorem prefixOf_append {name : Text} (h : ':' ∈ name) (rest : Text) : prefixOf (name ++ rest) = prefixOf name := by
  have htake : (name ++ rest).takeWhile (· ≠ ':') = name.takeWhile (· ≠ ':') := by
    obtain ⟨l, r, rfl⟩ := List.append_of_mem h
    induction l with
    | nil => rfl
    | cons c l ih =>
      rw [List.cons_append, List.cons_append, List.takeWhile_cons, List.takeWhile_cons]
      by_cases hc : c = ':'
      · rw [if_neg (by simp [hc]), if_neg (by simp [hc])]
      · rw [ih (by simp)]
  rw [prefixOf, prefixOf, if_pos (List.mem_append_left rest h), if_pos h, htake]

/-- A list uses the prefix of the type of what is in it, too. -/
theorem five_array (t : Tag) {type : String} {es : List Element} (hcolon : ':' ∈ type.toList) (htype : Five (prefixOf type.toList))
    (hes : Five (elementsPrefixes es)) : Five (elementPrefixes (array t type es)) := by
  refine five_append (five_tag t) (five_append ?_ hes)
  have hfirst : Five (attributePrefixes ("xsi:type".toList, "SOAP-ENC:Array".toList)) := by decide
  have hsecond : attributePrefixes ("SOAP-ENC:arrayType".toList, type.toList ++ '[' :: (decimal es.length ++ [']'])) =
      prefixOf "SOAP-ENC:arrayType".toList ++ prefixOf type.toList := by
    have hdecl : declaration ("SOAP-ENC:arrayType".toList, type.toList ++ '[' :: (decimal es.length ++ [']'])) = none := by rfl
    rw [attributePrefixes, hdecl, if_neg (by decide), if_pos (.inr rfl), prefixOf_append hcolon]
  have hname : Five (prefixOf "SOAP-ENC:arrayType".toList) := by decide
  rw [arrayAttributes, List.flatMap_cons, List.flatMap_singleton, hsecond]
  exact five_append hfirst (five_append hname htype)

theorem five_typeAttributes (type : Option ValueType) : Five ((typeAttributes type).flatMap attributePrefixes) := by
  match type with
  | none => exact five_nil
  | some type => cases type <;> decide

theorem five_pair (t t₁ t₂ : Tag) (text₁ text₂ : Text) : Five (elementPrefixes (node t [leaf t₁ text₁, leaf t₂ text₂])) :=
  five_node t (five_before t₁ text₁ (five_before t₂ text₂ five_nil))

theorem five_parameterElement (p : ParameterValueStruct) : Five (elementPrefixes (parameterElement p)) :=
  five_node _ (five_before _ _ (five_one (five_append (five_tag .value) (five_typeAttributes p.type))))

theorem five_attributeElement (p : ParameterAttributeStruct) : Five (elementPrefixes (attributeElement p)) :=
  five_node _ (five_before _ _ (five_before _ _ (five_one (five_array _ (by decide) (by decide) (five_map (five_leaf .string) _)))))

theorem five_faultElement (faultCode faultString : String) {detail : List Element} (h : Five (elementsPrefixes detail)) :
    Five (elementPrefixes (faultElement faultCode faultString detail)) :=
  five_node _ (five_before _ _ (five_before _ _ h))

theorem five_informElement (inform : InformInfoStruct) : Five (elementPrefixes (informElement inform)) := by
  have hdevice : Five (elementPrefixes (node .deviceId [leaf .manufacturer (inform.deviceId.manufacturer.getD []),
      leaf .oui (inform.deviceId.oui.getD []), leaf .productClass (inform.deviceId.productClass.getD []),
      leaf .serialNumber (inform.deviceId.serialNumber.getD [])])) :=
    five_node _ (five_before _ _ (five_before _ _ (five_before _ _ (five_before _ _ five_nil))))
  have hevents : Five (elementPrefixes (array .event "cwmp:EventStruct" ((events inform.eventStruct).map eventElement))) :=
    five_array _ (by decide) (by decide) (five_map (fun e => five_pair _ _ _ _ _) _)
  have hparameters : Five (elementPrefixes
      (array .parameterList "cwmp:ParameterValueStruct" (inform.parameterList.map parameterElement))) :=
    five_array _ (by decide) (by decide) (five_map five_parameterElement _)
  exact five_node _ (five_cons hdevice (five_cons hevents
    (five_before _ _ (five_before _ _ (five_before _ _ (five_one hparameters))))))

theorem five_transferCompleteElement (t : TransferCompleteStruct) : Five (elementPrefixes (transferCompleteElement t)) :=
  five_node _ (five_before _ _ (five_cons (five_pair _ _ _ _ _) (five_before _ _ (five_before _ _ five_nil))))

theorem five_parameterFaultElement (f : SetParameterFaultStruct) : Five (elementPrefixes (parameterFaultElement f)) :=
  five_node _ (five_before _ _ (five_before _ _ (five_before _ _ five_nil)))

theorem five_transferResponseElement (method : Tag) (r : TransferResponseStruct) :
    Five (elementPrefixes (transferResponseElement method r)) :=
  five_node _ (five_before _ _ (five_before _ _ (five_before _ _ five_nil)))

theorem five_body (p : Parameter) : Five (elementsPrefixes p.body) := by
  cases p with
  | sendInform inform => exact five_one (five_informElement inform)
  | transferComplete transfers => exact five_map five_transferCompleteElement transfers
  | getParameterValuesResp values =>
    exact five_one (five_node _ (five_one (five_array _ (by decide) (by decide) (five_map five_parameterElement values))))
  | getParameterNamesResp names =>
    exact five_one (five_node _ (five_one (five_array _ (by decide) (by decide) (five_map (fun p => five_pair _ _ _ _ _) names))))
  | getParameterAttributesResp attributes =>
    exact five_one (five_node _ (five_one (five_array _ (by decide) (by decide) (five_map five_attributeElement attributes))))
  | getQueuedtransfersResp transfers =>
    exact five_one (five_node _ (five_one (five_array _ (by decide) (by decide)
      (five_map (fun t => five_pair _ _ _ _ _) (queued transfers)))))
  | requestDownload request =>
    exact five_one (five_node _ (five_before _ _ (five_one (five_array _ (by decide) (by decide)
      (five_map (fun a => five_pair _ _ _ _ _) (arguments request.arglist))))))
  | getRpcmethodsResp =>
    exact five_one (five_node _ (five_one (five_array _ (by decide) (by decide)
      (five_map (fun method => five_leaf .string method.toList) gRPCMethodList))))
  | fault faultCode faults =>
    exact five_one (five_faultElement _ _ (five_one (five_node _ (five_one (five_node _
      (five_before _ _ (five_before _ _ (five_map five_parameterFaultElement faults))))))))
  | addObjectResp object => exact five_one (five_pair _ _ _ _ _)
  | downloadResp r => exact five_one (five_transferResponseElement _ r)
  | uploadResp r => exact five_one (five_transferResponseElement _ r)
  | setParameterValuesResp status => exact five_one (five_node _ (five_before _ _ five_nil))
  | deleteObjectResp status => exact five_one (five_node _ (five_before _ _ five_nil))
  | setParameterAttributesResp => exact five_one (five_node _ five_nil)
  | rebootResp => exact five_one (five_node _ five_nil)
  | scheduleInformResp => exact five_one (five_node _ five_nil)
  | factoryResetResp => exact five_one (five_node _ five_nil)

theorem five_envelope (id : Text) {es : List Element} (h : Five (elementsPrefixes es)) :
    Five (elementPrefixes (envelope id es)) := by
  have hstart : Five (envelopeAttributes.flatMap attributePrefixes) := by decide
  have hid : Five (elementPrefixes (.leaf Tag.id.word [("SOAP-ENV:mustUnderstand".toList, ['1'])] id)) := by
    have hattr : Five (attributePrefixes ("SOAP-ENV:mustUnderstand".toList, ['1'])) := by decide
    exact five_append (five_tag .id) (five_append hattr five_nil)
  exact five_append (five_tag .envelope) (five_append hstart (five_cons (five_node _ (five_one hid)) (five_one (five_node _ h))))

/-- Whatever is sent, the prefixes are those of the five namespaces. -/
theorem Call.five (env : Surroundings) (call : Call) : Five (elementPrefixes (call.envelope env)) := by
  cases call with
  | mustUnderstand => exact five_envelope _ (five_one (five_faultElement _ _ five_nil))
  | versionMismatch => exact five_envelope _ (five_one (five_faultElement _ _ five_nil))
  | generate p =>
    by_cases hp : ∃ transfers, p = .transferComplete transfers
    · obtain ⟨transfers, rfl⟩ := hp
      exact five_envelope _ (five_map five_transferCompleteElement transfers)
    · rw [(generate_conditions env [] fun transfers h => hp ⟨transfers, h⟩).2.1]
      exact five_envelope _ (five_body p)

/-! ## The envelopes of a packet -/

/-- The envelopes that a packet is made of: a TransferComplete writes one for each transfer. -/
def Call.envelopes (env : Surroundings) (gLocalNSptr : List NameSpace) (packet : Text) : Call → List Text
  | .generate (.transferComplete transfers) =>
    (transfers.zipIdx 1).map fun t => sendTransferComplete (initLocalNamespace env gLocalNSptr) (decimal (env.rand t.2)) t.1
  | _ => [packet]

/-- A packet that is no TransferComplete begins with the envelope that has been begun. -/
theorem generateBody_packet {env : Surroundings} {p : Parameter} {head text : Text} {ns ns' : List NameSpace}
    (hp : ∀ transfers, p ≠ .transferComplete transfers) (h : generateBody env ns head p = .done (.packet text, ns')) :
    ∃ rest, text = head ++ rest := by
  obtain ⟨faultCode, faults, rfl⟩ | ⟨transfers, rfl⟩ | hmethod := generateBody_cases p
  · simp only [generateBody] at h
    split at h
    · obtain ⟨detail, -, h⟩ := Outcome.bind_eq_done.1 h
      exact ⟨_, (finish_eq_packet h).symm⟩
    · cases h
  · exact absurd rfl (hp transfers)
  · rw [hmethod] at h
    obtain ⟨sent, -, h⟩ := Outcome.bind_eq_done.1 h
    unfold within at h
    split at h
    · split at h
      · exact ⟨_, (finish_eq_packet h).symm⟩
      · cases h
    · cases h

theorem buildSoapFault_packet {faultCode faultString : String} {env : Surroundings} {ns ns' : List NameSpace} {text : Text}
    (h : buildSoapFault faultCode faultString env ns = .done (.packet text, ns')) :
    ∃ rest, text = List.replicate env.soapSize '\x00' ++ addEnvelopeStart (initLocalNamespace env ns) ++ rest := by
  have hgo := withHeader_eq_packet h
  split at hgo
  · exact ⟨_, (finish_eq_packet hgo).symm.trans (List.append_assoc _ _ _)⟩
  · cases hgo

/-- Each envelope of a packet begins with the declarations of what is in the list then. -/
theorem Call.envelopes_start {env : Surroundings} {call : Call} {ns ns' : List NameSpace} {text e : Text}
    (h : call.run env ns = .done (.packet text, ns')) (he : e ∈ call.envelopes env ns text) :
    ∃ n rest, e = List.replicate n '\x00' ++ addEnvelopeStart (initLocalNamespace env ns) ++ rest := by
  cases call with
  | generate p =>
    change generateSoapPacket env p ns = _ at h
    rw [generateSoapPacket] at h
    by_cases hp : ∃ transfers, p = .transferComplete transfers
    · obtain ⟨transfers, rfl⟩ := hp
      obtain ⟨t, -, rfl⟩ := List.mem_map.1 he
      exact ⟨0, _, rfl⟩
    · have hp : ∀ transfers, p ≠ .transferComplete transfers := fun transfers h => hp ⟨transfers, h⟩
      obtain ⟨rest, htext⟩ := generateBody_packet hp (withHeader_eq_packet h)
      have he : e = text := by
        cases p with
        | transferComplete transfers => exact absurd rfl (hp transfers)
        | _ => exact List.mem_singleton.1 he
      refine ⟨env.soapSize, addHeader (idOf env p) ++ rest, ?_⟩
      rw [he, htext, List.append_assoc]
  | mustUnderstand =>
    obtain rfl := List.mem_singleton.1 he
    exact ⟨env.soapSize, buildSoapFault_packet h⟩
  | versionMismatch =>
    obtain rfl := List.mem_singleton.1 he
    exact ⟨env.soapSize, buildSoapFault_packet h⟩

/-- The envelope declares what the call adds to the list and nothing else, and each prefix that it uses once. -/
def Fresh (env : Surroundings) (call : Call) (e : Text) : Prop :=
  declares e = initLocalNamespace env [] ∧
  ∀ q ∈ elementPrefixes (call.envelope env), ((declares e).map NameSpace.nsname).count q = 1

instance (env : Surroundings) (call : Call) (e : Text) : Decidable (Fresh env call e) := inferInstanceAs (Decidable (_ ∧ _))

/-- There is memory for the namespaces whose prefixes are used. -/
def Provided (env : Surroundings) (call : Call) : Prop :=
  ∀ ns ∈ localNamespaces.zipIdx 1, ns.1.nsname ∈ elementPrefixes (call.envelope env) → env.malloc ns.2 = true

/-- The five have five prefixes, so that each is declared once if there is memory for it. -/
theorem count_initLocalNamespace (env : Surroundings) (call : Call) :
    (∀ q ∈ elementPrefixes (call.envelope env), ((initLocalNamespace env []).map NameSpace.nsname).count q = 1) ↔
      Provided env call := by
  have hnodup : ((initLocalNamespace env []).map NameSpace.nsname).Nodup := by
    have hall : ((localNamespaces.zipIdx 1).map fun ns => ns.1.nsname).Nodup := by decide
    rw [initLocalNamespace, List.nil_append, List.map_map]
    exact hall.sublist (List.filter_sublist.map _)
  constructor
  · intro h ns hns hused
    have hmem := List.count_pos_iff.1 (h _ hused ▸ Nat.one_pos)
    rw [initLocalNamespace, List.nil_append, List.map_map, List.mem_map] at hmem
    obtain ⟨ns', hns', hname⟩ := hmem
    obtain ⟨hns', hmalloc⟩ := List.mem_filter.1 hns'
    have hsame : ∀ x ∈ localNamespaces.zipIdx 1, ∀ y ∈ localNamespaces.zipIdx 1, x.1.nsname = y.1.nsname → x = y := by decide
    rw [← hsame ns' hns' ns hns hname]
    exact hmalloc
  · intro h q hq
    obtain ⟨ns, hns, rfl⟩ := List.mem_map.1 (call.five env q hq)
    obtain ⟨i, hi⟩ : ∃ i, (ns, i) ∈ localNamespaces.zipIdx 1 := by
      have hzip : (localNamespaces.zipIdx 1).map Prod.fst = localNamespaces := List.zipIdx_map_fst 1 _
      rw [← hzip] at hns
      obtain ⟨⟨ns', i⟩, hi, rfl⟩ := List.mem_map.1 hns
      exact ⟨i, hi⟩
    refine List.count_eq_one_of_mem hnodup ?_
    rw [initLocalNamespace, List.nil_append, List.map_map, List.mem_map]
    exact ⟨(ns, i), List.mem_filter.2 ⟨hi, h _ hi hq⟩, rfl⟩

theorem fresh_iff_nil {env : Surroundings} {call : Call} {ns ns' : List NameSpace} {text e : Text} (hknown : Known ns)
    (h : call.run env ns = .done (.packet text, ns')) (he : e ∈ call.envelopes env ns text) :
    Fresh env call e ↔ ns = [] ∧ Provided env call := by
  obtain ⟨n, rest, rfl⟩ := Call.envelopes_start h he
  have hown : initLocalNamespace env ns = initLocalNamespace env [] ↔ ns = [] := by
    rw [initLocalNamespace, initLocalNamespace, List.nil_append, List.append_left_eq_self]
  rw [Fresh, declares_append n (hknown.init env), hown]
  refine and_congr_right fun hns => ?_
  rw [hns, count_initLocalNamespace]

/-! ## What is left over -/

/-- A method has what it needs: an Inform each part of the device id. -/
def Parameter.Complete (env : Surroundings) : Parameter → Prop
  | .sendInform inform =>
    inform.deviceId.manufacturer ≠ some [] ∧ inform.deviceId.oui ≠ some [] ∧ inform.deviceId.productClass ≠ some [] ∧
      inform.deviceId.serialNumber ≠ some []
  | .fault _ _ => env.malloc 6 = true ∧ env.malloc 7 = true ∧ env.malloc 8 = true
  | _ => True

/-- The call comes to the end of `generate_soap_packet`, where the list is emptied. -/
def Completes (call : Surroundings × Call) : Prop :=
  call.1.malloc 0 = true ∧ ∃ p, call.2 = .generate p ∧ idOf call.1 p ≠ [] ∧ p.Complete call.1

/-- The call puts namespaces on the list and leaves them there: a fault of SOAP, or an error. -/
def LeavesNamespaces (call : Surroundings × Call) : Prop :=
  call.1.malloc 0 = true ∧ initLocalNamespace call.1 [] ≠ [] ∧ ¬ Completes call

/-- Behind each call that leaves namespaces there is one that empties the list. -/
def Settled : List (Surroundings × Call) → Prop
  | [] => True
  | call :: calls => (LeavesNamespaces call → ∃ d ∈ calls, Completes d) ∧ Settled calls

theorem sendDeviceId_ok {t : Tag} {part : Option Text} {sofar : Text} {go : Text → Outcome Sent} {sent : Sent} {c : Prop}
    (hgo : ∀ sofar, go sofar = .done sent → (sent.ok = true ↔ c)) (h : sendDeviceId t part sofar go = .done sent) :
    sent.ok = true ↔ part ≠ some [] ∧ c := by
  obtain ⟨text, hpart, htext'⟩ := Outcome.bind_eq_done.1 h
  rw [follow_eq_done.1 hpart]
  by_cases htext : text = []
  · rw [if_pos htext] at htext'
    cases htext'
    exact iff_of_false Bool.false_ne_true fun hc => hc.1 (congrArg some htext)
  · rw [if_neg htext] at htext'
    rw [hgo _ htext']
    exact (and_iff_right fun hc => htext (Option.some.inj hc)).symm

theorem addRPCPalload_ok {env : Surroundings} {p : Parameter} {sent : Sent} (h : addRPCPalload p = .done sent)
    (hfault : ∀ faultCode faults, p ≠ .fault faultCode faults) (hp : ∀ transfers, p ≠ .transferComplete transfers) :
    sent.ok = true ↔ p.Complete env := by
  cases p with
  | sendInform inform =>
    change addInformMethod inform = _ at h
    rw [addInformMethod] at h
    have hparts := sendDeviceId_ok (c := _ ∧ _ ∧ _ ∧ True) (fun _ h => sendDeviceId_ok (fun _ h => sendDeviceId_ok (fun _ h =>
      sendDeviceId_ok (fun _ h => by
        cases h
        exact iff_of_true rfl trivial) h) h) h) h
    rwa [and_true] at hparts
  | fault faultCode faults => exact absurd rfl (hfault faultCode faults)
  | transferComplete transfers => exact absurd rfl (hp transfers)
  | getParameterValuesResp values =>
    obtain ⟨text, -, rfl⟩ := Outcome.map_eq_done.1 h
    exact iff_of_true rfl trivial
  | getParameterAttributesResp attributes =>
    obtain ⟨text, -, rfl⟩ := Outcome.map_eq_done.1 h
    exact iff_of_true rfl trivial
  | requestDownload request =>
    simp only [addRPCPalload, addRequestdownloadMethod] at h
    split at h
    · cases h
      exact iff_of_true rfl trivial
    · cases h
  | _ =>
    cases h
    exact iff_of_true rfl trivial

theorem generateBody_isPacket {env : Surroundings} {head : Text} {p : Parameter} {ns ns' : List NameSpace} {built : Built}
    (h : generateBody env ns head p = .done (built, ns')) : built.isPacket = true ↔ p.Complete env := by
  by_cases hp : ∃ transfers, p = .transferComplete transfers
  · obtain ⟨transfers, rfl⟩ := hp
    simp only [generateBody] at h
    exact iff_of_true (finish_leaves h).1 trivial
  by_cases hf : ∃ faultCode faults, p = .fault faultCode faults
  · obtain ⟨faultCode, faults, rfl⟩ := hf
    simp only [generateBody] at h
    split at h
    next hmalloc =>
      obtain ⟨detail, -, h⟩ := Outcome.bind_eq_done.1 h
      rw [Bool.and_eq_true, Bool.and_eq_true, and_assoc] at hmalloc
      exact iff_of_true (finish_leaves h).1 hmalloc
    next hmalloc =>
      cases h
      rw [Bool.and_eq_true, Bool.and_eq_true, and_assoc] at hmalloc
      exact iff_of_false Bool.false_ne_true hmalloc
  obtain ⟨faultCode, faults, rfl⟩ | ⟨transfers, rfl⟩ | hmethod := generateBody_cases p
  · exact absurd ⟨faultCode, faults, rfl⟩ hf
  · exact absurd ⟨transfers, rfl⟩ hp
  · rw [hmethod] at h
    obtain ⟨sent, hsent, h⟩ := Outcome.bind_eq_done.1 h
    rw [← addRPCPalload_ok hsent (fun c faults h => hf ⟨c, faults, h⟩) fun transfers h => hp ⟨transfers, h⟩]
    unfold within at h
    split at h
    · split at h
      next hok => exact iff_of_true (finish_leaves h).1 hok
      next hok =>
        cases h
        exact iff_of_false Bool.false_ne_true hok
    · cases h

/-- The list behind a call, from what the call is given. -/
theorem Call.run_completes {env : Surroundings} {call : Call} {ns ns' : List NameSpace} {built : Built}
    (h : call.run env ns = .done (built, ns')) :
    (Completes (env, call) ∧ ns' = []) ∨
    (¬ Completes (env, call) ∧ ns' = if env.malloc 0 then initLocalNamespace env ns else ns) := by
  obtain ⟨hm, -, rfl⟩ | ⟨hm, rfl⟩ := Call.run_leaves h
  · refine .inr ⟨fun hc => Bool.false_ne_true (hm.symm.trans hc.1), ?_⟩
    rw [hm]
    rfl
  · have hcompletes : (call.frees && built.isPacket) = true ↔ Completes (env, call) := by
      cases call with
      | mustUnderstand => exact iff_of_false Bool.false_ne_true fun ⟨_, _, h, _⟩ => nomatch h
      | versionMismatch => exact iff_of_false Bool.false_ne_true fun ⟨_, _, h, _⟩ => nomatch h
      | generate p =>
        have hgenerate : Completes (env, .generate p) ↔ idOf env p ≠ [] ∧ p.Complete env := by
          refine ⟨fun ⟨_, p', h, hc⟩ => ?_, fun hc => ⟨hm, p, rfl, hc⟩⟩
          obtain rfl := Call.generate.inj h
          exact hc
        change generateSoapPacket env p ns = _ at h
        rw [generateSoapPacket] at h
        rw [Call.frees, Bool.true_and, hgenerate]
        obtain ⟨hm', -, -⟩ | ⟨-, hid, rfl, -⟩ | ⟨-, hid, head, h⟩ := withHeader_leaves h
        · exact absurd (hm'.symm.trans hm) Bool.false_ne_true
        · exact iff_of_false Bool.false_ne_true fun hc => hc.1 hid
        · rw [generateBody_isPacket h]
          exact (and_iff_right hid).symm
    by_cases hc : Completes (env, call)
    · rw [if_pos (hcompletes.2 hc)]
      exact .inl ⟨hc, rfl⟩
    · rw [if_neg (mt hcompletes.1 hc), if_pos hm]
      exact .inr ⟨hc, rfl⟩

/-- The list is empty behind calls that have settled it. -/
theorem foldl_eq_nil_iff {calls : List (Surroundings × Call)} {ns ns' : List NameSpace}
    (h : Outcome.foldl (fun ns call => (call.2.run call.1 ns).map Prod.snd) ns calls = .done ns') :
    ns' = [] ↔ (ns = [] ∨ ∃ d ∈ calls, Completes d) ∧ Settled calls := by
  induction calls generalizing ns with
  | nil =>
    cases h
    simp [Settled]
  | cons call calls ih =>
    obtain ⟨ns₁, hmap, h⟩ := Outcome.bind_eq_done.1 h
    obtain ⟨⟨built, ns₁'⟩, hcall, rfl⟩ := Outcome.map_eq_done.1 hmap
    rw [ih h, Settled, List.exists_mem_cons_iff]
    obtain ⟨hc, rfl⟩ | ⟨hc, rfl⟩ := Call.run_completes hcall
    · have hleaves : ¬ LeavesNamespaces call := fun hl => hl.2.2 hc
      simp [hc, hleaves]
    · have hkept : (if call.1.malloc 0 then initLocalNamespace call.1 ns else ns) = [] ↔ ns = [] ∧ ¬ LeavesNamespaces call := by
        have hown : initLocalNamespace call.1 ns = ns ++ initLocalNamespace call.1 [] := rfl
        by_cases hm : call.1.malloc 0 = true
        · rw [if_pos hm, hown, List.append_eq_nil_iff, LeavesNamespaces, and_iff_right hm, and_iff_left hc, not_not]
        · rw [if_neg hm]
          exact (and_iff_left fun hl => hm hl.1).symm
      rw [hkept]
      tauto

/-- An envelope, behind whatever calls, declares its own namespaces and each prefix that it uses once, if and only if each earlier
call that left namespaces was followed by one that emptied the list, and there is memory for those whose prefixes are used. -/
theorem fresh_iff {calls : List (Surroundings × Call)} {env : Surroundings} {call : Call} {ns ns' : List NameSpace} {text e : Text}
    (hcalls : leaves calls = .done ns) (h : call.run env ns = .done (.packet text, ns')) (he : e ∈ call.envelopes env ns text) :
    Fresh env call e ↔ Settled calls ∧ Provided env call := by
  have hnil : ns = [] ↔ Settled calls := (foldl_eq_nil_iff hcalls).trans (and_iff_right (.inl rfl))
  rw [fresh_iff_nil (known_of_leaves hcalls) h he, hnil]

/-- Behind a packet, the envelope of the next one is fresh. -/
theorem fresh_iff_example : ∃ text, (valueResponse ['a']).run plainSurroundings [] = .done (.packet text, []) ∧
    (Fresh plainSurroundings (valueResponse ['a']) text ↔ Settled [(plainSurroundings, valueResponse ['b'])] ∧
      Provided plainSurroundings (valueResponse ['a'])) := by
  obtain ⟨hcalls, text, hrun⟩ := built_behind_packet
  exact ⟨text, hrun, fresh_iff hcalls hrun (List.mem_singleton_self text)⟩

/-- Behind a fault of SOAP, an envelope declares the five namespaces twice. -/
theorem not_fresh_behind_fault : ∃ ns text, leaves [(plainSurroundings, .mustUnderstand)] = .done ns ∧
    (valueResponse ['a']).run plainSurroundings ns = .done (.packet text, []) ∧
    text ∈ (valueResponse ['a']).envelopes plainSurroundings ns text ∧
    ¬ Fresh plainSurroundings (valueResponse ['a']) text := by
  have hcalls : leaves [(plainSurroundings, .mustUnderstand)] = .done localNamespaces := by decide +kernel
  have hfresh : ∃ text ∈ packetOf ((valueResponse ['a']).run plainSurroundings localNamespaces),
      ¬ Fresh plainSurroundings (valueResponse ['a']) text := by decide +kernel
  obtain ⟨text, htext, hfresh⟩ := hfresh
  exact ⟨localNamespaces, text, hcalls, packetOf_eq_some htext, List.mem_singleton_self text, hfresh⟩

end CodeFactory.Soap
