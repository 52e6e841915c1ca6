import CodeFactory.Soap.Methods

/-!
# The packets say what they are to say

A packet is read as the document it is to be exactly if what it is built from can be said, and if the builder finds neither
namespaces nor octets of an earlier packet.
-/

namespace CodeFactory.Soap

open Tr69 (Text decimal)
open Xml (Element Markup Plain Lexes Spells isName attributeText Quotable)

/-! ## The envelope -/

/-- The attributes the start of the envelope is written with. -/
def declaredAttributes (gLocalNSptr : List NameSpace) : List (Text × Text) :=
  gLocalNSptr.map (fun ns => ("xmlns:".toList ++ ns.nsname, ns.nsvalue)) ++
    [("SOAP-ENV:encodingStyle".toList, soapEnc1)]

theorem declaredAttributes_eq_iff (gLocalNSptr : List NameSpace) :
    declaredAttributes gLocalNSptr = envelopeAttributes ↔ gLocalNSptr = localNamespaces := by
  rw [declaredAttributes, envelopeAttributes, List.append_left_inj]
  refine (List.map_injective_iff.2 fun ns ns' h => ?_).eq_iff
  obtain ⟨hname, hvalue⟩ := Prod.mk.inj h
  cases ns
  cases ns'
  rw [NameSpace.mk.injEq]
  exact ⟨List.append_cancel_left hname, hvalue⟩

/-- The list of namespaces holds nothing but the five. -/
def Known (gLocalNSptr : List NameSpace) : Prop := ∀ ns ∈ gLocalNSptr, ns ∈ localNamespaces

theorem lexes_declaration : Lexes xmlHead (.instruction xmlDeclaration) := by
  refine ⟨by decide, fun r => ?_⟩
  have hmark : (xmlDeclaration ++ "?>".toList).dropInfix? "?>".toList = some (xmlDeclaration, []) := by rfl
  have hread := dropInfix?_append hmark r
  change Xml.readUpTo "?>".toList .instruction (xmlDeclaration ++ "?>".toList ++ r) = _
  have hlegal : Xml.legal xmlDeclaration = true := by decide
  rw [Xml.readUpTo, hread, Option.bind_some, if_pos hlegal]
  rfl

theorem lexes_envelope {gLocalNSptr : List NameSpace} (hknown : Known gLocalNSptr) :
    Lexes (envelopeTag gLocalNSptr) (.start Tag.envelope.word (declaredAttributes gLocalNSptr)) := by
  have hfive : ∀ ns ∈ localNamespaces, isName ("xmlns:".toList ++ ns.nsname) = true ∧ Quotable ns.nsvalue := by decide
  have hattrs : ∀ a ∈ declaredAttributes gLocalNSptr, isName a.1 = true ∧ Quotable a.2 := by
    intro a ha
    rw [declaredAttributes, List.mem_append, List.mem_map, List.mem_singleton] at ha
    obtain ⟨ns, hns, rfl⟩ | rfl := ha
    · exact hfive ns (hknown ns hns)
    · exact ⟨by decide, by decide⟩
  have h := Xml.lexes_start [] (Tag.isName .envelope)
    (fun _ hc => absurd hc List.not_mem_nil) hattrs
  have htext : (declaredAttributes gLocalNSptr).flatMap attributeText = putLocalNamespace gLocalNSptr ++
      soapAddAttribute "SOAP-ENV:encodingStyle" (some soapEnc1) := by
    rw [declaredAttributes, List.flatMap_append, List.flatMap_map, putLocalNamespace]
    rfl
  rw [htext, List.append_assoc] at h
  exact h

theorem lexes_id : Lexes idTag (.start Tag.id.word [("SOAP-ENV:mustUnderstand".toList, ['1'])]) := by
  have hattrs : ∀ a ∈ [("SOAP-ENV:mustUnderstand".toList, ['1'])], isName a.1 = true ∧ Quotable a.2 := by
    intro a ha
    obtain rfl := List.mem_singleton.1 ha
    exact ⟨by rfl, by decide⟩
  have h := Xml.lexes_start [] (Tag.isName .id) (fun _ hc => absurd hc List.not_mem_nil) hattrs
  rw [List.flatMap_singleton, List.nil_append, ← soapAddAttribute_some] at h
  exact h

theorem spells_markup {raw : Text} {m : Markup} (hm : Lexes raw m) : Spells raw [⟨m, []⟩] True := by
  have h := (Spells.item hm (.inl rfl : ([] : Text) = [] ∨ Plain [])).congr (iff_true_intro ⟨rfl, by decide⟩)
  rwa [List.append_nil] at h

theorem spells_header (id : Text) :
    Spells (addHeaderStart ++ (id ++ (endTag .id ++ endTag .header)))
      (node .header [.leaf Tag.id.word [("SOAP-ENV:mustUnderstand".toList, ['1'])] id]).items (Plain id) := by
  have hleaf := (Spells.leaf lexes_id (lexes_endTag .id) (.inl rfl : id = id ∨ Plain id)).congr (and_iff_right rfl)
  have h := spells_node .header (spells_cons hleaf spells_nil)
  rw [addHeaderStart]
  simpa only [List.append_assoc, List.cons_append, List.nil_append, List.append_nil, and_true] using h

theorem items_envelope (id : Text) (es : List Element) :
    (envelope id es).items = ⟨.start Tag.envelope.word envelopeAttributes, []⟩ ::
      ((node .header [.leaf Tag.id.word [("SOAP-ENV:mustUnderstand".toList, ['1'])] id]).items ++
        (⟨.start Tag.body.word [], []⟩ :: (Element.itemsAll es ++ [⟨.stop Tag.body.word, []⟩, ⟨.stop Tag.envelope.word, []⟩]))) := by
  simp only [envelope, node, Element.items, Element.itemsAll, List.cons_append, List.nil_append, List.append_nil,
    List.append_assoc]

/-- A packet up to the start of the body, and what follows it. -/
theorem spells_packet {gLocalNSptr : List NameSpace} (hknown : Known gLocalNSptr) (id : Text) {tail : Text} {es : List Element}
    {c : Prop}
    (htail : Spells tail (Element.itemsAll es ++ [⟨.stop Tag.body.word, []⟩, ⟨.stop Tag.envelope.word, []⟩]) c) :
    Spells (addEnvelopeStart gLocalNSptr ++ (addHeader id ++ tail))
      (⟨.instruction xmlDeclaration, []⟩ :: (envelope id es).items) (gLocalNSptr = localNamespaces ∧ Plain id ∧ c) := by
  have hdecl := spells_markup lexes_declaration
  have hrest := (spells_header id).append ((spells_markup (lexes_tag .body)).append htail)
  rw [items_envelope, addEnvelopeStart, addHeader]
  by_cases hns : gLocalNSptr = localNamespaces
  · have hstart := spells_markup (lexes_envelope hknown)
    rw [(declaredAttributes_eq_iff gLocalNSptr).2 hns] at hstart
    refine Spells.congr ?_ (and_iff_right hns).symm
    simpa only [List.append_assoc, List.cons_append, List.nil_append, true_and] using hdecl.append (hstart.append hrest)
  · have hother : Markup.start Tag.envelope.word (declaredAttributes gLocalNSptr) ≠ .start Tag.envelope.word envelopeAttributes := by
      intro h
      injection h with _ h
      exact hns ((declaredAttributes_eq_iff gLocalNSptr).1 h)
    refine Spells.congr ?_ (iff_of_false not_false fun h => hns h.1)
    simpa only [List.append_assoc, List.cons_append, List.nil_append, true_and] using
      hdecl.append (Spells.other (s := []) _ (lexes_envelope hknown) hother)

theorem spells_end {body : Text} {es : List Element} {c : Prop} (hbody : Spells body (Element.itemsAll es) c) :
    Spells (body ++ addEnvelopeEnd) (Element.itemsAll es ++ [⟨.stop Tag.body.word, []⟩, ⟨.stop Tag.envelope.word, []⟩]) c := by
  have hend := (spells_markup (lexes_endTag .body)).append (spells_markup (lexes_endTag .envelope))
  exact (hbody.append hend).congr ⟨fun h => h.1, fun h => ⟨h, trivial, trivial⟩⟩

/-- A TransferComplete is one document only if there is one transfer, as each transfer has an envelope of its own. -/
theorem transferComplete_isDocument_iff (env : Surroundings) {gLocalNSptr : List NameSpace} (hknown : Known gLocalNSptr)
    (transfers : List TransferCompleteStruct) :
    Xml.IsDocument xmlDeclaration (envelope (decimal (env.rand 1)) (transfers.map transferCompleteElement))
      (addTransfercompleteMethod env gLocalNSptr transfers) ↔
    gLocalNSptr = localNamespaces ∧ ∃ t, transfers = [t] ∧ t.Sayable := by
  have hdistinct : (envelope (decimal (env.rand 1)) (transfers.map transferCompleteElement)).distinct = true :=
    distinct_envelope _ (distinct_body (.transferComplete transfers))
  rcases transfers with _ | ⟨t, _ | ⟨t', ts⟩⟩
  · refine iff_of_false (fun h => ?_) ?_
    · have hread := h.1
      rw [show addTransfercompleteMethod env gLocalNSptr [] = [] from rfl, Xml.readItems, if_pos rfl] at hread
      cases Option.some.inj hread
    · rintro ⟨-, t, h, -⟩
      cases h
  · have h := spells_packet hknown (decimal (env.rand 1)) (spells_end (spells_cons (spells_transferComplete t) spells_nil))
    have htext : addTransfercompleteMethod env gLocalNSptr [t] = sendTransferComplete gLocalNSptr (decimal (env.rand 1)) t := by
      rw [addTransfercompleteMethod, List.zipIdx_singleton, List.flatMap_singleton]
    rw [htext, sendTransferComplete]
    simp only [List.append_assoc, List.nil_append] at h
    rw [List.map_singleton] at hdistinct ⊢
    rw [Xml.isDocument_iff h hdistinct, and_true, and_iff_right (plain_decimal _)]
    refine and_congr_right fun _ => ⟨fun h => ⟨t, rfl, h⟩, ?_⟩
    rintro ⟨t', heq, h⟩
    obtain ⟨rfl, -⟩ := List.cons_eq_cons.1 heq
    exact h
  · -- the body ends where the second transfer is to stand
    have hother : Markup.stop Tag.body.word ≠ .start Tag.transferComplete.word [] := fun h => Markup.noConfusion h
    obtain ⟨l, hitems⟩ : ∃ l, Element.itemsAll ((t :: t' :: ts).map transferCompleteElement) ++
        [⟨.stop Tag.body.word, []⟩, ⟨.stop Tag.envelope.word, []⟩] =
        (transferCompleteElement t).items ++ ⟨.start Tag.transferComplete.word [], []⟩ :: l := by
      refine ⟨(transferCompleteElement t').items.tail ++ (Element.itemsAll (ts.map transferCompleteElement) ++
        [⟨.stop Tag.body.word, []⟩, ⟨.stop Tag.envelope.word, []⟩]), ?_⟩
      simp only [List.map_cons, Element.itemsAll, transferCompleteElement, node, Element.items, List.append_assoc,
        List.cons_append, List.tail_cons]
    have htail := (spells_transferComplete t).append (Spells.other (s := []) (t := endTag .envelope ++
      ((t' :: ts).zipIdx 2).flatMap fun t => sendTransferComplete gLocalNSptr (decimal (env.rand t.2)) t.1)
      l (lexes_endTag .body) hother)
    rw [← hitems] at htail
    have h := spells_packet hknown (decimal (env.rand 1)) htail
    have htext : addTransfercompleteMethod env gLocalNSptr (t :: t' :: ts) =
        sendTransferComplete gLocalNSptr (decimal (env.rand 1)) t ++
          ((t' :: ts).zipIdx 2).flatMap fun t => sendTransferComplete gLocalNSptr (decimal (env.rand t.2)) t.1 := by
      rw [addTransfercompleteMethod, List.zipIdx_cons, List.flatMap_cons]
    simp only [List.append_assoc] at h
    rw [htext, sendTransferComplete, addEnvelopeEnd]
    simp only [List.append_assoc]
    rw [Xml.isDocument_iff h hdistinct]
    refine iff_of_false (fun h => h.2.2.2) ?_
    rintro ⟨-, t₁, h, -⟩
    cases h

/-- What makes up a packet that is built. -/
theorem withHeader_eq_packet {env : Surroundings} {id text : Text} {gLocalNSptr ns' : List NameSpace}
    {go : List NameSpace → Text → Outcome (Built × List NameSpace)}
    (h : withHeader env id gLocalNSptr go = .done (.packet text, ns')) :
    go (initLocalNamespace env gLocalNSptr)
      (List.replicate env.soapSize '\x00' ++ addEnvelopeStart (initLocalNamespace env gLocalNSptr) ++ addHeader id) =
        .done (.packet text, ns') := by
  simp only [withHeader, within] at h
  split at h
  · split at h
    · split at h
      · cases h
      · cases h
    · split at h
      · exact h
      · cases h
  · cases h

theorem finish_eq_packet {text text' : Text} {ns ns' : List NameSpace} (h : finish text ns = .done (.packet text', ns')) :
    text = text' := by
  unfold finish at h
  split at h
  · cases h
    rfl
  · cases h

/-- A packet with octets before it is no document, and one without is what it is to be if the namespaces are its own. -/
theorem isDocument_packet_iff {n : Nat} {gLocalNSptr : List NameSpace} (hknown : Known gLocalNSptr) (id : Text) {body : Text}
    {es : List Element} {c : Prop} (hes : Element.distinctAll es = true) (hbody : Spells body (Element.itemsAll es) c) :
    Xml.IsDocument xmlDeclaration (envelope id es)
      (List.replicate n '\x00' ++ addEnvelopeStart gLocalNSptr ++ addHeader id ++ (body ++ addEnvelopeEnd)) ↔
    (n = 0 ∧ gLocalNSptr = localNamespaces) ∧ Plain id ∧ c := by
  cases n with
  | zero =>
    have h := Xml.isDocument_iff (spells_packet hknown id (spells_end hbody)) (distinct_envelope id hes)
    rw [List.replicate_zero, List.nil_append, List.append_assoc, h]
    exact and_congr_left' (and_iff_right rfl).symm
  | succ n =>
    refine iff_of_false (fun h => ?_) fun h => Nat.succ_ne_zero n h.1.1
    have hread := h.1
    rw [List.replicate_succ] at hread
    simp only [List.cons_append] at hread
    rw [Xml.readItems, if_neg (List.cons_ne_nil _ _), Xml.readMarkup.eq_def] at hread
    cases hread

/-! ## Runs -/

/-- Calls one after the other, each with what it finds: what they leave of the list of namespaces. -/
def leaves (calls : List (Surroundings × Call)) : Outcome (List NameSpace) :=
  Outcome.foldl (fun ns call => (call.2.run call.1 ns).map Prod.snd) [] calls

/-- A packet has been built. -/
def Built.isPacket : Built → Bool
  | .packet _ => true
  | _ => false

/-- The builder empties the list of namespaces behind a packet. -/
def Call.frees : Call → Bool
  | .generate _ => true
  | _ => false

theorem finish_leaves {text : Text} {ns ns' : List NameSpace} {built : Built} (h : finish text ns = .done (built, ns')) :
    built.isPacket = true ∧ ns' = ns := by
  unfold finish at h
  split at h
  · cases h
    exact ⟨rfl, rfl⟩
  · cases h

/-- A fault and a TransferComplete are written in their own ways, every other packet by its method. -/
theorem generateBody_cases (p : Parameter) :
    (∃ faultCode faults, p = .fault faultCode faults) ∨ (∃ transfers, p = .transferComplete transfers) ∨
    ∀ env ns head, generateBody env ns head p =
      (addRPCPalload p).bind fun sent => within (head ++ sent.text) <|
        if sent.ok then finish (head ++ (sent.text ++ addEnvelopeEnd)) [] else .done (.parameterError, ns) := by
  cases p with
  | fault faultCode faults => exact .inl ⟨faultCode, faults, rfl⟩
  | transferComplete transfers => exact .inr (.inl ⟨transfers, rfl⟩)
  | _ => exact .inr (.inr fun _ _ _ => rfl)

theorem generateBody_leaves {env : Surroundings} {head : Text} {p : Parameter} {ns ns' : List NameSpace} {built : Built}
    (h : generateBody env ns head p = .done (built, ns')) : ns' = if built.isPacket then [] else ns := by
  have hfinish : ∀ text, finish text [] = .done (built, ns') → ns' = if built.isPacket then [] else ns := by
    intro text h
    obtain ⟨hpacket, rfl⟩ := finish_leaves h
    rw [if_pos hpacket]
  obtain ⟨faultCode, faults, rfl⟩ | ⟨transfers, rfl⟩ | hmethod := generateBody_cases p
  · simp only [generateBody] at h
    split at h
    · obtain ⟨detail, -, h⟩ := Outcome.bind_eq_done.1 h
      exact hfinish _ h
    · cases h
      rfl
  · simp only [generateBody] at h
    exact hfinish _ h
  · rw [hmethod] at h
    obtain ⟨sent, -, h⟩ := Outcome.bind_eq_done.1 h
    unfold within at h
    split at h
    · split at h
      · exact hfinish _ h
      · cases h
        rfl
    · cases h

/-- A call that is under way has its namespaces, and leaves them to what comes behind the header, or leaves as it is what is there. -/
theorem withHeader_leaves {env : Surroundings} {id : Text} {ns ns' : List NameSpace} {built : Built}
    {go : List NameSpace → Text → Outcome (Built × List NameSpace)} (h : withHeader env id ns go = .done (built, ns')) :
    (env.malloc 0 = false ∧ built = .mallocFailure ∧ ns' = ns) ∨
    (env.malloc 0 = true ∧ id = [] ∧ built = .parameterError ∧ ns' = initLocalNamespace env ns) ∨
    (env.malloc 0 = true ∧ id ≠ [] ∧ ∃ head, go (initLocalNamespace env ns) head = .done (built, ns')) := by
  simp only [withHeader, within] at h
  split at h
  next hm =>
    split at h
    next hid =>
      split at h
      · cases h
        exact .inr (.inl ⟨hm, hid, rfl, rfl⟩)
      · cases h
    next hid =>
      split at h
      · exact .inr (.inr ⟨hm, hid, _, h⟩)
      · cases h
  next hm =>
    cases h
    exact .inl ⟨Bool.eq_false_iff.2 hm, rfl, rfl⟩

/-- What a call leaves of the list: as it was where there is no memory for a packet, nothing where the builder gives a packet and
empties the list, and otherwise the namespaces of its own, too. -/
theorem Call.run_leaves {env : Surroundings} {call : Call} {ns ns' : List NameSpace} {built : Built}
    (h : call.run env ns = .done (built, ns')) :
    (env.malloc 0 = false ∧ built.isPacket = false ∧ ns' = ns) ∨
    (env.malloc 0 = true ∧ ns' = if call.frees && built.isPacket then [] else initLocalNamespace env ns) := by
  have hfault : ∀ faultCode faultString, buildSoapFault faultCode faultString env ns = .done (built, ns') →
      (env.malloc 0 = false ∧ built.isPacket = false ∧ ns' = ns) ∨
      (env.malloc 0 = true ∧ ns' = initLocalNamespace env ns) := by
    intro faultCode faultString h
    obtain ⟨hm, rfl, rfl⟩ | ⟨hm, -, -, rfl⟩ | ⟨hm, -, head, h⟩ := withHeader_leaves h
    · exact .inl ⟨hm, rfl, rfl⟩
    · exact .inr ⟨hm, rfl⟩
    · split at h
      · exact .inr ⟨hm, (finish_leaves h).2⟩
      · cases h
        exact .inr ⟨hm, rfl⟩
  cases call with
  | generate p =>
    change generateSoapPacket env p ns = _ at h
    rw [generateSoapPacket] at h
    obtain ⟨hm, rfl, rfl⟩ | ⟨hm, -, rfl, rfl⟩ | ⟨hm, -, head, h⟩ := withHeader_leaves h
    · exact .inl ⟨hm, rfl, rfl⟩
    · exact .inr ⟨hm, rfl⟩
    · refine .inr ⟨hm, ?_⟩
      rw [generateBody_leaves h, Call.frees, Bool.true_and]
  | mustUnderstand => exact hfault _ _ h
  | versionMismatch => exact hfault _ _ h

theorem Known.init (env : Surroundings) {ns : List NameSpace} (h : Known ns) : Known (initLocalNamespace env ns) := by
  intro x hx
  rw [initLocalNamespace, List.mem_append, List.mem_map] at hx
  obtain hx | ⟨⟨y, i⟩, hy, rfl⟩ := hx
  · exact h x hx
  · exact List.fst_mem_of_mem_zipIdx (List.mem_of_mem_filter hy)

theorem Call.run_known {env : Surroundings} {call : Call} {ns ns' : List NameSpace} {built : Built} (hknown : Known ns)
    (h : call.run env ns = .done (built, ns')) : Known ns' := by
  obtain ⟨-, -, rfl⟩ | ⟨-, rfl⟩ := Call.run_leaves h
  · exact hknown
  · split
    · exact fun _ hx => nomatch hx
    · exact hknown.init env

theorem known_of_leaves {calls : List (Surroundings × Call)} {ns : List NameSpace} (h : leaves calls = .done ns) : Known ns := by
  refine Outcome.foldl_invariant (I := fun ns _ => Known ns) (fun ns call _ ns' hknown hr => ?_) (fun _ hx => absurd hx List.not_mem_nil) h
  obtain ⟨⟨built, ns''⟩, hcall, rfl⟩ := Outcome.map_eq_done.1 hr
  exact Call.run_known hknown hcall

/-! ## The packets of a run -/

/-- The builder for the methods and for the faults of CWMP. -/
theorem generateBody_isDocument_iff {env : Surroundings} {p : Parameter} {n : Nat} {id : Text} {ns ns' : List NameSpace} {text : Text}
    (hknown : Known ns) (hp : ∀ transfers, p ≠ .transferComplete transfers)
    (h : generateBody env ns (List.replicate n '\x00' ++ addEnvelopeStart ns ++ addHeader id) p = .done (.packet text, ns')) :
    Xml.IsDocument xmlDeclaration (envelope id p.body) text ↔ (n = 0 ∧ ns = localNamespaces) ∧ Plain id ∧ p.Sayable := by
  obtain ⟨faultCode, faults, rfl⟩ | ⟨transfers, rfl⟩ | hmethod := generateBody_cases p
  · simp only [generateBody] at h
    split at h
    · obtain ⟨detail, hdetail, h⟩ := Outcome.bind_eq_done.1 h
      obtain rfl := finish_eq_packet h
      exact isDocument_packet_iff hknown id (distinct_body (.fault faultCode faults))
        (spells_fault (by decide) (by decide) (spells_detail hdetail))
    · cases h
  · exact absurd rfl (hp transfers)
  · rw [hmethod] at h
    obtain ⟨sent, hsent, h⟩ := Outcome.bind_eq_done.1 h
    unfold within at h
    split at h
    · split at h
      next hok =>
        obtain rfl := finish_eq_packet h
        exact isDocument_packet_iff hknown id (distinct_body p) (spells_method hsent hok)
      next => cases h
    · cases h

/-- What is asked of the builder, but for a TransferComplete. -/
theorem generate_conditions (env : Surroundings) (ns : List NameSpace) {p : Parameter}
    (hp : ∀ transfers, p ≠ .transferComplete transfers) :
    (IdSayable env (.generate p) ↔ Plain (idOf env p)) ∧ Call.envelope env (.generate p) = envelope (idOf env p) p.body ∧
    (Ready env ns (.generate p) ↔ env.soapSize = 0 ∧ initLocalNamespace env ns = localNamespaces) := by
  have hrandom : True ↔ Plain (decimal (env.rand 0)) := iff_of_true trivial (plain_decimal _)
  cases p with
  | transferComplete transfers => exact absurd rfl (hp transfers)
  | sendInform inform => exact ⟨hrandom, rfl, Iff.rfl⟩
  | requestDownload request => exact ⟨hrandom, rfl, Iff.rfl⟩
  | _ => exact ⟨Iff.rfl, rfl, Iff.rfl⟩

/-- The builders of the faults of SOAP. -/
theorem buildSoapFault_isDocument_iff {faultCode faultString : String} {env : Surroundings} {ns ns' : List NameSpace} {text : Text}
    (hcode : Plain faultCode.toList) (hstring : Plain faultString.toList) (hknown : Known ns)
    (h : buildSoapFault faultCode faultString env ns = .done (.packet text, ns')) :
    Xml.IsDocument xmlDeclaration (envelope env.gId [faultElement faultCode faultString []]) text ↔
      (env.soapSize = 0 ∧ initLocalNamespace env ns = localNamespaces) ∧ Plain env.gId := by
  have hgo := withHeader_eq_packet h
  split at hgo
  · obtain rfl := finish_eq_packet hgo
    have hiff := isDocument_packet_iff (n := env.soapSize) (hknown.init env) env.gId (distinctAll_cons rfl rfl)
      (spells_fault hcode hstring spells_nil)
    rwa [and_true] at hiff
  · cases hgo

/-- Behind whatever calls, a packet that is built is well-formed and carries its data if and only if the call finds what it needs and
its data can be said. -/
theorem packet_says_iff {calls : List (Surroundings × Call)} {env : Surroundings} {call : Call} {ns ns' : List NameSpace} {text : Text}
    (hcalls : leaves calls = .done ns) (h : call.run env ns = .done (.packet text, ns')) :
    Says env call text ↔ Ready env ns call ∧ IdSayable env call ∧ call.Sayable := by
  have hknown := known_of_leaves hcalls
  cases call with
  | generate p =>
    change generateSoapPacket env p ns = _ at h
    rw [generateSoapPacket] at h
    have hgo := withHeader_eq_packet h
    by_cases hp : ∃ transfers, p = .transferComplete transfers
    · obtain ⟨transfers, rfl⟩ := hp
      simp only [generateBody] at hgo
      obtain rfl := finish_eq_packet hgo
      have hiff := transferComplete_isDocument_iff env (hknown.init env) transfers
      exact hiff.trans (and_congr_right' (and_iff_right trivial).symm)
    · have hp : ∀ transfers, p ≠ .transferComplete transfers := fun transfers h => hp ⟨transfers, h⟩
      obtain ⟨hid, henvelope, hready⟩ := generate_conditions env ns hp
      rw [Says, henvelope, generateBody_isDocument_iff (hknown.init env) hp hgo, hid]
      exact and_congr_left' hready.symm
  | mustUnderstand =>
    have hiff := buildSoapFault_isDocument_iff (by decide) (by decide) hknown h
    exact hiff.trans (and_congr_right' (and_iff_left trivial).symm)
  | versionMismatch =>
    have hiff := buildSoapFault_isDocument_iff (by decide) (by decide) hknown h
    exact hiff.trans (and_congr_right' (and_iff_left trivial).symm)

/-- The packet of a call that leaves no namespaces. -/
def packetOf : Outcome (Built × List NameSpace) → Option Text
  | .done (.packet text, []) => some text
  | _ => none

theorem packetOf_eq_some {r : Outcome (Built × List NameSpace)} {text : Text} (h : packetOf r = some text) :
    r = .done (.packet text, []) := by
  unfold packetOf at h
  split at h
  · cases h
    rfl
  · cases h

/-- Memory for everything, the ID of the request 1, and an empty buffer. -/
def plainSurroundings : Surroundings := ⟨fun _ => true, fun _ => 7, ['1'], 0⟩

/-- The response with the value of one parameter. -/
def valueResponse (value : Text) : Call := .generate (.getParameterValuesResp [⟨['A'], some value, some .xsdString⟩])

theorem built_behind_packet : leaves [(plainSurroundings, valueResponse ['b'])] = .done [] ∧
    ∃ text, (valueResponse ['a']).run plainSurroundings [] = .done (.packet text, []) := by
  have hcalls : leaves [(plainSurroundings, valueResponse ['b'])] = .done [] := by decide +kernel
  have hpacket : (packetOf ((valueResponse ['a']).run plainSurroundings [])).isSome = true := by decide +kernel
  obtain ⟨text, htext⟩ := Option.isSome_iff_exists.1 hpacket
  exact ⟨hcalls, text, packetOf_eq_some htext⟩

/-- The packet with the value `a` is as it is to be. -/
theorem packet_says_iff_example : ∃ text, (valueResponse ['a']).run plainSurroundings [] = .done (.packet text, []) ∧
    (Says plainSurroundings (valueResponse ['a']) text ↔ Ready plainSurroundings [] (valueResponse ['a']) ∧
      IdSayable plainSurroundings (valueResponse ['a']) ∧ (valueResponse ['a']).Sayable) := by
  obtain ⟨hcalls, text, hrun⟩ := built_behind_packet
  exact ⟨text, hrun, packet_says_iff hcalls hrun⟩

/-- A value with a markup character makes a packet that is no XML. -/
theorem packet_not_says : ∃ text, (valueResponse ['a', '<', 'b']).run plainSurroundings [] = .done (.packet text, []) ∧
    ¬ Says plainSurroundings (valueResponse ['a', '<', 'b']) text := by
  have hsays : ∃ text ∈ packetOf ((valueResponse ['a', '<', 'b']).run plainSurroundings []),
      ¬ Says plainSurroundings (valueResponse ['a', '<', 'b']) text := by decide +kernel
  obtain ⟨text, htext, hsays⟩ := hsays
  exact ⟨text, packetOf_eq_some htext, hsays⟩

end CodeFactory.Soap
