import CodeFactory.Core.Session

/-!
# HoldRequests

`soap_parser` keeps the last HoldRequests in a variable of its own file, where NoMoreRequests is written too; `main_session` looks at
another variable of that name, which nothing is written to.
-/

namespace CodeFactory.Core

open Soap

/-! ## The flag -/

def IsBody (soap : Packet) (e : SOAPElement) : Prop :=
  e.Named "Body" ∧ getRemoteNamespace e.nstr soap = some soap.soapEnv

instance (soap : Packet) (e : SOAPElement) : Decidable (IsBody soap e) := inferInstanceAs (Decidable (_ ∧ _))

/-- The element is one of CWMP, with the name given. -/
def IsCwmp (soap : Packet) (word : String) (e : SOAPElement) : Prop :=
  e.Named word ∧ getRemoteNamespace e.nstr soap = some soapCwmp

instance (soap : Packet) (word : String) (e : SOAPElement) : Decidable (IsCwmp soap word e) := inferInstanceAs (Decidable (_ ∧ _))

/-- The last of the elements, up to the body, that is named HoldRequests. -/
def holdElement? (soap : Packet) (els : List SOAPElement) : Option SOAPElement :=
  ((els.takeWhile fun e => ¬IsBody soap e).filter fun e => IsCwmp soap "HoldRequests" e).getLast?

/-- The last of the elements, up to the body, that is named HoldRequests or NoMoreRequests. -/
def flagElement? (soap : Packet) (els : List SOAPElement) : Option SOAPElement :=
  ((els.takeWhile fun e => ¬IsBody soap e).filter fun e => IsCwmp soap "HoldRequests" e ∨ IsCwmp soap "NoMoreRequests" e).getLast?

/-- The header of the packet carries HoldRequests. -/
def holds (soap : Packet) : Bool := ((holdElement? soap soap.element).map fun e => flagOf e.data).getD false

/-- What the flag is when requests are held, or not. -/
def flagValue (held : Bool) : Int := if held then 1 else 0

/-- What the parser writes to the flag at a HoldRequests or NoMoreRequests. -/
def elementFlag (e : SOAPElement) : Int :=
  if e.Named "HoldRequests" then flagValue (flagOf e.data) else intOf e.data

section Parser

variable {soap : Packet} {h : HeaderState} {els : List SOAPElement} {e : SOAPElement} {r : HeaderState × Option (List SOAPElement)}

/-- The flag behind an element of the header. -/
theorem gHoldRequest_headerElement {ns : Tr69.Text} {h' : HeaderState} (hns : getRemoteNamespace e.nstr soap = some ns)
    (he : headerElement h e ns = .done h') :
    h'.gHoldRequest =
      if IsCwmp soap "HoldRequests" e ∨ IsCwmp soap "NoMoreRequests" e then elementFlag e else h.gHoldRequest := by
  have hcwmp : ∀ word, IsCwmp soap word e ↔ e.Named word ∧ ns = soapCwmp := by
    intro word
    rw [IsCwmp, hns, Option.some_inj]
  simp only [hcwmp]
  unfold headerElement at he
  by_cases h1 : e.Named "ID" ∧ ns = soapCwmp
  · have hnot : ¬(e.Named "HoldRequests" ∧ ns = soapCwmp ∨ e.Named "NoMoreRequests" ∧ ns = soapCwmp) := by
      rintro (⟨hname, _⟩ | ⟨hname, _⟩)
      · exact h1.1.not _ (by decide) hname
      · exact h1.1.not _ (by decide) hname
    rw [if_pos h1] at he
    obtain ⟨id, _, he⟩ := Outcome.bind_eq_done.1 he
    cases he
    rw [if_neg hnot]
  rw [if_neg h1] at he
  by_cases h2 : e.Named "HoldRequests" ∧ ns = soapCwmp
  · rw [if_pos h2] at he
    obtain ⟨header, _, he⟩ := Outcome.bind_eq_done.1 he
    cases he
    rw [if_pos (Or.inl h2), elementFlag, if_pos h2.1]
    rfl
  rw [if_neg h2] at he
  by_cases h3 : e.Named "NoMoreRequests" ∧ ns = soapCwmp
  · rw [if_pos h3] at he
    obtain ⟨header, _, he⟩ := Outcome.bind_eq_done.1 he
    cases he
    rw [if_pos (Or.inr h3), elementFlag, if_neg (h3.1.not _ (by decide))]
  rw [if_neg h3] at he
  cases he
  rw [if_neg (not_or.2 ⟨h2, h3⟩)]

/-- **The flag behind the header** is the one of its last HoldRequests or NoMoreRequests. -/
theorem gHoldRequest_parseHeader (hr : parseHeader soap h els = .done r) :
    r.1.gHoldRequest = ((flagElement? soap els).map elementFlag).getD h.gHoldRequest := by
  induction els generalizing h with
  | nil =>
    cases hr
    rfl
  | cons e els ih =>
    rw [parseHeader] at hr
    obtain ⟨ns, hns, hr⟩ := Outcome.bind_eq_done.1 hr
    obtain ⟨h', hh, hr⟩ := Outcome.bind_eq_done.1 hr
    have hflag := gHoldRequest_headerElement (follow_eq_done.1 hns) hh
    have hbody : IsBody soap e ↔ e.Named "Body" ∧ ns = soap.soapEnv := by
      rw [IsBody, follow_eq_done.1 hns, Option.some_inj]
    split at hr
    · rename_i hb
      cases hr
      -- the body has a name of its own
      have hnot : ¬(IsCwmp soap "HoldRequests" e ∨ IsCwmp soap "NoMoreRequests" e) := by
        rintro (hname | hname)
        · exact hb.1.not _ (by decide) hname.1
        · exact hb.1.not _ (by decide) hname.1
      rw [if_neg hnot] at hflag
      simpa [flagElement?, hbody.2 hb] using hflag
    · rename_i hb
      rw [ih hr, hflag]
      have hnotBody : ¬IsBody soap e := fun hbody' => hb (hbody.1 hbody')
      unfold flagElement?
      simp only [List.takeWhile_cons, hnotBody, not_false_eq_true, decide_true, if_true, List.filter_cons]
      by_cases hname : IsCwmp soap "HoldRequests" e ∨ IsCwmp soap "NoMoreRequests" e
      · simp only [hname, decide_true, if_true, List.getLast?_cons]
        cases (List.filter _ (els.takeWhile _)).getLast? <;> rfl
      · simp only [hname, decide_false, if_false]
        rfl

/-- The flag behind a packet. -/
theorem gHoldRequest_soapParser {fuel : Nat} {gHoldRequest : Int} {answer : Answer}
    (ha : soapParser fuel gHoldRequest soap = .done answer) :
    answer.header.gHoldRequest =
      if soap.version = 1 ∨ soap.version = 2 then ((flagElement? soap soap.element).map elementFlag).getD gHoldRequest
      else gHoldRequest := by
  unfold soapParser at ha
  split at ha
  · rename_i hversion
    cases ha
    rw [if_neg (by omega)]
  · rename_i hversion
    rw [if_pos (by omega)]
    obtain ⟨r, hr, ha⟩ := Outcome.bind_eq_done.1 ha
    have hheader : answer.header = r.1 := by
      split at ha
      · cases ha
        rfl
      · obtain ⟨e, _, ha⟩ := Outcome.bind_eq_done.1 ha
        obtain ⟨tmpns, _, ha⟩ := Outcome.bind_eq_done.1 ha
        split at ha
        · cases ha
          rfl
        · obtain ⟨p, _, rfl⟩ := Outcome.map_eq_done.1 ha
          rfl
    rw [hheader]
    exact gHoldRequest_parseHeader hr

/-- The last HoldRequests or NoMoreRequests of the header is a HoldRequests, or a NoMoreRequests with the number for what the
HoldRequests says; if there is neither, the flag was not set before. -/
def FlagMeant (gHoldRequest : Int) (soap : Packet) : Prop :=
  match flagElement? soap soap.element with
  | none => gHoldRequest = 0
  | some e => e.Named "HoldRequests" ∨ intOf e.data = flagValue (holds soap)

instance (gHoldRequest : Int) (soap : Packet) : Decidable (FlagMeant gHoldRequest soap) := by
  unfold FlagMeant
  split <;> infer_instance

theorem holds_of_none (h : flagElement? soap soap.element = none) : holds soap = false := by
  have hnone : holdElement? soap soap.element = none := by
    rw [flagElement?, List.getLast?_eq_none_iff, List.filter_eq_nil_iff] at h
    rw [holdElement?, List.getLast?_eq_none_iff, List.filter_eq_nil_iff]
    intro e he hhold
    exact h e he (decide_eq_true (Or.inl (of_decide_eq_true hhold)))
  rw [holds, hnone]
  rfl

/-- If the last of the two is a HoldRequests, it is the last of these. -/
theorem holds_of_named (h : flagElement? soap soap.element = some e) (hname : e.Named "HoldRequests") :
    holds soap = flagOf e.data := by
  obtain ⟨front, hfront⟩ := List.getLast?_eq_some_iff.1 h
  have hmem : e ∈ (soap.element.takeWhile fun e => ¬IsBody soap e).filter fun e =>
      IsCwmp soap "HoldRequests" e ∨ IsCwmp soap "NoMoreRequests" e := List.mem_of_getLast? h
  have hcwmp : IsCwmp soap "HoldRequests" e := by
    rcases of_decide_eq_true (List.mem_filter.1 hmem).2 with hhold | hnoMore
    · exact hhold
    · exact absurd hname (hnoMore.1.not _ (by decide))
  have hfilter : (soap.element.takeWhile fun e => ¬IsBody soap e).filter (fun e => IsCwmp soap "HoldRequests" e) =
      (front ++ [e]).filter fun e => IsCwmp soap "HoldRequests" e := by
    rw [← hfront, List.filter_filter]
    refine List.filter_congr ?_
    intro x _
    by_cases hx : IsCwmp soap "HoldRequests" x <;> simp [hx]
  rw [holds, holdElement?, hfilter, List.filter_append, List.filter_singleton]
  simp [hcwmp]

/-- The flag says whether the packet holds exactly if it was meant to be read so. -/
theorem flag_eq_iff (gHoldRequest : Int) : ((flagElement? soap soap.element).map elementFlag).getD gHoldRequest =
    flagValue (holds soap) ↔ FlagMeant gHoldRequest soap := by
  unfold FlagMeant
  cases h : flagElement? soap soap.element with
  | none =>
    rw [holds_of_none h]
    rfl
  | some e =>
    by_cases hname : e.Named "HoldRequests"
    · refine iff_of_true ?_ (Or.inl hname)
      rw [holds_of_named h hname, Option.map_some, Option.getD_some, elementFlag, if_pos hname]
    · rw [Option.map_some, Option.getD_some, elementFlag, if_neg hname]
      simp [hname]

end Parser

/-! ## Sessions -/

/-- Whether the server holds, by the last envelope `soap_parser` has looked at. -/
def heldAfter (held : Bool) : Received → Bool
  | .packet soap _ => if soap.version = 1 ∨ soap.version = 2 then holds soap else held
  | _ => held

/-- The flag of the parser when a packet has been looked at. -/
def flagAfter (gHoldRequest : Int) : Received → Int
  | .packet soap _ =>
    if soap.version = 1 ∨ soap.version = 2 then ((flagElement? soap soap.element).map elementFlag).getD gHoldRequest
    else gHoldRequest
  | _ => gHoldRequest

/-- The session, and whether the server holds. An agent that has been started anew is held by no one. -/
def holdStep (x : SessionState × Bool) (a : SessionEvent) : Option (SessionState × Bool) :=
  (session x.1 a).map fun s =>
    match a with
    | .receive received _ => (s, heldAfter x.2 received)
    | .restart => (s, false)
    | _ => (s, x.2)

/-- Between the two states a request is on its way: a TransferComplete with results, or a RequestDownload. -/
def SendsRequest (s t : SessionState) : Prop :=
  (s.point = .transferComplete ∧ t.point = .transferCompleteSent ∧ t.transferComplete ≠ []) ∨
    (s.point = .requestDownload ∧ t.point = .requestDownloadSent)

instance (s t : SessionState) : Decidable (SendsRequest s t) := inferInstanceAs (Decidable (_ ∨ _))

/-- The step honours HoldRequests: behind it the flag says what the last envelope said, and it sends no request when that held. -/
structure HonoursHold (x : SessionState × Bool) (_ : SessionEvent) (y : SessionState × Bool) : Prop where
  flag : y.1.parserHoldRequest = flagValue y.2
  quiet : SendsRequest x.1 y.1 → x.2 = false

/-- An envelope sets the flag by its HoldRequests, and while the server holds there is nothing to report and no download to request. -/
def NothingHeld (x : SessionState × Bool) : SessionEvent → Prop
  | .receive (.packet soap _) _ => soap.version = 1 ∨ soap.version = 2 → FlagMeant x.1.parserHoldRequest soap
  | .transferComplete _ generated => x.2 = true → generated = true →
    x.1.results = [] ∨ (x.1.gMaxSendEnvelopes = 0 ∧ x.1.transferComplete = [])
  | .requestDownload generated => x.2 = true → generated = true → x.1.gRequestDownloadType = none
  | _ => True

instance (x : SessionState × Bool) : (a : SessionEvent) → Decidable (NothingHeld x a)
  | .receive (.packet soap _) _ =>
    inferInstanceAs (Decidable (soap.version = 1 ∨ soap.version = 2 → FlagMeant x.1.parserHoldRequest soap))
  | .transferComplete _ generated => inferInstanceAs (Decidable (x.2 = true → generated = true →
      x.1.results = [] ∨ (x.1.gMaxSendEnvelopes = 0 ∧ x.1.transferComplete = [])))
  | .requestDownload generated => inferInstanceAs (Decidable (x.2 = true → generated = true → x.1.gRequestDownloadType = none))
  | .receive .empty _ | .receive .notXml _ | .receive (.notSoap _) _ | .inform _ | .sendFailed | .nullPacket _ | .store _ | .restart =>
    .isTrue trivial

/-- The flag of `main_session` is never set, that of the parser says whether the server holds. -/
structure FlagsSet (x : SessionState × Bool) : Prop where
  unset : x.1.gHoldRequest = 0
  parser : x.1.parserHoldRequest = flagValue x.2

section Step

variable {s t : SessionState} {x y : SessionState × Bool} {a : SessionEvent}

/-- What the answer to a packet does to the flags, and to the point. -/
theorem session_receive {received : Received} {sent : Bool} (h : session s (.receive received sent) = some t) :
    ∃ handled, handleSoapPacket s.parserHoldRequest received = some (handled, t.parserHoldRequest) ∧
      t.gHoldRequest = s.gHoldRequest ∧ ¬SendsRequest s t := by
  obtain ⟨⟨handled, hold⟩, hhandled, h⟩ := Option.bind_eq_some_iff.1 h
  have hpoint : ∀ u : SessionState, s.point ≠ .transferComplete → s.point ≠ .requestDownload → ¬SendsRequest s u := by
    rintro u h1 h2 (⟨hp, _⟩ | ⟨hp, _⟩)
    · exact h1 hp
    · exact h2 hp
  refine ⟨handled, ?_⟩
  simp only at h
  split at h
  · rename_i hp
    cases h
    refine ⟨?_, ?_, hpoint _ (by simp [hp]) (by simp [hp])⟩
    all_goals
      unfold handleInformResponse
      split <;> first | exact hhandled | rfl
  · rename_i hp
    cases h
    refine ⟨?_, ?_, hpoint _ (by simp [hp]) (by simp [hp])⟩
    all_goals
      unfold handleTransferCompleteResponse
      split <;> first | exact hhandled | rfl
  · rename_i hp
    cases h
    refine ⟨?_, ?_, hpoint _ (by simp [hp]) (by simp [hp])⟩
    all_goals
      unfold handleRequestDownloadResponse
      split <;> first | exact hhandled | rfl
  · rename_i hp
    have hflags : t.parserHoldRequest = hold ∧ t.gHoldRequest = s.gHoldRequest := by
      unfold handleServerPacket at h
      split at h
      · cases h
        exact ⟨rfl, rfl⟩
      · simp only at h
        split at h
        · cases h
          exact ⟨rfl, rfl⟩
        · cases h
        · cases h
          exact ⟨rfl, rfl⟩
      all_goals
        cases h
        exact ⟨rfl, rfl⟩
    exact ⟨hflags.1 ▸ hhandled, hflags.2, hpoint _ (by simp [hp]) (by simp [hp])⟩
  · cases h

/-- What a packet does to the flag of the parser. -/
theorem handleSoapPacket_hold {g g' : Int} {received : Received} {handled : Handled}
    (h : handleSoapPacket g received = some (handled, g')) :
    g' = flagAfter g received := by
  cases received with
  | packet soap reply =>
    simp only [handleSoapPacket] at h
    split at h
    · rename_i answer hanswer
      have hflag := gHoldRequest_soapParser hanswer
      rw [flagAfter, ← hflag]
      split at h
      · cases h
        rfl
      · cases h
        rfl
      · cases h
        rfl
    · cases h
  | _ =>
    cases h
    rfl

/-- **A step honours HoldRequests exactly if nothing is held by it.** -/
theorem FlagsSet.honours_iff (hx : FlagsSet x) (h : holdStep x a = some y) :
    y.1.gHoldRequest = 0 ∧ (HonoursHold x a y ↔ NothingHeld x a) := by
  obtain ⟨s, held⟩ := x
  obtain ⟨hunset, hparser⟩ := hx
  simp only at hunset hparser
  obtain ⟨t, ht, rfl⟩ := Option.map_eq_some_iff.1 h
  -- a step that leaves the flags alone and sends nothing
  have hsame : ∀ b, t.parserHoldRequest = s.parserHoldRequest → ¬SendsRequest s t → HonoursHold (s, held) b (t, held) := by
    intro b hkept hnot
    exact ⟨hkept.trans hparser, fun hsends => absurd hsends hnot⟩
  cases a with
  | receive received sent =>
    obtain ⟨handled, hhandled, hgHold, hnot⟩ := session_receive ht
    have hflag := handleSoapPacket_hold hhandled
    refine ⟨hgHold.trans hunset, ?_⟩
    have hiff : HonoursHold (s, held) (.receive received sent) (t, heldAfter held received) ↔
        flagAfter s.parserHoldRequest received = flagValue (heldAfter held received) := by
      constructor
      · intro hok
        exact hflag.symm.trans hok.flag
      · intro heq
        exact ⟨hflag.trans heq, fun hsends => absurd hsends hnot⟩
    refine hiff.trans ?_
    cases received with
    | packet soap reply =>
      simp only [NothingHeld, flagAfter, heldAfter]
      by_cases hversion : soap.version = 1 ∨ soap.version = 2
      · rw [if_pos hversion, if_pos hversion, flag_eq_iff]
        exact ⟨fun hmeant _ => hmeant, fun hmeant => hmeant hversion⟩
      · rw [if_neg hversion, if_neg hversion]
        exact iff_of_true hparser fun hversion' => absurd hversion' hversion
    | _ => exact iff_of_true hparser trivial
  | transferComplete scanned generated =>
    simp only [session] at ht
    split at ht
    · cases ht
    rename_i hpoint
    obtain ⟨hpoint, hperm⟩ := not_or.1 hpoint
    have hpoint : s.point = .transferComplete := not_not.1 hpoint
    have hperm : scanned.Perm s.results := not_not.1 hperm
    -- behind the loop
    have hbehind : ¬SendsRequest s { s with point := .requestDownload, transferComplete := [] } := by
      rintro (⟨_, hp, _⟩ | ⟨_, hp⟩)
      · cases hp
      · cases hp
    split at ht
    · rename_i hsome
      split at ht
      · rename_i hgenerated
        cases ht
        refine ⟨hunset, ?_⟩
        have hempty : updateTransferCompleteContent s.transferComplete s.gMaxSendEnvelopes scanned = [] ↔
            s.results = [] ∨ (s.gMaxSendEnvelopes = 0 ∧ s.transferComplete = []) := by
          have hscanned : scanned ≠ [] := by
            intro hnil
            rw [hnil] at hperm
            exact hsome.2 hperm.nil_eq.symm
          unfold updateTransferCompleteContent
          split
          · rename_i hzero
            simp [hsome.2, hzero]
          · rename_i hzero
            simp [hsome.2, hzero, hscanned]
        simp only [NothingHeld]
        rw [← hempty]
        constructor
        · intro hok hheld _
          by_contra hne
          have hquiet := hok.quiet (Or.inl ⟨hpoint, rfl, hne⟩)
          rw [hheld] at hquiet
          cases hquiet
        · intro hnothing
          refine ⟨hparser, ?_⟩
          rintro (⟨_, _, hne⟩ | ⟨_, hp⟩)
          · by_contra hheld
            exact hne (hnothing (eq_true_of_ne_false hheld) hgenerated)
          · cases hp
      · rename_i hgenerated
        cases ht
        refine ⟨hunset, iff_of_true (hsame _ rfl hbehind) ?_⟩
        intro _ hgen
        exact absurd hgen hgenerated
    · rename_i hnone
      cases ht
      refine ⟨hunset, iff_of_true (hsame _ rfl hbehind) ?_⟩
      intro _ _
      have hone : s.gHoldRequest ≠ 1 := by
        rw [hunset]
        decide
      exact Or.inl (not_not.1 fun hne => hnone ⟨hone, hne⟩)
  | requestDownload generated =>
    simp only [session] at ht
    split at ht
    · cases ht
    rename_i hpoint
    have hpoint : s.point = .requestDownload := not_not.1 hpoint
    split at ht
    · rename_i hsome
      cases ht
      refine ⟨hunset, ?_⟩
      simp only [NothingHeld]
      constructor
      · intro hok hheld hgenerated
        have hquiet := hok.quiet (Or.inr ⟨hpoint, by simp [hgenerated]⟩)
        rw [hheld] at hquiet
        cases hquiet
      · intro hnothing
        refine ⟨hparser, ?_⟩
        rintro (⟨_, hp, _⟩ | ⟨_, hp⟩)
        · simp only at hp
          split at hp <;> cases hp
        · by_contra hheld
          have hgenerated : generated = true := by
            by_contra hgen
            simp [hgen] at hp
          exact hsome.1 (hnothing (eq_true_of_ne_false hheld) hgenerated)
    · rename_i hnone
      cases ht
      refine ⟨hunset, iff_of_true (hsame _ rfl ?_) ?_⟩
      · rintro (⟨_, hp, _⟩ | ⟨_, hp⟩)
        · cases hp
        · cases hp
      · intro _ _
        have hone : s.gHoldRequest ≠ 1 := by
          rw [hunset]
          decide
        exact not_not.1 fun hne => hnone ⟨hne, hone⟩
  | restart =>
    cases ht
    refine ⟨rfl, iff_of_true ⟨rfl, ?_⟩ trivial⟩
    rintro (⟨_, hp, _⟩ | ⟨_, hp⟩)
    · cases hp
    · cases hp
  | store result =>
    cases ht
    refine ⟨hunset, iff_of_true (hsame _ rfl ?_) trivial⟩
    rintro (⟨hp, hp', _⟩ | ⟨hp, hp'⟩)
    · rw [hp] at hp'
      cases hp'
    · rw [hp] at hp'
      cases hp'
  | inform _ | sendFailed | nullPacket _ =>
    simp only [session] at ht
    split at ht
    · rename_i hpoint
      cases ht
      refine ⟨hunset, iff_of_true (hsame _ rfl ?_) trivial⟩
      rintro (⟨hp, hp', _⟩ | ⟨hp, hp'⟩)
      · simp [hp] at hpoint
      · simp [hp] at hpoint
    · cases ht

end Step

/-- **HoldRequests is honoured** in the runs in which every envelope sets the flag by its HoldRequests, and nothing is there to be
sent while the server holds; and in no other run. -/
theorem hold_requests_honoured_iff (results : List TransferResult)
    {tr : List (Transition (SessionState × Bool) SessionEvent)} {x : SessionState × Bool}
    (hr : Run (Step.ofOption holdStep) (.init results, false) tr x) : Always HonoursHold tr ↔ Meets NothingHeld tr := by
  refine Run.all_iff (I := FlagsSet) ⟨rfl, rfl⟩ ?_ ?_ hr
  · intro x a y hx hg hs
    obtain ⟨hunset, hiff⟩ := hx.honours_iff hs
    have hok := hiff.2 hg
    exact ⟨⟨hunset, hok.flag⟩, hok⟩
  · intro x a y hx hg hs hok
    exact hg ((hx.honours_iff hs).2.1 hok)

/-- A session of an agent with a result, the answer to the Inform with the header given. -/
def heldSession (header : List (String × String)) (results : List TransferResult) : List SessionEvent :=
  [.inform none, .receive (.packet (serverPacket header "InformResponse") false) true, .transferComplete results true]

/-- The transitions of the session. -/
def heldRun (header : List (String × String)) (results : List TransferResult) :
    List (Transition (SessionState × Bool) SessionEvent) :=
  (play holdStep (.init results, false) (heldSession header results)).1

/-- A held session without results. -/
theorem hold_requests_honoured_held : Always HonoursHold (heldRun [("HoldRequests", "1")] []) :=
  (hold_requests_honoured_iff [] (Run.ofPlay holdStep _ _)).2 (by decide +kernel)

/-- With a result a TransferComplete is sent, though the server holds. -/
theorem hold_requests_ignored : ¬∀ (results : List TransferResult) (tr : List (Transition (SessionState × Bool) SessionEvent))
    (x : SessionState × Bool), Run (Step.ofOption holdStep) (.init results, false) tr x → Always HonoursHold tr := by
  intro h
  have hok := h [⟨"down_eventcode.0".toList, [], 0, [], []⟩] _ _ (Run.ofPlay holdStep _
    (heldSession [("HoldRequests", "1")] [⟨"down_eventcode.0".toList, [], 0, [], []⟩]))
  have hsent : ∃ y ∈ heldRun [("HoldRequests", "1")] [⟨"down_eventcode.0".toList, [], 0, [], []⟩],
      SendsRequest y.1.1 y.2.2.1 ∧ y.1.2 = true := by
    decide +kernel
  obtain ⟨y, hy, hsends, hheld⟩ := hsent
  have hquiet := (hok y hy).quiet hsends
  rw [hheld] at hquiet
  cases hquiet

end CodeFactory.Core
