import CodeFactory.Ehcc.MsgQueue
import Mathlib.Data.List.TakeWhile

/-!
# Every message is handled once

The queue is as long as the count, with the message that is appended and not counted yet, and the message that is counted down and
not taken yet. So the worker that has counted down finds a message, and what was appended has been handled, is in the worker's
hands or is in the queue, in this order.
-/

namespace CodeFactory.Ehcc.Mq

/-- The `select` thread has appended a message that it has not counted yet. -/
def SelectPc.uncounted : SelectPc → Nat
  | .unlockingQueue | .lockingFlag | .signalling | .raising => 1
  | _ => 0

/-- The worker has counted down for a message that it has not taken out of the queue yet. -/
def WorkerPc.untaken : WorkerPc → Nat
  | .unlockingFlag | .lockingQueue | .cloning | .deleting _ => 1
  | _ => 0

/-- The message that the worker has taken out of the queue and has not handled yet. -/
def WorkerPc.inHand : WorkerPc → List CtrlBlock
  | .unlockingQueue (some msg) | .handling msg => [msg]
  | _ => []

/-- The message, as it goes into a block, that the `select` thread has accepted and not appended yet. -/
def SelectPc.inHand : SelectPc → List (HomeMessage × Int)
  | .numbering msg connfd | .creating msg connfd => [(msg.copied, connfd)]
  | .lockingQueue block | .putting block => [(block.msg, block.connfd)]
  | _ => []

/-- The thread holds the mutex of the queue. -/
def SelectPc.holdsQueue : SelectPc → Bool
  | .putting _ | .unlockingQueue => true
  | _ => false

@[inherit_doc SelectPc.holdsQueue]
def WorkerPc.holdsQueue : WorkerPc → Bool
  | .cloning | .deleting _ | .unlockingQueue _ => true
  | _ => false

/-- The thread holds the mutex of the count. -/
def SelectPc.holdsFlag : SelectPc → Bool
  | .signalling | .raising | .unlockingFlag => true
  | _ => false

@[inherit_doc SelectPc.holdsFlag]
def WorkerPc.holdsFlag : WorkerPc → Bool
  | .testing | .lowering | .unlockingFlag => true
  | _ => false

/-- What a block carries: the message and the descriptor. -/
def CtrlBlock.content (block : CtrlBlock) : HomeMessage × Int := (block.msg, block.connfd)

/-- What a message that is received comes to in a block. -/
def contentOf (m : HomeMessage × Int) : HomeMessage × Int := (m.1.copied, m.2)

/-- A block that is cloned without a change: it is of the version of the protocol, with a `reserve` that `strcpy` has made. -/
def CtrlBlock.Sound (block : CtrlBlock) : Prop :=
  block.msg.protocolVersion = 1 ∧ 0 ∈ block.msg.reserve ∧ block.msg.copied = block.msg

/-- A message that is being made into a block has a zero among the octets of its `reserve`. -/
def SelectPc.ReserveEnds : SelectPc → Prop
  | .creating msg _ => 0 ∈ msg.reserve
  | _ => True

instance (pc : SelectPc) : Decidable pc.ReserveEnds :=
  match pc with
  | .creating msg _ => inferInstanceAs (Decidable (0 ∈ msg.reserve))
  | .reading | .numbering .. | .lockingQueue _ | .putting _ | .unlockingQueue | .lockingFlag | .signalling | .raising
  | .unlockingFlag => isTrue trivial

namespace MsgQueue

/-- When the next step makes a block, the `reserve` of the message is a string: there is a zero among its octets. -/
def ReserveEnds (s : MsgQueue) : Action → Prop
  | .select => s.select.ReserveEnds
  | _ => True

instance (s : MsgQueue) (a : Action) : Decidable (s.ReserveEnds a) :=
  match a with
  | .select => inferInstanceAs (Decidable s.select.ReserveEnds)
  | .receive .. | .worker | .wakeUp | .elsewhere _ => isTrue trivial

/-- The messages so far are accounted for. -/
structure HandledOnce (s : MsgQueue) : Prop where
  /-- The queue is as long as the count and what is in between. -/
  counted : (s.gehomeMsgQueue.length : Int) = s.remoteMsgReadyFlag + s.select.uncounted + s.worker.untaken
  /-- The worker that has counted down finds a message. -/
  found : s.worker.untaken = 1 → s.gehomeMsgQueue ≠ []
  /-- It has been given one. -/
  cloned : s.worker ≠ .unlockingQueue none
  defined : s.undefined = false
  /-- What was appended is handled once each, in the order in which it was appended. -/
  inOrder : s.appended = s.handled ++ s.worker.inHand ++ s.gehomeMsgQueue
  /-- What was received is appended once each, in the order in which it was received. -/
  appended : s.received.map contentOf = s.appended.map CtrlBlock.content ++ s.select.inHand

/-- The steps that the two threads can take without another message coming. -/
def remaining (s : MsgQueue) : Nat :=
  12 * (s.received.length - s.handled.length) +
    (match s.select with
      | .reading => 0
      | .unlockingFlag => 1
      | .raising => 2
      | .signalling => 5
      | .lockingFlag => 6
      | .unlockingQueue => 7
      | .putting _ => 8
      | .lockingQueue _ => 9
      | .creating .. => 10
      | .numbering .. => 11) +
    match s.worker with
      | .handling _ => 1
      | .unlockingQueue _ => 2
      | .deleting _ => 3
      | .cloning => 4
      | .lockingQueue => 5
      | .unlockingFlag => 6
      | .lowering | .waiting => 7
      | .testing => 8
      | .lockingFlag | .woken => 9

/-- When the two threads go on and no other message comes, they come to a stop, and then every message that was received is
handled. -/
def Finishes (s : MsgQueue) : Prop :=
  ∀ (tr : List (Transition MsgQueue Action)) (t : MsgQueue), Run (Step.ofOption step) s tr t → Meets ReserveEnds tr →
    (∀ x ∈ tr, x.2.1 = .select ∨ x.2.1 = .worker) →
    tr.length ≤ s.remaining ∧
      (t.step .select = none → t.step .worker = none → t.handled.map CtrlBlock.content = s.received.map contentOf)

end MsgQueue

/-! ### Blocks -/

theorem strcpyReserve_idem (reserve : List UInt8) :
    strcpyReserve (strcpyReserve reserve) = strcpyReserve reserve := by
  have htake : (strcpyReserve reserve).takeWhile (· ≠ 0) = reserve.takeWhile (· ≠ 0) := by
    unfold strcpyReserve
    have hall : ∀ x ∈ reserve.takeWhile (· ≠ 0), decide (x ≠ 0) = true := fun x hx =>
      List.mem_takeWhile_imp (p := fun x => decide (x ≠ 0)) hx
    rw [List.takeWhile_append_of_pos hall]
    cases 16 - (reserve.takeWhile (· ≠ 0)).length <;> simp [List.replicate_succ]
  rw [strcpyReserve, htake, ← strcpyReserve]

theorem zero_mem_strcpyReserve {reserve : List UInt8} (hlen : reserve.length = 16) (h : 0 ∈ reserve) :
    0 ∈ strcpyReserve reserve := by
  have hlt : (reserve.takeWhile (· ≠ 0)).length < 16 := by
    rw [← hlen]
    refine Nat.lt_of_le_of_ne (List.takeWhile_sublist _).length_le fun heq => ?_
    have hall := (List.takeWhile_eq_self_iff).1 ((List.takeWhile_sublist _).eq_of_length heq)
    simpa using hall 0 h
  refine List.mem_append_right _ (List.mem_replicate.2 ⟨by omega, rfl⟩)

/-- A message with a string for its `reserve` is made into a block that is cloned without a change. -/
theorem createHomeMsgBlock_eq (seqNum : UInt32) {msg : HomeMessage} (connfd : Int) (hversion : msg.protocolVersion = 1)
    (hends : 0 ∈ msg.reserve) :
    ∃ block, createHomeMsgBlock seqNum msg connfd = .done block ∧ block.Sound ∧
      block.content = (msg.copied, connfd) := by
  refine ⟨⟨seqNum, msg.copied, connfd⟩, if_pos hends, ⟨hversion, zero_mem_strcpyReserve msg.reserve_length hends, ?_⟩, rfl⟩
  simp only [HomeMessage.copied, strcpyReserve_idem msg.reserve]

theorem cloneEhMsg_of_sound {block : CtrlBlock} (h : block.Sound) : cloneEhMsg (some block) = .done (some block) := by
  obtain ⟨hversion, hends, hcopied⟩ := h
  unfold cloneEhMsg
  dsimp only
  rw [if_neg (not_not_intro hversion), if_pos hends, hcopied]

/-- The message that is first in the queue is the one of its number that goes, whatever numbers the others have. -/
theorem deleteEhMsgFromQueueBySeqID_of_head {queue : List CtrlBlock} {block : CtrlBlock} (h : queue.head? = some block) :
    deleteEhMsgFromQueueBySeqID queue block.sequenceID = .done queue.tail := by
  cases queue with
  | nil => cases h
  | cons head rest =>
    obtain rfl := Option.some.inj h
    exact if_pos rfl

namespace MsgQueue

/-! ### What each step keeps -/

/-- Each mutex is held by the thread that is between its lock and its unlock. -/
structure Locks (s : MsgQueue) : Prop where
  queueMutex : (s.homeMsgQueueMutex = some .select ↔ s.select.holdsQueue = true) ∧
    (s.homeMsgQueueMutex = some .worker ↔ s.worker.holdsQueue = true)
  flagMutex : (s.remoteMsgMutex = some .select ↔ s.select.holdsFlag = true) ∧
    (s.remoteMsgMutex = some .worker ↔ s.worker.holdsFlag = true)

structure Counts (s : MsgQueue) : Prop where
  counted : (s.gehomeMsgQueue.length : Int) = s.remoteMsgReadyFlag + s.select.uncounted + s.worker.untaken
  /-- The count is not negative, and the worker that is to lower it has seen that it is not zero. -/
  flag : 0 ≤ s.remoteMsgReadyFlag ∧ (s.worker = .lowering → 0 < s.remoteMsgReadyFlag)
  /-- The worker waits only while there is nothing to count down, and the one that raises the count has woken it. -/
  waits : s.worker = .waiting → s.remoteMsgReadyFlag = 0 ∧ s.select ≠ .raising

/-- The blocks. -/
structure Contents (s : MsgQueue) : Prop where
  defined : s.undefined = false
  cloned : s.worker ≠ .unlockingQueue none
  /-- The worker deletes the message that it has cloned. -/
  first : ∀ msg, s.worker = .deleting msg → s.gehomeMsgQueue.head? = some msg
  sound : ∀ block ∈ s.gehomeMsgQueue, block.Sound
  made : ∀ block, s.select = .lockingQueue block ∨ s.select = .putting block → block.Sound
  version : ∀ msg connfd, s.select = .numbering msg connfd ∨ s.select = .creating msg connfd → msg.protocolVersion = 1
  inOrder : s.appended = s.handled ++ s.worker.inHand ++ s.gehomeMsgQueue
  appended : s.received.map contentOf = s.appended.map CtrlBlock.content ++ s.select.inHand

/-- What holds of every state, when every block is made of a string. -/
structure Inv (s : MsgQueue) : Prop where
  locks : Locks s
  counts : Counts s
  contents : Contents s

variable {s t : MsgQueue} {a : Action}

attribute [grind] SelectPc.uncounted WorkerPc.untaken SelectPc.holdsQueue WorkerPc.holdsQueue SelectPc.holdsFlag
  WorkerPc.holdsFlag SelectPc.inHand WorkerPc.inHand

theorem step_eq (hu : s.undefined = false) (hs : s.step a = some t) :
    (∃ msg connfd, a = .receive msg connfd ∧ s.select = .reading ∧
      (checkHomeMsg msg = true ∧
          t = { s with select := .numbering msg connfd, received := s.received ++ [(msg, connfd)] } ∨ t = s)) ∨
    (a = .select ∧ s.stepSelect = some t) ∨ (a = .worker ∧ s.stepWorker = some t) ∨
    (a = .wakeUp ∧ s.worker = .waiting ∧ t = { s with worker := .woken }) ∨
    (∃ n, a = .elsewhere n ∧ t = { s with seqNum := n }) := by
  unfold step at hs
  rw [hu] at hs
  cases a <;> grind

theorem Locks.step (h : Locks s) (hu : s.undefined = false) (hs : s.step a = some t) : Locks t := by
  obtain ⟨hqueue, hflag⟩ := h
  have hcases := step_eq hu hs
  clear hs
  obtain ⟨msg, connfd, rfl, hpc, ⟨-, rfl⟩ | rfl⟩ | ⟨rfl, hs⟩ | ⟨rfl, hs⟩ | ⟨rfl, hpc, rfl⟩ | ⟨n, rfl, rfl⟩ := hcases
  · grind [Locks]
  · grind [Locks]
  · unfold stepSelect at hs
    cases hpc : s.select <;> simp only [hpc] at hs <;> grind [Locks]
  · unfold stepWorker at hs
    cases hpc : s.worker <;> simp only [hpc] at hs <;> grind [Locks]
  · grind [Locks]
  · grind [Locks]

theorem Counts.found (h : Counts s) (hw : s.worker.untaken = 1) : s.gehomeMsgQueue ≠ [] := by
  have hcounted := h.counted
  have hflag := h.flag.1
  intro hnil
  rw [hnil, List.length_nil] at hcounted
  omega

theorem stepSelect_creating (hc : Contents s) {msg : HomeMessage} {connfd : Int} (hpc : s.select = .creating msg connfd)
    (hends : 0 ∈ msg.reserve) :
    ∃ block, s.stepSelect = some { s with select := .lockingQueue block } ∧ block.Sound ∧
      block.content = (msg.copied, connfd) := by
  obtain ⟨block, hblock, hsound, hcontent⟩ := createHomeMsgBlock_eq s.seqNum connfd (hc.version msg connfd (.inr hpc)) hends
  refine ⟨block, ?_, hsound, hcontent⟩
  simp only [stepSelect, hpc, hblock]

theorem stepWorker_cloning (hn : Counts s) (hc : Contents s) (hpc : s.worker = .cloning) :
    ∃ block, s.gehomeMsgQueue.head? = some block ∧ s.stepWorker = some { s with worker := .deleting block } := by
  have hne := hn.found (by rw [hpc]; rfl)
  obtain ⟨block, rest, hqueue⟩ := List.exists_cons_of_ne_nil hne
  refine ⟨block, by rw [hqueue]; rfl, ?_⟩
  have hsound := hc.sound block (hqueue ▸ List.mem_cons_self)
  simp only [stepWorker, hpc, hqueue, List.head?_cons, cloneEhMsg_of_sound hsound]

theorem stepWorker_deleting (hc : Contents s) {msg : CtrlBlock} (hpc : s.worker = .deleting msg) :
    s.stepWorker =
      some { s with gehomeMsgQueue := s.gehomeMsgQueue.tail, worker := .unlockingQueue (some msg) } := by
  simp only [stepWorker, hpc, deleteEhMsgFromQueueBySeqID_of_head (hc.first msg hpc)]

/-- The thread that changes the count holds its mutex, so the other one is not between its test and its change. -/
theorem Counts.step (h : Counts s) (hl : Locks s) (hc : Contents s) (hs : s.step a = some t) (hends : s.ReserveEnds a) :
    Counts t := by
  obtain ⟨hcounted, hflag, hwaits⟩ := id h
  obtain ⟨-, hmutex⟩ := hl
  have hcases := step_eq hc.defined hs
  clear hs
  obtain ⟨msg, connfd, rfl, hpc, ⟨-, rfl⟩ | rfl⟩ | ⟨rfl, hs⟩ | ⟨rfl, hs⟩ | ⟨rfl, hpc, rfl⟩ | ⟨n, rfl, rfl⟩ := hcases
  · grind [Counts]
  · exact h
  · cases hpc : s.select
    case creating msg connfd =>
      obtain ⟨block, hstep, -⟩ := stepSelect_creating hc hpc (by simpa [ReserveEnds, SelectPc.ReserveEnds, hpc] using hends)
      grind [Counts]
    all_goals
      simp only [stepSelect, hpc] at hs
      grind [Counts, putEhMsgToQueue]
  · cases hpc : s.worker
    case cloning =>
      obtain ⟨block, -, hstep⟩ := stepWorker_cloning h hc hpc
      grind [Counts]
    case deleting msg =>
      have hstep := stepWorker_deleting hc hpc
      have hne := h.found (by rw [hpc]; rfl)
      grind [Counts]
    case unlockingQueue msg =>
      cases msg with
      | none => exact absurd hpc hc.cloned
      | some msg =>
        simp only [stepWorker, hpc] at hs
        grind [Counts]
    all_goals
      simp only [stepWorker, hpc] at hs
      grind [Counts]
  · grind [Counts]
  · exact ⟨hcounted, hflag, hwaits⟩

/-- The thread that appends, and the one that takes a message, holds the mutex of the queue; what the worker has cloned stays the
first message until it deletes it. -/
theorem Contents.step (h : Contents s) (hl : Locks s) (hn : Counts s) (hs : s.step a = some t) (hends : s.ReserveEnds a) :
    Contents t := by
  obtain ⟨hdefined, hcloned, hfirst, hsound, hmade, hversion, horder, happended⟩ := id h
  obtain ⟨hmutex, -⟩ := hl
  have hcases := step_eq hdefined hs
  clear hs
  obtain ⟨msg, connfd, rfl, hpc, ⟨hcheck, rfl⟩ | rfl⟩ | ⟨rfl, hs⟩ | ⟨rfl, hs⟩ | ⟨rfl, hpc, rfl⟩ | ⟨n, rfl, rfl⟩ := hcases
  · have hone : msg.protocolVersion = 1 := of_decide_eq_true (Bool.and_eq_true_iff.1 hcheck).1
    refine ⟨hdefined, hcloned, hfirst, hsound, by simp, ?_, horder, ?_⟩
    · rintro msg' connfd' (hsel | hsel)
      · obtain ⟨rfl, -⟩ := SelectPc.numbering.inj hsel
        exact hone
      · cases hsel
    · simpa [SelectPc.inHand, hpc, contentOf] using happended
  · exact h
  · cases hpc : s.select
    case creating msg connfd =>
      obtain ⟨block, hstep, hnew, hcontent⟩ := stepSelect_creating h hpc (by simpa [ReserveEnds, SelectPc.ReserveEnds, hpc] using hends)
      grind [Contents, CtrlBlock.content]
    all_goals
      simp only [stepSelect, hpc] at hs
      grind [Contents, putEhMsgToQueue, CtrlBlock.content]
  · cases hpc : s.worker
    case cloning =>
      obtain ⟨block, hhead, hstep⟩ := stepWorker_cloning hn h hpc
      grind [Contents]
    case deleting msg =>
      obtain ⟨rest, hqueue⟩ := List.head?_eq_some_iff.1 (hfirst msg hpc)
      obtain rfl := Option.some.inj ((stepWorker_deleting h hpc).symm.trans hs)
      refine ⟨hdefined, by simp, by simp, ?_, hmade, hversion, ?_, happended⟩
      · exact fun block hmem => hsound block (List.mem_of_mem_tail hmem)
      · simpa [WorkerPc.inHand, hpc, hqueue] using horder
    case unlockingQueue msg =>
      cases msg with
      | none => exact absurd hpc hcloned
      | some msg =>
        simp only [stepWorker, hpc] at hs
        grind [Contents]
    all_goals
      simp only [stepWorker, hpc] at hs
      grind [Contents]
  · refine ⟨hdefined, by simp, by simp, hsound, hmade, hversion, ?_, happended⟩
    simpa [WorkerPc.inHand, hpc] using horder
  · exact ⟨hdefined, hcloned, hfirst, hsound, hmade, hversion, horder, happended⟩

/-- **The step lemma.** -/
theorem Inv.step (h : Inv s) (hs : s.step a = some t) (hends : s.ReserveEnds a) : Inv t :=
  ⟨h.locks.step h.contents.defined hs, h.counts.step h.locks h.contents hs hends,
    h.contents.step h.locks h.counts hs hends⟩

theorem inv_start : Inv start :=
  ⟨⟨by decide, by decide⟩, ⟨by decide, by decide, by decide⟩, ⟨rfl, by decide, by simp [start], by simp [start], by simp [start],
    by simp [start], rfl, rfl⟩⟩

theorem Inv.handledOnce (h : Inv s) : HandledOnce s :=
  ⟨h.counts.counted, h.counts.found, h.contents.cloned, h.contents.defined, h.contents.inOrder, h.contents.appended⟩

/-! ### Coming to a stop -/

theorem Contents.handled_le (h : Contents s) :
    s.handled.length + s.worker.inHand.length + s.gehomeMsgQueue.length + s.select.inHand.length = s.received.length := by
  have hlen := congrArg List.length h.appended
  rw [List.length_map, List.length_append, List.length_map, h.inOrder, List.length_append, List.length_append] at hlen
  omega

/-- A step of one of the two threads leaves fewer steps. -/
theorem remaining_lt (h : Inv s) (hs : s.step a = some t) (hends : s.ReserveEnds a) (ha : a = .select ∨ a = .worker) :
    t.remaining < s.remaining := by
  have hlen := h.contents.handled_le
  have hcases := step_eq h.contents.defined hs
  rcases ha with rfl | rfl
  · replace hs : s.stepSelect = some t := by simpa using hcases
    cases hpc : s.select
    case creating msg connfd =>
      obtain ⟨block, hstep, -⟩ := stepSelect_creating h.contents hpc (by simpa [ReserveEnds, SelectPc.ReserveEnds, hpc] using hends)
      grind [remaining]
    all_goals
      simp only [stepSelect, hpc] at hs
      grind [remaining]
  · replace hs : s.stepWorker = some t := by simpa using hcases
    cases hpc : s.worker
    case cloning =>
      obtain ⟨block, hhead, hstep⟩ := stepWorker_cloning h.counts h.contents hpc
      grind [remaining]
    case deleting msg =>
      have hstep := stepWorker_deleting h.contents hpc
      grind [remaining]
    case unlockingQueue msg =>
      cases msg with
      | none => exact absurd hpc h.contents.cloned
      | some msg =>
        simp only [stepWorker, hpc] at hs
        grind [remaining]
    all_goals
      simp only [stepWorker, hpc] at hs
      grind [remaining]

/-- A thread that holds a mutex can go on. -/
theorem stepSelect_of_holds (h : s.select.holdsQueue = true ∨ s.select.holdsFlag = true) : s.stepSelect ≠ none := by
  cases hpc : s.select <;> simp [stepSelect, hpc, SelectPc.holdsQueue, SelectPc.holdsFlag] at h ⊢

@[inherit_doc stepSelect_of_holds]
theorem stepWorker_of_holds (h : s.worker.holdsQueue = true ∨ s.worker.holdsFlag = true) : s.stepWorker ≠ none := by
  cases hpc : s.worker
  case cloning =>
    simp only [stepWorker, hpc]
    split <;> simp
  case deleting msg =>
    simp only [stepWorker, hpc]
    split <;> simp
  case testing =>
    simp only [stepWorker, hpc]
    split <;> simp
  case unlockingQueue msg => cases msg <;> simp [stepWorker, hpc]
  all_goals simp [stepWorker, hpc, WorkerPc.holdsQueue, WorkerPc.holdsFlag] at h ⊢

theorem mutex_held {m : Option Thread} (h : m ≠ none) : m = some .select ∨ m = some .worker := by
  rcases m with _ | _ | _
  · exact absurd rfl h
  · exact .inl rfl
  · exact .inr rfl

/-- When neither thread can go on, the `select` thread waits for a message and the worker for the count. -/
theorem waiting_of_stopped (h : Inv s) (hselect : s.stepSelect = none) (hworker : s.stepWorker = none) :
    s.select = .reading ∧ s.worker = .waiting := by
  obtain ⟨⟨hsq, hwq⟩, hsf, hwf⟩ := h.locks
  -- neither holds a mutex, so both are free and no thread waits for one
  have hqueue : s.homeMsgQueueMutex = none := by
    by_contra hne
    rcases mutex_held hne with hm | hm
    · exact stepSelect_of_holds (.inl (hsq.1 hm)) hselect
    · exact stepWorker_of_holds (.inl (hwq.1 hm)) hworker
  have hflag : s.remoteMsgMutex = none := by
    by_contra hne
    rcases mutex_held hne with hm | hm
    · exact stepSelect_of_holds (.inr (hsf.1 hm)) hselect
    · exact stepWorker_of_holds (.inr (hwf.1 hm)) hworker
  constructor
  · cases hpc : s.select
    case reading => rfl
    case creating msg connfd =>
      simp only [stepSelect, hpc] at hselect
      split at hselect <;> cases hselect
    all_goals simp [stepSelect, hpc, hqueue, hflag] at hselect
  · cases hpc : s.worker
    case waiting => rfl
    case cloning => exact absurd hworker (stepWorker_of_holds (.inl (by rw [hpc]; rfl)))
    case deleting msg => exact absurd hworker (stepWorker_of_holds (.inl (by rw [hpc]; rfl)))
    case unlockingQueue msg => exact absurd hworker (stepWorker_of_holds (.inl (by rw [hpc]; rfl)))
    case testing => exact absurd hworker (stepWorker_of_holds (.inr (by rw [hpc]; rfl)))
    all_goals simp [stepWorker, hpc, hqueue, hflag] at hworker

/-- When neither thread can go on every message is handled. -/
theorem handled_of_stopped (h : Inv s) (hselect : s.step .select = none) (hworker : s.step .worker = none) :
    s.handled.map CtrlBlock.content = s.received.map contentOf := by
  simp only [step, h.contents.defined, Bool.false_eq_true, if_false] at hselect hworker
  obtain ⟨hreading, hwaiting⟩ := waiting_of_stopped h hselect hworker
  have hempty : s.gehomeMsgQueue = [] := by
    have hcounted := h.counts.counted
    rw [(h.counts.waits hwaiting).1, hreading, hwaiting] at hcounted
    simpa [SelectPc.uncounted, WorkerPc.untaken] using hcounted
  have horder := h.contents.inOrder
  simp only [hwaiting, hempty, WorkerPc.inHand, List.append_nil] at horder
  have happended : s.received.map contentOf = s.appended.map CtrlBlock.content := by
    simpa [hreading, SelectPc.inHand] using h.contents.appended
  rw [happended, horder]

/-- The threads only receive when a message comes. -/
theorem received_eq (h : Inv s) (hs : s.step a = some t) (ha : a = .select ∨ a = .worker) : t.received = s.received := by
  have hcases := step_eq h.contents.defined hs
  rcases ha with rfl | rfl
  · replace hs : s.stepSelect = some t := by simpa using hcases
    unfold stepSelect at hs
    repeat' split at hs
    all_goals cases hs
    all_goals rfl
  · replace hs : s.stepWorker = some t := by simpa using hcases
    unfold stepWorker at hs
    repeat' split at hs
    all_goals cases hs
    all_goals rfl

/-- The two threads go on until every message is handled. -/
theorem Inv.finishes (h : Inv s) : Finishes s := by
  intro tr t hrun hends hthreads
  have key : tr.length + t.remaining ≤ s.remaining ∧ Inv t ∧ t.received = s.received := by
    induction hrun with
    | nil => exact ⟨Nat.le_of_eq (Nat.zero_add _), h, rfl⟩
    | @snoc tr u t a _ hs ih =>
      obtain ⟨hends, hend⟩ := meets_snoc.1 hends
      obtain ⟨hle, hu, hreceived⟩ := ih hends fun x hx => hthreads x (List.mem_append_left _ hx)
      have ha : a = .select ∨ a = .worker := hthreads _ (List.mem_append_right _ (List.mem_singleton.2 rfl))
      have hlt := remaining_lt hu hs hend ha
      refine ⟨?_, hu.step hs hend, (received_eq hu hs ha).trans hreceived⟩
      rw [List.length_append, List.length_singleton]
      omega
  obtain ⟨hle, ht, hreceived⟩ := key
  exact ⟨by omega, fun hselect hworker => hreceived ▸ handled_of_stopped ht hselect hworker⟩

/-- The step that makes a block of a message whose `reserve` does not end is undefined. -/
theorem not_handledOnce_of_not_ends (hs : s.step a = some t) (hends : ¬s.ReserveEnds a) : ¬HandledOnce t := by
  intro ht
  cases a with
  | select =>
    have hmaking : ∃ msg connfd, s.select = .creating msg connfd ∧ 0 ∉ msg.reserve := by
      simp only [ReserveEnds] at hends
      unfold SelectPc.ReserveEnds at hends
      split at hends
      · rename_i msg connfd hpc
        exact ⟨msg, connfd, hpc, hends⟩
      · exact absurd trivial hends
    obtain ⟨msg, connfd, hpc, hnot⟩ := hmaking
    unfold step at hs
    split at hs
    · cases hs
    · simp only [stepSelect, hpc, createHomeMsgBlock, if_neg hnot] at hs
      obtain rfl := Option.some.inj hs
      exact absurd ht.defined (by simp)
  | receive _ _ => exact hends trivial
  | worker => exact hends trivial
  | wakeUp => exact hends trivial
  | elsewhere _ => exact hends trivial

/-- **Every message is handled once, in order**, in every run of the two threads, exactly when each block is made of a message
whose `reserve` is a string: the messages are accounted for after each step, and if no other message came the threads would go on
until each one is handled. -/
theorem handled_once_iff {tr : List (Transition MsgQueue Action)} (hr : Run (Step.ofOption step) start tr s) :
    Always (fun _ _ t => HandledOnce t ∧ Finishes t) tr ↔ Meets ReserveEnds tr := by
  refine Run.all_iff (I := Inv) inv_start (fun s a t hi hends hs => ?_) (fun s a t hi hends hs ht => ?_) hr
  · have ht := hi.step hs hends
    exact ⟨ht, ht.handledOnce, ht.finishes⟩
  · exact not_handledOnce_of_not_ends hs hends ht.1

/-- A message that asks to open a door. -/
def openDoor (door : UInt8) : HomeMessage where
  protocolVersion := 1
  payloadLen := 5
  reserve := [0, 0, 0, 7, 0, 0, 0, 0, 0, 0, 0, 0, 0, 0, 0, 0]
  eventType := 0x1001
  value := [door]
  reserve_length := rfl
  value_length := Nat.lt_of_sub_eq_succ rfl

/-- Two messages, the second one while the worker takes the first; the second one gets the number of the first, since another
thread has set the counter back. -/
def twoMessages : List Action :=
  [Action.worker, Action.worker, Action.receive (openDoor 1) 5] ++ List.replicate 9 Action.select ++
    List.replicate 4 Action.worker ++ [Action.elsewhere 0, Action.receive (openDoor 2) 6] ++ List.replicate 5 Action.select ++
    List.replicate 7 Action.worker ++ [Action.wakeUp, Action.worker, Action.worker] ++ List.replicate 4 Action.select ++
    List.replicate 9 Action.worker

/-- Both are handled, in the order in which they came. -/
theorem handled_once_two :
    (play step start twoMessages).2.handled.map CtrlBlock.content =
        [((openDoor 1).copied, 5), ((openDoor 2).copied, 6)] ∧
      Always (fun _ _ t => HandledOnce t ∧ Finishes t) (play step start twoMessages).1 :=
  ⟨by decide +kernel, (handled_once_iff (Run.ofPlay step start twoMessages)).2 (by decide +kernel)⟩

/-- A message without a zero in its `reserve`, its type, its length and its value. -/
def withoutEnd : HomeMessage where
  protocolVersion := 1
  payloadLen := 261
  reserve := List.replicate 16 1
  eventType := 0x1001
  value := List.replicate 257 1
  reserve_length := rfl
  value_length := by rw [List.length_replicate]; decide

/-- It is not appended and handled: the step that makes its block writes on behind `reserve`. -/
theorem not_handled_once :
    ¬∀ (tr : List (Transition MsgQueue Action)) (s : MsgQueue), Run (Step.ofOption step) start tr s → HandledOnce s := by
  intro h
  have hrun := h _ _ (Run.ofPlay step start [.receive withoutEnd 5, .select, .select])
  have hbad : (play step start [.receive withoutEnd 5, .select, .select]).2.undefined = true := by decide +kernel
  rw [hrun.defined] at hbad
  cases hbad

end MsgQueue

end CodeFactory.Ehcc.Mq
