import LinkedsemiZephyr.Ipmi.IpmbFrame
import LinkedsemiZephyr.Lib.Sweep
import Mathlib.Logic.Function.Basic

/-! The sequence numbers and the list of outstanding requests of one IPMB index. All that works on
the list holds `mutex_id`, and where that cannot be locked in time nothing happens; `get_free_seq`
goes without. -/
namespace LinkedsemiZephyr.Ipmb
open Sweep

abbrev seqNum : Nat := 64
abbrev maxSeqQuene : UInt32 := 15
abbrev ipmbSeqTimeoutMs : UInt32 := 3000

/-- `P_start[index]` with the nodes behind it, the last of which leads back to it unless the list
was left open, and what is counted beside them. A walk that comes to the open end goes through a
null pointer; it is taken to find nothing there. -/
structure SeqQueue where
  nodes : List IpmiMsg := []
  circular : Bool := true
  seqCurrentCount : UInt32 := 0
  currentSeq : UInt8 := 0
  seqTable : UInt8 → Bool := fun _ => false

/-- What the timeout handler compares with. -/
structure Timer where
  sysTickFreq : UInt32
  tickFix : UInt32
  deriving DecidableEq, Repr

/-- A node stays overdue until the counter comes round. -/
def Timer.overdue (timer : Timer) (currentTime timestamp : UInt32) : Bool :=
  let age := currentTime + timer.tickFix - timestamp
  age > ipmbSeqTimeoutMs / 1000 * timer.sysTickFreq || age &&& 0x80000000 != 0

namespace SeqQueue

def unregisterSeq (q : SeqQueue) (seq : UInt8) : SeqQueue :=
  { q with seqTable := Function.update q.seqTable seq false }

def registerSeq (q : SeqQueue) (seq : UInt8) : SeqQueue :=
  { q with seqTable := Function.update q.seqTable seq true }

/-- The loop of `get_free_seq`, with the number of tests left. -/
def scanSeq (table : UInt8 → Bool) : Nat → UInt8 → UInt8
  | 0, seq => seq
  | n + 1, seq =>
    let seq := (seq + 1) &&& 0x3f
    if table seq then scanSeq table n seq else seq

def getFreeSeq (q : SeqQueue) : UInt8 × SeqQueue :=
  let seq := scanSeq q.seqTable seqNum q.currentSeq
  (seq, { q with currentSeq := seq })

/-- `No more room, remove the first node`; its number stays registered. -/
def evict (q : SeqQueue) : SeqQueue :=
  if q.seqCurrentCount = maxSeqQuene then
    { q with nodes := q.nodes.tail, seqCurrentCount := q.seqCurrentCount - 1 }
  else q

/-- The new node behind all others. -/
def append (q : SeqQueue) (node : IpmiMsg) : SeqQueue :=
  let q := q.registerSeq node.seqTarget
  { q with nodes := q.nodes ++ [node], seqCurrentCount := q.seqCurrentCount + 1 }

/-- The result of `malloc` goes into the last link first: without memory the list stays open, and
into an open list nothing is put. -/
def insertReqIpmiMsg (q : SeqQueue) (msg : IpmiMsg) (now : UInt32) (allocated : Bool) : SeqQueue :=
  let q := q.evict
  if q.circular = false then q
  else if allocated then q.append { msg with timestamp := now }
  else { q with circular := false }

/-- The first node with a property is unlinked and its number given back. -/
def unlink (q : SeqQueue) (p : IpmiMsg → Bool) : Option (IpmiMsg × SeqQueue) :=
  match q.nodes.find? p with
  | none => none
  | some node =>
    let q := q.unregisterSeq node.seqTarget
    some (node, { q with nodes := q.nodes.eraseP p, seqCurrentCount := q.seqCurrentCount - 1 })

def answers (msg node : IpmiMsg) : Bool :=
  node.netfn == (msg.netfn &&& ~~~0x01) && node.cmd == msg.cmd && node.seqTarget == msg.seqTarget

/-- `find source sequence for responding`, and the interfaces the request came by. -/
def returnTo (msg node : IpmiMsg) : IpmiMsg :=
  { msg with
    seqSource := node.seqSource
    pldmInstId := node.pldmInstId
    inFSource := node.inFSource
    inFTarget := node.inFTarget }

def findReqIpmiMsg (q : SeqQueue) (msg : IpmiMsg) : Option (IpmiMsg × SeqQueue) :=
  match q.unlink (answers msg) with
  | none => none
  | some (node, q) => some (returnTo msg node, q)

/-- The queue behind `find_req_ipmi_msg`, whether it finds one or not. -/
def takeReq (q : SeqQueue) (msg : IpmiMsg) : SeqQueue :=
  match q.findReqIpmiMsg msg with
  | none => q
  | some (_, q) => q

def sameRequest (msg node : IpmiMsg) : Bool :=
  node.netfn == msg.netfn && node.cmd == msg.cmd && node.seq == msg.seq

def clearReqIpmiMsg (q : SeqQueue) (msg : IpmiMsg) : SeqQueue :=
  match q.unlink (sameRequest msg) with
  | none => q
  | some (_, q) => q

/-- What the timeout handler does besides unlinking. -/
def release (st : (UInt8 → Bool) × UInt32) (node : IpmiMsg) : (UInt8 → Bool) × UInt32 :=
  (Function.update st.1 node.seqTarget false, st.2 - 1)

/-- `IPMB_SeqTimeout_handler` over one index; `clock` is what each test reads. -/
def seqTimeout (timer : Timer) (clock : Nat → UInt32) (q : SeqQueue) : SeqQueue :=
  let swept := sweep (fun n node => timer.overdue (clock n) node.timestamp) release 0
    (q.seqTable, q.seqCurrentCount) [] q.nodes
  { q with nodes := swept.2, seqTable := swept.1.1, seqCurrentCount := swept.1.2 }

variable {q q' : SeqQueue} {msg node out : IpmiMsg} {p : IpmiMsg → Bool} {timer : Timer}
  {clock : Nat → UInt32}

/-! ### What each operation does to the list -/

/-- The counter counts the nodes, of which there are never more than fit. -/
structure Counted (q : SeqQueue) : Prop where
  count : q.seqCurrentCount.toNat = q.nodes.length
  room : q.nodes.length ≤ 15

theorem Counted.pred (h : q.Counted) {n : Nat} (hn : n + 1 = q.nodes.length) :
    (q.seqCurrentCount - 1).toNat = n := by
  have hcount := h.count
  have hle : (1 : UInt32) ≤ q.seqCurrentCount := by
    rw [UInt32.le_iff_toNat_le]
    change 1 ≤ _
    omega
  rw [UInt32.toNat_sub_of_le _ _ hle, hcount, ← hn]
  rfl

theorem evict_nodes_sublist (q : SeqQueue) : q.evict.nodes.Sublist q.nodes := by
  unfold evict
  split
  · exact List.tail_sublist q.nodes
  · exact List.Sublist.refl _

theorem Counted.evict (h : q.Counted) : q.evict.Counted ∧ q.evict.nodes.length < 15 := by
  have hcount := h.count
  have hroom := h.room
  unfold SeqQueue.evict
  split
  · next hfull =>
      have hlen : q.nodes.length = 15 := by
        rw [← hcount, hfull]
        rfl
      have htail : q.nodes.tail.length + 1 = q.nodes.length := by
        rw [List.length_tail]
        omega
      exact ⟨⟨h.pred htail, by change q.nodes.tail.length ≤ 15; omega⟩,
        by change q.nodes.tail.length < 15; omega⟩
  · next hfull =>
      refine ⟨h, Nat.lt_of_le_of_ne hroom fun hlen => hfull ?_⟩
      apply UInt32.toNat_inj.mp
      rw [hcount, hlen]
      rfl

@[simp] theorem evict_circular (q : SeqQueue) : q.evict.circular = q.circular := by
  unfold evict
  split <;> rfl

/-- Whether a node is put. -/
def takes (q : SeqQueue) (allocated : Bool) : Bool := q.circular && allocated

/-- What is inserted is the message with the time it is inserted at, behind all others. -/
theorem insertReqIpmiMsg_taken {allocated : Bool} (htakes : q.takes allocated = true)
    (msg : IpmiMsg) (now : UInt32) :
    q.insertReqIpmiMsg msg now allocated = q.evict.append { msg with timestamp := now } := by
  rw [takes, Bool.and_eq_true] at htakes
  have hcircular : ¬ q.evict.circular = false := by
    rw [evict_circular, htakes.1]
    decide
  rw [insertReqIpmiMsg, if_neg hcircular, if_pos htakes.2]

theorem insertReqIpmiMsg_refused {allocated : Bool} (htakes : q.takes allocated = false)
    (msg : IpmiMsg) (now : UInt32) :
    q.insertReqIpmiMsg msg now allocated = { q.evict with circular := false } := by
  rw [insertReqIpmiMsg]
  split_ifs with hopen hallocated
  · rw [← hopen]
  · rw [evict_circular, Bool.not_eq_false] at hopen
    rw [takes, hopen, hallocated] at htakes
    cases htakes
  · rfl

theorem Counted.append (h : q.Counted) (hlt : q.nodes.length < 15) (node : IpmiMsg) :
    (q.append node).Counted := by
  have hlen : (q.append node).nodes.length = q.nodes.length + 1 := List.length_append
  constructor
  · change (q.seqCurrentCount + 1).toNat = _
    rw [hlen, UInt32.toNat_add, h.count]
    exact Nat.mod_eq_of_lt (by change _ + 1 < _; omega)
  · omega

theorem Counted.insert (h : q.Counted) (msg : IpmiMsg) (now : UInt32) (allocated : Bool) :
    (q.insertReqIpmiMsg msg now allocated).Counted := by
  obtain ⟨hevict, hlt⟩ := h.evict
  cases htakes : q.takes allocated with
  | true =>
      rw [insertReqIpmiMsg_taken htakes]
      exact hevict.append hlt _
  | false =>
      rw [insertReqIpmiMsg_refused htakes]
      exact ⟨hevict.count, hevict.room⟩

/-- What unlinking does: the first with the property goes. -/
structure Unlinked (p : IpmiMsg → Bool) (q : SeqQueue) (node : IpmiMsg) (q' : SeqQueue) : Prop where
  found : p node = true
  cut : ∃ before after, q.nodes = before ++ node :: after ∧ (∀ x ∈ before, p x = false) ∧
    q'.nodes = before ++ after
  table : q'.seqTable = Function.update q.seqTable node.seqTarget false
  count : q'.seqCurrentCount = q.seqCurrentCount - 1
  current : q'.currentSeq = q.currentSeq

theorem unlinked (h : q.unlink p = some (node, q')) : Unlinked p q node q' := by
  unfold unlink at h
  cases hfind : q.nodes.find? p with
  | none => rw [hfind] at h; cases h
  | some x =>
      rw [hfind] at h
      obtain ⟨rfl, rfl⟩ := Prod.mk.inj (Option.some.inj h)
      obtain ⟨hp, before, after, hnodes, hbefore⟩ := List.find?_eq_some_iff_append.mp hfind
      have hnone : ∀ y ∈ before, p y = false := by
        intro y hy
        simpa using hbefore y hy
      refine ⟨hp, ⟨before, after, hnodes, hnone, ?_⟩, rfl, rfl, rfl⟩
      change q.nodes.eraseP p = before ++ after
      rw [hnodes, List.eraseP_append_right _
        fun y hy => by rw [hnone y hy]; exact Bool.false_ne_true, List.eraseP_cons_of_pos hp]

theorem unlink_none (h : q.unlink p = none) : ∀ x ∈ q.nodes, p x = false := by
  unfold unlink at h
  cases hfind : q.nodes.find? p with
  | some x => rw [hfind] at h; cases h
  | none =>
      intro x hx
      simpa using List.find?_eq_none.mp hfind x hx

theorem Unlinked.sublist (h : Unlinked p q node q') : q'.nodes.Sublist q.nodes := by
  obtain ⟨before, after, hq, -, hq'⟩ := h.cut
  rw [hq, hq']
  exact List.Sublist.append_left (List.sublist_cons_self node after) before

theorem Unlinked.perm (h : Unlinked p q node q') : q.nodes.Perm (node :: q'.nodes) := by
  obtain ⟨before, after, hq, -, hq'⟩ := h.cut
  rw [hq, hq']
  exact List.perm_middle

theorem Unlinked.counted (hu : Unlinked p q node q') (h : q.Counted) : q'.Counted := by
  have hlen : q'.nodes.length + 1 = q.nodes.length := by
    rw [hu.perm.length_eq, List.length_cons]
  constructor
  · rw [hu.count]
    exact h.pred hlen
  · have hroom := h.room
    omega

theorem takeReq_cases (q : SeqQueue) (msg : IpmiMsg) :
    q.unlink (answers msg) = none ∧ q.takeReq msg = q ∨
      ∃ node, q.unlink (answers msg) = some (node, q.takeReq msg) ∧
      Unlinked (answers msg) q node (q.takeReq msg) := by
  unfold takeReq findReqIpmiMsg
  cases hu : q.unlink (answers msg) with
  | none => exact .inl ⟨rfl, rfl⟩
  | some r => exact .inr ⟨r.1, rfl, unlinked hu⟩

theorem clearReqIpmiMsg_cases (q : SeqQueue) (msg : IpmiMsg) :
    q.clearReqIpmiMsg msg = q ∨
      ∃ node, Unlinked (sameRequest msg) q node (q.clearReqIpmiMsg msg) := by
  unfold clearReqIpmiMsg
  cases hu : q.unlink (sameRequest msg) with
  | none => exact .inl rfl
  | some r => exact .inr ⟨r.1, unlinked hu⟩

/-- What a pass of the timeout handler unlinks. -/
theorem seqTimeout_swept (timer : Timer) (clock : Nat → UInt32) (q : SeqQueue) :
    ∃ removed, Swept (fun n node => timer.overdue (clock n) node.timestamp) release
      (q.seqTable, q.seqCurrentCount)
      q.nodes (((q.seqTimeout timer clock).seqTable, (q.seqTimeout timer clock).seqCurrentCount),
        (q.seqTimeout timer clock).nodes) removed :=
  swept_sweep _ _ 0 _ [] q.nodes

theorem release_count (removed : List IpmiMsg) (table : UInt8 → Bool) {count : UInt32}
    (h : removed.length ≤ count.toNat) :
    (removed.foldl release (table, count)).2.toNat = count.toNat - removed.length := by
  induction removed generalizing table count with
  | nil => rfl
  | cons x removed ih =>
      rw [List.length_cons] at h ⊢
      have hle : (1 : UInt32) ≤ count := by
        rw [UInt32.le_iff_toNat_le]
        change 1 ≤ _
        omega
      have hpred : (count - 1).toNat = count.toNat - 1 := UInt32.toNat_sub_of_le _ _ hle
      rw [List.foldl_cons, release, ih _ (by rw [hpred]; omega), hpred]
      omega

theorem Counted.seqTimeout (h : q.Counted) (timer : Timer) (clock : Nat → UInt32) :
    (q.seqTimeout timer clock).Counted := by
  obtain ⟨removed, hswept⟩ := seqTimeout_swept timer clock q
  have hlen : q.nodes.length = (SeqQueue.seqTimeout timer clock q).nodes.length + removed.length :=
    hswept.split.length_eq.trans List.length_append
  have hcount := h.count
  have hroom := h.room
  constructor
  · have hstate : (q.seqTimeout timer clock).seqCurrentCount = _ := congrArg Prod.snd hswept.state
    rw [hstate, release_count removed q.seqTable (by omega)]
    change _ = (SeqQueue.seqTimeout timer clock q).nodes.length
    omega
  · omega

end SeqQueue

/-! ### Runs -/

/-- What the threads of one index do under `mutex_id`, in any order: `IPMB_TXTask` records and,
after a failed write, withdraws; `IPMB_RXTask` looks for the request of a response;
`ipmb_read` clears; the handler unlinks what is overdue. -/
inductive Act where
  | allocate
  | record (msg : IpmiMsg) (now : UInt32) (allocated : Bool)
  | response (msg : IpmiMsg)
  | withdraw (msg : IpmiMsg)
  | clear (msg : IpmiMsg)
  | timeout (clock : Nat → UInt32)

def SeqQueue.act (timer : Timer) (q : SeqQueue) : Act → SeqQueue
  | .allocate => q.getFreeSeq.2
  | .record msg now allocated => q.insertReqIpmiMsg msg now allocated
  | .response msg | .withdraw msg => q.takeReq msg
  | .clear msg => q.clearReqIpmiMsg msg
  | .timeout clock => q.seqTimeout timer clock

def SeqQueue.records (q : SeqQueue) : Act → List IpmiMsg
  | .record msg now allocated => if q.takes allocated then [{ msg with timestamp := now }] else []
  | _ => []

/-- The request a response is matched with, and what is passed on. -/
def SeqQueue.delivered (q : SeqQueue) : Act → List (IpmiMsg × IpmiMsg)
  | .response msg =>
    match q.unlink (answers msg) with
    | none => []
    | some (node, _) => [(node, returnTo msg node)]
  | _ => []

/-- The queue with what was ever recorded and what was passed on. -/
structure Ledger where
  q : SeqQueue := {}
  recorded : List IpmiMsg := []
  answered : List (IpmiMsg × IpmiMsg) := []

def Ledger.step (timer : Timer) (l : Ledger) (a : Act) : Ledger :=
  { q := l.q.act timer a
    recorded := l.recorded ++ l.q.records a
    answered := l.q.delivered a ++ l.answered }

def Ledger.run (timer : Timer) (acts : List Act) : Ledger := acts.foldl (Ledger.step timer) {}

/-- A response goes where its request came from. -/
structure Correlates (request response : IpmiMsg) : Prop where
  netfn : request.netfn = response.netfn &&& ~~~0x01
  cmd : request.cmd = response.cmd
  seq : request.seqTarget = response.seqTarget
  source : response.seqSource = request.seqSource ∧ response.inFSource = request.inFSource
  target : response.inFTarget = request.inFTarget ∧ response.pldmInstId = request.pldmInstId

namespace Ledger

/-- No request is answered twice, none both answered and outstanding, and the outstanding ones
stand in the order they were recorded in. -/
structure Sound (l : Ledger) : Prop where
  counted : l.q.Counted
  order : l.q.nodes.Sublist l.recorded
  once : (l.q.nodes ++ l.answered.map Prod.fst).Subperm l.recorded
  correlates : ∀ p ∈ l.answered, Correlates p.1 p.2

variable {l l' : Ledger} {timer : Timer} {q' : SeqQueue} {node msg : IpmiMsg}

theorem correlates_returnTo (h : SeqQueue.answers msg node = true) :
    Correlates node (SeqQueue.returnTo msg node) := by
  simp only [SeqQueue.answers, Bool.and_eq_true, beq_iff_eq] at h
  exact ⟨h.1.1, h.1.2, h.2, ⟨rfl, rfl⟩, ⟨rfl, rfl⟩⟩

/-- Whatever leaves the list unanswered keeps the ledger sound. -/
theorem Sound.shrink (h : l.Sound) (hsub : q'.nodes.Sublist l.q.nodes) (hcounted : q'.Counted) :
    Sound { l with q := q' } :=
  ⟨hcounted, hsub.trans h.order,
    ((List.subperm_append_right _).mpr hsub.subperm).trans h.once, h.correlates⟩

theorem step_silent {a : Act} (hrecorded : l.q.records a = []) (hdelivered : l.q.delivered a = []) :
    l.step timer a = { l with q := l.q.act timer a } := by
  rw [step, hrecorded, hdelivered, List.append_nil, List.nil_append]

theorem Sound.record (h : l.Sound) (msg : IpmiMsg) (now : UInt32) (allocated : Bool) :
    (l.step timer (.record msg now allocated)).Sound := by
  have hevict := l.q.evict_nodes_sublist
  cases htakes : l.q.takes allocated with
  | true =>
      have hstep : l.step timer (.record msg now allocated) =
          ⟨l.q.evict.append { msg with timestamp := now },
            l.recorded ++ [{ msg with timestamp := now }], l.answered⟩ := by
        rw [step, SeqQueue.act, SeqQueue.insertReqIpmiMsg_taken htakes, SeqQueue.records,
          if_pos htakes]
        rfl
      rw [hstep]
      refine ⟨h.counted.evict.1.append h.counted.evict.2 _, ?_, ?_, h.correlates⟩
      · exact (hevict.trans h.order).append (List.Sublist.refl _)
      · have hperm : ((l.q.evict.nodes ++ [{ msg with timestamp := now }]) ++
            l.answered.map Prod.fst).Perm
            ((l.q.evict.nodes ++ l.answered.map Prod.fst) ++ [{ msg with timestamp := now }]) := by
          rw [List.append_assoc, List.append_assoc]
          exact List.Perm.append_left _ List.perm_append_comm
        have honce : (l.q.evict.nodes ++ l.answered.map Prod.fst).Subperm l.recorded :=
          ((List.subperm_append_right _).mpr hevict.subperm).trans h.once
        exact hperm.subperm.trans ((List.subperm_append_right _).mpr honce)
  | false =>
      have hrecords : l.q.records (.record msg now allocated) = [] :=
        if_neg (by rw [htakes]; exact Bool.false_ne_true)
      rw [step_silent hrecords rfl, SeqQueue.act, SeqQueue.insertReqIpmiMsg_refused htakes]
      exact h.shrink hevict ⟨h.counted.evict.1.count, h.counted.evict.1.room⟩

theorem Sound.answer (h : l.Sound) (hu : SeqQueue.Unlinked (SeqQueue.answers msg) l.q node q') :
    Sound { l with q := q', answered := (node, SeqQueue.returnTo msg node) :: l.answered } := by
  refine ⟨hu.counted h.counted, hu.sublist.trans h.order, ?_, ?_⟩
  · have hperm : (q'.nodes ++ node :: l.answered.map Prod.fst).Perm
      (l.q.nodes ++ l.answered.map Prod.fst) :=
      List.perm_middle.trans (hu.perm.symm.append_right _)
    exact hperm.subperm.trans h.once
  · rw [List.forall_mem_cons]
    exact ⟨correlates_returnTo hu.found, h.correlates⟩

theorem Sound.step (h : l.Sound) (a : Act) : (l.step timer a).Sound := by
  cases a with
  | allocate =>
      rw [step_silent rfl rfl]
      exact h.shrink (List.Sublist.refl _) ⟨h.counted.count, h.counted.room⟩
  | record msg now allocated => exact h.record msg now allocated
  | response msg =>
      rcases l.q.takeReq_cases msg with ⟨hnone, hq⟩ | ⟨node, hsome, hu⟩
      · have hdelivered : l.q.delivered (.response msg) = [] := by
          simp only [SeqQueue.delivered, hnone]
        rw [step_silent rfl hdelivered, SeqQueue.act, hq]
        exact h
      · have hdelivered : l.q.delivered (.response msg) = [(node, SeqQueue.returnTo msg node)] := by
          simp only [SeqQueue.delivered, hsome]
        change Sound
          ⟨l.q.takeReq msg, l.recorded ++ [], l.q.delivered (.response msg) ++ l.answered⟩
        rw [hdelivered, List.append_nil]
        exact h.answer hu
  | withdraw msg =>
      rw [step_silent rfl rfl, SeqQueue.act]
      rcases l.q.takeReq_cases msg with ⟨-, hq⟩ | ⟨node, -, hu⟩
      · rw [hq]
        exact h
      · exact h.shrink hu.sublist (hu.counted h.counted)
  | clear msg =>
      rw [step_silent rfl rfl, SeqQueue.act]
      rcases l.q.clearReqIpmiMsg_cases msg with hq | ⟨node, hu⟩
      · rw [hq]
        exact h
      · exact h.shrink hu.sublist (hu.counted h.counted)
  | timeout clock =>
      obtain ⟨removed, hswept⟩ := l.q.seqTimeout_swept timer clock
      rw [step_silent rfl rfl, SeqQueue.act]
      exact h.shrink hswept.kept (h.counted.seqTimeout timer clock)

theorem Sound.run {acts : List Act} (h : l.Sound) : (acts.foldl (Ledger.step timer) l).Sound := by
  induction acts generalizing l with
  | nil => exact h
  | cons a acts ih => exact ih (h.step a)

theorem sound_start : Sound {} :=
  ⟨⟨rfl, Nat.zero_le _⟩, List.Sublist.refl _, List.Subperm.refl _,
    fun _ hp => absurd hp List.not_mem_nil⟩

/-- Whatever the threads do and in whatever order: the counter is the length of the list and
never over fifteen, and every response passed on belongs to a request of its own. -/
theorem outstanding_requests_sound (timer : Timer) (acts : List Act) : (run timer acts).Sound :=
  sound_start.run

end Ledger

/-! ### The timeout handler -/

section Timeout

variable {timer : Timer} {q : SeqQueue} {clock : Nat → UInt32}

/-- One pass of the handler whose readings agree on what is overdue: what is not overdue stays
as it stands, and at most half of what is overdue is stepped over. -/
theorem seqTimeout_pass (timer : Timer) (clock : Nat → UInt32) (q : SeqQueue)
    (hclock : ∀ n node, node ∈ q.nodes →
      timer.overdue (clock n) node.timestamp = timer.overdue (clock 0) node.timestamp) :
    let due := fun node : IpmiMsg => timer.overdue (clock 0) node.timestamp
    ((q.seqTimeout timer clock).nodes.filter fun node => !due node) =
      q.nodes.filter (fun node => !due node) ∧
      2 * (q.seqTimeout timer clock).nodes.countP due ≤ q.nodes.countP due := by
  intro due
  have hagree : ∀ node ∈ q.nodes, ∀ n, timer.overdue (clock n) node.timestamp = due node :=
    fun node hnode n => hclock n node hnode
  obtain ⟨removed, hswept⟩ := q.seqTimeout_swept timer clock
  constructor
  · apply hswept.filter_eq
    intro node hnode hlive n
    rw [hagree node hnode n]
    exact Bool.not_eq_true' _ ▸ hlive
  · exact halved hagree

theorem seqTimeout_pass_constant :
    let q : SeqQueue :=
      { nodes := [.zero, { IpmiMsg.zero with timestamp := 9000 }], seqCurrentCount := 2 }
    let due := fun node : IpmiMsg => Timer.overdue ⟨1000, 0⟩ 10000 node.timestamp
    ((q.seqTimeout ⟨1000, 0⟩ fun _ => 10000).nodes.filter fun node => !due node) =
      q.nodes.filter (fun node => !due node) ∧
      2 * (q.seqTimeout ⟨1000, 0⟩ fun _ => 10000).nodes.countP due ≤ q.nodes.countP due :=
  seqTimeout_pass ⟨1000, 0⟩ (fun _ => 10000) _ fun _ _ _ => rfl

/-- Up to where in the list a request can stand that was recorded at one of the times `stale`. -/
abbrev StaleWithin (stale : UInt32 → Bool) (m : Nat) (q : SeqQueue) : Prop :=
  Within (fun node : IpmiMsg => stale node.timestamp) m q.nodes

def Act.isTimeout : Act → Bool
  | .timeout _ => true
  | _ => false

/-- Nothing is recorded at a time in `stale`, and every test finds those that were. -/
def Act.FindsStale (timer : Timer) (stale : UInt32 → Bool) : Act → Prop
  | .record _ now _ => stale now = false
  | .timeout clock =>
      ∀ n timestamp, stale timestamp = true → timer.overdue (clock n) timestamp = true
  | _ => True

variable {stale : UInt32 → Bool} {m : Nat} {a : Act}

theorem staleWithin_act (h : StaleWithin stale m q) (ha : a.FindsStale timer stale) :
    StaleWithin stale m (q.act timer a) := by
  cases a with
  | allocate => exact h
  | record msg now allocated =>
      rw [SeqQueue.act]
      cases htakes : q.takes allocated with
      | true =>
          rw [SeqQueue.insertReqIpmiMsg_taken htakes]
          exact Within.append (h.sublist q.evict_nodes_sublist) ha
      | false =>
          rw [SeqQueue.insertReqIpmiMsg_refused htakes]
          exact h.sublist q.evict_nodes_sublist
  | response msg | withdraw msg =>
      rw [SeqQueue.act]
      rcases q.takeReq_cases msg with ⟨-, hq⟩ | ⟨node, -, hu⟩
      · rwa [hq]
      · exact h.sublist hu.sublist
  | clear msg =>
      rw [SeqQueue.act]
      rcases q.clearReqIpmiMsg_cases msg with hq | ⟨node, hu⟩
      · rwa [hq]
      · exact h.sublist hu.sublist
  | timeout clock =>
      obtain ⟨removed, hswept⟩ := q.seqTimeout_swept timer clock
      exact h.sublist hswept.kept

theorem staleWithin_timeout (h : StaleWithin stale (m + 1) q)
    (ha : (Act.timeout clock).FindsStale timer stale) :
    StaleWithin stale m (q.act timer (.timeout clock)) :=
  within_sweep (fun node hnode n => ha n node.timestamp hnode) 0 _ [] q.nodes h (Nat.zero_le m)

theorem staleWithin_run (acts : List Act) (h : StaleWithin stale (m + acts.countP Act.isTimeout) q)
    (hacts : ∀ a ∈ acts, a.FindsStale timer stale) :
    StaleWithin stale m (acts.foldl (SeqQueue.act timer) q) := by
  induction acts generalizing q with
  | nil => exact h
  | cons a acts ih =>
      have ha := hacts a List.mem_cons_self
      apply ih _ fun b hb => hacts b (List.mem_cons_of_mem a hb)
      cases htimeout : a.isTimeout with
      | false =>
          rw [List.countP_cons_of_neg (by rw [htimeout]; exact Bool.false_ne_true)] at h
          exact staleWithin_act h ha
      | true =>
          rw [List.countP_cons_of_pos htimeout] at h
          cases a with
          | timeout clock => exact staleWithin_timeout h ha
          | allocate | record | response | withdraw | clear => cases htimeout

/-- Fifteen passes of the handler after requests are overdue for good, none of them is left,
whatever the other threads do in between. -/
theorem overdue_requests_leave (timer : Timer) (stale : UInt32 → Bool) (before acts : List Act)
    (hacts : ∀ a ∈ acts, a.FindsStale timer stale) (hpasses : 15 ≤ acts.countP Act.isTimeout) :
    (Ledger.run timer (before ++ acts)).q.nodes.filter (fun node => stale node.timestamp) = [] := by
  have hq (acts : List Act) : ∀ l : Ledger,
      (acts.foldl (Ledger.step timer) l).q = acts.foldl (SeqQueue.act timer) l.q := by
    induction acts with
    | nil => exact fun l => rfl
    | cons a acts ih => exact fun l => ih _
  have hroom : (Ledger.run timer before).q.nodes.length ≤ 15 := Ledger.sound_start.run.counted.room
  rw [Ledger.run, List.foldl_append, hq]
  have hstart : StaleWithin stale (0 + acts.countP Act.isTimeout) (Ledger.run timer before).q :=
    within_of_length_le (by omega)
  rw [List.filter_eq_nil_iff]
  exact fun node hnode => Bool.not_eq_true _ ▸ staleWithin_run acts hstart hacts node hnode

/-- A request recorded at tick 0 and never answered, ticks counted by the thousand a second. -/
theorem overdue_requests_leave_tick_zero :
    (Ledger.run ⟨1000, 0⟩
      ([.record .zero 0 true] ++ List.replicate 15 (.timeout fun _ => 5000))).q.nodes.filter
      (fun node => node.timestamp == 0) = [] := by
  refine overdue_requests_leave ⟨1000, 0⟩ (fun timestamp => timestamp == 0) _ _ ?_ (by decide)
  intro a ha
  rw [List.eq_of_mem_replicate ha]
  intro n timestamp hstale
  rw [eq_of_beq hstale]
  exact (by decide : Timer.overdue ⟨1000, 0⟩ 5000 0 = true)

end Timeout

end LinkedsemiZephyr.Ipmb
