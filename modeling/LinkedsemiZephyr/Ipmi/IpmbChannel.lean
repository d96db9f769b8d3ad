import LinkedsemiZephyr.Ipmi.SequenceQueue
import LinkedsemiZephyr.Lib.GuardedRun

/-! The threads of one IPMB index around its sequence queue: `ipmb_send_request` and
`ipmb_send_response`, `IPMB_TXTask` with its retries, `IPMB_RXTask`, `ipmb_read` and the timeout
handler, one step of one of them at a time. -/
namespace LinkedsemiZephyr.Ipmb
open GuardedRun Sweep

/-! ### Exact registration -/

namespace SeqQueue

def numbers (q : SeqQueue) : List UInt8 := q.nodes.map IpmiMsg.seqTarget

/-- The numbers of the outstanding requests differ, and just these are registered. -/
structure Exact (q : SeqQueue) : Prop where
  distinct : q.numbers.Nodup
  table : ∀ seq, q.seqTable seq = true ↔ seq ∈ q.numbers

variable {q q' : SeqQueue} {node : IpmiMsg} {p : IpmiMsg → Bool}

theorem Exact.unlink (h : q.Exact) (hu : Unlinked p q node q') :
    q'.Exact ∧ node.seqTarget ∉ q'.numbers := by
  have hperm : q.numbers.Perm (node.seqTarget :: q'.numbers) := hu.perm.map _
  obtain ⟨hnode, hdistinct⟩ := List.nodup_cons.mp (hperm.nodup_iff.mp h.distinct)
  refine ⟨⟨hdistinct, fun seq => ?_⟩, hnode⟩
  rw [hu.table]
  by_cases hseq : seq = node.seqTarget
  · rw [hseq, Function.update_self]
    exact iff_of_false Bool.false_ne_true hnode
  · rw [Function.update_of_ne hseq, h.table, hperm.mem_iff, List.mem_cons, or_iff_right hseq]

theorem release_table (removed : List IpmiMsg) (table : UInt8 → Bool) (count : UInt32)
    (seq : UInt8) :
    (removed.foldl release (table, count)).1 seq = true ↔
      table seq = true ∧ seq ∉ removed.map IpmiMsg.seqTarget := by
  induction removed generalizing table count with
  | nil => exact (and_iff_left List.not_mem_nil).symm
  | cons x removed ih =>
      rw [List.foldl_cons, release, ih, List.map_cons, List.mem_cons, not_or]
      by_cases hseq : seq = x.seqTarget
      · rw [hseq, Function.update_self]
        exact iff_of_false (fun h => Bool.false_ne_true h.1) fun h => h.2.1 rfl
      · rw [Function.update_of_ne hseq, and_iff_right hseq]

theorem Exact.seqTimeout (h : q.Exact) (timer : Timer) (clock : Nat → UInt32) :
    (q.seqTimeout timer clock).Exact := by
  obtain ⟨removed, hswept⟩ := q.seqTimeout_swept timer clock
  have hperm : q.numbers.Perm
      ((SeqQueue.seqTimeout timer clock q).numbers ++ removed.map IpmiMsg.seqTarget) := by
    have hmap := hswept.split.map IpmiMsg.seqTarget
    rwa [List.map_append] at hmap
  obtain ⟨hkept, -, hapart⟩ := List.nodup_append.mp (hperm.nodup_iff.mp h.distinct)
  refine ⟨hkept, fun seq => ?_⟩
  have htable : (SeqQueue.seqTimeout timer clock q).seqTable = _ := congrArg Prod.fst hswept.state
  rw [htable, release_table, h.table, hperm.mem_iff, List.mem_append]
  constructor
  · rintro ⟨hmem | hmem, hnot⟩
    · exact hmem
    · exact absurd hmem hnot
  · exact fun hmem => ⟨.inl hmem, fun hremoved => hapart seq hmem seq hremoved rfl⟩

theorem evict_of_room (h : q.Counted) (hroom : q.nodes.length < 15) : q.evict = q := by
  unfold evict
  split
  · next hfull =>
      have hcount := h.count
      rw [hfull] at hcount
      exact absurd hcount (by change 15 ≠ _; omega)
  · rfl

theorem Exact.append (h : q.Exact) (hfree : node.seqTarget ∉ q.numbers) :
    (q.append node).Exact := by
  have hnumbers : (q.append node).numbers = q.numbers ++ [node.seqTarget] := List.map_append
  constructor
  · rw [hnumbers]
    exact List.nodup_append.mpr ⟨h.distinct, List.nodup_singleton _, fun a ha b hb hab =>
      hfree (by rw [← List.mem_singleton.mp hb, ← hab]; exact ha)⟩
  · intro seq
    change Function.update q.seqTable node.seqTarget true seq = true ↔ _
    rw [hnumbers, List.mem_append, List.mem_singleton]
    by_cases hseq : seq = node.seqTarget
    · rw [hseq, Function.update_self]
      exact iff_of_true rfl (.inr rfl)
    · rw [Function.update_of_ne hseq, h.table, or_iff_left hseq]

/-- With room the list is as before, or has the new node behind it. -/
theorem insertReqIpmiMsg_cases (hcounted : q.Counted) (hroom : q.nodes.length < 15) (msg : IpmiMsg)
    (now : UInt32) (allocated : Bool) :
    q.insertReqIpmiMsg msg now allocated = { q with circular := false } ∨
      q.insertReqIpmiMsg msg now allocated = q.append { msg with timestamp := now } := by
  have hevict := evict_of_room hcounted hroom
  cases htakes : q.takes allocated with
  | true => exact .inr (by rw [insertReqIpmiMsg_taken htakes, hevict])
  | false => exact .inl (by rw [insertReqIpmiMsg_refused htakes, hevict])

theorem nextSeq_toNat (seq : UInt8) : ((seq + 1) &&& 0x3f).toNat = (seq.toNat + 1) % 64 := by
  have hand : ((seq + 1) &&& 0x3f).toNat = (seq + 1).toNat % 64 := by
    rw [UInt8.toNat_and]
    exact Nat.and_two_pow_sub_one_eq_mod _ 6
  rw [hand, UInt8.toNat_add]
  change (seq.toNat + 1) % 256 % 64 = _
  omega

/-- A scan that ends on a registered number has met registered ones only. -/
theorem scanSeq_registered {table : UInt8 → Bool} {n : Nat} {seq : UInt8}
    (h : table (scanSeq table n seq) = true) (k : Nat) (hk : k < n) :
    table (UInt8.ofNat ((seq.toNat + (k + 1)) % 64)) = true := by
  induction n generalizing seq k with
  | zero => exact absurd hk (Nat.not_lt_zero k)
  | succ n ih =>
      rw [scanSeq] at h
      have hnext : (seq + 1) &&& 0x3f = UInt8.ofNat ((seq.toNat + 1) % 64) := by
        rw [← nextSeq_toNat, UInt8.ofNat_toNat]
      by_cases hreg : table ((seq + 1) &&& 0x3f) = true
      · rw [if_pos hreg] at h
        cases k with
        | zero => rwa [hnext] at hreg
        | succ k =>
            have hrest := ih h k (Nat.lt_of_succ_lt_succ hk)
            rwa [nextSeq_toNat, Nat.mod_add_mod, Nat.add_assoc, Nat.add_comm 1] at hrest
      · rw [if_neg hreg] at h
        exact absurd h hreg

/-- With no more than fit outstanding, `get_free_seq` does not give up. -/
theorem Exact.getFreeSeq (h : q.Exact) (hcounted : q.Counted) : q.getFreeSeq.1 ∉ q.numbers := by
  intro hmem
  have hall : ∀ j < 64, UInt8.ofNat j ∈ q.numbers := by
    intro j hj
    have hvisit :=
      scanSeq_registered ((h.table _).mpr hmem) ((j + 127 - q.currentSeq.toNat % 64) % 64)
        (Nat.mod_lt _ (by decide))
    have hj' : (q.currentSeq.toNat + ((j + 127 - q.currentSeq.toNat % 64) % 64 + 1)) % 64 = j := by
      omega
    rw [hj'] at hvisit
    exact (h.table _).mp hvisit
  have hsub : (List.range 64).map UInt8.ofNat ⊆ q.numbers := by
    intro seq hseq
    obtain ⟨j, hj, rfl⟩ := List.mem_map.mp hseq
    exact hall j (List.mem_range.mp hj)
  have hnodup : ((List.range 64).map UInt8.ofNat).Nodup := by decide
  have hlen := (hnodup.subperm hsub).length_le
  have hroom := hcounted.room
  rw [List.length_map, List.length_range, numbers, List.length_map] at hlen
  omega

end SeqQueue

/-! ### The threads -/

abbrev ipmbTxRetryTime : Nat := 5
abbrev ipmbTxqueueLen : Nat := 1

/-- `struct ipmi_msg_cfg` without its link. -/
structure IpmiMsgCfg where
  buffer : IpmiMsg
  retries : Nat := 0
  deriving DecidableEq, Repr

/-- What `ipmb_send_request` puts on the queue; `stack` is what its `req_cfg` held before. -/
def requestCfg (cfg : IpmbConfig) (seq : UInt8) (req stack : IpmiMsg) : IpmiMsgCfg where
  buffer := { stack with
    data := req.data
    netfn := req.netfn
    cmd := req.cmd
    inFSource := req.inFSource
    inFTarget := req.inFTarget
    completionCode := req.completionCode
    destAddr := cfg.channelTargetAddress
    destLUN := 0
    srcAddr := cfg.selfAddress <<< 1
    seq := seq
    seqSource := req.seqSource
    srcLUN := 0
    pldmInstId := req.pldmInstId }

/-- What `ipmb_send_response` puts on the queue. -/
def responseCfg (cfg : IpmbConfig) (resp stack : IpmiMsg) : IpmiMsgCfg where
  buffer := { stack with
    data := resp.data
    cmd := resp.cmd
    inFSource := resp.inFSource
    inFTarget := resp.inFTarget
    completionCode := resp.completionCode
    destAddr := cfg.channelTargetAddress
    netfn := resp.netfn + 1
    destLUN := resp.srcLUN
    srcAddr := cfg.selfAddress <<< 1
    seq := resp.seq
    seqSource := resp.seq
    srcLUN := resp.destLUN }

/-- What `IPMB_TXTask` works on, and whether it has been to `insert_req_ipmi_msg` with it. -/
structure Held where
  cfg : IpmiMsgCfg
  recorded : Bool

/-- `sender` holds `mutex_send_req` while it waits for room in `ipmb_txqueue`. -/
structure Channel where
  q : SeqQueue := {}
  sender : Option IpmiMsgCfg := none
  txqueue : List IpmiMsgCfg := []
  hand : Option Held := none

/-- What a caller answers: a request, its answer filled in. -/
abbrev Answered := { resp : IpmiMsg // resp.isResponse = false }

inductive ChannelAct where
  | sendRequest (req stack : IpmiMsg)
  | put
  | giveUp
  | sendResponse (resp : Answered) (stack : IpmiMsg)
  | take (disabled : Bool)
  | record (now : UInt32) (locked allocated : Bool)
  | written (ok locked : Bool)
  | received (msg : IpmiMsg)
  | clear (msg : IpmiMsg)
  | timeout (clock : Nat → UInt32)

namespace Channel

/-- Up to `k_msgq_put`, once `mutex_send_req` is free. -/
def ipmbSendRequest (cfg : IpmbConfig) (c : Channel) (req stack : IpmiMsg) : Channel :=
  match c.sender with
  | some _ => c
  | none =>
      { c with q := c.q.getFreeSeq.2, sender := some (requestCfg cfg c.q.getFreeSeq.1 req stack) }

/-- The message of `sender` finds room. -/
def put (c : Channel) : Channel :=
  match c.sender with
  | none => c
  | some m =>
      if c.txqueue.length < ipmbTxqueueLen then
        { c with sender := none, txqueue := c.txqueue ++ [m] } else c

/-- `k_msgq_put` with `K_NO_WAIT`: without room the message is lost. -/
def putBack (c : Channel) (m : IpmiMsgCfg) : Channel :=
  if c.txqueue.length < ipmbTxqueueLen then { c with txqueue := c.txqueue ++ [m] } else c

/-- `find_req_ipmi_msg` on a message of `IPMB_TXTask`, which does not look at what it returns:
the message with what was filled in, and the queue. -/
def withdraw (q : SeqQueue) (msg : IpmiMsg) (locked : Bool) : IpmiMsg × SeqQueue :=
  if locked then (q.findReqIpmiMsg msg).getD (msg, q) else (msg, q)

/-- After a failed write of a request: its record is withdrawn where `mutex_id` can be locked in
time, and after five retries it is given up. -/
def failRequest (c : Channel) (m : IpmiMsgCfg) (locked : Bool) : Channel :=
  let r := withdraw c.q m.buffer locked
  let c := { c with q := r.2, hand := none }
  if m.retries + 1 > ipmbTxRetryTime then c else c.putBack ⟨r.1, m.retries + 1⟩

def failResponse (c : Channel) (m : IpmiMsgCfg) : Channel :=
  { c with hand := none }.putBack { m with retries := m.retries + 1 }

/-- From `k_msgq_get` on: dropped while disabled or without memory for the `I2C_MSG`, and a
response after five retries. -/
def take (c : Channel) (disabled : Bool) : Channel :=
  match c.hand, c.txqueue with
  | none, m :: rest =>
    if disabled || m.buffer.isResponse && decide (m.retries > ipmbTxRetryTime) then
      { c with txqueue := rest }
    else { c with txqueue := rest, hand := some ⟨m, false⟩ }
  | _, _ => c

/-- The message that is recorded for a request, its `seq_target` set. -/
def toRecord (m : IpmiMsgCfg) : IpmiMsgCfg :=
  { m with buffer := { m.buffer with seqTarget := m.buffer.seq } }

/-- The message is written next, whether it could be recorded or not. -/
def record (c : Channel) (now : UInt32) (locked allocated : Bool) : Channel :=
  match c.hand with
  | some ⟨m, false⟩ =>
    if m.buffer.isResponse then c
    else
      let q := if locked then c.q.insertReqIpmiMsg (toRecord m).buffer now allocated else c.q
      { c with q := q, hand := some ⟨toRecord m, true⟩ }
  | _ => c

/-- Behind `i2c_master_write`. -/
def written (c : Channel) (ok locked : Bool) : Channel :=
  match c.hand with
  | none => c
  | some ⟨m, recorded⟩ =>
    if m.buffer.isResponse then if ok then { c with hand := none } else c.failResponse m
    else if recorded then if ok then { c with hand := none } else c.failRequest m locked
    else c

def step (cfg : IpmbConfig) (timer : Timer) (c : Channel) : ChannelAct → Channel
  | .sendRequest req stack => c.ipmbSendRequest cfg req stack
  | .put => c.put
  | .giveUp => { c with sender := none }
  | .sendResponse resp stack => c.putBack (responseCfg cfg resp.val stack)
  | .take disabled => c.take disabled
  | .record now locked allocated => c.record now locked allocated
  | .written ok locked => c.written ok locked
  | .received msg => { c with q := c.q.takeReq msg }
  | .clear msg => { c with q := c.q.clearReqIpmiMsg msg }
  | .timeout clock => { c with q := c.q.seqTimeout timer clock }

/-! ### The numbers in use -/

/-- The numbers of the requests among some messages. -/
def numbersOf (ms : List IpmiMsgCfg) : List UInt8 :=
  (ms.filter fun m => !m.buffer.isResponse).map fun m => m.buffer.seq

/-- What the sending side carries, what of it is not yet recorded last. -/
def held (c : Channel) : List IpmiMsgCfg := (c.hand.map Held.cfg).toList

def fresh (c : Channel) : List IpmiMsgCfg :=
  match c.hand with
  | some ⟨m, false⟩ => [m]
  | _ => []

def waiting (c : Channel) : List UInt8 := numbersOf (c.sender.toList ++ c.txqueue ++ c.held)

def unrecorded (c : Channel) : List UInt8 := numbersOf (c.sender.toList ++ c.txqueue ++ c.fresh)

/-- Requests on their way or outstanding have numbers of their own, and the table registers just
those that are outstanding. -/
structure Exact (c : Channel) : Prop where
  outstanding : c.q.Exact
  waiting : c.waiting.Nodup
  apart : ∀ seq ∈ c.unrecorded, seq ∉ c.q.numbers

/-- A recorded message in the hand of `IPMB_TXTask` matches whatever is outstanding under its
number. -/
structure Owns (m : IpmiMsgCfg) (q : SeqQueue) : Prop where
  request : m.buffer.isResponse = false
  target : m.buffer.seqTarget = m.buffer.seq
  record : ∀ node ∈ q.nodes, node.seqTarget = m.buffer.seq → SeqQueue.answers m.buffer node = true

structure Inv (c : Channel) : Prop where
  counted : c.q.Counted
  exact : c.Exact
  owns : ∀ m, c.hand = some ⟨m, true⟩ → Owns m c.q

variable {c c' : Channel} {m : IpmiMsgCfg} {q' : SeqQueue} {cfg : IpmbConfig} {timer : Timer}

theorem netfn_request {msg : IpmiMsg} (h : msg.isResponse = false) :
    msg.netfn &&& ~~~0x01 = msg.netfn := by
  have heven : msg.netfn &&& 0x01 = 0 := by
    rw [IpmiMsg.isResponse, bne_eq_false_iff_eq] at h
    exact h
  have hsplit : (msg.netfn &&& ~~~0x01) ||| (msg.netfn &&& 0x01) = msg.netfn := by
    apply eq_of_bits
    intro i hi
    interval_cases i <;> simp
  rwa [heven, UInt8.or_zero] at hsplit

theorem isResponse_responseCfg (cfg : IpmbConfig) (resp : Answered) (stack : IpmiMsg) :
    (responseCfg cfg resp.val stack).buffer.isResponse = true := by
  have heven := netfn_request resp.property
  have hodd : ((resp.val.netfn &&& ~~~0x01) + 1) &&& 0x01 ≠ 0 :=
    (by decide +kernel : ∀ n : Fin 256, ((UInt8.ofFin n &&& ~~~0x01) + 1) &&& 0x01 ≠ 0)
      resp.val.netfn.toFin
  change (resp.val.netfn + 1 &&& 0x01 != 0) = true
  rw [heven] at hodd
  exact bne_iff_ne.mpr hodd

theorem numbersOf_append (ms ms' : List IpmiMsgCfg) :
    numbersOf (ms ++ ms') = numbersOf ms ++ numbersOf ms' := by
  rw [numbersOf, List.filter_append, List.map_append]
  rfl

theorem numbersOf_response (h : m.buffer.isResponse = true) : numbersOf [m] = [] := by
  rw [numbersOf, List.filter_cons_of_neg (by rw [h]; decide), List.filter_nil, List.map_nil]

theorem numbersOf_request (h : m.buffer.isResponse = false) : numbersOf [m] = [m.buffer.seq] := by
  rw [numbersOf, List.filter_cons_of_pos (by rw [h]; decide), List.filter_nil,
    List.map_cons, List.map_nil]

theorem numbersOf_perm {ms ms' : List IpmiMsgCfg} (h : ms.Perm ms') :
    (numbersOf ms).Perm (numbersOf ms') :=
  (h.filter _).map _

theorem numbersOf_sublist {ms ms' : List IpmiMsgCfg} (h : ms.Sublist ms') :
    (numbersOf ms).Sublist (numbersOf ms') :=
  (h.filter _).map _

/-- The queue loses records. -/
theorem Inv.queue (h : c.Inv) (hcounted : q'.Counted) (hexact : q'.Exact)
    (hsub : q'.nodes ⊆ c.q.nodes) :
    Inv { c with q := q' } := by
  refine ⟨hcounted, ⟨hexact, h.exact.waiting, fun seq hseq hmem => ?_⟩, fun m hm => ?_⟩
  · exact h.exact.apart seq hseq (List.map_subset _ hsub hmem)
  · obtain ⟨hrequest, htarget, hrecord⟩ := h.owns m hm
    exact ⟨hrequest, htarget, fun node hnode => hrecord node (hsub hnode)⟩

/-- Messages move on the sending side, or are lost there. -/
theorem Inv.move (h : c.Inv) (hq : c'.q = c.q) (hwaiting : c'.waiting.Subperm c.waiting)
    (hunrecorded : c'.unrecorded ⊆ c.unrecorded)
    (howns : ∀ m, c'.hand = some ⟨m, true⟩ → c.hand = some ⟨m, true⟩) : c'.Inv := by
  refine ⟨by rw [hq]; exact h.counted, ⟨by rw [hq]; exact h.exact.outstanding, ?_, ?_⟩, ?_⟩
  · obtain ⟨l, hperm, hsub⟩ := hwaiting
    exact hperm.nodup_iff.mp (h.exact.waiting.sublist hsub)
  · rw [hq]
    exact fun seq hseq => h.exact.apart seq (hunrecorded hseq)
  · rw [hq]
    exact fun m hm => h.owns m (howns m hm)

/-- The message in the hand of `IPMB_TXTask` is done with. -/
theorem Inv.drop (h : c.Inv) : Inv { c with hand := none } := by
  refine h.move rfl ?_ ?_ fun m hm => by cases hm
  · exact (numbersOf_sublist
      ((List.nil_sublist c.held).append_left (c.sender.toList ++ c.txqueue))).subperm
  · exact (numbersOf_sublist
      ((List.nil_sublist c.fresh).append_left (c.sender.toList ++ c.txqueue))).subset

theorem Inv.unlink {p : IpmiMsg → Bool} {node : IpmiMsg} (h : c.Inv)
    (hu : SeqQueue.Unlinked p c.q node q') :
    Inv { c with q := q' } :=
  h.queue (hu.counted h.counted) (h.exact.outstanding.unlink hu).1 hu.sublist.subset

theorem Inv.takeReq (h : c.Inv) (msg : IpmiMsg) : Inv { c with q := c.q.takeReq msg } := by
  rcases c.q.takeReq_cases msg with ⟨-, hq⟩ | ⟨node, -, hu⟩
  · rw [hq]
    exact h
  · exact h.unlink hu

theorem Inv.putBack (h : c.Inv) (hwaiting : ∀ seq ∈ numbersOf [m], seq ∉ c.waiting)
    (hapart : ∀ seq ∈ numbersOf [m], seq ∉ c.q.numbers) : (c.putBack m).Inv := by
  unfold Channel.putBack
  split
  · have hmid (ms : List IpmiMsgCfg) :
      (numbersOf (c.sender.toList ++ (c.txqueue ++ [m]) ++ ms)).Perm
        (numbersOf [m] ++ numbersOf (c.sender.toList ++ c.txqueue ++ ms)) := by
      rw [← numbersOf_append]
      apply numbersOf_perm
      rw [← List.append_assoc, List.append_assoc _ [m] ms]
      exact List.perm_middle
    refine ⟨h.counted, ⟨h.exact.outstanding, ?_, ?_⟩, h.owns⟩
    · refine (hmid c.held).nodup_iff.mpr (List.nodup_append.mpr ⟨?_, h.exact.waiting, ?_⟩)
      · cases hr : m.buffer.isResponse with
        | false => rw [numbersOf_request hr]; exact List.nodup_singleton _
        | true => rw [numbersOf_response hr]; exact List.nodup_nil
      · exact fun a ha b hb hab => hwaiting a ha (hab ▸ hb)
    · intro seq hseq
      rcases List.mem_append.mp ((hmid c.fresh).mem_iff.mp hseq) with hseq | hseq
      · exact hapart seq hseq
      · exact h.exact.apart seq hseq
  · exact h

/-- What is taken from the sending side has a number that nothing left there carries. -/
theorem Inv.carried (rest : List IpmiMsgCfg) {ms : List IpmiMsgCfg} (h : c.waiting.Nodup)
    (hperm : (c.sender.toList ++ c.txqueue ++ c.held).Perm ([m] ++ rest)) (hsub : ms.Sublist rest) :
    ∀ seq ∈ numbersOf [m], seq ∉ numbersOf ms := by
  have hnodup := (numbersOf_perm hperm).nodup_iff.mp h
  rw [numbersOf_append] at hnodup
  exact fun seq hseq hmem => (List.nodup_append.mp hnodup).2.2 seq hseq seq
    ((numbersOf_sublist hsub).subset hmem) rfl

theorem Inv.sendRequest (h : c.Inv) (req stack : IpmiMsg) (hsender : c.sender = none)
    (hfresh : req.isResponse = false → c.q.getFreeSeq.1 ∉ c.waiting) :
    Inv { c with q := c.q.getFreeSeq.2,
                 sender := some (requestCfg cfg c.q.getFreeSeq.1 req stack) } := by
  have hfree := h.exact.outstanding.getFreeSeq h.counted
  have hwaiting : c.waiting = numbersOf (c.txqueue ++ c.held) := by rw [waiting, hsender]; rfl
  have hunrecorded : c.unrecorded = numbersOf (c.txqueue ++ c.fresh) := by
    rw [unrecorded, hsender]; rfl
  have hcons (ms : List IpmiMsgCfg) :
      numbersOf ((some (requestCfg cfg c.q.getFreeSeq.1 req stack)).toList ++ ms) =
      numbersOf [requestCfg cfg c.q.getFreeSeq.1 req stack] ++ numbersOf ms := numbersOf_append _ _
  refine ⟨⟨h.counted.count, h.counted.room⟩,
    ⟨⟨h.exact.outstanding.distinct, h.exact.outstanding.table⟩, ?_, ?_⟩, fun m hm => ?_⟩
  · change (numbersOf (_ ++ c.txqueue ++ c.held)).Nodup
    rw [List.append_assoc, hcons, ← hwaiting]
    cases hr : req.isResponse with
    | true =>
        rw [numbersOf_response hr]
        exact h.exact.waiting
    | false =>
        rw [numbersOf_request hr]
        exact List.nodup_cons.mpr ⟨hfresh hr, h.exact.waiting⟩
  · change ∀ seq ∈ numbersOf (_ ++ c.txqueue ++ c.fresh), seq ∉ c.q.numbers
    rw [List.append_assoc, hcons, ← hunrecorded]
    intro seq hseq
    rcases List.mem_append.mp hseq with hseq | hseq
    · cases hr : req.isResponse with
      | true =>
          rw [numbersOf_response hr] at hseq
          exact absurd hseq List.not_mem_nil
      | false =>
          rw [numbersOf_request hr] at hseq
          rw [List.mem_singleton.mp hseq]
          exact hfree
    · exact h.exact.apart seq hseq
  · obtain ⟨hrequest, htarget, hrecord⟩ := h.owns m hm
    exact ⟨hrequest, htarget, hrecord⟩

theorem Inv.put (h : c.Inv) (hsender : c.sender = some m)
    (hroom : c.txqueue.length < ipmbTxqueueLen) :
    Inv { c with sender := none, txqueue := c.txqueue ++ [m] } := by
  have hdrop : Inv { c with sender := none } := by
    refine h.move rfl ?_ ?_ fun m hm => hm
    · rw [waiting, waiting]
      exact (numbersOf_sublist
        ((List.sublist_append_right _ c.txqueue).append_right c.held)).subperm
    · exact (numbersOf_sublist
        ((List.sublist_append_right _ c.txqueue).append_right c.fresh)).subset
  have hput : Channel.putBack { c with sender := none } m =
      { c with sender := none, txqueue := c.txqueue ++ [m] } :=
    if_pos hroom
  rw [← hput]
  apply hdrop.putBack
  · exact Inv.carried (c.txqueue ++ c.held) h.exact.waiting
      (by rw [hsender, Option.toList_some, List.append_assoc]) (List.Sublist.refl _)
  · intro seq hseq
    apply h.exact.apart
    rw [unrecorded, hsender, Option.toList_some, List.append_assoc, numbersOf_append]
    exact List.mem_append_left _ hseq

theorem Inv.take (h : c.Inv) (disabled : Bool) : (c.take disabled).Inv := by
  unfold Channel.take
  split
  · next m rest hhand hqueue =>
      have hheld : c.held = [] := by rw [held, hhand]; rfl
      have hfresh : c.fresh = [] := by rw [fresh, hhand]
      split
      · refine h.move rfl ?_ ?_ fun m hm => hm
        · rw [waiting, waiting, hqueue]
          exact (numbersOf_sublist
            (((List.sublist_cons_self m rest).append_left _).append_right _)).subperm
        · rw [unrecorded, unrecorded, hqueue]
          exact (numbersOf_sublist
            (((List.sublist_cons_self m rest).append_left _).append_right _)).subset
      · have hperm : (numbersOf (c.sender.toList ++ rest ++ [m])).Perm
          (numbersOf (c.sender.toList ++ (m :: rest) ++ [])) := by
          apply numbersOf_perm
          rw [List.append_nil, List.append_assoc]
          exact List.Perm.append_left _ (List.perm_append_singleton m rest)
        refine h.move rfl ?_ ?_ fun m' hm => ?_
        · rw [waiting, waiting, hqueue, hheld]
          exact hperm.subperm
        · rw [unrecorded, unrecorded, hqueue, hfresh]
          exact hperm.subset
        · cases hm
  · exact h

/-- A request in the hand of `IPMB_TXTask` has a number that no other message carries and that
is not outstanding. -/
theorem Inv.fresh_number (h : c.Inv) (hhand : c.hand = some ⟨m, false⟩)
    (hrequest : m.buffer.isResponse = false) :
    m.buffer.seq ∉ numbersOf (c.sender.toList ++ c.txqueue) ∧ m.buffer.seq ∉ c.q.numbers := by
  have hheld : c.held = [m] := by rw [held, hhand]; rfl
  have hfresh : c.fresh = [m] := by rw [fresh, hhand]
  constructor
  · have hnodup := h.exact.waiting
    rw [waiting, hheld, numbersOf_append, numbersOf_request hrequest] at hnodup
    exact fun hmem => (List.nodup_append.mp hnodup).2.2 _ hmem _ (List.mem_singleton_self _) rfl
  · apply h.exact.apart
    rw [unrecorded, hfresh, numbersOf_append, numbersOf_request hrequest]
    exact List.mem_append_right _ (List.mem_singleton_self _)

/-- The request is written next, with nothing or with its record outstanding under its number. -/
theorem Inv.recorded (h : c.Inv) (hhand : c.hand = some ⟨m, false⟩)
    (hrequest : m.buffer.isResponse = false) (hcounted : q'.Counted) (hexact : q'.Exact)
    (hnodes : ∀ node ∈ q'.nodes,
      node ∈ c.q.nodes ∨ ∃ now, node = { (toRecord m).buffer with timestamp := now }) :
    Inv { c with q := q', hand := some ⟨toRecord m, true⟩ } := by
  obtain ⟨hcarried, hfree⟩ := h.fresh_number hhand hrequest
  have hheld : c.held = [m] := by rw [held, hhand]; rfl
  have hnumber : numbersOf [toRecord m] = [m.buffer.seq] := numbersOf_request hrequest
  refine ⟨hcounted, ⟨hexact, ?_, ?_⟩, ?_⟩
  · have hwaiting := h.exact.waiting
    rw [waiting, hheld, numbersOf_append, numbersOf_request hrequest] at hwaiting
    change (numbersOf (c.sender.toList ++ c.txqueue ++ [toRecord m])).Nodup
    rw [numbersOf_append, hnumber]
    exact hwaiting
  · change ∀ seq ∈ numbersOf (c.sender.toList ++ c.txqueue ++ []), _
    rw [List.append_nil]
    intro seq hseq hmem
    obtain ⟨node, hnode, rfl⟩ := List.mem_map.mp hmem
    rcases hnodes node hnode with hold | ⟨now, rfl⟩
    · apply h.exact.apart node.seqTarget _ (List.mem_map_of_mem hold)
      rw [unrecorded, numbersOf_append]
      exact List.mem_append_left _ hseq
    · exact hcarried hseq
  · intro m' hm'
    obtain ⟨rfl, -⟩ := Held.mk.inj (Option.some.inj hm')
    refine ⟨hrequest, rfl, fun node hnode hseq => ?_⟩
    rcases hnodes node hnode with hold | ⟨now, rfl⟩
    · exact absurd (List.mem_map.mpr ⟨node, hold, hseq⟩) hfree
    · change (m.buffer.netfn == (m.buffer.netfn &&& ~~~0x01) && m.buffer.cmd == m.buffer.cmd &&
        m.buffer.seq == m.buffer.seq) = true
      rw [netfn_request hrequest, beq_self_eq_true, beq_self_eq_true, beq_self_eq_true]
      rfl

theorem Inv.record (h : c.Inv) (now : UInt32) (locked allocated : Bool)
    (hhand : c.hand = some ⟨m, false⟩) (hrequest : m.buffer.isResponse = false)
    (hroom : locked = true → c.q.nodes.length < 15) :
    Inv { c with
      q := if locked then c.q.insertReqIpmiMsg (toRecord m).buffer now allocated else c.q
      hand := some ⟨toRecord m, true⟩ } := by
  have hkept : ∀ node ∈ c.q.nodes,
      node ∈ c.q.nodes ∨ ∃ now, node = { (toRecord m).buffer with timestamp := now } :=
    fun node hnode => .inl hnode
  cases locked with
  | false => exact h.recorded hhand hrequest h.counted h.exact.outstanding hkept
  | true =>
      have hlt := hroom rfl
      rcases SeqQueue.insertReqIpmiMsg_cases h.counted hlt (toRecord m).buffer now allocated with
        hq | hq
      · rw [if_pos rfl, hq]
        exact h.recorded hhand hrequest ⟨h.counted.count, h.counted.room⟩
          ⟨h.exact.outstanding.distinct, h.exact.outstanding.table⟩ hkept
      · rw [if_pos rfl, hq]
        have hfree := (h.fresh_number hhand hrequest).2
        refine h.recorded hhand hrequest (h.counted.append hlt _)
          (h.exact.outstanding.append hfree) fun node hnode => ?_
        exact (List.mem_append.mp hnode).imp_right fun hnew => ⟨now, List.mem_singleton.mp hnew⟩

theorem Inv.failResponse (h : c.Inv) (hresponse : m.buffer.isResponse = true) :
    (c.failResponse m).Inv := by
  have hdrop : Inv { c with hand := none } := h.drop
  have hnone : numbersOf [{ m with retries := m.retries + 1 }] = [] := numbersOf_response hresponse
  apply hdrop.putBack
  · rw [hnone]
    exact fun seq hseq => absurd hseq List.not_mem_nil
  · rw [hnone]
    exact fun seq hseq => absurd hseq List.not_mem_nil

/-- Once the record of a request is withdrawn its number is free again. -/
theorem Inv.withdrawn (h : c.Inv) (hhand : c.hand = some ⟨m, true⟩) :
    m.buffer.seq ∉ (c.q.takeReq m.buffer).numbers := by
  obtain ⟨hrequest, htarget, hrecord⟩ := h.owns m hhand
  rcases c.q.takeReq_cases m.buffer with ⟨hnone, hq⟩ | ⟨node, -, hu⟩
  · rw [hq]
    intro hmem
    obtain ⟨node, hnode, hseq⟩ := List.mem_map.mp hmem
    have hno := SeqQueue.unlink_none hnone node hnode
    rw [hrecord node hnode hseq] at hno
    cases hno
  · have hfound := hu.found
    simp only [SeqQueue.answers, Bool.and_eq_true, beq_iff_eq] at hfound
    rw [← htarget, ← hfound.2]
    exact (h.exact.outstanding.unlink hu).2

/-- What `find_req_ipmi_msg` changes of a message leaves its type and its number. -/
theorem withdraw_message (q : SeqQueue) (msg : IpmiMsg) (locked : Bool) :
    (withdraw q msg locked).1.isResponse = msg.isResponse ∧
      (withdraw q msg locked).1.seq = msg.seq := by
  unfold withdraw SeqQueue.findReqIpmiMsg
  cases locked with
  | false => exact ⟨rfl, rfl⟩
  | true => cases q.unlink (SeqQueue.answers msg) <;> exact ⟨rfl, rfl⟩

theorem withdraw_queue (q : SeqQueue) (msg : IpmiMsg) :
    (withdraw q msg true).2 = q.takeReq msg := by
  unfold withdraw SeqQueue.takeReq
  rw [if_pos rfl]
  cases q.findReqIpmiMsg msg <;> rfl

/-- A request goes back onto the queue whose number still has a record. -/
structure PutsBackRecorded (c : Channel) (m : IpmiMsgCfg) : Prop where
  again : m.retries + 1 ≤ ipmbTxRetryTime
  room : c.txqueue.length < ipmbTxqueueLen
  outstanding : m.buffer.seq ∈ c.q.numbers

theorem Inv.failRequest (h : c.Inv) (hhand : c.hand = some ⟨m, true⟩) (locked : Bool)
    (hrecord : locked = false → ¬ c.PutsBackRecorded m) : (c.failRequest m locked).Inv := by
  obtain ⟨hrequest, -, -⟩ := h.owns m hhand
  obtain ⟨hresponse, hseq⟩ := withdraw_message c.q m.buffer locked
  have hheld : c.held = [m] := by rw [held, hhand]; rfl
  have hdrop : Inv { c with q := (withdraw c.q m.buffer locked).2, hand := none } := by
    cases locked with
    | false => exact h.drop
    | true =>
        rw [withdraw_queue]
        exact (h.takeReq m.buffer).drop
  unfold Channel.failRequest
  extract_lets r c'
  have hnumber : numbersOf [⟨r.1, m.retries + 1⟩] = numbersOf [m] := by
    rw [numbersOf_request hrequest, numbersOf_request (hresponse.trans hrequest), hseq]
  split
  · exact hdrop
  · next hagain =>
      by_cases hroom : c.txqueue.length < ipmbTxqueueLen
      · apply hdrop.putBack
        · rw [hnumber]
          change ∀ seq ∈ numbersOf [m], seq ∉ numbersOf (c.sender.toList ++ c.txqueue ++ [])
          rw [List.append_nil]
          exact Inv.carried _ h.exact.waiting (by rw [hheld]; exact List.perm_append_comm)
            (List.Sublist.refl _)
        · rw [hnumber, numbersOf_request hrequest]
          intro seq hmem
          rw [List.mem_singleton.mp hmem]
          cases locked with
          | false => exact fun hout => hrecord rfl ⟨Nat.le_of_not_lt hagain, hroom, hout⟩
          | true =>
              change m.buffer.seq ∉ (withdraw c.q m.buffer true).2.numbers
              rw [withdraw_queue]
              exact h.withdrawn hhand
      · have hfull : c'.putBack ⟨r.1, m.retries + 1⟩ = c' := if_neg hroom
        rw [hfull]
        exact hdrop

/-- A request is sent when the number found for it is not carried by another on its way, and
recorded when there is room; and it is put back only when its number has no record any more. -/
def Undisturbed (c : Channel) : ChannelAct → Prop
  | .sendRequest req _ =>
      c.sender = none → req.isResponse = false → c.q.getFreeSeq.1 ∉ c.waiting
  | .record _ true _ =>
      (∃ m, c.hand = some ⟨m, false⟩ ∧ m.buffer.isResponse = false) → c.q.nodes.length < 15
  | .written false false => ∀ m, c.hand = some ⟨m, true⟩ → ¬ c.PutsBackRecorded m
  | _ => True

theorem Inv.written (h : c.Inv) (ok locked : Bool) (ha : c.Undisturbed (.written ok locked)) :
    (c.written ok locked).Inv := by
  unfold Channel.written
  split
  · exact h
  · next m recorded hhand =>
      cases hresponse : m.buffer.isResponse with
      | true =>
          cases ok with
          | true => exact h.drop
          | false => exact h.failResponse hresponse
      | false =>
          cases recorded with
          | false => exact h
          | true =>
              cases ok with
              | true => exact h.drop
              | false =>
                  refine h.failRequest hhand locked fun hunlocked => ?_
                  rw [hunlocked] at ha
                  exact ha m hhand

theorem Inv.step (h : c.Inv) (a : ChannelAct) (ha : c.Undisturbed a) :
    (c.step cfg timer a).Inv := by
  cases a with
  | sendRequest req stack =>
      change (c.ipmbSendRequest cfg req stack).Inv
      unfold Channel.ipmbSendRequest
      split
      · exact h
      · next hsender => exact h.sendRequest req stack hsender (ha hsender)
  | put =>
      change c.put.Inv
      unfold Channel.put
      split
      · exact h
      · next m hsender =>
          split
          · next hroom => exact h.put hsender hroom
          · exact h
  | giveUp =>
      refine h.move rfl ?_ ?_ fun m hm => hm
      · exact (numbersOf_sublist
          (((List.nil_sublist _).append_right c.txqueue).append_right c.held)).subperm
      · exact (numbersOf_sublist
          (((List.nil_sublist _).append_right c.txqueue).append_right c.fresh)).subset
  | sendResponse resp stack =>
      have hnone : numbersOf [responseCfg cfg resp.val stack] = [] :=
        numbersOf_response (isResponse_responseCfg cfg resp stack)
      apply h.putBack
      · rw [hnone]
        exact fun seq hseq => absurd hseq List.not_mem_nil
      · rw [hnone]
        exact fun seq hseq => absurd hseq List.not_mem_nil
  | take disabled => exact h.take disabled
  | record now locked allocated =>
      change (c.record now locked allocated).Inv
      unfold Channel.record
      split
      · next m hhand =>
          cases hrequest : m.buffer.isResponse with
          | true => exact h
          | false =>
              refine h.record now locked allocated hhand hrequest fun hlocked => ?_
              rw [hlocked] at ha
              exact ha ⟨m, hhand, hrequest⟩
      · exact h
  | written ok locked => exact h.written ok locked ha
  | received msg => exact h.takeReq msg
  | clear msg =>
      change Inv { c with q := c.q.clearReqIpmiMsg msg }
      rcases c.q.clearReqIpmiMsg_cases msg with hq | ⟨node, hu⟩
      · rw [hq]
        exact h
      · exact h.unlink hu
  | timeout clock =>
      obtain ⟨removed, hswept⟩ := c.q.seqTimeout_swept timer clock
      exact h.queue (h.counted.seqTimeout timer clock) (h.exact.outstanding.seqTimeout timer clock)
        hswept.kept.subset

end Channel

end LinkedsemiZephyr.Ipmb
