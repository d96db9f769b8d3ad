import LinkedsemiZephyr.Ipmi.KcsPolling
import LinkedsemiZephyr.Lib.Buffer
import LinkedsemiZephyr.Lib.Octets

/-! The IPMI service of `ipmi_openbic` behind its KCS loop: `notify_ipmi_client`, the queue of
`IPMI_handler`, the handlers of `ipmi_cmd_handle` and the response written back. -/
namespace LinkedsemiZephyr.Ipmi
open GuardedRun Octets Buffer

abbrev ipmiBufLen : Nat := 10

def cmdChassisGetChassisStatus : UInt8 := 0x01
def cmdAppColdReset : UInt8 := 0x02
def cmdAppWarmReset : UInt8 := 0x03

def ccSuccess : UInt8 := 0x00
def ccInvalidCmd : UInt8 := 0xC1
def ccInvalidLength : UInt8 := 0xC7

/-- An `ipmi_msg_cfg` in `ipmi_msgq`; `data` is the whole array, of which `dataLen` octets are
of this message. -/
structure Queued where
  netfn : UInt8
  cmd : UInt8
  dataLen : Nat
  data : Bytes
  deriving DecidableEq, Repr

/-- What a handler leaves in the message: its code and `data_len` octets. -/
structure Reply where
  completionCode : UInt8
  data : Bytes
  deriving DecidableEq, Repr

def Reply.payload (reply : Reply) : Bytes :=
  if reply.completionCode ≠ ccSuccess then [] else reply.data

def invalidCmd : Reply := ⟨ccInvalidCmd, []⟩
def invalidLength : Reply := ⟨ccInvalidLength, []⟩

/-- `GET_FW_VERSION1(BOARD_ID, PROJECT_STAGE)`. -/
def firmwareRevision1 : UInt8 :=
  let boardId : UInt8 := 0x01
  let projectStage : UInt8 := 4
  (boardId &&& (0x0F : UInt8)) ||| (projectStage <<< (4 : UInt8))

def ianaId : Bytes := [0x23, 0xA1, 0x00]
def productId : Bytes := [0x00, 0x00]
def auxiliaryFwRevision : Bytes := [0x00, 0x00, 0x00, 0x00]

def appGetDeviceId (m : Queued) : Reply :=
  if m.dataLen ≠ 0 then invalidLength
  else ⟨ccSuccess, [0x00, 0x80, firmwareRevision1, 0x08, 0x02, 0xBF] ++ ianaId ++ productId ++
    auxiliaryFwRevision⟩

/-- `APP_COLD_RESET` and `APP_WARM_RESET`, whose resets are commented out. -/
def appReset (m : Queued) : Reply := if m.dataLen ≠ 0 then invalidLength else ⟨ccSuccess, []⟩

/-- What `get_DC_status` returns: nothing sets it. -/
def getDCStatus : Bool := false

def pwRestorePolicy : UInt8 := 0x2

/-- `CHASSIS_STATUS`: `pwOn` is bit 0 of its first octet, `pwFault` bit 3, the policy bits 5
and 6. -/
def chassisStatus : Bytes :=
  let on : UInt8 := if getDCStatus then 1 else 0
  [on ||| on <<< 3 ||| pwRestorePolicy <<< 5, 0, 0, 0]

def chassisGetChassisStatus (m : Queued) : Reply :=
  if m.dataLen ≠ 0 then invalidLength else ⟨ccSuccess, chassisStatus⟩

def chassisHandler (m : Queued) : Reply :=
  if m.cmd = cmdChassisGetChassisStatus then chassisGetChassisStatus m else invalidCmd

/-- `IPMI_APP_handler` with `BMC_GLOBAL_ENABLES`; setting it does not look at the length. Its
other handlers leave `CC_INVALID_CMD` as its `default` does. -/
def appHandler (enables : UInt8) (m : Queued) : Reply × UInt8 :=
  if m.cmd = cmdAppGetDeviceId then (appGetDeviceId m, enables)
  else if m.cmd = cmdAppColdReset ∨ m.cmd = cmdAppWarmReset then (appReset m, enables)
  else if m.cmd = cmdAppSetBmcGlobalEnables then (⟨ccSuccess, []⟩, m.data.getD 0 0)
  else if m.cmd = cmdAppGetBmcGlobalEnables then (⟨ccSuccess, [enables]⟩, enables)
  else (invalidCmd, enables)

/-- The switch of `ipmi_cmd_handle` on the net function, `NETFN_FIRMWARE_REQ` without a handler. -/
def dispatch (enables : UInt8) (m : Queued) : Reply × UInt8 :=
  if m.netfn = netfnChassisReq then (chassisHandler m, enables)
  else if m.netfn = netfnAppReq then appHandler enables m
  else (invalidCmd, enables)

/-- What is written to the host: data only with success, and no more than the buffer takes. -/
def respond (enables : UInt8) (m : Queued) : Bytes × UInt8 :=
  let (reply, enables) := dispatch enables m
  ([(m.netfn + 1) <<< 2, m.cmd, reply.completionCode] ++
    reply.payload.take (kcsBuffSize - 3), enables)

/-- A read of the KCS device: an error, or a message with its two octets of header. -/
abbrev WholeRead := { r : Read // r.rc < 0 ∨ 2 ≤ r.rc }

/-- How the thread of a command ends: its response written, with `ipmi_write` failing or aborted
after ten seconds behind the command, or aborted before it. -/
inductive Ending where
  | written
  | unwritten
  | aborted
  deriving DecidableEq

/-- Both threads; `current` is the array of `current_msg`, and `sent`, `handled` and `written`, what
went to the host for each request handled, are kept for the statements. -/
structure Service where
  ibuf : Ibuf := zero
  current : Bytes := []
  queue : List Queued := []
  enables : UInt8 := 0
  written : List (Option Bytes) := []
  sent : List IpmiMsg := []
  handled : List Queued := []

namespace Service

/-- `notify_ipmi_client`: a full queue is purged for the new message. -/
def notify (queue : List Queued) (m : Queued) : List Queued :=
  if queue.length < ipmiBufLen then queue ++ [m] else [m]

/-- What the loop does with a message it accepts: the payload is copied over what `current_msg`
held. -/
def accept (s : Service) (m : IpmiMsg) : Service :=
  let current := if m.dataLen ≠ 0 then write s.current 0 m.data else s.current
  { s with current := current, queue := notify s.queue ⟨m.netfn, m.cmd, m.dataLen, current⟩ }

inductive Turn where
  | poll (r : WholeRead)
  | handle (ending : Ending)

/-- A turn that writes no response. -/
def Turn.silent : Turn → Bool
  | .poll _ => false
  | .handle ending => ending ≠ .written

/-- One turn of the loop of `main`. -/
def pollKcs (s : Service) (r : WholeRead) : Service :=
  let (ibuf, notified, _) := bodyOpenbic r.val s.ibuf
  notified.foldl accept
    { s with ibuf := ibuf, sent := s.sent ++ Kcs.expected palRequestMsgOpenbic r.val }

/-- One turn of `IPMI_handler`: the oldest message is done with, however its thread ends. -/
def ipmiHandler (s : Service) (ending : Ending) : Service :=
  match s.queue with
  | [] => s
  | m :: queue =>
    let (response, enables) := respond s.enables m
    let s := { s with queue := queue, handled := s.handled ++ [m] }
    match ending with
    | .written => { s with enables := enables, written := s.written ++ [some response] }
    | .unwritten => { s with enables := enables, written := s.written ++ [none] }
    | .aborted => { s with written := s.written ++ [none] }

def step (s : Service) : Turn → Service
  | .poll r => s.pollKcs r
  | .handle ending => s.ipmiHandler ending

/-- A queued message is the request the host sent. -/
def Carries (m : Queued) (sent : IpmiMsg) : Prop :=
  m.netfn = sent.netfn ∧ m.cmd = sent.cmd ∧ m.dataLen = sent.dataLen ∧
    m.data.take m.dataLen = sent.data

/-- A response belongs to a request: its net function the next one, its command the same, and of
a size the host's buffer takes. -/
structure Answers (response : Bytes) (sent : IpmiMsg) : Prop where
  header : ∃ completionCode data, response =
    (sent.netfn + 1) <<< 2 :: sent.cmd :: completionCode :: data ∧
    (completionCode ≠ ccSuccess → data = [])
  size : response.length ≤ 18

/-- What went to the host for a request, if anything did, answers it. -/
def Fits (response : Option Bytes) (sent : IpmiMsg) : Prop := ∀ b ∈ response, Answers b sent

/-- Nothing is lost: what was handled and what waits are the host's requests in order, and the
responses answer the former one by one. -/
structure Lossless (s : Service) : Prop where
  fifo : List.Forall₂ Carries (s.handled ++ s.queue) s.sent
  answered : List.Forall₂ Fits s.written (s.sent.take s.handled.length)

/-- A request arrives while there is room. -/
def Room (s : Service) : Turn → Prop
  | .poll r => Kcs.expected palRequestMsgOpenbic r.val ≠ [] → s.queue.length < ipmiBufLen
  | .handle _ => True

variable {s : Service} {m : Queued} {sent : IpmiMsg} {r : WholeRead} {ending : Ending}

theorem length_appHandler (enables : UInt8) (m : Queued) :
    (appHandler enables m).1.data.length ≤ 15 := by
  unfold appHandler appGetDeviceId appReset invalidLength invalidCmd
  split
  · split
    · exact Nat.zero_le _
    · exact Nat.le_refl 15
  · split
    · split
      · exact Nat.zero_le _
      · exact Nat.zero_le _
    · split
      · exact Nat.zero_le _
      · split
        · exact Nat.le_add_left 1 14
        · exact Nat.zero_le _

theorem length_dispatch (enables : UInt8) (m : Queued) :
    (dispatch enables m).1.data.length ≤ 15 := by
  unfold dispatch
  split
  · change (chassisHandler m).data.length ≤ 15
    unfold chassisHandler chassisGetChassisStatus invalidLength invalidCmd
    split
    · split
      · exact Nat.zero_le _
      · exact Nat.le_add_left 4 11
    · exact Nat.zero_le _
  · split
    · exact length_appHandler enables m
    · exact Nat.zero_le _

/-- Every handler's response fits, whatever the message. -/
theorem respond_answers (enables : UInt8) (h : Carries m sent) :
    Answers (respond enables m).1 sent := by
  obtain ⟨hnetfn, hcmd, -, -⟩ := h
  have hpayload : (dispatch enables m).1.payload.length ≤ 15 := by
    unfold Reply.payload
    split
    · exact Nat.zero_le _
    · exact length_dispatch enables m
  have hresponse : (respond enables m).1 =
      [(m.netfn + 1) <<< 2, m.cmd, (dispatch enables m).1.completionCode] ++
      (dispatch enables m).1.payload.take 253 := rfl
  rw [hresponse]
  constructor
  · refine ⟨(dispatch enables m).1.completionCode, _, by rw [← hnetfn, ← hcmd]; rfl,
      fun hcode => ?_⟩
    rw [Reply.payload, if_pos hcode]
    rfl
  · rw [List.length_append, List.length_take]
    change 3 + _ ≤ 18
    omega

theorem carries_accept (hlen : sent.dataLen = sent.data.length) (current : Bytes) :
    Carries ⟨sent.netfn, sent.cmd, sent.dataLen, if sent.dataLen ≠
      0 then write current 0 sent.data else current⟩ sent := by
  refine ⟨rfl, rfl, rfl, ?_⟩
  change List.take sent.dataLen _ = _
  by_cases hzero : sent.dataLen = 0
  · rw [hzero, List.take_zero]
    exact (List.length_eq_zero_iff.mp (hlen.symm.trans hzero)).symm
  · rw [if_pos hzero, hlen]
    exact take_of_isPrefix (prefix_write_zero current sent.data)

/-- Of a whole message the loop forwards that message, once. -/
theorem notified_eq (ibuf : Ibuf) (r : WholeRead) :
    (bodyOpenbic r.val ibuf).2.1 = Kcs.expected palRequestMsgOpenbic r.val := by
  have hsafe : Kcs.SafeOpenbic ⟨ibuf, []⟩ r.val := by
    intro hpos hshort
    rcases r.property with hneg | hlong
    · exact absurd hneg (not_lt.mpr hpos)
    · exact absurd hlong (not_le.mpr hshort)
  exact ((Kcs.bodyOpenbic_right ⟨ibuf, []⟩ r.val).mpr hsafe).notified

theorem expected_cases (r : Read) :
    Kcs.expected palRequestMsgOpenbic r = [] ∨
      ∃ sent, Kcs.expected palRequestMsgOpenbic r = [sent] ∧ sent.dataLen = sent.data.length := by
  unfold Kcs.expected
  split
  · split
    · exact .inr ⟨_, rfl, rfl⟩
    · exact .inl rfl
  · exact .inl rfl

theorem step_poll_none (h : Kcs.expected palRequestMsgOpenbic r.val = []) :
    s.step (.poll r) = { s with ibuf := (bodyOpenbic r.val s.ibuf).1 } := by
  have hnotified := notified_eq s.ibuf r
  rw [h] at hnotified
  change (bodyOpenbic r.val s.ibuf).2.1.foldl accept
    { s with ibuf := _, sent := s.sent ++ Kcs.expected palRequestMsgOpenbic r.val } = _
  rw [hnotified, h, List.append_nil]
  rfl

theorem step_poll_some (h : Kcs.expected palRequestMsgOpenbic r.val = [sent]) :
    s.step (.poll r) =
      accept { s with ibuf := (bodyOpenbic r.val s.ibuf).1, sent := s.sent ++ [sent] } sent := by
  have hnotified := notified_eq s.ibuf r
  rw [h] at hnotified
  change (bodyOpenbic r.val s.ibuf).2.1.foldl accept
    { s with ibuf := _, sent := s.sent ++ Kcs.expected palRequestMsgOpenbic r.val } = _
  rw [hnotified, h]
  rfl

theorem Lossless.poll (h : s.Lossless) (hroom : s.Room (.poll r)) :
    (s.step (.poll r)).Lossless := by
  rcases expected_cases r.val with hnone | ⟨sent, hsome, hlen⟩
  · rw [step_poll_none hnone]
    exact ⟨h.fifo, h.answered⟩
  · have hlt : s.queue.length < ipmiBufLen := hroom (by rw [hsome]; exact List.cons_ne_nil _ _)
    rw [step_poll_some hsome]
    constructor
    · change List.Forall₂ Carries (s.handled ++ notify s.queue _) (s.sent ++ [sent])
      rw [notify, if_pos hlt, ← List.append_assoc]
      exact List.rel_append h.fifo (.cons (carries_accept hlen s.current) .nil)
    · change List.Forall₂ Fits s.written ((s.sent ++ [sent]).take s.handled.length)
      have hle : s.handled.length ≤ s.sent.length := by
        rw [← h.fifo.length_eq, List.length_append]
        exact Nat.le_add_right _ _
      rw [List.take_append_of_le_length hle]
      exact h.answered

/-- What a turn of the handler does with the oldest message. -/
theorem step_handle {queue : List Queued} (hqueue : s.queue = m :: queue) (ending : Ending) :
    ∃ response enables, (s.step (.handle ending) = { s with
        queue, enables, written := s.written ++ [response], handled := s.handled ++ [m] }) ∧
      (response = if ending = .written then some (respond s.enables m).1 else none) := by
  change ∃ response enables, s.ipmiHandler ending = _ ∧ _
  unfold ipmiHandler
  rw [hqueue]
  cases ending with
  | written => exact ⟨_, _, rfl, rfl⟩
  | unwritten => exact ⟨_, _, rfl, rfl⟩
  | aborted => exact ⟨_, s.enables, rfl, rfl⟩

theorem step_handle_idle (hqueue : s.queue = []) (ending : Ending) :
    s.step (.handle ending) = s := by
  change s.ipmiHandler ending = s
  unfold ipmiHandler
  rw [hqueue]

theorem Lossless.handle (h : s.Lossless) (ending : Ending) :
    (s.step (.handle ending)).Lossless := by
  cases hqueue : s.queue with
  | nil =>
      rw [step_handle_idle hqueue]
      exact h
  | cons m queue =>
      obtain ⟨response, enables, hstep, hresponse⟩ := step_handle hqueue ending
      have hfifo := h.fifo
      rw [hqueue] at hfifo
      have hdrop := List.forall₂_drop_append s.sent s.handled (m :: queue) hfifo.flip
      obtain ⟨sent, rest, hcarries, -, hrest⟩ := List.forall₂_cons_right_iff.mp hdrop
      have hfits : Fits response sent := by
        intro b hb
        rw [hresponse] at hb
        split_ifs at hb
        · rw [← Option.some.inj hb]
          exact respond_answers s.enables hcarries
        · cases hb
      rw [hstep]
      constructor
      · change List.Forall₂ Carries (s.handled ++ [m] ++ queue) s.sent
        rwa [List.append_assoc]
      · change List.Forall₂ Fits (s.written ++ [response]) (s.sent.take (s.handled ++ [m]).length)
        rw [List.length_append, List.length_singleton, List.take_add, hrest]
        exact List.rel_append h.answered (.cons hfits .nil)

/-- `ipmi_msgq` holds ten messages. -/
theorem length_queue_step (h : s.queue.length ≤ ipmiBufLen) (turn : Turn) :
    (s.step turn).queue.length ≤ ipmiBufLen := by
  cases turn with
  | poll r =>
      rcases expected_cases r.val with hnone | ⟨sent, hsome, -⟩
      · rw [step_poll_none hnone]
        exact h
      · rw [step_poll_some hsome]
        change (notify s.queue _).length ≤ ipmiBufLen
        unfold notify
        split
        · rw [List.length_append]
          exact Nat.succ_le_of_lt ‹_›
        · exact Nat.succ_le_of_lt (by decide)
  | handle ending =>
      cases hqueue : s.queue with
      | nil =>
          rw [step_handle_idle hqueue]
          exact h
      | cons m queue =>
          obtain ⟨response, enables, hstep, -⟩ := step_handle hqueue ending
          rw [hstep]
          rw [hqueue] at h
          exact Nat.le_of_succ_le h

/-- No response is missing but for a turn that wrote none. -/
theorem unanswered_step (s : Service) (turn : Turn) :
    (s.step turn).written.count none ≤ s.written.count none + [turn].countP Turn.silent := by
  cases turn with
  | poll r =>
      have hwritten : (s.step (.poll r)).written = s.written := by
        rcases expected_cases r.val with hnone | ⟨sent, hsome, -⟩
        · rw [step_poll_none hnone]
        · rw [step_poll_some hsome]
          rfl
      rw [hwritten]
      exact Nat.le_add_right _ _
  | handle ending =>
      cases hqueue : s.queue with
      | nil =>
          rw [step_handle_idle hqueue]
          exact Nat.le_add_right _ _
      | cons m queue =>
          obtain ⟨response, enables, hstep, hresponse⟩ := step_handle hqueue ending
          rw [hstep, hresponse, List.count_append]
          cases ending with
          | written => exact Nat.le_refl _
          | unwritten => exact Nat.le_refl _
          | aborted => exact Nat.le_refl _

theorem unanswered_run (turns : List Turn) (s : Service) :
    (turns.foldl step s).written.count none ≤
      s.written.count none + turns.countP Turn.silent := by
  induction turns generalizing s with
  | nil => exact Nat.le_refl _
  | cons turn turns ih =>
      have hstep := unanswered_step s turn
      have hrest := ih (s.step turn)
      rw [List.foldl_cons, ← List.singleton_append, List.countP_append]
      omega

/-- Every turn of the handler takes a message off the queue. -/
theorem drained (endings : List Ending) (hlen : s.queue.length ≤ endings.length) :
    ((endings.map Turn.handle).foldl step s).queue = [] := by
  induction endings generalizing s with
  | nil => exact List.length_eq_zero_iff.mp (Nat.le_zero.mp hlen)
  | cons ending endings ih =>
      apply ih
      cases hqueue : s.queue with
      | nil =>
          rw [step_handle_idle hqueue, hqueue]
          exact Nat.zero_le _
      | cons m queue =>
          obtain ⟨response, enables, hstep, -⟩ := step_handle hqueue ending
          rw [hstep]
          rw [hqueue] at hlen
          exact Nat.le_of_succ_le_succ hlen

theorem Lossless.step (h : s.Lossless) (turn : Turn) (hroom : s.Room turn) :
    (s.step turn).Lossless := by
  cases turn with
  | poll r => exact h.poll hroom
  | handle ending => exact h.handle ending

/-- What is purged is never answered. -/
theorem Lossless.purged (h : s.Lossless) (hfull : ¬ s.Room (.poll r)) :
    ¬ (s.step (.poll r)).Lossless := by
  intro hlossless
  obtain ⟨hsome, hqueue⟩ := Classical.not_imp.mp hfull
  rcases expected_cases r.val with hnone | ⟨sent, hsent, -⟩
  · exact hsome hnone
  · have hbefore := h.fifo.length_eq
    have hafter := hlossless.fifo.length_eq
    rw [step_poll_some hsent] at hafter
    change (s.handled ++ notify s.queue _).length = (s.sent ++ [sent]).length at hafter
    rw [notify, if_neg hqueue] at hafter
    simp only [List.length_append, List.length_cons, List.length_nil] at hbefore hafter
    change ¬ s.queue.length < 10 at hqueue
    omega

/-- The handler asks nothing of the queue. -/
theorem follows_handle (s : Service) (endings : List Ending) :
    Follows Service.step Room s (endings.map Turn.handle) := by
  induction endings generalizing s with
  | nil => trivial
  | cons ending endings ih => exact ⟨trivial, ih _⟩

theorem Lossless.start : Lossless {} := ⟨.nil, .nil⟩

/-- The host is answered request by request and in order, each time with the net function behind
its own, its own command and no more than fifteen octets of data, in just the runs in which no
request comes on ten unanswered ones. Ten turns of the handler after such a run every request was
handled, and only as many are without a response as turns wrote none. -/
theorem kcs_requests_answered_iff (turns : List Turn) :
    (Always Service.step Lossless {} turns ↔ Follows Service.step Room {} turns) ∧
      ∀ endings : List Ending, ipmiBufLen ≤ endings.length → Follows Service.step Room {} turns →
        let all := turns ++ endings.map Turn.handle
        let s := all.foldl Service.step {}
        List.Forall₂ Carries s.handled s.sent ∧ List.Forall₂ Fits s.written s.sent ∧
          s.written.count none ≤ all.countP Turn.silent := by
  constructor
  · refine always_iff_follows Lossless.start (fun s turn h hroom => h.step turn hroom)
      (fun s h => h) ?_
    intro s turn h hfull
    cases turn with
    | poll r => exact h.purged hfull
    | handle ending => exact absurd trivial hfull
  · intro endings hlen hfollows all s
    have hall : Follows Service.step Room {} all :=
      follows_append.mpr ⟨hfollows, follows_handle _ endings⟩
    have hlossless : Lossless s :=
      hall.invariant Lossless.start fun s turn h hroom => h.step turn hroom
    have hqueue : s.queue = [] := by
      have hroom : (turns.foldl Service.step {}).queue.length ≤ ipmiBufLen :=
        List.foldlRecOn (motive := fun s => s.queue.length ≤ ipmiBufLen) turns Service.step
          (Nat.zero_le _) fun s h turn _ => length_queue_step h turn
      change (all.foldl Service.step {}).queue = []
      rw [List.foldl_append]
      exact drained endings (hroom.trans hlen)
    have hfifo := hlossless.fifo
    rw [hqueue, List.append_nil] at hfifo
    have hanswered := hlossless.answered
    rw [List.take_of_length_le (Nat.le_of_eq hfifo.length_eq.symm)] at hanswered
    refine ⟨hfifo, hanswered, ?_⟩
    have hcount := unanswered_run all {}
    exact hcount.trans (Nat.le_of_eq (Nat.zero_add _))

end Service

end LinkedsemiZephyr.Ipmi
