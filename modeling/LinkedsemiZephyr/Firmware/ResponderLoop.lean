import LinkedsemiZephyr.Firmware.RxMailbox
import LinkedsemiZephyr.Lib.GuardedRun

/-! The responder's main loop. A request's bytes are copied when it is received; where its
response goes is read from `pending_eid` and `pending_msg_tag` when it is sent. -/
namespace LinkedsemiZephyr.Firmware
open GuardedRun Octets

/-- Where the main loop stands: before and in `k_sem_take`, before
`spdm_device_receive_message`, in libspdm with a request copied out, and with its response
encoded. -/
inductive LoopPc where
  | taking
  | waiting
  | receiving
  | processing (request : MctpMessage)
  | responding (request : MctpMessage) (response : Bytes)
  deriving DecidableEq, Repr

/-- A call of `mctp_message_tx`, with the request it answers. -/
structure Response where
  eid : UInt8
  tagOwner : Bool
  msgTag : UInt8
  msg : Bytes
  request : MctpMessage
  deriving DecidableEq, Repr

/-- The responder's globals. `pendingRx` keeps its whole message to say which one was
copied; `accepted` lists the messages `rx_message` kept, `transmitted` the responses. -/
structure Responder where
  pendingRx : MctpMessage := ⟨0, false, 0, []⟩
  pendingEid : UInt8 := 0
  pendingMsgTag : UInt8 := 0
  pendingValid : Bool := false
  spdmRxSem : Nat := 0
  pc : LoopPc := .taking
  accepted : List MctpMessage := []
  transmitted : List Response := []
  deriving DecidableEq, Repr

/-- `take` and `receive` are the loop's first two steps; libspdm then encodes a response or
reports a status, and sends. -/
inductive ResponderAction where
  | rxMessage (m : MctpMessage)
  | take
  | receive (messageSize : Nat)
  | process (response : Option Bytes)
  | send

namespace Responder

/-- `k_sem_give`: a waiting main loop is readied and the count stays. -/
def giveRxSem (s : Responder) : Responder :=
  match s.pc with
  | .waiting => { s with pc := .receiving }
  | _ => { s with spdmRxSem := kSemGive s.spdmRxSem }

def rxMessage (s : Responder) (m : MctpMessage) : Responder :=
  if Accepts m then
    giveRxSem { s with
      pendingRx := m
      pendingEid := m.eid
      pendingMsgTag := m.msgTag
      pendingValid := true
      accepted := s.accepted ++ [m] }
  else s

/-- `spdm_device_receive_message`; without a frame that fits the dispatch is over. -/
def receiveMessage (s : Responder) (messageSize : Nat) : Responder :=
  if ¬ s.pendingValid ∨ messageSize < s.pendingRx.msg.length then { s with pc := .taking }
  else { s with pendingValid := false, pc := .processing s.pendingRx }

/-- `spdm_device_send_message`. -/
def sendMessage (s : Responder) (request : MctpMessage) (message : Bytes) : Responder :=
  if message = [] then { s with pc := .taking }
  else
    { s with
      pc := .taking
      transmitted := s.transmitted ++ [⟨s.pendingEid, false, s.pendingMsgTag, message, request⟩] }

def step (s : Responder) : ResponderAction → Responder
  | .rxMessage m => s.rxMessage m
  | .take =>
    match s.pc with
    | .taking =>
      if 0 < s.spdmRxSem then { s with spdmRxSem := s.spdmRxSem - 1, pc := .receiving }
      else { s with pc := .waiting }
    | _ => s
  | .receive messageSize =>
    match s.pc with
    | .receiving => s.receiveMessage messageSize
    | _ => s
  | .process response =>
    match s.pc with
    | .processing request =>
      match response with
      | none => { s with pc := .taking }
      | some response => { s with pc := .responding request response }
    | _ => s
  | .send =>
    match s.pc with
    | .responding request response => s.sendMessage request response
    | _ => s

/-- Every response went to the endpoint it answers, with the request's tag. -/
def Addressed (s : Responder) : Prop :=
  ∀ r ∈ s.transmitted, r.eid = r.request.eid ∧ r.tagOwner = false ∧ r.msgTag = r.request.msgTag

/-- When a response is sent, the message accepted last is from the endpoint whose request
it answers, and has its tag. -/
def LastIsRequester (s : Responder) : ResponderAction → Prop
  | .send => ∀ request response, s.pc = .responding request response → response ≠ [] →
      ∃ m, s.accepted.getLast? = some m ∧ m.eid = request.eid ∧ m.msgTag = request.msgTag
  | _ => True

/-- In libspdm with a request, or with its response. -/
def Serving (s : Responder) : Prop :=
  (∃ request, s.pc = .processing request) ∨ ∃ request response, s.pc = .responding request response

/-- The header globals are those of the message accepted last. -/
structure Latest (s : Responder) : Prop where
  header : ∀ m, s.accepted.getLast? = some m → s.pendingEid = m.eid ∧ s.pendingMsgTag = m.msgTag
  pending : s.pendingValid = true → s.accepted ≠ []
  serving : s.Serving → s.accepted ≠ []

variable {s : Responder}

theorem init_latest : Latest {} where
  header := nofun
  pending := nofun
  serving := by rintro (⟨_, h⟩ | ⟨_, _, h⟩) <;> cases h

/-- Outside libspdm nothing is known of the request. -/
theorem not_serving {pc : LoopPc} (h : s.pc = pc) (hpc : ∀ r, pc ≠ .processing r)
    (hpc' : ∀ r b, pc ≠ .responding r b) :
    ¬ s.Serving := by
  rintro (⟨r, hr⟩ | ⟨r, b, hr⟩)
  · exact hpc r (h.symm.trans hr)
  · exact hpc' r b (h.symm.trans hr)

theorem Latest.rxMessage (h : s.Latest) (m : MctpMessage) : (s.rxMessage m).Latest := by
  have hheader : ∀ m', (s.accepted ++ [m]).getLast? = some m' →
      m.eid = m'.eid ∧ m.msgTag = m'.msgTag := by
    intro m' hm'
    rw [List.getLast?_concat] at hm'
    cases hm'
    exact ⟨rfl, rfl⟩
  have hsome : s.accepted ++ [m] ≠ [] :=
    List.append_ne_nil_of_right_ne_nil _ (List.cons_ne_nil m [])
  unfold Responder.rxMessage
  split
  · unfold giveRxSem
    split
    · exact ⟨hheader, fun _ => hsome, fun _ => hsome⟩
    · exact ⟨hheader, fun _ => hsome, fun _ => hsome⟩
  · exact h

/-- The loop goes on outside libspdm. -/
theorem Latest.goOn (h : s.Latest) {pc : LoopPc} {count : Nat} {transmitted : List Response}
    (hpc : ∀ r, pc ≠ .processing r) (hpc' : ∀ r b, pc ≠ .responding r b) :
    Latest { s with pc, spdmRxSem := count, transmitted } :=
  ⟨h.header, h.pending, fun hserving => absurd hserving (not_serving rfl hpc hpc')⟩

theorem Latest.step (h : s.Latest) (a : ResponderAction) : (s.step a).Latest := by
  cases a with
  | rxMessage m => exact h.rxMessage m
  | take =>
      rw [Responder.step]
      split
      · split
        · exact h.goOn nofun nofun
        · exact h.goOn nofun nofun
      · exact h
  | receive messageSize =>
      rw [Responder.step]
      split
      · unfold receiveMessage
        split
        · exact h.goOn nofun nofun
        · rename_i hpass
          have hvalid : s.pendingValid = true := not_not.mp (not_or.mp hpass).1
          exact ⟨h.header, nofun, fun _ => h.pending hvalid⟩
      · exact h
  | process response =>
      rw [Responder.step]
      split
      · rename_i request hpc
        split
        · exact h.goOn nofun nofun
        · exact ⟨h.header, h.pending, fun _ => h.serving (.inl ⟨request, hpc⟩)⟩
      · exact h
  | send =>
      rw [Responder.step]
      split
      · unfold sendMessage
        split
        · exact h.goOn nofun nofun
        · exact h.goOn nofun nofun
      · exact h

@[simp] theorem rxMessage_transmitted (s : Responder) (m : MctpMessage) :
    (s.rxMessage m).transmitted = s.transmitted := by
  unfold Responder.rxMessage giveRxSem
  split
  · split <;> rfl
  · rfl

@[simp] theorem receiveMessage_transmitted (s : Responder) (messageSize : Nat) :
    (s.receiveMessage messageSize).transmitted = s.transmitted := by
  unfold receiveMessage
  split <;> rfl

/-- Only a send with a response transmits. -/
theorem step_transmitted (s : Responder) (a : ResponderAction) :
    (s.step a).transmitted = s.transmitted ∨
      ∃ request response, a = .send ∧ s.pc = .responding request response ∧
      response ≠ [] ∧
      (s.step a).transmitted = s.transmitted ++
        [⟨s.pendingEid, false, s.pendingMsgTag, response, request⟩] := by
  cases a with
  | rxMessage m => exact .inl (s.rxMessage_transmitted m)
  | take =>
      left
      rw [step]
      split
      · split <;> rfl
      · rfl
  | receive messageSize =>
      left
      rw [step]
      split
      · exact s.receiveMessage_transmitted messageSize
      · rfl
  | process response =>
      left
      rw [step]
      split
      · split <;> rfl
      · rfl
  | send =>
      rw [step]
      split
      · rename_i request response hpc
        unfold sendMessage
        split
        · exact .inl rfl
        · rename_i hne
          exact .inr ⟨request, response, rfl, hpc, hne, rfl⟩
      · exact .inl rfl

/-- Responses are addressed to the request they answer all along a run just when each is
sent while its requester's message is still the last one accepted. -/
theorem sendMessage_addressed (actions : List ResponderAction) :
    Always step Addressed {} actions ↔ Follows step LastIsRequester {} actions := by
  have hinit : Latest {} ∧ Addressed {} := ⟨init_latest, nofun⟩
  refine @always_iff_follows _ _ _ _ (fun s => s.Latest ∧ s.Addressed) _ _ _ hinit ?_
    (fun _ h => h.2) ?_
  · rintro s a ⟨hlatest, haddressed⟩ hok
    refine ⟨hlatest.step a, fun r hr => ?_⟩
    obtain hkept | ⟨request, response, rfl, hpc, hne, hsent⟩ := s.step_transmitted a
    · exact haddressed r (hkept ▸ hr)
    · rw [hsent] at hr
      rcases List.mem_append.mp hr with hold | hnew
      · exact haddressed r hold
      · rw [List.mem_singleton.mp hnew]
        obtain ⟨m, hm, heid, htag⟩ := hok request response hpc hne
        obtain ⟨hpeid, hptag⟩ := hlatest.header m hm
        exact ⟨hpeid.trans heid, rfl, hptag.trans htag⟩
  · rintro s a ⟨hlatest, -⟩ hok haddressed
    cases a with
    | send =>
        simp only [LastIsRequester, not_forall] at hok
        obtain ⟨request, response, hpc, hne, hother⟩ := hok
        have hsent : ⟨s.pendingEid, false, s.pendingMsgTag, response, request⟩ ∈
            (s.step .send).transmitted := by
          simp [step, hpc, sendMessage, hne]
        obtain ⟨heid, -, htag⟩ := haddressed _ hsent
        cases hlast : s.accepted.getLast? with
        | none =>
            exact hlatest.serving (.inr ⟨request, response, hpc⟩)
              (List.getLast?_eq_none_iff.mp hlast)
        | some m =>
            obtain ⟨hpeid, hptag⟩ := hlatest.header m hlast
            exact hother ⟨m, hlast, hpeid.symm.trans heid, hptag.symm.trans htag⟩
    | rxMessage _ | take | receive _ | process _ => exact hok trivial

/-- Another endpoint's request comes in while the first one is processed. -/
def secondRequester : List ResponderAction :=
  [.rxMessage ⟨20, true, 1, [0x05, 0x10]⟩, .take, .receive 2048,
    .rxMessage ⟨30, true, 5, [0x05, 0x10]⟩, .process (some [0x05, 0x10]), .send]

theorem sendMessage_addressed_secondRequester : ¬ Always step Addressed {} secondRequester := by
  intro h
  have hsent : ⟨30, false, 5, [0x05, 0x10], ⟨20, true, 1, [0x05, 0x10]⟩⟩ ∈
      (secondRequester.foldl step {}).transmitted := by
    decide
  exact absurd (h.last _ hsent).1 (by decide)

end Responder

end LinkedsemiZephyr.Firmware
