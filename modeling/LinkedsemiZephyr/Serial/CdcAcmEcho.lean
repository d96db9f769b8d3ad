import LinkedsemiZephyr.Lib.GuardedRun

/-! The interrupt handler of `power/cdc_acm`, which echoes what it receives through a ring
buffer and throttles the reception while the buffer is full. -/
namespace LinkedsemiZephyr.Serial
open GuardedRun

def ringBufSize : Nat := 1024

def bufferSize : Nat := 64

/-- The ring buffer, `rx_throttled` and the enabled interrupts; with what was read from the
UART, got from the ring buffer and taken by the UART since the start. -/
structure Echo where
  ringbuf : List UInt8
  rxThrottled : Bool
  rxIrq : Bool
  txIrq : Bool
  received : List UInt8
  taken : List UInt8
  echoed : List UInt8

/-- After `main`. -/
def Echo.start : Echo := ⟨[], false, true, false, [], [], []⟩

/-- A turn of the handler's loop: what the UART is ready for, what its FIFO holds (or the error
of reading it), and how much it takes. -/
structure Turn where
  rxReady : Bool
  fifo : Option (List UInt8)
  txReady : Bool
  fill : Nat

/-- `ring_buf_space_get` of Zephyr: the bytes that are free. -/
def ringBufSpaceGet (ringbuf : List UInt8) : Nat := ringBufSize - ringbuf.length

/-- `ring_buf_put` of Zephyr, which puts as many of the bytes as there is room for behind the
others; `ring_buf_get` takes as many as it is asked for, or all there are, from the front. -/
def ringBufPut (ringbuf data : List UInt8) : List UInt8 :=
  ringbuf ++ data.take (ringBufSpaceGet ringbuf)

/-- `uart_fifo_read` of at most `len` bytes; an error reads nothing. -/
def fifoRead (fifo : Option (List UInt8)) (len : Nat) : List UInt8 := (fifo.getD []).take len

namespace Echo

def throttle (s : Echo) : Echo := { s with rxIrq := false, rxThrottled := true }

def receive (s : Echo) (fifo : Option (List UInt8)) (len : Nat) : Echo :=
  let data := fifoRead fifo len
  let ringbuf := ringBufPut s.ringbuf data
  { s with
    ringbuf
    received := s.received ++ data
    txIrq := s.txIrq || decide (s.ringbuf.length < ringbuf.length) }

def transmit (s : Echo) (fill : Nat) : Echo :=
  let buffer := s.ringbuf.take bufferSize
  if buffer.length = 0 then { s with txIrq := false }
  else
    { s with
      ringbuf := s.ringbuf.drop bufferSize
      rxThrottled := false
      rxIrq := s.rxIrq || s.rxThrottled
      taken := s.taken ++ buffer
      echoed := s.echoed ++ buffer.take fill }

/-- One turn of the loop in `interrupt_handler`. -/
def turn (s : Echo) (t : Turn) : Echo :=
  if s.rxThrottled = false ∧ t.rxReady = true then
    let len := min (ringBufSpaceGet s.ringbuf) bufferSize
    if len = 0 then s.throttle
    else if t.txReady then (s.receive t.fifo len).transmit t.fill
    else s.receive t.fifo len
  else if t.txReady then s.transmit t.fill
  else s

/-- Nothing is lost on the way into the ring buffer, and no byte waits with its interrupt off. -/
structure Sound (s : Echo) : Prop where
  room : s.ringbuf.length ≤ ringBufSize
  stream : s.received = s.taken ++ s.ringbuf
  awake : s.ringbuf ≠ [] → s.txIrq = true
  listening : s.rxIrq = !s.rxThrottled
  full : s.rxThrottled = true → s.ringbuf.length = ringBufSize
  short : s.echoed.length ≤ s.taken.length

variable {s : Echo}

theorem Sound.start : Sound start :=
  ⟨Nat.zero_le _, rfl, fun h => absurd rfl h, rfl, fun h => absurd h Bool.false_ne_true,
    Nat.le_refl 0⟩

/-- What was read fits, so all of it is put. -/
theorem ringBufPut_fifoRead (ringbuf : List UInt8) (fifo : Option (List UInt8)) :
    ringBufPut ringbuf (fifoRead fifo (min (ringBufSpaceGet ringbuf) bufferSize)) =
      ringbuf ++ fifoRead fifo (min (ringBufSpaceGet ringbuf) bufferSize) := by
  apply congrArg (ringbuf ++ ·)
  apply List.take_of_length_le
  have hlen := List.length_take_le (min (ringBufSpaceGet ringbuf) bufferSize) (fifo.getD [])
  rw [fifoRead]
  omega

theorem Sound.throttle (h : Sound s) (hlen : min (ringBufSpaceGet s.ringbuf) bufferSize = 0) :
    Sound s.throttle := by
  refine ⟨h.room, h.stream, h.awake, rfl, fun _ => ?_, h.short⟩
  have hroom := h.room
  have hbuffer : bufferSize ≠ 0 := by decide
  rw [ringBufSpaceGet] at hlen
  change s.ringbuf.length = ringBufSize
  omega

theorem Sound.receive (h : Sound s) (hlisten : s.rxThrottled = false) (fifo : Option (List UInt8)) :
    Sound (s.receive fifo (min (ringBufSpaceGet s.ringbuf) bufferSize)) := by
  have hput := ringBufPut_fifoRead s.ringbuf fifo
  have hlen := List.length_take_le (min (ringBufSpaceGet s.ringbuf) bufferSize) (fifo.getD [])
  have hroom := h.room
  rw [Echo.receive, hput]
  refine ⟨?_, ?_, fun hne => ?_, h.listening, fun hthrottled => ?_, h.short⟩
  · rw [List.length_append, fifoRead]
    rw [ringBufSpaceGet] at hlen ⊢
    omega
  · rw [h.stream, List.append_assoc]
  · by_cases hring : s.ringbuf = []
    · dsimp only at hne ⊢
      rw [hring, List.nil_append] at hne ⊢
      rw [List.length_nil, decide_eq_true (List.length_pos_iff.mpr hne), Bool.or_true]
    · dsimp only
      rw [h.awake hring, Bool.true_or]
  · exact absurd (hlisten.symm.trans hthrottled) Bool.false_ne_true

theorem Sound.transmit (h : Sound s) (fill : Nat) : Sound (s.transmit fill) := by
  rw [Echo.transmit]
  split_ifs with hempty
  · have hring : s.ringbuf = [] := by
      have hbuffer : bufferSize ≠ 0 := by decide
      rw [List.length_take] at hempty
      exact List.length_eq_zero_iff.mp (by omega)
    exact ⟨h.room, h.stream, fun hne => absurd hring hne, h.listening, h.full, h.short⟩
  · have hring : s.ringbuf ≠ [] := by
      intro hring
      rw [hring, List.take_nil] at hempty
      exact hempty rfl
    refine ⟨?_, ?_, fun _ => h.awake hring, ?_, fun hno => absurd hno Bool.false_ne_true, ?_⟩
    · have hroom := h.room
      rw [List.length_drop]
      omega
    · rw [h.stream, List.append_assoc, List.take_append_drop]
    · dsimp only
      rw [h.listening, Bool.not_false, Bool.not_or_self]
    · have hshort := h.short
      have htake := List.length_take_le' fill (s.ringbuf.take bufferSize)
      rw [List.length_append, List.length_append]
      omega

/-- What a turn comes to. -/
theorem turn_cases (s : Echo) (t : Turn) :
    (s.rxThrottled = false ∧ min (ringBufSpaceGet s.ringbuf) bufferSize = 0 ∧
      s.turn t = s.throttle) ∨
      ∃ s', (s' = s ∨ s.rxThrottled = false ∧
          s' = s.receive t.fifo (min (ringBufSpaceGet s.ringbuf) bufferSize)) ∧
        s.turn t = if t.txReady then s'.transmit t.fill else s' := by
  rw [Echo.turn]
  by_cases hrx : s.rxThrottled = false ∧ t.rxReady = true
  · rw [if_pos hrx]
    by_cases hlen : min (ringBufSpaceGet s.ringbuf) bufferSize = 0
    · exact Or.inl ⟨hrx.1, hlen, if_pos hlen⟩
    · exact Or.inr ⟨_, Or.inr ⟨hrx.1, rfl⟩, if_neg hlen⟩
  · exact Or.inr ⟨s, Or.inl rfl, if_neg hrx⟩

theorem Sound.turn (h : Sound s) (t : Turn) : Sound (s.turn t) := by
  rcases turn_cases s t with ⟨-, hlen, hturn⟩ | ⟨s', hs', hturn⟩
  · rw [hturn]
    exact h.throttle hlen
  · have hmiddle : Sound s' := by
      rcases hs' with rfl | ⟨hlisten, rfl⟩
      · exact h
      · exact h.receive hlisten t.fifo
    rw [hturn]
    split_ifs
    · exact hmiddle.transmit t.fill
    · exact hmiddle

/-- The UART takes all that a turn gives it. -/
def TakenWhole (s : Echo) (t : Turn) : Prop := (s.turn t).taken.length - s.taken.length ≤ t.fill

theorem transmit_echoed (s : Echo) (h : s.echoed.length ≤ s.taken.length) (fill : Nat) :
    (s.transmit fill).echoed = (s.transmit fill).taken ↔
      s.echoed = s.taken ∧ (s.transmit fill).taken.length - s.taken.length ≤ fill := by
  rw [Echo.transmit]
  split_ifs with hempty
  · exact (and_iff_left (by dsimp only; omega)).symm
  · dsimp only
    have htake := List.length_take_le' fill (s.ringbuf.take bufferSize)
    rw [List.length_append, Nat.add_sub_cancel_left]
    constructor
    · intro heq
      have hlen := congrArg List.length heq
      rw [List.length_append, List.length_append] at hlen
      have hboth := List.append_inj heq (by omega)
      refine ⟨hboth.1, ?_⟩
      rw [List.length_take] at hlen htake
      omega
    · rintro ⟨heq, hfill⟩
      rw [heq, List.take_of_length_le hfill]

theorem turn_echoed (h : Sound s) (t : Turn) :
    (s.turn t).echoed = (s.turn t).taken ↔ s.echoed = s.taken ∧ TakenWhole s t := by
  rw [TakenWhole]
  rcases turn_cases s t with ⟨-, -, hturn⟩ | ⟨s', hs', hturn⟩
  · rw [hturn]
    exact (and_iff_left (by rw [Echo.throttle]; dsimp only; omega)).symm
  · have hsame : s'.echoed = s.echoed ∧ s'.taken = s.taken := by
      rcases hs' with rfl | ⟨-, rfl⟩ <;> exact ⟨rfl, rfl⟩
    rw [hturn, ← hsame.1, ← hsame.2]
    split_ifs
    · exact transmit_echoed s' (by rw [hsame.1, hsame.2]; exact h.short) t.fill
    · exact (and_iff_left (by omega)).symm

theorem echoed_iff (h : Sound s) (turns : List Turn) :
    (turns.foldl turn s).echoed = (turns.foldl turn s).taken ↔
      s.echoed = s.taken ∧ Follows turn TakenWhole s turns := by
  induction turns generalizing s with
  | nil => exact (and_iff_left trivial).symm
  | cons t turns ih => rw [List.foldl_cons, ih (h.turn t), turn_echoed h t, Follows, and_assoc]

/-- The next 64 bytes, or all there are, go from the ring buffer to the UART. -/
theorem transmit_spec (s : Echo) (fill : Nat) :
    (s.transmit fill).taken = s.taken ++ s.ringbuf.take bufferSize ∧
      (s.transmit fill).ringbuf = s.ringbuf.drop bufferSize := by
  rw [Echo.transmit]
  split_ifs with hempty
  · have hbuffer : bufferSize ≠ 0 := by decide
    rw [List.length_take] at hempty
    have hring : s.ringbuf = [] := List.length_eq_zero_iff.mp (by omega)
    rw [hring, List.take_nil, List.drop_nil, List.append_nil]
    exact ⟨rfl, rfl⟩
  · exact ⟨rfl, rfl⟩

theorem transmit_received (s : Echo) (fill : Nat) : (s.transmit fill).received = s.received := by
  rw [Echo.transmit]
  split_ifs <;> rfl

/-- A turn that receives reads what the FIFO holds, up to 64 bytes and to the room there is. -/
theorem turn_received (hlisten : s.rxThrottled = false) {t : Turn} (hready : t.rxReady = true) :
    (s.turn t).received =
      s.received ++ fifoRead t.fifo (min (ringBufSpaceGet s.ringbuf) bufferSize) := by
  rw [Echo.turn, if_pos ⟨hlisten, hready⟩]
  dsimp only
  split_ifs with hfull htx
  · rw [hfull, fifoRead, List.take_zero, List.append_nil]
    rfl
  · exact transmit_received _ t.fill
  · rfl

/-- Turns that only transmit empty the ring buffer. -/
theorem drained (turns : List Turn) (hturns : ∀ t ∈ turns, t.txReady = true ∧ t.rxReady = false)
    (hlen : s.ringbuf.length ≤ bufferSize * turns.length) :
    (turns.foldl turn s).taken = s.taken ++ s.ringbuf ∧ (turns.foldl turn s).ringbuf = [] := by
  induction turns generalizing s with
  | nil =>
      have hempty : s.ringbuf = [] := List.length_eq_zero_iff.mp (Nat.le_zero.mp hlen)
      exact ⟨by rw [hempty, List.append_nil]; rfl, hempty⟩
  | cons t turns ih =>
      obtain ⟨htx, hrx⟩ := hturns t List.mem_cons_self
      have hturn : s.turn t = s.transmit t.fill := by
        rw [Echo.turn, if_neg (by rw [hrx]; exact fun h => Bool.false_ne_true h.2), if_pos htx]
      obtain ⟨htaken, hring⟩ := transmit_spec s t.fill
      rw [List.length_cons, Nat.mul_succ] at hlen
      have hrest := ih (s := s.transmit t.fill) (fun t ht => hturns t (List.mem_cons_of_mem _ ht))
        (by rw [hring, List.length_drop]; omega)
      rw [htaken, hring, List.append_assoc, List.take_append_drop] at hrest
      rw [List.foldl_cons, hturn]
      exact hrest

/-- Over every run of the handler the bytes read are those got from the ring buffer and those
in it, in order; a byte in it has the transmit interrupt on, and the reception is off only while
it is full. With the reception on a turn reads what the UART has, up to 64 bytes and to the room
there is; turns in which the UART only transmits give it all of the buffer, 64 bytes at a time; and
all that was read comes back, in order and whole, just when the UART never took less than it was
given. -/
theorem interruptHandler_echoes (turns : List Turn) :
    let s := turns.foldl turn start
    s.received = s.taken ++ s.ringbuf ∧ s.ringbuf.length ≤ ringBufSize ∧
      (s.ringbuf ≠ [] → s.txIrq = true) ∧
      (s.rxIrq = false → s.ringbuf.length = ringBufSize ∧ s.txIrq = true) ∧
      (∀ t : Turn, s.rxIrq = true → t.rxReady = true →
        (s.turn t).received =
          s.received ++ fifoRead t.fifo (min (ringBufSpaceGet s.ringbuf) bufferSize)) ∧
      (∀ more : List Turn, (∀ t ∈ more, t.txReady = true ∧ t.rxReady = false) →
        s.ringbuf.length ≤ bufferSize * more.length →
        (more.foldl turn s).taken = s.received ∧ (more.foldl turn s).ringbuf = []) ∧
      (s.received = s.echoed ++ s.ringbuf ↔ Follows turn TakenWhole start turns) := by
  intro s
  have hsound : Sound s := by
    apply List.foldlRecOn turns turn Sound.start
    exact fun s h t _ => h.turn t
  refine ⟨hsound.stream, hsound.room, hsound.awake, fun hoff => ?_, fun t hon hready => ?_,
    fun more hmore hlen => ?_, ?_⟩
  · have hthrottled : s.rxThrottled = true := by
      rw [hsound.listening, Bool.not_eq_false'] at hoff
      exact hoff
    have hfull := hsound.full hthrottled
    refine ⟨hfull, hsound.awake fun hempty => ?_⟩
    rw [hempty] at hfull
    exact absurd hfull (by decide)
  · rw [hsound.listening, Bool.not_eq_true'] at hon
    exact turn_received hon hready
  · rw [hsound.stream]
    exact drained more hmore hlen
  · have hexact := (echoed_iff Sound.start turns).trans (and_iff_right rfl)
    rw [← hexact, hsound.stream, List.append_left_inj]
    exact eq_comm

end Echo

end LinkedsemiZephyr.Serial
