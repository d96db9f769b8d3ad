import Mathlib.Data.List.Induction
import LinkedsemiZephyr.Gpio.GpioFs
import LinkedsemiZephyr.Lib.GuardedRun
import LinkedsemiZephyr.Lib.Octets

/-! An open line event file: `gpio_irq` queues records and raises the signal, POLL_UPDATE
lowers it, and reads take records without either. -/
namespace LinkedsemiZephyr.Gpio
open BitMask GuardedRun Octets

def gpioeventEventRisingEdge : UInt32 := 0x01
def gpioeventEventFallingEdge : UInt32 := 0x02

/-- `struct gpioevent_data`; the compiler pads it to a multiple of eight. -/
structure GpioeventData where
  timestamp : UInt64
  id : UInt32
  padding : Vector UInt8 4

def sizeofGpioeventData : Nat := 16
def gpioLineEventDataMax : Nat := 16

def GpioeventData.bytes (d : GpioeventData) : Bytes :=
  leBytes 8 d.timestamp.toNat ++ leBytes 4 d.id.toNat ++ d.padding.toList

@[simp] theorem GpioeventData.length_bytes (d : GpioeventData) :
    d.bytes.length = sizeofGpioeventData := by
  simp [bytes, sizeofGpioeventData]

/-- What `struct gpio_event` holds of an open file. -/
structure EventFile where
  req : GpioeventRequest
  rb : Bytes := []
  signaled : Bool := false

/-- One interrupt: the pins of the port it is for, the time, the level the pin is read
at, and what the record holds beforehand. -/
structure Interrupt where
  pins : BitVec 32
  uptime : UInt64
  level : Bool
  stack : GpioeventData

/-- `ZFD_IOCTL_POLL_PREPARE` and `ZFD_IOCTL_POLL_UPDATE` carry the events polled for, the
first of them the poll event slots left. -/
inductive PollRequest where
  | prepare (pollIn : Bool) (slots : Nat)
  | update (pollIn : Bool)

/-- What the file meets while it is open; a read is for whole records. -/
inductive EventAction where
  | irq (i : Interrupt)
  | poll (request : PollRequest)
  | read (records : Nat)

namespace EventFile

/-- `ring_buf_put` takes what fits. -/
def ringBufPut (f : EventFile) (data : Bytes) : EventFile :=
  { f with rb := f.rb ++ data.take (gpioLineEventDataMax * sizeofGpioeventData - f.rb.length) }

def eventData (f : EventFile) (i : Interrupt) : GpioeventData :=
  let eflags := f.req.eventflags
  { i.stack with
    timestamp := i.uptime * 1000000
    id :=
      if HasFlag eflags gpioeventRequestRisingEdge ∧ HasFlag eflags gpioeventRequestFallingEdge then
        if i.level then gpioeventEventRisingEdge else gpioeventEventFallingEdge
      else if HasFlag eflags gpioeventRequestRisingEdge then gpioeventEventRisingEdge
      else if HasFlag eflags gpioeventRequestFallingEdge then gpioeventEventFallingEdge
      else i.stack.id }

/-- The interrupt is for the file's pin. -/
def Hits (f : EventFile) (i : Interrupt) : Prop := i.pins &&& bit 32 f.req.lineoffset.toNat ≠ 0#32

instance (f : EventFile) (i : Interrupt) : Decidable (f.Hits i) :=
  inferInstanceAs (Decidable (_ ≠ _))

/-- `gpio_irq`, assertions compiled out; a full buffer drops the record. -/
def gpioIrq (f : EventFile) (i : Interrupt) : EventFile :=
  if f.Hits i then { f.ringBufPut (f.eventData i).bytes with signaled := true } else f

/-- The poll half of `gpio_event_ioctl`, with `revents`. -/
def gpioEventIoctl (f : EventFile) : PollRequest → EventFile × Int × Bool
  | .prepare pollIn slots => (f, if pollIn ∧ slots = 0 then -ENOMEM else 0, false)
  | .update pollIn =>
    if pollIn ∧ sizeofGpioeventData ≤ f.rb.length then ({ f with signaled := false }, 0, true)
    else (f, 0, false)

def gpioEventRead (f : EventFile) (nbytes : Nat) : EventFile × Bytes :=
  ({ f with rb := f.rb.drop nbytes }, f.rb.take nbytes)

def step (f : EventFile) : EventAction → EventFile
  | .irq i => f.gpioIrq i
  | .poll request => (f.gpioEventIoctl request).1
  | .read records => (f.gpioEventRead (records * sizeofGpioeventData)).1

/-- The file as `gpio_event_open` leaves it, after a history. -/
def run (req : GpioeventRequest) (history : List EventAction) : EventFile :=
  history.foldl step { req }

def HasRecord (f : EventFile) : Prop := sizeofGpioeventData ≤ f.rb.length

/-- What a POLL_PREPARE registers makes poll return at once if a record is queued. -/
def Ready (f : EventFile) : Prop := f.HasRecord → f.signaled = true

/-- No POLL_UPDATE that finds a record. -/
def NotCollected (f : EventFile) : EventAction → Prop
  | .poll (.update true) => ¬ f.HasRecord
  | _ => True

/-- An edge of the file's pin came after the last POLL_UPDATE that found a record. -/
def EdgeSince (req : GpioeventRequest) (history : List EventAction) : Prop :=
  ∃ before i after, history = before ++ .irq i :: after ∧ (run req before).Hits i ∧
    Follows step NotCollected (run req (before ++ [.irq i])) after

theorem run_concat (req : GpioeventRequest) (history : List EventAction) (a : EventAction) :
    run req (history ++ [a]) = (run req history).step a := by
  simp [run]

theorem edgeSince_concat (req : GpioeventRequest) (history : List EventAction) (a : EventAction) :
    EdgeSince req (history ++ [a]) ↔
      (∃ i, a = .irq i ∧ (run req history).Hits i) ∨ EdgeSince req history ∧
      NotCollected (run req history) a := by
  constructor
  · rintro ⟨before, i, after, heq, hhits, hafter⟩
    rcases after.eq_nil_or_concat with rfl | ⟨after, b, rfl⟩
    · obtain ⟨rfl, hb⟩ := List.append_inj' heq rfl
      exact .inl ⟨i, List.singleton_inj.mp hb, hhits⟩
    · rw [List.concat_eq_append, ← List.cons_append, ← List.append_assoc] at heq
      obtain ⟨rfl, hb⟩ := List.append_inj' heq rfl
      cases hb
      rw [List.concat_eq_append, follows_append] at hafter
      refine .inr ⟨⟨before, i, after, rfl, hhits, hafter.1⟩, ?_⟩
      have hlast := hafter.2.1
      rwa [run, ← List.foldl_append, List.append_assoc] at hlast
  · rintro (⟨i, rfl, hhits⟩ | ⟨⟨before, i, after, rfl, hhits, hafter⟩, hlast⟩)
    · exact ⟨history, i, [], rfl, hhits, trivial⟩
    · refine ⟨before, i, after ++ [a], by simp, hhits, follows_append.mpr ⟨hafter, ?_, trivial⟩⟩
      rwa [run, ← List.foldl_append, List.append_assoc]

/-- What raises the signal, and what keeps it up. -/
theorem signaled_step (f : EventFile) (a : EventAction) :
    (f.step a).signaled = true ↔ (∃ i, a = .irq i ∧ f.Hits i) ∨ f.signaled = true ∧
      f.NotCollected a := by
  cases a with
  | irq i =>
      by_cases hhits : f.Hits i
      · simp [step, gpioIrq, hhits]
      · simp [step, gpioIrq, hhits, NotCollected]
  | poll request =>
      cases request with
      | prepare pollIn slots => simp [step, gpioEventIoctl, NotCollected]
      | update pollIn =>
          cases pollIn with
          | false => simp [step, gpioEventIoctl, NotCollected]
          | true =>
              by_cases hrecord : f.HasRecord
              · have hlowered : (f.step (.poll (.update true))).signaled = false := by
                  rw [step, gpioEventIoctl, if_pos ⟨rfl, hrecord⟩]
                simp [hlowered, NotCollected, hrecord]
              · have hkept : f.step (.poll (.update true)) = f := by
                  rw [step, gpioEventIoctl, if_neg fun h => hrecord h.2]
                simp [hkept, NotCollected, hrecord]
  | read records => simp [step, gpioEventRead, NotCollected]

theorem signaled_run (req : GpioeventRequest) (history : List EventAction) :
    (run req history).signaled = true ↔ EdgeSince req history := by
  induction history using List.reverseRecOn with
  | nil =>
      refine iff_of_false nofun ?_
      rintro ⟨before, i, after, h, -⟩
      exact List.append_ne_nil_of_right_ne_nil before (List.cons_ne_nil _ _) h.symm
  | append_singleton history a ih => rw [run_concat, signaled_step, edgeSince_concat, ih]

/-- A POLL_PREPARE after any history registers a raised signal for every queued record just
when an edge came after the last POLL_UPDATE that found one. -/
theorem pollPrepare_ready (req : GpioeventRequest) (history : List EventAction) :
    (run req history).Ready ↔ ((run req history).HasRecord → EdgeSince req history) :=
  imp_congr_right fun _ => signaled_run req history

/-- Two edges, and one poll round that reads one record. -/
def oneReadOfTwo : List EventAction :=
  let edge : Interrupt := ⟨bit 32 4, 1, false, 0, 0, .replicate 4 0⟩
  [.irq edge, .irq edge, .poll (.prepare true 1), .poll (.update true), .read 1]

theorem pollPrepare_ready_oneReadOfTwo :
    ¬ (run ⟨4, gpiohandleRequestInput, gpioeventRequestFallingEdge⟩ oneReadOfTwo).Ready := by
  intro h
  have hrecord :
      (run ⟨4, gpiohandleRequestInput, gpioeventRequestFallingEdge⟩ oneReadOfTwo).HasRecord := by
    unfold HasRecord
    decide +kernel
  exact absurd (h hrecord) (by decide +kernel)

end EventFile

end LinkedsemiZephyr.Gpio
