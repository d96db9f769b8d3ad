import LinkedsemiZephyr.Gpio.EventPoll
import LinkedsemiZephyr.Lib.RecordQueue

/-! The bytes of an open line event, as the queue of records they are meant to be. -/
namespace LinkedsemiZephyr.Gpio.EventFile
open Octets RecordQueue

/-- What the reads of a history return. -/
def reads : EventFile → List EventAction → List Bytes
  | _, [] => []
  | f, .read records :: as =>
      (f.gpioEventRead (records * sizeofGpioeventData)).2 :: reads (f.step (.read records)) as
  | f, a :: as => reads (f.step a) as

/-- The undelivered records. -/
def queued (f : EventFile) : Nat := f.rb.length / sizeofGpioeventData

/-- The records `gpio_irq` produces, each with how many it finds undelivered. -/
def produced : EventFile → List EventAction → List (GpioeventData × Nat)
  | _, [] => []
  | f, .irq i :: as =>
      if f.Hits i then (f.eventData i, f.queued) :: produced (f.step (.irq i)) as
      else produced (f.step (.irq i)) as
  | f, a :: as => produced (f.step a) as

/-- The records that do not find the buffer full. -/
def stored (f : EventFile) (history : List EventAction) : List GpioeventData :=
  ((produced f history).filter fun p => p.2 < gpioLineEventDataMax).map Prod.fst

/-- Each read takes the first of the records that are queued when it comes, as many as it asks
for or all of them. -/
def Served : EventFile → List EventAction → List (List GpioeventData) → Prop
  | _, [], batches => batches = []
  | f, .read records :: as, batches =>
      ∃ (q : List GpioeventData) (later : List (List GpioeventData)),
        f.rb = q.flatMap GpioeventData.bytes ∧ batches = q.take records :: later ∧
          Served (f.step (.read records)) as later
  | f, a :: as, batches => Served (f.step a) as batches

/-- The buffer holds whole records. -/
structure Holds (f : EventFile) (q : List GpioeventData) : Prop where
  bytes : f.rb = q.flatMap GpioeventData.bytes
  fits : q.length ≤ gpioLineEventDataMax

section Steps
variable {f : EventFile} {q : List GpioeventData}

theorem Holds.queued_eq (h : f.Holds q) : f.queued = q.length := by
  rw [queued, h.bytes, length_flatMap GpioeventData.length_bytes]
  exact Nat.mul_div_cancel _ (by decide)

/-- The burst case is in `offer`: at 16 records the new one is lost and nothing else is. -/
theorem Holds.irq (h : f.Holds q) {i : Interrupt} (hhits : f.Hits i) :
    (f.step (.irq i)).Holds (offer gpioLineEventDataMax q (f.eventData i)) := by
  refine ⟨?_, length_offer h.fits _⟩
  have hput := put_flatMap GpioeventData.length_bytes h.fits (f.eventData i)
  simp only [step, gpioIrq, if_pos hhits, ringBufPut, h.bytes, hput]

theorem Holds.irq_other (h : f.Holds q) {i : Interrupt} (hhits : ¬ f.Hits i) :
    (f.step (.irq i)).Holds q := by
  simpa only [step, gpioIrq, if_neg hhits] using h

theorem Holds.poll (h : f.Holds q) (request : PollRequest) : (f.step (.poll request)).Holds q := by
  have hrb : (f.step (.poll request)).rb = f.rb := by
    cases request with
    | prepare pollIn slots => rfl
    | update pollIn =>
        simp only [step, gpioEventIoctl]
        split <;> rfl
  exact ⟨hrb ▸ h.bytes, h.fits⟩

theorem Holds.read (h : f.Holds q) (records : Nat) :
    (f.step (.read records)).Holds (q.drop records) := by
  refine ⟨?_, ?_⟩
  · simp only [step, gpioEventRead, h.bytes, drop_flatMap GpioeventData.length_bytes]
  · rw [List.length_drop]
    exact Nat.le_trans (Nat.sub_le _ _) h.fits

theorem Holds.read_returns (h : f.Holds q) (records : Nat) :
    (f.gpioEventRead (records * sizeofGpioeventData)).2 =
      (q.take records).flatMap GpioeventData.bytes := by
  rw [gpioEventRead, h.bytes, take_flatMap GpioeventData.length_bytes]

end Steps

/-- From any buffer of whole records: what was in it and what is stored later comes out in
order, in whole records and as the reads ask for it, or is still there. -/
theorem Holds.run {f : EventFile} {q : List GpioeventData} (h : f.Holds q)
    (history : List EventAction) :
    ∃ (batches : List (List GpioeventData)) (rest : List GpioeventData),
      f.reads history = batches.map (List.flatMap GpioeventData.bytes) ∧ f.Served history batches ∧
        (history.foldl step f).Holds rest ∧ q ++ f.stored history = batches.flatten ++ rest := by
  induction history generalizing f q with
  | nil => exact ⟨[], q, rfl, rfl, h, List.append_nil q⟩
  | cons a history ih =>
      cases a with
      | irq i =>
          by_cases hhits : f.Hits i
          · obtain ⟨batches, rest, hreads, hserved, hholds, hall⟩ := ih (h.irq hhits)
            refine ⟨batches, rest, hreads, hserved, hholds, ?_⟩
            rw [← hall]
            simp only [stored, produced, if_pos hhits, List.filter_cons, h.queued_eq, offer]
            by_cases hroom : q.length < gpioLineEventDataMax
            · simp [hroom]
            · simp [hroom]
          · obtain ⟨batches, rest, hreads, hserved, hholds, hall⟩ := ih (h.irq_other hhits)
            refine ⟨batches, rest, hreads, hserved, hholds, ?_⟩
            rw [← hall]
            simp only [stored, produced, if_neg hhits]
      | poll request => exact ih (h.poll request)
      | read records =>
          obtain ⟨batches, rest, hreads, hserved, hholds, hall⟩ := ih (h.read records)
          refine ⟨q.take records :: batches, rest, ?_,
            ⟨q, batches, h.bytes, rfl, hserved⟩, hholds, ?_⟩
          · rw [reads, h.read_returns, hreads, List.map_cons]
          · rw [List.flatten_cons, List.append_assoc, ← hall, ← List.append_assoc,
              List.take_append_drop]
            rfl

theorem Holds.produced_le {f : EventFile} {q : List GpioeventData} (h : f.Holds q)
    (history : List EventAction) :
    ∀ p ∈ f.produced history, p.2 ≤ gpioLineEventDataMax := by
  induction history generalizing f q with
  | nil => exact fun p hp => by cases hp
  | cons a history ih =>
      cases a with
      | irq i =>
          by_cases hhits : f.Hits i
          · rw [produced, if_pos hhits]
            intro p hp
            rcases List.mem_cons.mp hp with rfl | hp
            · exact h.queued_eq ▸ h.fits
            · exact ih (h.irq hhits) p hp
          · rw [produced, if_neg hhits]
            exact ih (h.irq_other hhits)
      | poll request => exact ih (h.poll request)
      | read records => exact ih (h.read records)

theorem Holds.opened (req : GpioeventRequest) : Holds { req } [] := ⟨rfl, Nat.zero_le _⟩

/-- Each read returns the first of the queued records, whole and as many as it asks for or there
are; together they are records produced, in order and each once, and one that is neither read nor
queued found 16 undelivered. -/
theorem fifo_integrity (req : GpioeventRequest) (history : List EventAction) :
    ∃ (batches : List (List GpioeventData)) (rest : List GpioeventData),
      reads { req } history = batches.map (List.flatMap GpioeventData.bytes) ∧
      Served { req } history batches ∧
      (run req history).rb = rest.flatMap GpioeventData.bytes ∧
      rest.length ≤ gpioLineEventDataMax ∧
      stored { req } history = batches.flatten ++ rest ∧
      batches.flatten.Sublist ((produced { req } history).map Prod.fst) ∧
      ∀ p ∈ produced { req } history, p.2 ≤ gpioLineEventDataMax := by
  obtain ⟨batches, rest, hreads, hserved, hholds, hall⟩ := (Holds.opened req).run history
  have hstored : (stored { req } history).Sublist ((produced { req } history).map Prod.fst) :=
    List.filter_sublist.map Prod.fst
  rw [show stored { req } history = batches.flatten ++ rest from hall] at hstored
  exact ⟨batches, rest, hreads, hserved, hholds.bytes, hholds.fits, hall,
    (List.sublist_append_left _ _).trans hstored, (Holds.opened req).produced_le history⟩

end LinkedsemiZephyr.Gpio.EventFile
