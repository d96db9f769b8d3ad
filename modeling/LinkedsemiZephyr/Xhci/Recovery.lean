import LinkedsemiZephyr.Lib.GuardedRun
import LinkedsemiZephyr.Xhci.Submission

/-! Transfers on one endpoint, one after another, and what the controller makes of the next
one after it has halted. -/
namespace LinkedsemiZephyr.Xhci
open GuardedRun

namespace Sys
variable {base M n : Nat} {s : Sys}

/-- The controller stands where the driver writes next, in the cycle it writes in. -/
def AtWrite (s : Sys) : Prop := s.hc = ⟨s.ring.trbAt s.ring.writeIndex, s.ring.cycleBit⟩

/-- The controller looks on until `left` of the entries are left. -/
def executeBut (left : Nat) : Nat → Sys → Sys
  | 0, s => s
  | fuel + 1, s => if s.unconsumed ≤ left then s else executeBut left fuel (s.step .fetch)

/-- A controller that has executed all but `left` entries; it goes over the link once
nothing is left. -/
def execute (s : Sys) (left : Nat) : Sys :=
  if left = 0 then s.doorbell else executeBut left (2 * s.ring.numTrb) s

theorem executeBut_fetches (left fuel : Nat) (s : Sys) :
    ∃ k, executeBut left fuel s = s.run (List.replicate k .fetch) := by
  induction fuel generalizing s with
  | zero => exact ⟨0, rfl⟩
  | succ fuel ih =>
      rw [executeBut]
      split
      · exact ⟨0, rfl⟩
      · obtain ⟨k, hk⟩ := ih (s.step .fetch)
        exact ⟨k + 1, hk⟩

theorem execute_fetches (s : Sys) (left : Nat) :
    ∃ k, s.execute left = s.run (List.replicate k .fetch) := by
  rw [execute]
  split
  · exact ⟨_, rfl⟩
  · exact executeBut_fetches left _ s

theorem unconsumed_le_fetch (s : Sys) : s.unconsumed ≤ (s.step .fetch).unconsumed + 1 := by
  have hlen : (s.step .fetch).taken.length =
      s.taken.length + (s.hc.fetch s.ring.trb s.mem).1.toList.length :=
    List.length_append
  have hone : (s.hc.fetch s.ring.trb s.mem).1.toList.length ≤ 1 := by
    cases (s.hc.fetch s.ring.trb s.mem).1 with
    | none => exact Nat.zero_le 1
    | some t => exact Nat.le_refl 1
  rw [unconsumed, unconsumed, enqueued_fetch, hlen]
  omega

/-- One look executes one entry at most, so it stops with `left` of them left. -/
theorem le_unconsumed_executeBut {left : Nat} (fuel : Nat) (h : left ≤ s.unconsumed) :
    left ≤ (executeBut left fuel s).unconsumed := by
  induction fuel generalizing s with
  | zero => exact h
  | succ fuel ih =>
      rw [executeBut]
      split
      · exact h
      · have hone := s.unconsumed_le_fetch
        exact ih (by omega)

theorem Behind.fetches (h : Behind base n s) (k : Nat) :
    Behind base n (s.run (List.replicate k .fetch)) := by
  induction k generalizing s with
  | zero => exact h
  | succ k ih => exact ih h.fetch

theorem Behind.execute (h : Behind base n s) (left : Nat) : Behind base n (s.execute left) := by
  obtain ⟨k, hk⟩ := s.execute_fetches left
  rw [hk]
  exact h.fetches k

theorem fetches_taken (s : Sys) (k : Nat) :
    s.taken <+: (s.run (List.replicate k .fetch)).taken := by
  induction k generalizing s with
  | zero => exact List.prefix_rfl
  | succ k ih => exact (List.prefix_append _ _).trans (ih (s.step .fetch))

theorem Inv.position (h : Inv base M s) (hz : s.unconsumed = 0) :
    s.start + s.taken.length = s.log.length := by
  have hall := congrArg List.length (h.taken_of_unconsumed hz)
  have hstart := h.started
  rw [length_enqueued] at hall
  omega

/-- Once nothing is left, one more look brings the controller to the write position. -/
theorem Inv.atWrite_fetch (h : Inv base M s) (hM : 0 < M) (hs : s.Settled) (hz : s.unconsumed = 0) :
    (s.step .fetch).AtWrite := by
  have hposition := h.position hz
  cases h.writer with
  | turning windex _ _ => exact absurd (by rw [windex, h.numTrb, Nat.add_sub_cancel]) hs
  | settled windex cycle =>
      have hslot := Nat.mod_lt s.log.length hM
      have hwrite : s.ring.trbAt s.ring.writeIndex = base + 16 * (s.log.length % M) := by
        rw [XhciRing.trbAt, h.trb, windex]
      cases h.reader with
      | inRing deq ccs =>
          rw [hposition] at deq ccs
          have hat : s.AtWrite := by
            rw [AtWrite, hwrite, cycle, ← deq, ← ccs]
          rcases h.fetch_cases hM with ⟨heq, -⟩ | ⟨x, hc, hx, -⟩ | ⟨hc, hdeq, -⟩
          · rw [heq]
            exact hat
          · rw [hposition, List.getElem?_eq_none (Nat.le_refl _)] at hx
            cases hx
          · omega
      | atLink deq wraps near ccs =>
          rcases h.atLink_cases wraps near with ⟨-, hcycle⟩ | ⟨hend, -⟩
          · obtain ⟨t, ht, hlink⟩ := h.link
            have hlast : (s.hc.deq - s.ring.trb) / 16 = M := by
              rw [deq, h.trb]
              omega
            have hvalid : t.cycle = s.hc.ccs := by rw [hlink.cycle, hcycle, bit_xor_one, ccs]
            rw [fetch_link (hlast ▸ ht) hvalid hlink.type hlink.toggle]
            change (⟨t.paramater, s.hc.ccs ^^^ 1⟩ : Controller) =
              ⟨s.ring.trbAt s.ring.writeIndex, s.ring.cycleBit⟩
            rw [hposition] at wraps
            rw [hlink.target, hwrite, wraps, hcycle, ccs, bit_xor_one, Bool.not_not,
              Nat.mul_zero, Nat.add_zero]
          · omega

theorem run_fetch_succ (s : Sys) (k : Nat) :
    s.run (List.replicate (k + 1) .fetch) = (s.run (List.replicate k .fetch)).step .fetch := by
  rw [List.replicate_succ', run, List.foldl_append]
  rfl

theorem Behind.atWrite_doorbell (h : Behind base n s) (hn : n < 32) : s.doorbell.AtWrite := by
  have hlooks : 2 * s.ring.numTrb = 2 * 31 + 1 + 1 := by rw [h.inv.numTrb]
  have hbefore := h.fetches (2 * 31 + 1)
  have hdrained : (s.run (List.replicate (2 * 31) .fetch)).unconsumed = 0 := by
    have hdrain :=
      h.inv.drain (by decide) (show s.unconsumed ≤ 31 from Nat.le_trans h.unconsumed (by omega))
    rw [Sys.unconsumed, hdrain, (s.fetches_frame (2 * 31)).2, Nat.sub_self]
  have hnone : (s.run (List.replicate (2 * 31 + 1) .fetch)).unconsumed = 0 := by
    rw [run_fetch_succ]
    exact Nat.le_zero.mp (hdrained ▸ unconsumed_fetch_le _)
  rw [Sys.doorbell, hlooks, run_fetch_succ]
  exact hbefore.inv.atWrite_fetch (by decide) hbefore.settled hnone

theorem Inv.not_atWrite (h : Inv base M s) (hs : s.Settled) (hpos : 0 < s.unconsumed)
    (hlt : s.unconsumed < M) :
    ¬ s.AtWrite := by
  intro hat
  have hstart := h.started
  have hle := h.taken_le
  have hback : s.log.length = s.start + s.taken.length + s.unconsumed := by
    rw [unconsumed, length_enqueued]
    omega
  cases h.writer with
  | turning windex _ _ => exact absurd (by rw [windex, h.numTrb, Nat.add_sub_cancel]) hs
  | settled windex cycle =>
      have hslot := Nat.mod_lt s.log.length (show 0 < M by omega)
      rw [AtWrite, XhciRing.trbAt, h.trb, windex] at hat
      cases h.reader with
      | inRing deq ccs =>
          rw [hat] at deq
          have hsame : s.log.length % M = (s.start + s.taken.length) % M := by
            change base + 16 * (s.log.length % M) = _ at deq
            omega
          have heq := LapRing.eq_of_mod_eq hle (by omega) hsame
          omega
      | atLink deq wraps near ccs =>
          rw [hat] at deq
          change base + 16 * (s.log.length % M) = _ at deq
          omega

theorem Behind.atWrite_reposition (h : Behind base n s) (halign : base % 16 = 0) :
    (s.step .reposition).AtWrite := by
  obtain ⟨m, hm⟩ := h.inv.cycleBit
  have hdeq := setDeq_deq (by rw [h.inv.trb]; exact halign) hm
  rw [← hm] at hdeq
  exact hdeq

theorem pushAll_frame (s : Sys) (bs : List Build) :
    (s.pushAll bs).2.log = s.log ++ (s.pushAll bs).1.map Entry.trb ∧
      (s.pushAll bs).2.start = s.start ∧
      (s.pushAll bs).2.taken = s.taken ∧ (s.pushAll bs).1.length = bs.length := by
  induction bs generalizing s with
  | nil => exact ⟨(List.append_nil _).symm, rfl, rfl, rfl⟩
  | cons b bs ih =>
      obtain ⟨hlog, hstart, htaken, hlength⟩ := ih (s.push b)
      refine ⟨?_, hstart, htaken, congrArg (· + 1) hlength⟩
      change ((s.push b).pushAll bs).2.log = s.log ++ (b.build s.ring.cycleBit :: _)
      rw [hlog]
      exact List.append_assoc s.log [b.build s.ring.cycleBit] _

theorem enqueued_pushAll (h : s.start ≤ s.log.length) (bs : List Build) :
    (s.pushAll bs).2.enqueued = s.enqueued ++ (s.pushAll bs).1.map Entry.trb := by
  obtain ⟨hlog, hstart, -⟩ := s.pushAll_frame bs
  rw [enqueued, hlog, hstart, List.drop_append_of_le_length h]
  rfl

end Sys

inductive EndpointState where
  | running
  | halted
  | stopped
  deriving DecidableEq

structure TransferEndpoint where
  sys : Sys
  state : EndpointState := .running

/-- `xhci_xfer_control` and `xhci_xfer_bulk`. -/
inductive Transfer where
  | control (slot : UInt32) (ep : UInt8) (req : UsbSetupPacket) (data : Nat) (length : UInt32)
  | bulk (slot : UInt32) (ep : UInt8) (data : Nat) (length : UInt32)

/-- What becomes of a transfer. The event of a short data stage comes while the status stage
may still be pending; a halted endpoint has `left` TRBs left, the failed one first. -/
inductive Outcome where
  | done (code : UInt32)
  | short (statusPending : Bool)
  | halted (code : UInt32) (left : Nat)

def Outcome.code : Outcome → UInt32
  | .done code => code
  | .short _ => compShortPacket
  | .halted code _ => code

namespace Transfer

def call : Transfer → Call
  | .control slot ep req data length => .control slot ep req data length
  | .bulk slot ep data length => .bulk slot ep data length

def IsControl : Transfer → Prop
  | .control .. => True
  | .bulk .. => False

instance : (t : Transfer) → Decidable t.IsControl
  | .control .. => inferInstanceAs (Decidable True)
  | .bulk .. => inferInstanceAs (Decidable False)

/-- The TRBs not executed by the time of the next transfer, or before the endpoint halts. -/
def left : Transfer → Outcome → Nat
  | .control _ _ req data length, .short true => if HasData data length ∧ req.isIn then 1 else 0
  | _, .done _ | _, .short _ => 0
  | _, .halted _ left => left

end Transfer

namespace TransferEndpoint

/-- After `xhci_ring_init`, and the command that makes the ring known. -/
def init (trb : Nat) : TransferEndpoint where
  sys := .init (Bus.xhciAlign * trb) xhciRingTrbMaxNum .ctrlRing

def pushed (s : TransferEndpoint) (t : Transfer) : List Entry × Sys :=
  s.sys.pushAll (t.call.builds fun _ => (s.sys.ring, s.sys.mem))

/-- The TRBs are enqueued and the doorbell rung, which a halted endpoint ignores. -/
def submit (s : TransferEndpoint) (t : Transfer) : TransferEndpoint where
  sys := (s.pushed t).2
  state := if s.state = .halted then .halted else .running

def execute (s : TransferEndpoint) (t : Transfer) (o : Outcome) : TransferEndpoint :=
  if s.state = .running then
    { sys := s.sys.execute (t.left o)
      state := match o with
        | .halted .. => .halted
        | .done _ | .short _ => .running }
  else s

/-- The Reset Endpoint command, which only a halted endpoint takes. -/
def xhciResetStallEndpoint (s : TransferEndpoint) : TransferEndpoint :=
  if s.state = .halted then { s with state := .stopped } else s

/-- The Set TR Dequeue Pointer command, which only a stopped endpoint takes. -/
def xhciSetDeqEndpoint (s : TransferEndpoint) : TransferEndpoint :=
  if s.state = .stopped then { s with sys := s.sys.step .reposition } else s

/-- What the two functions do about a completion code. -/
def followUp (s : TransferEndpoint) (t : Transfer) (code : UInt32) : TransferEndpoint :=
  match t with
  | .control .. => if code = compStallError then s.xhciResetStallEndpoint.xhciSetDeqEndpoint else s
  | .bulk .. => s

def step (s : TransferEndpoint) (x : Transfer × Outcome) : TransferEndpoint :=
  ((s.submit x.1).execute x.1 x.2).followUp x.1 x.2.code

def executed (s : TransferEndpoint) (x : Transfer × Outcome) : List XhciTrb :=
  ((s.submit x.1).execute x.1 x.2).sys.taken.drop s.sys.taken.length

/-- The endpoint runs, from where the transfer is written, and executes nothing else. -/
structure Right (s : TransferEndpoint) (x : Transfer × Outcome) : Prop where
  running : (s.submit x.1).state = .running
  atWrite : s.sys.AtWrite
  executed : s.executed x <+: (s.pushed x.1).1.map Entry.trb

/-- The transfer is executed to its end, or it is a control transfer that was stalled. -/
def Recovered (x : Transfer × Outcome) : Prop :=
  match x.2 with
  | .halted code _ => x.1.IsControl ∧ code = compStallError
  | .done _ | .short _ => x.1.left x.2 = 0

structure Good (base : Nat) (s : TransferEndpoint) : Prop where
  behind : s.sys.Behind base 0
  atWrite : s.sys.AtWrite
  notHalted : s.state ≠ .halted

variable {base : Nat} {s : TransferEndpoint}

theorem good_init (trb : Nat) : Good (Bus.xhciAlign * trb) (init trb) where
  behind := Bus.initRing_behind (.endpoint 0 0) trb
  atWrite := Sys.setDeq_deq (b := true) (Bus.base_aligned trb) rfl
  notHalted := fun h => by cases h

theorem behind_pushed (h : Good base s) (t : Transfer) : Sys.Behind base 3 (s.pushed t).2 := by
  have hrange : t.call.InRange := by cases t <;> trivial
  have hreset : ¬ (DriverCall.call t.call hrange).ResetsDevice := by cases t <;> exact id
  have hlen := DriverCall.length_builds (fun _ => (s.sys.ring, s.sys.mem)) (.call t.call hrange)
  have hformed := DriverCall.builds_formed (fun _ => (s.sys.ring, s.sys.mem)) hreset
  obtain ⟨-, hbehind⟩ := h.behind.pushAll (by omega) hformed
  exact ⟨hbehind.inv, hbehind.settled,
    Nat.le_trans hbehind.unconsumed (by rw [Nat.zero_add]; exact hlen)⟩

theorem enqueued_pushed (h : Good base s) (t : Transfer) :
    (s.pushed t).2.enqueued = s.sys.taken ++ (s.pushed t).1.map Entry.trb := by
  have hall := h.behind.inv.taken_of_unconsumed (Nat.le_zero.mp h.behind.unconsumed)
  rw [hall]
  exact Sys.enqueued_pushAll h.behind.inv.started _

/-- A transfer has a TRB that waits for the doorbell. -/
theorem unconsumed_pushed (h : Good base s) (t : Transfer) : 0 < (s.pushed t).2.unconsumed := by
  obtain ⟨-, -, htaken, hlength⟩ :=
    s.sys.pushAll_frame (t.call.builds fun _ => (s.sys.ring, s.sys.mem))
  have hbuilds : 0 < (t.call.builds fun _ => (s.sys.ring, s.sys.mem)).length := by
    cases t with
    | control slot ep req data length =>
        simp only [Transfer.call, Call.builds]
        split <;> exact Nat.succ_pos _
    | bulk slot ep data length => exact Nat.succ_pos _
  rw [Sys.unconsumed, enqueued_pushed h, List.length_append, List.length_map]
  change 0 < _ + (s.sys.pushAll _).1.length - (s.sys.pushAll _).2.taken.length
  rw [htaken, hlength]
  omega

theorem submit_running (h : Good base s) (t : Transfer) : (s.submit t).state = .running :=
  if_neg h.notHalted

theorem execute_running (h : Good base s) (t : Transfer) (o : Outcome) :
    (s.submit t).execute t o =
      ⟨(s.pushed t).2.execute (t.left o), match o with
        | .halted .. => .halted
        | .done _ | .short _ => .running⟩ := by
  simp only [execute, if_pos (submit_running h t)]
  rfl

/-- The two commands do nothing to an endpoint that runs. -/
theorem followUp_running (hs : s.state = .running) (t : Transfer) (code : UInt32) :
    s.followUp t code = s := by
  have hreset : s.xhciResetStallEndpoint = s := if_neg (by rw [hs]; decide)
  have hdeq : s.xhciSetDeqEndpoint = s := if_neg (by rw [hs]; decide)
  cases t with
  | control slot ep req data length =>
      rw [followUp, hreset, hdeq]
      exact ite_self s
  | bulk slot ep data length => rfl

theorem Good.right (h : Good base s) (x : Transfer × Outcome) : Right s x where
  running := submit_running h x.1
  atWrite := h.atWrite
  executed := by
    obtain ⟨k, hk⟩ := (s.pushed x.1).2.execute_fetches (x.1.left x.2)
    obtain ⟨trbs, htrbs⟩ := (s.pushed x.1).2.fetches_taken k
    obtain ⟨-, -, htaken, -⟩ :=
      s.sys.pushAll_frame (x.1.call.builds fun _ => (s.sys.ring, s.sys.mem))
    change (s.pushed x.1).2.taken = s.sys.taken at htaken
    have hprefix := ((behind_pushed h x.1).fetches k).inv.taken
    rw [(Sys.fetches_frame _ k).2, enqueued_pushed h, ← htrbs, htaken,
      List.prefix_append_right_inj] at hprefix
    rw [executed, execute_running h, hk, ← htrbs, htaken, List.drop_left]
    exact hprefix

theorem Good.step (h : Good base s) (halign : base % 16 = 0) {x : Transfer × Outcome}
    (hx : Recovered x) :
    Good base (s.step x) := by
  obtain ⟨t, o⟩ := x
  have hpushed := behind_pushed h t
  have finished (hleft : t.left o = 0) (hrunning : ∀ code left, o ≠ .halted code left) :
      Good base (s.step (t, o)) := by
    have hstate : ((s.submit t).execute t o) = ⟨(s.pushed t).2.doorbell, .running⟩ := by
      rw [execute_running h, hleft, Sys.execute, if_pos rfl]
      cases o with
      | halted code left => exact absurd rfl (hrunning code left)
      | done code => rfl
      | short statusPending => rfl
    rw [TransferEndpoint.step, hstate, followUp_running rfl]
    exact ⟨hpushed.doorbell (by decide), hpushed.atWrite_doorbell (by decide),
      fun heq => by cases heq⟩
  cases o with
  | done code => exact finished hx fun code left heq => by cases heq
  | short statusPending => exact finished hx fun code left heq => by cases heq
  | halted code left =>
      obtain ⟨hcontrol, rfl⟩ := hx
      cases t with
      | bulk slot ep data length => exact hcontrol.elim
      | control slot ep req data length =>
          have hexecuted := hpushed.execute left
          rw [TransferEndpoint.step, execute_running h]
          exact ⟨hexecuted.reposition halign, hexecuted.atWrite_reposition halign,
            fun heq => by cases heq⟩

theorem left_short {t : Transfer} {statusPending : Bool} (h : ¬ t.left (.short statusPending) = 0) :
    t.left (.short statusPending) = 1 := by
  cases t with
  | bulk slot ep data length => exact absurd rfl h
  | control slot ep req data length =>
      cases statusPending with
      | false => exact absurd rfl h
      | true =>
          simp only [Transfer.left] at h ⊢
          split at h
          · rename_i hin
            exact if_pos hin
          · exact absurd rfl h

theorem Good.not_right (h : Good base s) {x : Transfer × Outcome} (hx : ¬ Recovered x)
    (y : Transfer × Outcome) :
    ¬ Right (s.step x) y := by
  obtain ⟨t, o⟩ := x
  have hpushed := behind_pushed h t
  intro hright
  cases o with
  | done code => exact hx (by cases t <;> rfl)
  | short statusPending =>
      have hstep : s.step (t, .short statusPending) =
          ⟨(s.pushed t).2.execute (t.left (.short statusPending)), .running⟩ := by
        rw [TransferEndpoint.step, execute_running h, followUp_running rfl]
      have hexecuted := hpushed.execute (t.left (.short statusPending))
      have hleft : t.left (.short statusPending) = 1 := left_short hx
      have hpending : 1 ≤ ((s.pushed t).2.execute (t.left (.short statusPending))).unconsumed := by
        rw [hleft]
        exact Sys.le_unconsumed_executeBut _ (unconsumed_pushed h t)
      refine hexecuted.inv.not_atWrite hexecuted.settled hpending ?_ ?_
      · exact Nat.lt_of_le_of_lt hexecuted.unconsumed (by decide)
      · rw [hstep] at hright
        exact hright.atWrite
  | halted code left =>
      have hhalted : (s.step (t, .halted code left)).state = .halted := by
        rw [TransferEndpoint.step, execute_running h]
        cases t with
        | bulk slot ep data length => rfl
        | control slot ep req data length =>
            have hcode : code ≠ compStallError := fun heq => hx ⟨trivial, heq⟩
            simp only [followUp]
            rw [if_neg (show ¬ Outcome.code (.halted code left) = compStallError from hcode)]
      have hrunning := hright.running
      rw [submit, hhalted] at hrunning
      cases hrunning

/-- On a ring anywhere, every transfer of a run finds the endpoint running at its first TRB
just when each one before it was executed to its end or was a stalled control transfer. -/
theorem recovered_iff (trb : Nat) (transfers : List (Transfer × Outcome)) :
    Follows step Right (init trb) transfers ↔ ∀ x ∈ transfers.dropLast, Recovered x :=
  follows_iff_dropLast (good_init trb) (fun _ _ h hx => h.step (Bus.base_aligned trb) hx)
    (fun _ x h => h.right x) fun _ _ y h hx => h.not_right hx y

def compUsbTransactionError : UInt32 := 4

def setConfiguration : Transfer := .control 1 0 ⟨0x00, 9, 1, 0, 0⟩ 0 0

/-- After a USB Transaction Error at its Setup TRB the endpoint halts for good. -/
theorem transactionError_unrecovered :
    ¬ Follows step Right (init 1)
      [(setConfiguration, .halted compUsbTransactionError 2),
        (setConfiguration, .done compSuccess)] := by
  intro h
  have hx : ¬ Recovered (setConfiguration, .halted compUsbTransactionError 2) := fun hrecovered =>
    absurd hrecovered.2 (by decide)
  exact (good_init 1).not_right hx _ h.2.1

end TransferEndpoint

end LinkedsemiZephyr.Xhci
