import LinkedsemiZephyr.Lib.BitMask
import LinkedsemiZephyr.Lib.GuardedRun

/-! `port_status_handle`: which bits of PORTSC it writes, between the changes the port makes
on its own. -/
namespace LinkedsemiZephyr.Xhci
open BitMask GuardedRun

abbrev Portsc := BitVec 32

def xhciPortRo : Portsc := 1#32 <<< 0 ||| 1#32 <<< 3 ||| 0xf#32 <<< 10 ||| 1#32 <<< 30
def xhciPortRws : Portsc := 0xf#32 <<< 5 ||| 1#32 <<< 9 ||| 0x3#32 <<< 14 ||| 0x7#32 <<< 25
def xhciOpPortscReset : Portsc := 1#32 <<< 4
def xhciOpPortscCsc : Portsc := 1#32 <<< 17
def xhciOpPortscPrc : Portsc := 1#32 <<< 21

/-- Port Enabled, which a written 1 clears. -/
def portEnabled : Portsc := 1#32 <<< 1

/-- The seven change bits, 17 to 23, which a written 1 clears. -/
def portChanges : Portsc := 0x7f#32 <<< 17

def xhciOpPortscLinkState (psc : Portsc) : Portsc := psc >>> 5 &&& 0xf#32

def plsU0State : Portsc := 0
def plsRxdetectState : Portsc := 5
def plsPollingState : Portsc := 7

def xhciPortStateToNeutral (state : Portsc) : Portsc :=
  state &&& xhciPortRo ||| state &&& xhciPortRws

/-- What a write leaves: bits that a 1 clears, bits that take the written value, and the
reset bit that a 1 sets. -/
def portscWrite (r v : Portsc) : Portsc :=
  (r &&& ~~~(v &&& (portEnabled ||| portChanges)) &&& ~~~xhciPortRws) ||| (v &&& xhciPortRws) |||
    (v &&& xhciOpPortscReset)

/-- Where `port_status_handle` stands: the access of PORTSC that comes next. -/
inductive PortPc where
  | idle
  | store (v : Portsc)
  | modify (v : Portsc)
  | storeReset (v : Portsc)
  | poll

/-- A port with its handler. `pending` are the change bits that were set on entry and no
write has cleared since; `disables` records a write of 1 to Port Enabled. -/
structure PortHandler where
  portsc : Portsc
  pc : PortPc := .idle
  pending : Portsc := 0
  disables : Bool := false

/-- The port changes on its own, or the handler makes its next access, the first one when it
is called. -/
inductive PortAction where
  | change (v : Portsc)
  | access

namespace PortHandler

def write (s : PortHandler) (v : Portsc) : PortHandler :=
  { s with
    portsc := portscWrite s.portsc v
    pending := s.pending &&& ~~~v
    disables := s.disables || v &&& portEnabled != 0 }

/-- A change of the port clears no change bit. -/
def step (s : PortHandler) : PortAction → PortHandler
  | .change v => { s with portsc := v ||| s.portsc &&& portChanges }
  | .access =>
    match s.pc with
    | .idle =>
      let portSc := s.portsc
      let s := { s with pending := portSc &&& portChanges }
      if xhciOpPortscLinkState portSc = plsU0State then
        { s with pc := .store (xhciPortStateToNeutral portSc ||| xhciOpPortscPrc) }
      else if xhciOpPortscLinkState portSc = plsPollingState then
        { s with pc := .modify (xhciPortStateToNeutral portSc ||| xhciOpPortscReset) }
      else if xhciOpPortscLinkState portSc = plsRxdetectState then
        { s with pc := .store (xhciPortStateToNeutral portSc ||| xhciOpPortscCsc) }
      else s
    | .store v => { s.write v with pc := .idle }
    | .modify v => { s with pc := .storeReset (s.portsc ||| v) }
    | .storeReset v => { s.write v with pc := .poll }
    | .poll => if s.portsc &&& xhciOpPortscPrc ≠ 0 then { s with pc := .idle } else s

/-- No write disables the port, and a call has returned only with nothing pending. -/
structure Right (s : PortHandler) : Prop where
  enabled : s.disables = false
  cleared : s.pc = .idle → s.pending = 0

/-- The change bits a call clears that is entered in a link state; where it resets the port
it reads them back and writes all. -/
def clears (linkState : Portsc) : Portsc :=
  if linkState = plsU0State then xhciOpPortscPrc
  else if linkState = plsPollingState then portChanges
  else if linkState = plsRxdetectState then xhciOpPortscCsc
  else 0

/-- On entry no change bit is set but the one the link state stands for, and a port about to
be reset is not enabled. -/
def ExpectedRead (portsc : Portsc) : PortPc → Prop
  | .idle => portsc &&& portChanges &&& ~~~clears (xhciOpPortscLinkState portsc) = 0
  | .modify _ => portsc &&& portEnabled = 0
  | .store _ | .storeReset _ | .poll => True

instance (portsc : Portsc) : (pc : PortPc) → Decidable (ExpectedRead portsc pc)
  | .idle | .modify _ => inferInstanceAs (Decidable (_ = _))
  | .store _ | .storeReset _ | .poll => inferInstanceAs (Decidable True)

def Expected (s : PortHandler) : PortAction → Prop
  | .change _ => True
  | .access => ExpectedRead s.portsc s.pc

instance (s : PortHandler) : (a : PortAction) → Decidable (s.Expected a)
  | .change _ => inferInstanceAs (Decidable True)
  | .access => inferInstanceAs (Decidable (ExpectedRead _ _))

theorem neutral_and {state m : Portsc} (hm : (xhciPortRo ||| xhciPortRws) &&& m = 0) :
    xhciPortStateToNeutral state &&& m = 0 := by
  rw [and_eq_zero_iff] at hm ⊢
  intro i hi
  refine hm i ?_
  simp only [xhciPortStateToNeutral, BitVec.getLsbD_or, BitVec.getLsbD_and, Bool.or_eq_true,
    Bool.and_eq_true] at hi ⊢
  exact hi.imp And.right And.right

/-- What a word leaves of the pending bits is decided by the bit put into the neutral state. -/
theorem pending_and_not {x bits : Portsc} :
    x &&& portChanges &&& ~~~(xhciPortStateToNeutral x ||| bits) = 0 ↔
      x &&& portChanges &&& ~~~bits = 0 := by
  have hneutral := and_eq_zero_iff.mp (@neutral_and x portChanges (by decide))
  rw [and_not_eq_zero_iff, and_not_eq_zero_iff]
  refine forall_congr' fun i => imp_congr_right fun hi => ?_
  have hchange : portChanges.getLsbD i = true := by
    rw [BitVec.getLsbD_and, Bool.and_eq_true] at hi
    exact hi.2
  have hclear : (xhciPortStateToNeutral x).getLsbD i = false := by
    by_contra hset
    rw [hneutral i ((Bool.not_eq_false _).mp hset)] at hchange
    cases hchange
  rw [BitVec.getLsbD_or, hclear, Bool.false_or]

/-- A word that leaves the port enabled and nothing pending. -/
structure Covers (pending v : Portsc) : Prop where
  enabled : v &&& portEnabled = 0
  pending : pending &&& ~~~v = 0

def Ahead (pending : Portsc) : PortPc → Prop
  | .idle | .poll => pending = 0
  | .store v | .storeReset v => Covers pending v
  | .modify v => v &&& portEnabled = 0

/-- What a run keeps in which every access is expected. -/
structure Inv (s : PortHandler) : Prop where
  enabled : s.disables = false
  kept : s.pending &&& ~~~(s.portsc &&& portChanges) = 0
  ahead : Ahead s.pending s.pc

theorem inv_init (portsc : Portsc) : Inv { portsc } where
  enabled := rfl
  kept := BitVec.zero_and
  ahead := rfl

theorem Inv.right {s : PortHandler} (h : s.Inv) : s.Right where
  enabled := h.enabled
  cleared := by
    intro hpc
    have hahead := h.ahead
    rw [hpc] at hahead
    exact hahead

/-- A covering write leaves the port as it was and nothing pending. -/
theorem Inv.write {s : PortHandler} (h : s.Inv) {v : Portsc} (hv : Covers s.pending v) {pc : PortPc}
    (hpc : pc = .idle ∨ pc = .poll) : Inv { s.write v with pc } where
  enabled := by
    change (s.disables || v &&& portEnabled != 0) = false
    rw [h.enabled, hv.enabled]
    rfl
  kept := by
    change s.pending &&& ~~~v &&& _ = 0
    rw [hv.pending]
    exact BitVec.zero_and
  ahead := by
    rcases hpc with rfl | rfl <;> exact hv.pending

theorem Inv.change {s : PortHandler} (h : s.Inv) (v : Portsc) : (s.step (.change v)).Inv where
  enabled := h.enabled
  kept := by
    have hkept := and_not_eq_zero_iff.mp h.kept
    apply and_not_eq_zero_iff.mpr
    intro i hi
    have hset := hkept i hi
    simp only [step, BitVec.getLsbD_and, BitVec.getLsbD_or, Bool.and_eq_true,
      Bool.or_eq_true] at hset ⊢
    exact ⟨.inr hset, hset.2⟩
  ahead := h.ahead

def entered (x : Portsc) : PortPc :=
  if xhciOpPortscLinkState x = plsU0State then .store (xhciPortStateToNeutral x ||| xhciOpPortscPrc)
  else if xhciOpPortscLinkState x = plsPollingState then
    .modify (xhciPortStateToNeutral x ||| xhciOpPortscReset)
  else if xhciOpPortscLinkState x = plsRxdetectState then
    .store (xhciPortStateToNeutral x ||| xhciOpPortscCsc)
  else .idle

theorem step_idle {s : PortHandler} (hpc : s.pc = .idle) :
    s.step .access = { s with pc := entered s.portsc, pending := s.portsc &&& portChanges } := by
  obtain ⟨portsc, pc, pending, disables⟩ := s
  cases hpc
  simp only [step, entered]
  split
  · rfl
  split
  · rfl
  split <;> rfl

theorem covers_neutral {x bits : Portsc} (hbits : bits &&& portEnabled = 0) :
    Covers (x &&& portChanges) (xhciPortStateToNeutral x ||| bits) ↔
      x &&& portChanges &&& ~~~bits = 0 := by
  constructor
  · intro h
    exact pending_and_not.mp h.pending
  · intro h
    refine ⟨?_, pending_and_not.mpr h⟩
    rw [BitVec.and_or_distrib_right, neutral_and (by decide), hbits]
    exact BitVec.zero_or

/-- The entry is expected just when the call goes on to a covering write, if it stores. -/
theorem ahead_entered_iff {x : Portsc} : Ahead (x &&& portChanges) (entered x) ↔
    x &&& portChanges &&& ~~~clears (xhciOpPortscLinkState x) = 0 := by
  simp only [entered, clears]
  split
  · exact covers_neutral (by decide)
  split
  · have hall : x &&& portChanges &&& ~~~portChanges = 0 := by
      rw [BitVec.and_assoc, BitVec.and_not_self]
      exact BitVec.and_zero
    refine iff_of_true ?_ hall
    change (xhciPortStateToNeutral x ||| xhciOpPortscReset) &&& portEnabled = 0
    rw [BitVec.and_or_distrib_right, neutral_and (by decide)]
    decide
  split
  · exact covers_neutral (by decide)
  · change x &&& portChanges = 0 ↔ x &&& portChanges &&& ~~~0#32 = 0
    rw [BitVec.not_zero, BitVec.and_allOnes]

/-- What is pending is read back, so a write of it covers all. -/
theorem Inv.covers_reset {s : PortHandler} (h : s.Inv) {v : Portsc} (hv : v &&& portEnabled = 0)
    (hport : s.portsc &&& portEnabled = 0) : Covers s.pending (s.portsc ||| v) where
  enabled := by
    rw [BitVec.and_or_distrib_right, hport, hv]
    exact BitVec.zero_or
  pending := by
    have hkept := and_not_eq_zero_iff.mp h.kept
    apply and_not_eq_zero_iff.mpr
    intro i hi
    have hset := hkept i hi
    simp only [BitVec.getLsbD_and, BitVec.getLsbD_or, Bool.and_eq_true, Bool.or_eq_true] at hset ⊢
    exact .inl hset.1

theorem Inv.step {s : PortHandler} (h : s.Inv) {a : PortAction} (ha : s.Expected a) :
    (s.step a).Inv := by
  cases a with
  | change v => exact h.change v
  | access =>
      have hahead := h.ahead
      cases hpc : s.pc with
      | idle =>
          simp only [Expected, ExpectedRead, hpc] at ha
          rw [step_idle hpc]
          exact ⟨h.enabled, and_not_eq_zero_iff.mpr fun _ hi => hi, ahead_entered_iff.mpr ha⟩
      | store v =>
          rw [hpc] at hahead
          simp only [PortHandler.step, hpc]
          exact h.write hahead (.inl rfl)
      | modify v =>
          rw [hpc] at hahead
          simp only [Expected, ExpectedRead, hpc] at ha
          simp only [PortHandler.step, hpc]
          exact ⟨h.enabled, h.kept, h.covers_reset hahead ha⟩
      | storeReset v =>
          rw [hpc] at hahead
          simp only [PortHandler.step, hpc]
          exact h.write hahead (.inr rfl)
      | poll =>
          rw [hpc] at hahead
          simp only [PortHandler.step, hpc]
          split
          · exact ⟨h.enabled, h.kept, hahead⟩
          · exact h

/-- A call on its way to disable the port, or to leave a change bit behind. -/
def Doomed (s : PortHandler) : Prop := s.disables = true ∨ ¬ Ahead s.pending s.pc

theorem doomed_write {s : PortHandler} {v : Portsc} (hv : ¬ Covers s.pending v) {pc : PortPc}
    (hpc : pc = .idle ∨ pc = .poll) : Doomed { s.write v with pc } := by
  by_cases hport : v &&& portEnabled = 0
  · have hpending : s.pending &&& ~~~v ≠ 0 := fun hzero => hv ⟨hport, hzero⟩
    rcases hpc with rfl | rfl <;> exact .inr hpending
  · refine .inl ?_
    change (s.disables || v &&& portEnabled != 0) = true
    rw [bne_iff_ne.mpr hport, Bool.or_true]

theorem not_covers_of_enabled {pending r v : Portsc}
    (h : ¬ r &&& portEnabled = 0 ∨ ¬ v &&& portEnabled = 0) :
    ¬ Covers pending (r ||| v) := by
  intro hcovers
  have hboth := hcovers.enabled
  rw [BitVec.and_or_distrib_right] at hboth
  obtain ⟨hr, hv⟩ := BitVec.or_eq_zero_iff.mp hboth
  exact h.elim (absurd hr) (absurd hv)

theorem step_doomed {s : PortHandler} {a : PortAction} (ha : ¬ s.Expected a) :
    (s.step a).Doomed := by
  cases a with
  | change v => exact absurd trivial ha
  | access =>
      cases hpc : s.pc with
      | idle =>
          simp only [Expected, ExpectedRead, hpc] at ha
          rw [step_idle hpc]
          exact .inr (mt ahead_entered_iff.mp ha)
      | modify v =>
          simp only [Expected, ExpectedRead, hpc] at ha
          simp only [PortHandler.step, hpc]
          exact .inr (not_covers_of_enabled (.inl ha))
      | store v => simp only [Expected, ExpectedRead, hpc, not_true] at ha
      | storeReset v => simp only [Expected, ExpectedRead, hpc, not_true] at ha
      | poll => simp only [Expected, ExpectedRead, hpc, not_true] at ha

theorem Doomed.step {s : PortHandler} (h : s.Doomed) (hright : s.Right) (a : PortAction) :
    (s.step a).Doomed := by
  rcases h with hdisables | hahead
  · rw [hright.enabled] at hdisables
    cases hdisables
  · cases a with
    | change v => exact .inr hahead
    | access =>
        cases hpc : s.pc with
        | idle => exact absurd (hright.cleared hpc) (by rwa [hpc] at hahead)
        | store v =>
            rw [hpc] at hahead
            simp only [PortHandler.step, hpc]
            exact doomed_write hahead (.inl rfl)
        | modify v =>
            rw [hpc] at hahead
            simp only [PortHandler.step, hpc]
            exact .inr (not_covers_of_enabled (.inr hahead))
        | storeReset v =>
            rw [hpc] at hahead
            simp only [PortHandler.step, hpc]
            exact doomed_write hahead (.inr rfl)
        | poll =>
            rw [hpc] at hahead
            simp only [PortHandler.step, hpc]
            split
            · exact .inr hahead
            · exact .inr (by rwa [hpc])

theorem Doomed.shows {s : PortHandler} (h : s.Doomed) (hright : s.Right) : ¬ s.pc = .idle := by
  intro hpc
  rcases h with hdisables | hahead
  · rw [hright.enabled] at hdisables
    cases hdisables
  · rw [hpc] at hahead
    exact hahead (hright.cleared hpc)

/-- However the port changes before, between and during the calls, they clear what they were
entered with and leave the port enabled if each of them is entered as its branch expects;
and if all of them have returned, only then. -/
theorem portStatus_right_iff (portsc : Portsc) (actions : List PortAction) :
    (Follows step Expected { portsc } actions → Always step Right { portsc } actions) ∧
      ((actions.foldl step { portsc }).pc = .idle →
        (Always step Right { portsc } actions ↔ Follows step Expected { portsc } actions)) := by
  have hright (h : Follows step Expected { portsc } actions) :
      Always step Right { portsc } actions :=
    h.always (inv_init portsc) (fun _ _ hinv ha => hinv.step ha) fun _ hinv => hinv.right
  refine ⟨hright, fun hdone => ⟨fun h => ?_, hright⟩⟩
  exact follows_of_always (inv_init portsc) (fun _ _ hinv ha => hinv.step ha)
    (fun _ _ _ ha => step_doomed ha)
    (fun _ a hdoomed hs => hdoomed.step hs a) (fun _ hdoomed hs => hdoomed.shows hs) hdone h

/-- A USB 2 device is connected, its port reset until the reset change comes, and that change
then taken by a second call. -/
def highSpeedConnect : List PortAction :=
  [.change 0x202e1, .access, .access, .access, .change 0x200e03, .access, .access, .access]

theorem portStatus_right_highSpeedConnect :
    Always step Right { portsc := 0x2a0 } highSpeedConnect :=
  (portStatus_right_iff 0x2a0 highSpeedConnect).1 (by decide)

/-- A SuperSpeed device is connected: the link is in U0 and connect status has changed. -/
def superSpeedConnect : List PortAction := [.change 0x21203, .access, .access]

theorem portStatus_superSpeedConnect :
    ¬ Always step Right { portsc := 0x2a0 } superSpeedConnect := by
  intro h
  have hcleared := h.last.cleared rfl
  exact absurd hcleared (by decide)

end PortHandler

end LinkedsemiZephyr.Xhci
