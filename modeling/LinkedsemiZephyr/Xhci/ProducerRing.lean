import LinkedsemiZephyr.Xhci.Ring

/-! A command or transfer ring between the driver and a controller, interleaved step by
step. The controller finds the driver's TRBs by their cycle bits alone. -/
namespace LinkedsemiZephyr.Xhci
open LapRing

/-- The controller's side of the ring: TR dequeue pointer and consumer cycle state. -/
structure Controller where
  deq : Nat
  ccs : UInt32
  deriving DecidableEq, Repr

/-- A dequeue pointer as software writes it: the address, and the cycle state in bit 0. -/
def Controller.setDeq (p : Nat) : Controller := ⟨p / 16 * 16, UInt32.ofNat (p % 2)⟩

/-- One look at the ring whose memory starts at `base`: a TRB with the other cycle bit is
left alone, a Link TRB is followed, any other is consumed. -/
def Controller.fetch (base : Nat) (mem : List XhciTrb) (hc : Controller) :
    Option XhciTrb × Controller :=
  match mem[(hc.deq - base) / 16]? with
  | none => (none, hc)
  | some t =>
    if t.cycle ≠ hc.ccs then (none, hc)
    else if t.type = trbType trbLink then
      (none, ⟨t.paramater, if t.control &&& linkToggle ≠ 0 then hc.ccs ^^^ 1 else hc.ccs⟩)
    else (some t, { hc with deq := hc.deq + 16 })

/-- Ring and controller, with everything enqueued so far, where the controller was last
put among it, and what it has consumed since. -/
structure Sys where
  ring : XhciRing
  mem : List XhciTrb
  hc : Controller
  log : List XhciTrb := []
  start : Nat := 0
  taken : List XhciTrb := []
  deriving DecidableEq, Repr

/-- `enqueue` and `wrap` are the two halves of `xhci_enqueue_trb`. -/
inductive Action where
  | enqueue (r : Request)
  | wrap
  | fetch
  | reposition

namespace Sys

/-- `xhci_ring_init` at `base`, and a controller given the ring's first dequeue pointer. -/
def init (base numTrb : Nat) (type : RingType) : Sys :=
  let (ring, mem) := xhciRingInit base numTrb type
  { ring, mem, hc := .setDeq ring.deq }

def step (s : Sys) : Action → Sys
  | .enqueue r =>
    let t := r.trb s.ring.cycleBit
    let (ring, mem) := storeTrb s.ring s.mem t
    { s with ring, mem, log := s.log ++ [t] }
  | .wrap =>
    let (ring, mem) := wrapLink s.ring s.mem
    { s with ring, mem }
  | .fetch =>
    let (t, hc) := s.hc.fetch s.ring.trb s.mem
    { s with hc, taken := s.taken ++ t.toList }
  | .reposition => { s with hc := .setDeq s.ring.deq, start := s.log.length, taken := [] }

def run (s : Sys) (actions : List Action) : Sys := actions.foldl step s

/-- What the controller has to consume. -/
def enqueued (s : Sys) : List XhciTrb := s.log.drop s.start

def unconsumed (s : Sys) : Nat := s.enqueued.length - s.taken.length

/-- No `xhci_enqueue_trb` is under way. -/
def Settled (s : Sys) : Prop := s.ring.writeIndex ≠ s.ring.numTrb - 1

/-- The controller stands at the Link TRB. -/
def AtLink (s : Sys) : Prop := s.hc.deq = s.ring.trbAt (s.ring.numTrb - 1)

/-- The driver's side: one call after another, and room in the ring. -/
def HasRoom (s : Sys) : Action → Prop
  | .enqueue _ => s.Settled ∧ s.unconsumed < s.ring.numTrb - 1
  | .reposition => s.Settled
  | .wrap | .fetch => True

/-- The last slot is not written while the controller is still at the Link TRB, which that
enqueue turns over. -/
def Allowed (s : Sys) : Action → Prop
  | .enqueue r => s.HasRoom (.enqueue r) ∧ ¬ (s.ring.writeIndex = s.ring.numTrb - 2 ∧ s.AtLink)
  | a => s.HasRoom a

instance (s : Sys) : Decidable s.Settled := inferInstanceAs (Decidable (_ ≠ _))
instance (s : Sys) : Decidable s.AtLink := inferInstanceAs (Decidable (_ = _))
instance (s : Sys) (a : Action) : Decidable (s.HasRoom a) :=
  match a with
  | .enqueue _ => inferInstanceAs (Decidable (s.Settled ∧ _))
  | .reposition => inferInstanceAs (Decidable s.Settled)
  | .wrap | .fetch => inferInstanceAs (Decidable True)

instance (s : Sys) (a : Action) : Decidable (s.Allowed a) :=
  match a with
  | .enqueue _ => inferInstanceAs (Decidable (_ ∧ ¬ (_ ∧ s.AtLink)))
  | .reposition => inferInstanceAs (Decidable s.Settled)
  | .wrap | .fetch => inferInstanceAs (Decidable True)

/-- Every action of a run meets a condition where it is taken. -/
def Follows (ok : Sys → Action → Prop) : Sys → List Action → Prop
  | _, [] => True
  | s, a :: as => ok s a ∧ Follows ok (s.step a) as

instance decidableFollows (ok : Sys → Action → Prop) [∀ s a, Decidable (ok s a)] :
    (s : Sys) → (actions : List Action) → Decidable (Follows ok s actions)
  | _, [] => isTrue trivial
  | s, a :: as =>
    haveI := decidableFollows ok (s.step a) as
    inferInstanceAs (Decidable (ok s a ∧ Follows ok (s.step a) as))

/-- The two halves in a row are the call. -/
theorem enqueue_wrap (s : Sys) (r : Request) :
    ((s.step (.enqueue r)).step .wrap).ring =
      (xhciEnqueueTrb s.ring s.mem (r.trb s.ring.cycleBit)).1 ∧
      ((s.step (.enqueue r)).step .wrap).mem =
        (xhciEnqueueTrb s.ring s.mem (r.trb s.ring.cycleBit)).2 :=
  ⟨rfl, rfl⟩

/-- Where the driver is, `p` TRBs enqueued: between calls, or before the turn of the link. -/
inductive Writer (M p : Nat) (ring : XhciRing) : Prop
  | settled (windex : ring.writeIndex = p % M) (cycle : ring.cycleBit = bit (lapMark (p / M)))
  | turning (windex : ring.writeIndex = M) (wraps : p % M = 0)
  (cycle : ring.cycleBit = bit !lapMark (p / M))

/-- Where the controller is, at position `c` of the log: in the ring, or before the link. -/
inductive Reader (base M p c : Nat) (hc : Controller) : Prop
  | inRing (deq : hc.deq = base + 16 * (c % M)) (ccs : hc.ccs = bit (lapMark (c / M)))
  | atLink (deq : hc.deq = base + 16 * M) (wraps : c % M = 0) (near : p < c + M)
      (ccs : hc.ccs = bit !lapMark (c / M))

/-- The Link TRB of a ring in cycle `cycleBit`. -/
structure IsLink (base : Nat) (cycleBit : UInt32) (t : XhciTrb) : Prop where
  type : t.type = trbType trbLink
  toggle : t.control &&& linkToggle ≠ 0
  target : t.paramater = base
  cycle : t.cycle = cycleBit ^^^ 1

/-- What every reachable state keeps. -/
structure Inv (base M : Nat) (s : Sys) : Prop where
  trb : s.ring.trb = base
  numTrb : s.ring.numTrb = M + 1
  type : s.ring.type ≠ .eventRing
  holds : Holds XhciTrb.marked M s.mem s.log
  work : ∀ t ∈ s.log, t.type ≠ trbType trbLink
  link : ∃ t, s.mem[M]? = some t ∧ IsLink base s.ring.cycleBit t
  writer : Writer M s.log.length s.ring
  reader : Reader base M s.log.length (s.start + s.taken.length) s.hc
  taken : s.taken <+: s.enqueued
  started : s.start ≤ s.log.length
  cap : s.log.length ≤ s.start + s.taken.length + M

variable {base M : Nat} {s : Sys}

theorem setDeq_deq {ring : XhciRing} (halign : ring.trb % 16 = 0) {b : Bool}
    (hb : ring.cycleBit = bit b) :
    Controller.setDeq ring.deq = ⟨ring.trbAt ring.writeIndex, bit b⟩ := by
  have hlow : b.toNat < 2 := by cases b <;> decide
  have hmod := XhciRing.trbAt_mod halign ring.writeIndex
  have hdeq : ring.deq = ring.trbAt ring.writeIndex + b.toNat := by
    rw [XhciRing.deq, hb, bit_toNat, or_low hmod (by omega)]
  have haddr : (ring.trbAt ring.writeIndex + b.toNat) / 16 * 16 = ring.trbAt ring.writeIndex := by
    omega
  have hbit : UInt32.ofNat ((ring.trbAt ring.writeIndex + b.toNat) % 2) = bit b := by
    rw [show (ring.trbAt ring.writeIndex + b.toNat) % 2 = b.toNat by omega]
    cases b <;> rfl
  rw [hdeq, Controller.setDeq, haddr, hbit]

theorem inv_init (halign : base % 16 = 0) {type : RingType} (htype : type ≠ .eventRing) :
    Inv base M (init base (M + 1) type) := by
  have hmem : (init base (M + 1) type).mem =
      (List.replicate (M + 1) ⟨0, 0, 0⟩).set M ⟨base, 0, trbType trbLink ||| linkToggle⟩ := by
    simp only [init, xhciRingInit, ne_eq, htype, not_false_eq_true, if_true, Nat.add_sub_cancel]
  have hlen : (init base (M + 1) type).mem.length = M + 1 := by
    rw [hmem, List.length_set, List.length_replicate]
  constructor
  · rfl
  · rfl
  · exact htype
  · apply Holds.nil (by omega)
    intro i x hi hx
    rw [hmem, List.getElem?_set_ne (by omega)] at hx
    obtain ⟨-, rfl⟩ := List.getElem?_eq_some_iff.mp hx
    rw [List.getElem_replicate]
    decide
  · intro t ht
    exact absurd ht List.not_mem_nil
  · refine ⟨⟨base, 0, trbType trbLink ||| linkToggle⟩, ?_, ?_, ?_, rfl, ?_⟩
    · rw [hmem, List.getElem?_set_self (by rw [List.length_replicate]; omega)]
    · change (trbType trbLink ||| linkToggle) &&& trbTypeBitmask = trbType trbLink
      decide
    · change (trbType trbLink ||| linkToggle) &&& linkToggle ≠ 0
      decide
    · change (trbType trbLink ||| linkToggle) &&& trbCycle = 1 ^^^ 1
      decide
  · refine .settled (Nat.zero_mod M).symm ?_
    change 1 = bit (lapMark (0 / M))
    rw [Nat.zero_div]
    rfl
  · have hhc : (init base (M + 1) type).hc = ⟨base + 16 * 0, bit true⟩ := setDeq_deq halign rfl
    refine .inRing ?_ ?_
    · rw [hhc]
      change base + 16 * 0 = base + 16 * (0 % M)
      rw [Nat.zero_mod]
    · rw [hhc]
      change bit true = bit (lapMark (0 / M))
      rw [Nat.zero_div]
      rfl
  · exact List.nil_prefix
  · exact Nat.le_refl 0
  · exact Nat.zero_le _

theorem length_enqueued (s : Sys) : s.enqueued.length = s.log.length - s.start := by
  rw [enqueued, List.length_drop]

theorem Inv.taken_le (h : Inv base M s) : s.start + s.taken.length ≤ s.log.length := by
  have hle := h.taken.length_le
  have hstart := h.started
  rw [length_enqueued] at hle
  omega

/-- Before the link the driver is at most one lap on, so its place decides the link's cycle. -/
theorem Inv.atLink_cases (h : Inv base M s) (hw : (s.start + s.taken.length) % M = 0)
    (hnear : s.log.length < s.start + s.taken.length + M) :
    (s.ring.writeIndex = s.log.length % M ∧
      s.ring.cycleBit = bit (lapMark ((s.start + s.taken.length) / M))) ∨
    (s.ring.writeIndex = M ∧ s.log.length = s.start + s.taken.length ∧
      s.ring.cycleBit = bit !lapMark ((s.start + s.taken.length) / M)) := by
  have hle := h.taken_le
  generalize s.start + s.taken.length = c at hw hnear hle
  cases h.writer with
  | settled windex cycle =>
      have hc := Nat.div_add_mod c M
      have hlap : s.log.length / M = c / M := by
        refine Nat.div_eq_of_lt_le ?_ ?_
        · rw [Nat.mul_comm]; omega
        · rw [Nat.succ_mul, Nat.mul_comm]; omega
      exact .inl ⟨windex, by rw [cycle, hlap]⟩
  | turning windex wraps cycle =>
      have heq := eq_of_mod_eq hle hnear (by rw [wraps, hw])
      exact .inr ⟨windex, heq, by rw [cycle, heq]⟩

theorem Inv.mem_room (h : Inv base M s) (hM : 0 < M) (c : Nat) : ∃ x, s.mem[c % M]? = some x := by
  have hlt : c % M < s.mem.length := Nat.lt_of_lt_of_le (Nat.mod_lt c hM) h.holds.room
  exact ⟨s.mem[c % M], List.getElem?_eq_getElem hlt⟩

/-- The next entry of `enqueued` is the entry of the log at the controller's position. -/
theorem Inv.taken_concat (h : Inv base M s) {x : XhciTrb}
    (hx : s.log[s.start + s.taken.length]? = some x) : s.taken ++ [x] <+: s.enqueued := by
  apply LapRing.taken_concat h.taken
  rw [enqueued, List.getElem?_drop, hx]

theorem Inv.taken_all (h : Inv base M s) (hc : s.log.length ≤ s.start + s.taken.length) :
    s.taken = s.enqueued := by
  refine h.taken.eq_of_length ?_
  have hle := h.taken_le
  rw [length_enqueued]
  omega

theorem fetch_idle {x : XhciTrb} (hx : s.mem[(s.hc.deq - s.ring.trb) / 16]? = some x)
    (hcycle : x.cycle ≠ s.hc.ccs) : s.step .fetch = s := by
  simp only [step, Controller.fetch, hx, if_pos hcycle, Option.toList_none, List.append_nil]

theorem fetch_consume {x : XhciTrb} (hx : s.mem[(s.hc.deq - s.ring.trb) / 16]? = some x)
    (hcycle : x.cycle = s.hc.ccs) (htype : x.type ≠ trbType trbLink) :
    s.step .fetch =
      { s with hc := { s.hc with deq := s.hc.deq + 16 }, taken := s.taken ++ [x] } := by
  simp only [step, Controller.fetch, hx, hcycle, ne_eq, not_true_eq_false, if_false, htype,
    Option.toList_some]

theorem fetch_link {x : XhciTrb} (hx : s.mem[(s.hc.deq - s.ring.trb) / 16]? = some x)
    (hcycle : x.cycle = s.hc.ccs) (htype : x.type = trbType trbLink)
    (htoggle : x.control &&& linkToggle ≠ 0) :
    s.step .fetch = { s with hc := ⟨x.paramater, s.hc.ccs ^^^ 1⟩ } := by
  simp only [step, Controller.fetch, hx, hcycle, ne_eq, not_true_eq_false, if_false, htype,
    if_true, htoggle, not_false_eq_true, Option.toList_none, List.append_nil]

/-- What one fetch does: nothing when nothing is left; else it consumes the next entry, or
goes over the link to it. -/
theorem Inv.fetch_cases (h : Inv base M s) (hM : 0 < M) :
    (s.step .fetch = s ∧ s.taken = s.enqueued) ∨
    (∃ x hc, s.log[s.start + s.taken.length]? = some x ∧
      s.step .fetch = { s with hc, taken := s.taken ++ [x] } ∧
      Reader base M s.log.length (s.start + s.taken.length + 1) hc) ∨
    (∃ hc, s.hc.deq = base + 16 * M ∧ s.step .fetch = { s with hc } ∧
      hc.deq = base + 16 * ((s.start + s.taken.length) % M) ∧
      hc.ccs = bit (lapMark ((s.start + s.taken.length) / M))) := by
  have hle := h.taken_le
  have hcap := h.cap
  cases h.reader with
  | inRing deq ccs =>
      obtain ⟨x, hx⟩ := h.mem_room hM (s.start + s.taken.length)
      have hslot : (s.hc.deq - s.ring.trb) / 16 = (s.start + s.taken.length) % M := by
        rw [deq, h.trb]
        omega
      have hmark := h.holds.mark_iff hM (by omega) hcap hx
      by_cases hlt : s.start + s.taken.length < s.log.length
      · have hlog := h.holds.read hlt hcap hx
        have hcycle : x.cycle = s.hc.ccs := by rw [x.cycle_eq, hmark.mpr hlt, ccs]
        refine .inr (.inl ⟨x, _, hlog,
          fetch_consume (hslot ▸ hx) hcycle (h.work x (List.mem_of_getElem? hlog)), ?_⟩)
        rcases advance hM (s.start + s.taken.length) with ⟨-, hmod, hdiv⟩ | ⟨hlast, hmod, hdiv⟩
        · refine .inRing ?_ (by rw [hdiv]; exact ccs)
          change s.hc.deq + 16 = _
          rw [hmod, deq]
          omega
        · refine .atLink ?_ hmod (by omega) (by rw [hdiv, lapMark_succ, Bool.not_not]; exact ccs)
          change s.hc.deq + 16 = _
          rw [deq]
          omega
      · have hcycle : x.cycle ≠ s.hc.ccs := by
          intro heq
          rw [x.cycle_eq, ccs] at heq
          exact hlt (hmark.mp (bit_injective heq))
        exact .inl ⟨fetch_idle (hslot ▸ hx) hcycle, h.taken_all (by omega)⟩
  | atLink deq wraps near ccs =>
      obtain ⟨t, ht, hlink⟩ := h.link
      have hslot : (s.hc.deq - s.ring.trb) / 16 = M := by
        rw [deq, h.trb]
        omega
      rcases h.atLink_cases wraps near with ⟨-, hcycle⟩ | ⟨-, hall, hcycle⟩
      · have hc : t.cycle = s.hc.ccs := by rw [hlink.cycle, hcycle, bit_xor_one, ccs]
        refine .inr (.inr ⟨_, deq, fetch_link (hslot ▸ ht) hc hlink.type hlink.toggle, ?_, ?_⟩)
        · rw [hlink.target, wraps, Nat.mul_zero, Nat.add_zero]
        · rw [ccs, bit_xor_one, Bool.not_not]
      · have hc : t.cycle ≠ s.hc.ccs := by
          rw [hlink.cycle, hcycle, bit_xor_one, ccs, Bool.not_not]
          intro heq
          exact absurd (bit_injective heq)
            (by cases lapMark ((s.start + s.taken.length) / M) <;> decide)
        exact .inl ⟨fetch_idle (hslot ▸ ht) hc, h.taken_all (by omega)⟩

theorem Inv.fetch (h : Inv base M s) (hM : 0 < M) : Inv base M (s.step .fetch) := by
  rcases h.fetch_cases hM with ⟨heq, -⟩ | ⟨x, hc, hx, heq, hr⟩ | ⟨hc, -, heq, hdeq, hccs⟩
  · rw [heq]
    exact h
  · have hlen : (s.taken ++ [x]).length = s.taken.length + 1 := by
      rw [List.length_append, List.length_singleton]
    have hcap := h.cap
    rw [heq]
    exact { h with
      reader := by rw [hlen]; exact hr
      taken := h.taken_concat hx
      cap := by
        change s.log.length ≤ s.start + (s.taken ++ [x]).length + M
        omega }
  · rw [heq]
    exact { h with reader := .inRing hdeq hccs }

theorem Inv.reposition (h : Inv base M s) (halign : base % 16 = 0) (hM : 0 < M) (hs : s.Settled) :
    Inv base M (s.step .reposition) := by
  cases h.writer with
  | turning windex _ _ => exact absurd (by rw [windex, h.numTrb, Nat.add_sub_cancel]) hs
  | settled windex cycle =>
      have hdeq := setDeq_deq (by rw [h.trb]; exact halign) cycle
      exact { h with
        reader := by
          refine .inRing ?_ ?_
          · change (Controller.setDeq s.ring.deq).deq = _
            rw [hdeq, XhciRing.trbAt, h.trb, windex]
            rfl
          · change (Controller.setDeq s.ring.deq).ccs = _
            rw [hdeq]
            rfl
        taken := List.nil_prefix
        started := Nat.le_refl _
        cap := by
          change s.log.length ≤ s.log.length + 0 + M
          omega }

theorem Inv.enqueue (h : Inv base M s) (hM : 0 < M) {r : Request} (ha : s.Allowed (.enqueue r)) :
    Inv base M (s.step (.enqueue r)) := by
  obtain ⟨⟨hs, hroom⟩, hlink⟩ := ha
  have hle := h.taken_le
  have hstart := h.started
  rw [unconsumed, length_enqueued, h.numTrb] at hroom
  cases h.writer with
  | turning windex _ _ => exact absurd (by rw [windex, h.numTrb, Nat.add_sub_cancel]) hs
  | settled windex cycle =>
      have hslot := Nat.mod_lt s.log.length hM
      have hlen : (s.step (.enqueue r)).log.length = s.log.length + 1 := List.length_append
      have hmarked : (r.trb s.ring.cycleBit).marked = lapMark (s.log.length / M) := by
        rw [cycle, r.marked_trb]
      exact
        { trb := h.trb
          numTrb := h.numTrb
          type := h.type
          holds := by
            change Holds _ _ (s.mem.set s.ring.writeIndex _) _
            rw [windex]
            exact h.holds.write hM hmarked
          work := by
            intro t ht
            rcases List.mem_append.mp ht with ht | ht
            · exact h.work t ht
            · rw [List.mem_singleton.mp ht, cycle]
              exact r.type_trb _
          link := by
            obtain ⟨t, ht, hl⟩ := h.link
            refine ⟨t, ?_, hl⟩
            change (s.mem.set s.ring.writeIndex _)[M]? = some t
            rw [List.getElem?_set_ne (by omega), ht]
          writer := by
            rw [hlen]
            rcases advance hM s.log.length with ⟨-, hmod, hdiv⟩ | ⟨hlast, hmod, hdiv⟩
            · refine .settled ?_ (by rw [hdiv]; exact cycle)
              change s.ring.writeIndex + 1 = _
              omega
            · refine .turning ?_ hmod (by rw [hdiv, lapMark_succ, Bool.not_not]; exact cycle)
              change s.ring.writeIndex + 1 = _
              omega
          reader := by
            rw [hlen]
            cases h.reader with
            | inRing deq ccs => exact .inRing deq ccs
            | atLink deq wraps near ccs =>
                refine .atLink deq wraps ?_ ccs
                change _ < s.start + s.taken.length + M
                by_contra hfull
                refine hlink ⟨?_, ?_⟩
                · have hback : s.log.length = s.start + s.taken.length + (M - 1) := by omega
                  rw [windex, hback, Nat.add_mod, wraps, Nat.zero_add, Nat.mod_mod,
                    Nat.mod_eq_of_lt (by omega), h.numTrb]
                  omega
                · rw [AtLink, deq, XhciRing.trbAt, h.trb, h.numTrb, Nat.add_sub_cancel]
          taken := by
            obtain ⟨rest, hrest⟩ := h.taken
            refine ⟨rest ++ [r.trb s.ring.cycleBit], ?_⟩
            change _ = (s.log ++ _).drop s.start
            rw [List.drop_append_of_le_length hstart, ← enqueued, ← hrest, List.append_assoc]
            rfl
          started := by
            rw [hlen]
            exact Nat.le_succ_of_le hstart
          cap := by
            change _ ≤ s.start + s.taken.length + M
            omega }

theorem IsLink.turn {t : XhciTrb} {b : Bool} (h : IsLink base (bit b) t) :
    IsLink base (bit b ^^^ 1) { t with control := t.control ^^^ trbCycle } where
  type := by
    rw [← h.type, XhciTrb.type, XhciTrb.type, BitMask.xor_and,
      show trbCycle &&& trbTypeBitmask = 0 by decide, UInt32.xor_zero]
  toggle := by
    rw [BitMask.xor_and, show trbCycle &&& linkToggle = 0 by decide, UInt32.xor_zero]
    exact h.toggle
  target := h.target
  cycle := by
    have hc := h.cycle
    rw [XhciTrb.cycle] at hc ⊢
    rw [BitMask.xor_and, hc, show trbCycle &&& trbCycle = 1 by decide]

theorem Inv.wrap (h : Inv base M s) (hM : 0 < M) : Inv base M (s.step .wrap) := by
  cases h.writer with
  | settled windex cycle =>
      have hslot := Nat.mod_lt s.log.length hM
      have hstay : s.step .wrap = s := by
        have hne : s.ring.writeIndex ≠ s.ring.numTrb - 1 := by rw [windex, h.numTrb]; omega
        simp only [step, wrapLink, hne, and_false, if_false]
      rw [hstay]
      exact h
  | turning windex wraps cycle =>
      have hend : s.ring.writeIndex = s.ring.numTrb - 1 := by
        rw [windex, h.numTrb, Nat.add_sub_cancel]
      obtain ⟨t, ht, hl⟩ := h.link
      have hturn : s.step .wrap = { s with
          ring := { s.ring with cycleBit := s.ring.cycleBit ^^^ 1, writeIndex := 0 }
          mem := s.mem.set M { t with control := t.control ^^^ trbCycle } } := by
        have hmod := List.modify_eq_set_getElem?
          (fun t : XhciTrb => { t with control := t.control ^^^ trbCycle }) M s.mem
        rw [ht] at hmod
        rw [step, wrapLink, if_pos ⟨h.type, hend⟩, windex, hmod]
        rfl
      have hroom : M < s.mem.length := (List.getElem?_eq_some_iff.mp ht).1
      rw [hturn]
      exact { h with
        holds := h.holds.set_outside hM (Nat.le_refl M) _
        link := by
          rw [cycle] at hl ⊢
          exact ⟨_, List.getElem?_set_self hroom, hl.turn⟩
        writer := .settled wraps.symm (by rw [cycle, bit_xor_one, Bool.not_not]) }

theorem Inv.step (h : Inv base M s) (halign : base % 16 = 0) (hM : 0 < M) {a : Action}
    (ha : s.Allowed a) :
    Inv base M (s.step a) := by
  cases a with
  | enqueue r => exact h.enqueue hM ha
  | wrap => exact h.wrap hM
  | fetch => exact h.fetch hM
  | reposition => exact h.reposition halign hM ha

theorem Inv.run (h : Inv base M s) (halign : base % 16 = 0) (hM : 0 < M) {actions : List Action}
    (ha : Follows Allowed s actions) : Inv base M (s.run actions) := by
  induction actions generalizing s with
  | nil => exact h
  | cons a as ih => exact ih (h.step halign hM ha.1) ha.2

@[simp] theorem enqueued_fetch (s : Sys) : (s.step .fetch).enqueued = s.enqueued := rfl

theorem unconsumed_fetch_le (s : Sys) : (s.step .fetch).unconsumed ≤ s.unconsumed := by
  have hlen : (s.step .fetch).taken.length =
      s.taken.length + (s.hc.fetch s.ring.trb s.mem).1.toList.length :=
    List.length_append
  rw [unconsumed, unconsumed, enqueued_fetch, hlen]
  omega

theorem Inv.unconsumed_consume (h : Inv base M s) {x : XhciTrb} {hc : Controller}
    (hx : s.log[s.start + s.taken.length]? = some x)
    (heq : s.step .fetch = { s with hc, taken := s.taken ++ [x] }) :
    (s.step .fetch).unconsumed + 1 ≤ s.unconsumed := by
  have hle := (h.taken_concat hx).length_le
  have htaken : (s.step .fetch).taken = s.taken ++ [x] := by rw [heq]
  rw [unconsumed, unconsumed, enqueued_fetch, htaken]
  rw [List.length_append, List.length_singleton] at hle ⊢
  omega

/-- Two fetches in a row consume an entry when there is one. -/
theorem Inv.fetch_twice (h : Inv base M s) (hM : 0 < M) (hpos : 0 < s.unconsumed) :
    ((s.step .fetch).step .fetch).unconsumed + 1 ≤ s.unconsumed := by
  rcases h.fetch_cases hM with ⟨-, hall⟩ | ⟨x, hc, hx, heq, -⟩ | ⟨hc, -, heq, hdeq, -⟩
  · rw [unconsumed, hall, Nat.sub_self] at hpos
    exact absurd hpos (Nat.lt_irrefl 0)
  · have hone := h.unconsumed_consume hx heq
    have htwo := unconsumed_fetch_le (s.step .fetch)
    omega
  · -- over the link: the next look is at a slot of the ring
    have h' := h.fetch hM
    have hsame : (s.step .fetch).unconsumed = s.unconsumed := by rw [heq]; rfl
    rcases h'.fetch_cases hM with ⟨-, hall⟩ | ⟨x, hc', hx, heq', -⟩ | ⟨hc', hlink, -⟩
    · rw [← hsame, unconsumed, hall, Nat.sub_self] at hpos
      exact absurd hpos (Nat.lt_irrefl 0)
    · rw [← hsame]
      exact h'.unconsumed_consume hx heq'
    · have hslot := Nat.mod_lt (s.start + s.taken.length) hM
      rw [heq] at hlink
      change hc.deq = _ at hlink
      omega

theorem Inv.taken_of_unconsumed (h : Inv base M s) (hz : s.unconsumed = 0) :
    s.taken = s.enqueued := by
  refine h.taken_all ?_
  have hstart := h.started
  rw [unconsumed, length_enqueued] at hz
  omega

/-- Left to itself the controller consumes everything. -/
theorem Inv.drain (h : Inv base M s) (hM : 0 < M) {n : Nat} (hn : s.unconsumed ≤ n) :
    (s.run (List.replicate (2 * n) .fetch)).taken = s.enqueued := by
  induction n generalizing s with
  | zero => exact h.taken_of_unconsumed (Nat.le_zero.mp hn)
  | succ n ih =>
      have h₂ := (h.fetch hM).fetch hM
      have hn₂ : ((s.step .fetch).step .fetch).unconsumed ≤ n := by
        by_cases hpos : 0 < s.unconsumed
        · have htwice := h.fetch_twice hM hpos
          omega
        · have hone := unconsumed_fetch_le s
          have htwo := unconsumed_fetch_le (s.step .fetch)
          omega
      exact ih h₂ hn₂

/-- The ring refines a queue: in every interleaving the controller has consumed a prefix of
what was enqueued since it was last positioned, and it consumes the rest once it is left to
itself. -/
theorem producerRing_refines {base numTrb : Nat} {type : RingType} {actions : List Action}
    (halign : base % 16 = 0) (hnum : 2 ≤ numTrb) (htype : type ≠ .eventRing)
    (hrun : Follows Allowed (init base numTrb type) actions) :
    let s := (init base numTrb type).run actions
    s.taken <+: s.enqueued ∧ (∀ t ∈ s.taken, t.type ≠ trbType trbLink) ∧
      ((s.step .wrap).run (List.replicate (2 * s.unconsumed) .fetch)).taken = s.enqueued := by
  obtain ⟨M, rfl⟩ : ∃ M, numTrb = M + 1 := ⟨numTrb - 1, by omega⟩
  have hM : 0 < M := by omega
  have h := (inv_init halign htype).run halign hM hrun
  refine ⟨h.taken, fun t ht => h.work t ?_, (h.wrap hM).drain hM (Nat.le_refl _)⟩
  exact List.mem_of_mem_drop (h.taken.subset ht)

/-- A No Op command. -/
def noop (n : Nat) : Request where
  paramater := n
  status := 0
  control := trbType 23
  noCycle := by decide
  notLink := by decide

/-- Two laps and a half in a ring of three, with the controller put anew on the way. -/
def laps : List Action :=
  [.enqueue (noop 1), .wrap, .fetch, .enqueue (noop 2), .fetch, .fetch, .wrap, .fetch,
    .enqueue (noop 3), .wrap, .enqueue (noop 4), .wrap, .fetch, .reposition, .enqueue (noop 5),
    .fetch, .wrap]

theorem producerRing_refines_laps :
    let s := (init 64 3 .commandRing).run laps
    s.taken <+: s.enqueued ∧ (∀ t ∈ s.taken, t.type ≠ trbType trbLink) ∧
      ((s.step .wrap).run (List.replicate (2 * s.unconsumed) .fetch)).taken = s.enqueued :=
  producerRing_refines (by decide) (by decide) (by decide) (by decide)

/-- A ring of three whose controller waits at the Link TRB while the next lap is written. -/
def overrun : List Action :=
  [.enqueue (noop 1), .wrap, .enqueue (noop 2), .wrap, .fetch, .fetch,
    .enqueue (noop 3), .wrap, .enqueue (noop 4), .wrap]

theorem run_fetch_fixed {s : Sys} (h : s.step .fetch = s) (n : Nat) :
    s.run (List.replicate n .fetch) = s := by
  induction n with
  | zero => rfl
  | succ n ih =>
      change (s.step .fetch).run (List.replicate n .fetch) = s
      rw [h]
      exact ih

/-- Room in the ring is not enough: the Link TRB can be turned back before it is followed. -/
theorem producerRing_stalls :
    ¬ ∀ (base numTrb : Nat) (type : RingType) (actions : List Action), base % 16 = 0 → 2 ≤ numTrb →
      type ≠ .eventRing → Follows HasRoom (init base numTrb type) actions →
      let s := (init base numTrb type).run actions
      ∃ n, (s.run (List.replicate n .fetch)).taken = s.enqueued := by
  intro h
  obtain ⟨n, hn⟩ := h 64 3 .commandRing overrun (by decide) (by decide) (by decide) (by decide)
  have hfixed : ((init 64 3 .commandRing).run overrun).step .fetch =
      (init 64 3 .commandRing).run overrun := by
    decide
  rw [run_fetch_fixed hfixed] at hn
  exact absurd hn (by decide)

end Sys

end LinkedsemiZephyr.Xhci
