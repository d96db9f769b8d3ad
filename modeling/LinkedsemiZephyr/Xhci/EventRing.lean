import LinkedsemiZephyr.Xhci.Ring

/-! The event ring: a controller that posts events and `xhci_isr` that takes them out,
interleaved step by step. The ISR reads the ring through a cache of clean copies, which
`xhci_cache_invalid` empties. -/
namespace LinkedsemiZephyr.Xhci
open LapRing

structure XhciErstEntry where
  segAddr : Nat
  segSize : Nat
  deriving DecidableEq, Repr

/-- What the event path uses of `struct xhci_hcd`, with the register `ir_set[0].erdp` and the
two flags of `xhci_port.c`. -/
structure XhciHcd where
  eventRing : XhciRing
  erst : XhciErstEntry
  erdp : Nat
  evtTrb : XhciTrb
  eventSync : Bool
  eventWait : Bool
  deriving DecidableEq, Repr

def erstEhb : Nat := 8
def erstPtrMask : Nat := 0xf

def xhciEventRingInit (eventTrb numTrb : Nat) : XhciHcd × List XhciTrb :=
  let (ring, mem) := xhciRingInit eventTrb numTrb .eventRing
  ({ eventRing := ring, erst := ⟨ring.trb, ring.numTrb⟩, erdp := ring.trb, evtTrb := ⟨0, 0, 0⟩,
     eventSync := false, eventWait := false }, mem)

def xhciEventComplete (hcd : XhciHcd) : XhciHcd :=
  if hcd.eventWait then { hcd with eventSync := true } else hcd

/-- The `switch` of `xhci_isr`; the handlers of command completions and port changes touch
port registers only. -/
def XhciHcd.handle (hcd : XhciHcd) (eventTrb : XhciTrb) : XhciHcd :=
  if eventTrb.type = trbType trbCompletion then xhciEventComplete { hcd with evtTrb := eventTrb }
  else if eventTrb.type = trbType trbPortStatus then hcd
  else if eventTrb.type = trbType trbTransfer then xhciEventComplete { hcd with evtTrb := eventTrb }
  else hcd

/-- `read_index` and `cycle_bit` at the end of the loop body. -/
def XhciRing.readNext (ring : XhciRing) : XhciRing :=
  let readIndex := (ring.readIndex + 1) % ring.numTrb
  { ring with readIndex, cycleBit := if readIndex = 0 then ring.cycleBit ^^^ 1 else ring.cycleBit }

/-- The locals of `xhci_isr`. -/
structure Locals where
  curRdIndex : Nat
  eventTrb : Nat
  erdp : Nat
  deriving DecidableEq, Repr

/-- `erdp` as `xhci_isr` writes it back. -/
def XhciHcd.nextErdp (hcd : XhciHcd) (l : Locals) : Nat :=
  let erdp := if l.curRdIndex ≠ hcd.eventRing.readIndex then
    (l.erdp &&& erstPtrMask) ||| l.eventTrb else l.erdp
  erdp ||| erstEhb

/-- Where `xhci_isr` is: not running, before the cycle test, in the `switch`, behind it, or
out of the loop. -/
inductive Isr where
  | idle
  | check (l : Locals)
  | handle (l : Locals)
  | advance (l : Locals)
  | leave (l : Locals)
  deriving DecidableEq, Repr

/-- The controller's side: enqueue index and producer cycle state. -/
structure Producer where
  enqueue : Nat
  pcs : UInt32
  deriving DecidableEq, Repr

/-- No event is posted into the slot before the one `erdp` points to. -/
def Producer.Full (hp : Producer) (hcd : XhciHcd) : Prop :=
  (hp.enqueue + 1) % hcd.erst.segSize = (hcd.erdp / 16 * 16 - hcd.erst.segAddr) / 16

instance (hp : Producer) (hcd : XhciHcd) : Decidable (hp.Full hcd) :=
  inferInstanceAs (Decidable (_ = _))

def Producer.next (hp : Producer) (segSize : Nat) : Producer :=
  let enqueue := (hp.enqueue + 1) % segSize
  ⟨enqueue, if enqueue = 0 then hp.pcs ^^^ 1 else hp.pcs⟩

/-- Driver and controller, with what was posted and handled so far, how much of it had been
posted when the ISR was last entered, and handled when it was last left. -/
structure EventSys where
  hcd : XhciHcd
  mem : List XhciTrb
  cache : List (Option XhciTrb)
  hp : Producer
  isr : Isr := .idle
  posted : List XhciTrb := []
  handled : List XhciTrb := []
  entered : Nat := 0
  acked : Nat := 0
  deriving DecidableEq, Repr

/-- `load` and `evict` are the cache's, `ehb` is the controller's hand on that bit of `erdp`,
`wait` and `wake` are the two ends of `xhci_event_wait`. -/
inductive EventAction where
  | post (event : Body)
  | isr
  | load (i : Nat)
  | evict (i : Nat)
  | ehb (busy : Bool)
  | wait
  | wake

namespace EventSys

def init (base numTrb : Nat) : EventSys :=
  let (hcd, mem) := xhciEventRingInit base numTrb
  { hcd, mem, cache := List.replicate numTrb none, hp := ⟨0, 1⟩ }

def cached (s : EventSys) (i : Nat) : Option XhciTrb := s.cache[i]?.join

/-- The TRB the CPU reads at an address. -/
def visible (s : EventSys) (p : Nat) : Option XhciTrb :=
  let i := (p - s.hcd.eventRing.trb) / 16
  (s.cached i).or s.mem[i]?

/-- One step of `xhci_isr`. -/
def xhciIsr (s : EventSys) : EventSys :=
  match s.isr with
  | .idle =>
    let ring := s.hcd.eventRing
    { s with isr := .check ⟨ring.readIndex, ring.trbAt ring.readIndex, s.hcd.erdp⟩,
             cache := List.replicate ring.numTrb none, entered := s.posted.length }
  | .check l =>
    match s.visible l.eventTrb with
    | none => s
    | some t => { s with isr := if t.cycle ≠ s.hcd.eventRing.cycleBit then .leave l else .handle l }
  | .handle l =>
    match s.visible l.eventTrb with
    | none => s
    | some t => { s with hcd := s.hcd.handle t, handled := s.handled ++ [t], isr := .advance l }
  | .advance l =>
    let ring := s.hcd.eventRing.readNext
    { s with hcd := { s.hcd with eventRing := ring },
             isr := .check { l with eventTrb := ring.trbAt ring.readIndex } }
  | .leave l =>
    { s with hcd := { s.hcd with erdp := s.hcd.nextErdp l }, isr := .idle,
                                 acked := s.handled.length }

def step (s : EventSys) : EventAction → EventSys
  | .post event =>
    if s.hp.Full s.hcd then s
    else
      let t := event.trb s.hp.pcs
      { s with mem := s.mem.set s.hp.enqueue t, hp := s.hp.next s.hcd.erst.segSize,
               posted := s.posted ++ [t] }
  | .isr => s.xhciIsr
  | .load i => { s with cache := s.cache.set i s.mem[i]? }
  | .evict i => { s with cache := s.cache.set i none }
  | .ehb busy =>
    { s with hcd := { s.hcd with
      erdp := s.hcd.erdp / 16 * 16 + (if busy then erstEhb else 0) + s.hcd.erdp % 8 } }
  | .wait => { s with hcd := { s.hcd with eventWait := true } }
  | .wake =>
      if s.hcd.eventSync then
        { s with hcd := { s.hcd with eventWait := false, eventSync := false } } else s

def run (s : EventSys) (actions : List EventAction) : EventSys := actions.foldl step s

def unhandled (s : EventSys) : Nat := s.posted.length - s.handled.length

/-- A ring that reads at position `c`. -/
structure ReadsAt (N c : Nat) (ring : XhciRing) : Prop where
  rindex : ring.readIndex = c % N
  cycle : ring.cycleBit = bit (lapMark (c / N))

theorem ReadsAt.next {N c : Nat} {ring : XhciRing} (h : ReadsAt N c ring) (hN : 0 < N)
    (hnum : ring.numTrb = N) :
    ReadsAt N (c + 1) ring.readNext := by
  have hrindex : ring.readNext.readIndex = (c + 1) % N := by
    change (ring.readIndex + 1) % ring.numTrb = _
    rw [h.rindex, hnum, Nat.mod_add_mod]
  have hcycle : ring.readNext.cycleBit = if (c + 1) % N = 0 then
      ring.cycleBit ^^^ 1 else ring.cycleBit := by
    rw [← hrindex]
    rfl
  refine ⟨hrindex, ?_⟩
  rw [hcycle, h.cycle]
  rcases advance hN c with ⟨-, hmod, hdiv⟩ | ⟨-, hmod, hdiv⟩
  · rw [hmod, if_neg (Nat.succ_ne_zero _), hdiv]
  · rw [if_pos hmod, hdiv, lapMark_succ, bit_xor_one]

/-- A producer that posts at position `p`. -/
structure PostsAt (N p : Nat) (hp : Producer) : Prop where
  enqueue : hp.enqueue = p % N
  pcs : hp.pcs = bit (lapMark (p / N))

theorem PostsAt.next {N p : Nat} {hp : Producer} (h : PostsAt N p hp) (hN : 0 < N) :
    PostsAt N (p + 1) (hp.next N) := by
  have henqueue : (hp.next N).enqueue = (p + 1) % N := by
    change (hp.enqueue + 1) % N = _
    rw [h.enqueue, Nat.mod_add_mod]
  have hpcs : (hp.next N).pcs = if (p + 1) % N = 0 then hp.pcs ^^^ 1 else hp.pcs := by
    rw [← henqueue]
    rfl
  refine ⟨henqueue, ?_⟩
  rw [hpcs, h.pcs]
  rcases advance hN p with ⟨-, hmod, hdiv⟩ | ⟨-, hmod, hdiv⟩
  · rw [hmod, if_neg (Nat.succ_ne_zero _), hdiv]
  · rw [if_pos hmod, hdiv, lapMark_succ, bit_xor_one]

/-- What the CPU may see in the slot of position `c`: the event, or, when it was not posted
before the ISR was entered, an older entry, which has another mark. -/
def Copy (N : Nat) (s : EventSys) (c : Nat) (x : XhciTrb) : Prop :=
  s.posted[c]? = some x ∨ s.entered ≤ c ∧ x.marked ≠ lapMark (c / N)

/-- The locals that the ISR keeps from its start. -/
structure Kept (base N : Nat) (s : EventSys) (l : Locals) : Prop where
  curRdIndex : l.curRdIndex = s.acked % N
  ptr : l.erdp / 16 * 16 = base + 16 * (s.acked % N)
  low : l.erdp % 8 = s.hcd.erdp % 8

/-- Where the ISR is, by how far it got. -/
inductive Progress (base N : Nat) (s : EventSys) : Prop
  | idle (isr : s.isr = .idle) (ring : ReadsAt N s.handled.length s.hcd.eventRing)
      (done : s.acked = s.handled.length)
  | check (l : Locals) (isr : s.isr = .check l) (kept : Kept base N s l)
      (ring : ReadsAt N s.handled.length s.hcd.eventRing)
      (eventTrb : l.eventTrb = base + 16 * (s.handled.length % N))
  | handle (l : Locals) (isr : s.isr = .handle l) (kept : Kept base N s l)
      (ring : ReadsAt N s.handled.length s.hcd.eventRing)
      (eventTrb : l.eventTrb = base + 16 * (s.handled.length % N))
      (posted : s.handled.length < s.posted.length)
      (copy : ∀ x, s.cached (s.handled.length % N) = some x → s.posted[s.handled.length]? = some x)
  | advance (l : Locals) (c : Nat) (isr : s.isr = .advance l) (kept : Kept base N s l)
      (ring : ReadsAt N c s.hcd.eventRing) (done : s.handled.length = c + 1)
  | leave (l : Locals) (isr : s.isr = .leave l) (kept : Kept base N s l)
      (ring : ReadsAt N s.handled.length s.hcd.eventRing)
      (eventTrb : l.eventTrb = base + 16 * (s.handled.length % N))
      (entered : s.entered ≤ s.handled.length)

/-- Events that `xhci_isr` passes on to a waiting thread. -/
def completes (t : XhciTrb) : Bool :=
  t.type == trbType trbCompletion || t.type == trbType trbTransfer

/-- What every reachable state keeps. -/
structure Inv (base N : Nat) (s : EventSys) : Prop where
  trb : s.hcd.eventRing.trb = base
  numTrb : s.hcd.eventRing.numTrb = N
  erst : s.hcd.erst = ⟨base, N⟩
  producer : PostsAt N s.posted.length s.hp
  holds : Holds XhciTrb.marked N s.mem s.posted
  handled : s.handled <+: s.posted
  acked : s.acked ≤ s.handled.length
  room : s.posted.length < s.acked + N
  ptr : s.hcd.erdp / 16 * 16 = base + 16 * (s.acked % N)
  entered : s.entered ≤ s.posted.length
  evtTrb : s.hcd.evtTrb = (s.handled.filter completes).getLastD ⟨0, 0, 0⟩
  copies : s.isr ≠ .idle → ∀ c x, s.acked ≤ c → c < s.acked + N →
    s.cached (c % N) = some x → Copy N s c x
  progress : Progress base N s

variable {base N : Nat} {s : EventSys}

theorem cached_replicate (n i : Nat) :
    ((List.replicate n (none : Option XhciTrb))[i]?).join = none := by
  rw [List.getElem?_replicate]
  by_cases h : i < n
  · rw [if_pos h]
    rfl
  · rw [if_neg h]
    rfl

theorem inv_init (halign : base % 16 = 0) (hN : 0 < N) : Inv base N (init base N) := by
  have hmem : (init base N).mem = List.replicate N ⟨0, 0, 0⟩ := rfl
  have hlen : (init base N).mem.length = N := List.length_replicate
  have hreads : ReadsAt N 0 (init base N).hcd.eventRing := by
    refine ⟨(Nat.zero_mod N).symm, ?_⟩
    rw [Nat.zero_div]
    rfl
  constructor
  · rfl
  · rfl
  · rfl
  · refine ⟨(Nat.zero_mod N).symm, ?_⟩
    change (1 : UInt32) = bit (lapMark (0 / N))
    rw [Nat.zero_div]
    rfl
  · apply Holds.nil (Nat.le_of_eq hlen.symm)
    intro i x hi hx
    rw [hmem] at hx
    obtain ⟨-, rfl⟩ := List.getElem?_eq_some_iff.mp hx
    rw [List.getElem_replicate]
    decide
  · exact List.nil_prefix
  · exact Nat.le_refl 0
  · change 0 < 0 + N
    omega
  · change base / 16 * 16 = base + 16 * (0 % N)
    rw [Nat.zero_mod]
    omega
  · exact Nat.le_refl 0
  · rfl
  · intro h
    exact absurd rfl h
  · exact .idle rfl hreads rfl

theorem Inv.handled_le (h : Inv base N s) : s.handled.length ≤ s.posted.length :=
  h.handled.length_le

/-- Memory holds what `Copy` says, for every position the controller may write to. -/
theorem Inv.mem_copy (h : Inv base N s) (hN : 0 < N) {c : Nat} (hle : s.acked ≤ c)
    (hlt : c < s.acked + N) {x : XhciTrb} (hx : s.mem[c % N]? = some x) : Copy N s c x := by
  have hroom := h.room
  have hacked := h.acked
  have hhandled := h.handled_le
  have hentered := h.entered
  by_cases hp : c < s.posted.length
  · exact .inl (h.holds.read hp (by omega) hx)
  · refine .inr ⟨by omega, fun hm => hp ?_⟩
    exact (h.holds.mark_iff hN (by omega) (by omega) hx).mp hm

/-- The ISR sees something at the address of position `c`, and it is a copy. -/
theorem Inv.visible_copy (h : Inv base N s) (hN : 0 < N) (hrun : s.isr ≠ .idle) {c p : Nat}
    (hle : s.acked ≤ c) (hlt : c < s.acked + N) (hp : p = base + 16 * (c % N)) :
    ∃ x, s.visible p = some x ∧ Copy N s c x ∧
      (s.cached (c % N) = some x ∨ s.cached (c % N) = none ∧ s.mem[c % N]? = some x) := by
  have hslot : (p - s.hcd.eventRing.trb) / 16 = c % N := by
    rw [hp, h.trb]
    omega
  have hmem : c % N < s.mem.length := Nat.lt_of_lt_of_le (Nat.mod_lt c hN) h.holds.room
  rw [visible, hslot]
  cases hc : s.cached (c % N) with
  | some x => exact ⟨x, rfl, h.copies hrun c x hle hlt hc, .inl rfl⟩
  | none =>
      have hx : s.mem[c % N]? = some s.mem[c % N] := List.getElem?_eq_getElem hmem
      exact ⟨s.mem[c % N], hx, h.mem_copy hN hle hlt hx, .inr ⟨rfl, hx⟩⟩

/-! Steps beside the ISR. -/

theorem Copy.mono {s' : EventSys} {c : Nat} {x : XhciTrb} (h : Copy N s c x)
    (hposted : s.posted <+: s'.posted) (hentered : s'.entered = s.entered) : Copy N s' c x := by
  rcases h with hx | ⟨hle, hmark⟩
  · obtain ⟨rest, hrest⟩ := hposted
    have hc := (List.getElem?_eq_some_iff.mp hx).1
    exact .inl (by rw [← hrest, List.getElem?_append_left hc, hx])
  · exact .inr ⟨by omega, hmark⟩

/-- A step that is not the ISR's own: nothing the ISR works with goes away, and what comes
into the cache comes from memory. -/
structure Beside (s s' : EventSys) : Prop where
  isr : s'.isr = s.isr
  ring : s'.hcd.eventRing = s.hcd.eventRing
  erst : s'.hcd.erst = s.hcd.erst
  evtTrb : s'.hcd.evtTrb = s.hcd.evtTrb
  handled : s'.handled = s.handled
  entered : s'.entered = s.entered
  acked : s'.acked = s.acked
  ptr : s'.hcd.erdp / 16 * 16 = s.hcd.erdp / 16 * 16
  low : s'.hcd.erdp % 8 = s.hcd.erdp % 8
  posted : s.posted <+: s'.posted
  cached : ∀ i x, s'.cached i = some x → s.cached i = some x ∨ s.mem[i]? = some x

theorem Kept.beside {s' : EventSys} {l : Locals} (h : Kept base N s l) (hb : Beside s s') :
    Kept base N s' l where
  curRdIndex := by rw [hb.acked]; exact h.curRdIndex
  ptr := by rw [hb.acked]; exact h.ptr
  low := by rw [hb.low]; exact h.low

theorem Inv.progress_beside (h : Inv base N s) {s' : EventSys} (hb : Beside s s') :
    Progress base N s' := by
  cases h.progress with
  | idle isr ring done =>
      refine .idle (hb.isr.trans isr) ?_ ?_
      · rw [hb.handled, hb.ring]
        exact ring
      · rw [hb.handled, hb.acked]
        exact done
  | check l isr kept ring eventTrb =>
      refine .check l (hb.isr.trans isr) (kept.beside hb) ?_ ?_
      · rw [hb.handled, hb.ring]
        exact ring
      · rw [hb.handled]
        exact eventTrb
  | handle l isr kept ring eventTrb posted copy =>
      refine .handle l (hb.isr.trans isr) (kept.beside hb) ?_ ?_ ?_ ?_
      · rw [hb.handled, hb.ring]
        exact ring
      · rw [hb.handled]
        exact eventTrb
      · rw [hb.handled]
        exact Nat.lt_of_lt_of_le posted hb.posted.length_le
      · intro x hx
        rw [hb.handled] at hx ⊢
        have hold : s.posted[s.handled.length]? = some x := by
          rcases hb.cached _ x hx with hx | hx
          · exact copy x hx
          · have hroom := h.room
            have hacked := h.acked
            exact h.holds.read posted (by omega) hx
        obtain ⟨rest, hrest⟩ := hb.posted
        rw [← hrest, List.getElem?_append_left posted, hold]
  | advance l c isr kept ring done =>
      refine .advance l c (hb.isr.trans isr) (kept.beside hb) ?_ ?_
      · rw [hb.ring]
        exact ring
      · rw [hb.handled]
        exact done
  | leave l isr kept ring eventTrb entered =>
      refine .leave l (hb.isr.trans isr) (kept.beside hb) ?_ ?_ ?_
      · rw [hb.handled, hb.ring]
        exact ring
      · rw [hb.handled]
        exact eventTrb
      · rw [hb.handled, hb.entered]
        exact entered

theorem Inv.beside (h : Inv base N s) (hN : 0 < N) {s' : EventSys} (hb : Beside s s')
    (hproducer : PostsAt N s'.posted.length s'.hp)
    (hholds : Holds XhciTrb.marked N s'.mem s'.posted) (hroom : s'.posted.length < s.acked + N) :
    Inv base N s' where
  trb := by rw [hb.ring]; exact h.trb
  numTrb := by rw [hb.ring]; exact h.numTrb
  erst := by rw [hb.erst]; exact h.erst
  producer := hproducer
  holds := hholds
  handled := by rw [hb.handled]; exact h.handled.trans hb.posted
  acked := by rw [hb.acked, hb.handled]; exact h.acked
  room := by rw [hb.acked]; exact hroom
  ptr := by rw [hb.ptr, hb.acked]; exact h.ptr
  entered := by rw [hb.entered]; exact Nat.le_trans h.entered hb.posted.length_le
  evtTrb := by rw [hb.evtTrb, hb.handled]; exact h.evtTrb
  copies := by
    intro hrun c x hle hlt hx
    rw [hb.isr] at hrun
    rw [hb.acked] at hle hlt
    have hcopy : Copy N s c x := by
      rcases hb.cached _ x hx with hx | hx
      · exact h.copies hrun c x hle hlt hx
      · exact h.mem_copy hN hle hlt hx
    exact hcopy.mono hb.posted hb.entered
  progress := h.progress_beside hb

theorem Inv.post (h : Inv base N s) (hN : 0 < N) (event : Body) :
    Inv base N (s.step (.post event)) := by
  by_cases hfull : s.hp.Full s.hcd
  · simp only [step, if_pos hfull]
    exact h
  · have hpost : s.step (.post event) = { s with
        mem := s.mem.set s.hp.enqueue (event.trb s.hp.pcs)
        hp := s.hp.next N
        posted := s.posted ++ [event.trb s.hp.pcs] } := by
      simp only [step, if_neg hfull, h.erst]
    have hlen : (s.posted ++ [event.trb s.hp.pcs]).length = s.posted.length + 1 :=
      List.length_append
    have hmarked : (event.trb s.hp.pcs).marked = lapMark (s.posted.length / N) := by
      rw [h.producer.pcs, event.marked_trb]
    have hnot : s.posted.length + 1 ≠ s.acked + N := by
      intro heq
      refine hfull ?_
      rw [Producer.Full, h.erst, h.ptr, h.producer.enqueue]
      change (s.posted.length % N + 1) % N = (base + 16 * (s.acked % N) - base) / 16
      rw [Nat.mod_add_mod, heq, Nat.add_mod_right]
      omega
    have hroom := h.room
    rw [hpost]
    refine h.beside hN ⟨rfl, rfl, rfl, rfl, rfl, rfl, rfl, rfl, rfl, List.prefix_append _ _, ?_⟩ ?_
      ?_ ?_
    · intro i x hx
      exact .inl hx
    · rw [hlen]
      exact h.producer.next hN
    · change Holds _ N (s.mem.set s.hp.enqueue _) _
      rw [h.producer.enqueue]
      exact h.holds.write hN hmarked
    · rw [hlen]
      omega

/-- What a set of one cache slot shows. -/
theorem cached_set {i j : Nat} {v : Option XhciTrb} {x : XhciTrb}
    (h : (s.cache.set j v)[i]?.join = some x) :
    s.cached i = some x ∨ i = j ∧ v = some x := by
  by_cases hij : j = i
  · subst hij
    by_cases hlt : j < s.cache.length
    · rw [List.getElem?_set_self hlt] at h
      exact .inr ⟨rfl, h⟩
    · rw [List.set_eq_of_length_le (by omega)] at h
      exact .inl h
  · rw [List.getElem?_set_ne hij] at h
    exact .inl h

theorem Inv.quiet (h : Inv base N s) (hN : 0 < N) {s' : EventSys} (hb : Beside s s')
    (hposted : s'.posted = s.posted) (hhp : s'.hp = s.hp) (hmem : s'.mem = s.mem) :
    Inv base N s' := by
  refine h.beside hN hb ?_ ?_ ?_
  · rw [hposted, hhp]
    exact h.producer
  · rw [hmem, hposted]
    exact h.holds
  · rw [hposted]
    exact h.room

theorem Inv.load (h : Inv base N s) (hN : 0 < N) (i : Nat) : Inv base N (s.step (.load i)) := by
  refine h.quiet hN ⟨rfl, rfl, rfl, rfl, rfl, rfl, rfl, rfl, rfl, List.prefix_refl _, ?_⟩ rfl rfl
    rfl
  intro j x hx
  rcases cached_set hx with hx | ⟨rfl, hx⟩
  · exact .inl hx
  · exact .inr hx

theorem Inv.evict (h : Inv base N s) (hN : 0 < N) (i : Nat) : Inv base N (s.step (.evict i)) := by
  refine h.quiet hN ⟨rfl, rfl, rfl, rfl, rfl, rfl, rfl, rfl, rfl, List.prefix_refl _, ?_⟩ rfl rfl
    rfl
  intro j x hx
  rcases cached_set hx with hx | ⟨-, hx⟩
  · exact .inl hx
  · cases hx

theorem Inv.ehb (h : Inv base N s) (hN : 0 < N) (busy : Bool) :
    Inv base N (s.step (.ehb busy)) := by
  have hbit : (if busy then erstEhb else 0) = 0 ∨ (if busy then erstEhb else 0) = 8 := by
    cases busy
    · exact .inl rfl
    · exact .inr rfl
  refine h.quiet hN ⟨rfl, rfl, rfl, rfl, rfl, rfl, rfl, ?_, ?_, List.prefix_refl _, ?_⟩ rfl rfl rfl
  · change (s.hcd.erdp / 16 * 16 + (if busy then erstEhb else 0) + s.hcd.erdp % 8) / 16 * 16 = _
    omega
  · change (s.hcd.erdp / 16 * 16 + (if busy then erstEhb else 0) + s.hcd.erdp % 8) % 8 = _
    omega
  · intro i x hx
    exact .inl hx

theorem Inv.wait (h : Inv base N s) (hN : 0 < N) : Inv base N (s.step .wait) :=
  h.quiet hN ⟨rfl, rfl, rfl, rfl, rfl, rfl, rfl, rfl, rfl, List.prefix_refl _,
    fun _ _ hx => .inl hx⟩ rfl rfl rfl

theorem Inv.wake (h : Inv base N s) (hN : 0 < N) : Inv base N (s.step .wake) := by
  by_cases hsync : s.hcd.eventSync = true
  · simp only [step, if_pos hsync]
    exact h.quiet hN
      ⟨rfl, rfl, rfl, rfl, rfl, rfl, rfl, rfl, rfl, List.prefix_refl _, fun _ _ hx => .inl hx⟩
      rfl rfl rfl
  · simp only [step, if_neg hsync]
    exact h

/-! Steps of the ISR. -/

@[simp] theorem xhciEventComplete_evtTrb (hcd : XhciHcd) :
    (xhciEventComplete hcd).evtTrb = hcd.evtTrb := by
  unfold xhciEventComplete
  split <;> rfl

@[simp] theorem xhciEventComplete_eventRing (hcd : XhciHcd) :
    (xhciEventComplete hcd).eventRing = hcd.eventRing := by
  unfold xhciEventComplete
  split <;> rfl

@[simp] theorem xhciEventComplete_erst (hcd : XhciHcd) :
    (xhciEventComplete hcd).erst = hcd.erst := by
  unfold xhciEventComplete
  split <;> rfl

@[simp] theorem xhciEventComplete_erdp (hcd : XhciHcd) :
    (xhciEventComplete hcd).erdp = hcd.erdp := by
  unfold xhciEventComplete
  split <;> rfl

/-- The `switch` leaves ring and registers alone, and keeps the events a thread may wait for. -/
theorem handle_spec (hcd : XhciHcd) (t : XhciTrb) :
    (hcd.handle t).eventRing = hcd.eventRing ∧ (hcd.handle t).erst = hcd.erst ∧
      (hcd.handle t).erdp = hcd.erdp ∧ (hcd.handle t).evtTrb = if completes t then
        t else hcd.evtTrb := by
  unfold XhciHcd.handle completes
  by_cases hc : t.type = trbType trbCompletion
  · simp [hc]
  · by_cases hp : t.type = trbType trbPortStatus
    · have hne : trbType trbPortStatus ≠ trbType trbTransfer := by decide
      have hne' : trbType trbPortStatus ≠ trbType trbCompletion := by decide
      simp [hp, hne, hne']
    · by_cases ht : t.type = trbType trbTransfer
      · have hne : trbType trbTransfer ≠ trbType trbCompletion := by decide
        have hne' : trbType trbTransfer ≠ trbType trbPortStatus := by decide
        simp [ht, hne, hne']
      · simp [hc, hp, ht]

theorem handle_completes {t : XhciTrb} (h : completes t = true) (hcd : XhciHcd) :
    hcd.handle t = xhciEventComplete { hcd with evtTrb := t } := by
  unfold XhciHcd.handle
  by_cases hc : t.type = trbType trbCompletion
  · rw [if_pos hc]
  · have ht : t.type = trbType trbTransfer := by simpa [completes, hc] using h
    have hp : t.type ≠ trbType trbPortStatus := by
      rw [ht]
      decide
    rw [if_neg hc, if_neg hp, if_pos ht]

theorem handle_notice {t : XhciTrb} (h : completes t = false) (hcd : XhciHcd) :
    hcd.handle t = hcd := by
  have hne : t.type ≠ trbType trbCompletion ∧ t.type ≠ trbType trbTransfer := by
    simpa [completes] using h
  unfold XhciHcd.handle
  rw [if_neg hne.1, if_neg hne.2, ite_self]

theorem xhciEventComplete_flags (hcd : XhciHcd) :
    (xhciEventComplete hcd).eventWait = hcd.eventWait ∧
      (xhciEventComplete hcd).eventSync = (hcd.eventWait || hcd.eventSync) := by
  unfold xhciEventComplete
  cases hwait : hcd.eventWait with
  | false =>
      rw [if_neg Bool.false_ne_true, Bool.false_or]
      exact ⟨hwait, rfl⟩
  | true =>
      rw [if_pos rfl, Bool.true_or]
      exact ⟨rfl, rfl⟩

theorem or_ehb {a b : Nat} (ha : a % 16 = 0) (hb : b < 16) :
    (a + b) ||| erstEhb = a + erstEhb + b % 8 := by
  have hlow : ∀ b < 16, b ||| erstEhb = erstEhb + b % 8 ∧ b ||| erstEhb < 16 := by decide
  obtain ⟨heq, hlt⟩ := hlow b hb
  rw [← or_low ha hb, Nat.or_assoc, or_low ha hlt, heq, Nat.add_assoc]

/-- The pointer that goes back to the controller, its low bits as they were, `EHB` set. -/
theorem nextErdp_eq {hcd : XhciHcd} {l : Locals} {p : Nat} (halign : l.eventTrb % 16 = 0)
    (hp : (if l.curRdIndex ≠ hcd.eventRing.readIndex then l.eventTrb else l.erdp / 16 * 16) = p) :
    hcd.nextErdp l = p + erstEhb + l.erdp % 8 := by
  have hlt := Nat.mod_lt l.erdp (show 0 < 16 by decide)
  have height : l.erdp % 16 % 8 = l.erdp % 8 := Nat.mod_mod_of_dvd _ (by decide)
  rw [XhciHcd.nextErdp]
  by_cases hmoved : l.curRdIndex ≠ hcd.eventRing.readIndex
  · have hmask : l.erdp &&& erstPtrMask = l.erdp % 16 := Nat.and_two_pow_sub_one_eq_mod l.erdp 4
    rw [if_pos hmoved] at hp ⊢
    rw [hmask, Nat.or_comm (l.erdp % 16), or_low halign hlt, or_ehb halign hlt, height, hp]
  · have hsplit : l.erdp = l.erdp / 16 * 16 + l.erdp % 16 := by omega
    rw [if_neg hmoved] at hp ⊢
    rw [hsplit, or_ehb (by omega) hlt, ← hsplit, height, hp]

theorem Inv.isr_idle (h : Inv base N s) (hisr : s.isr = .idle) : ∃ l, s.xhciIsr = { s with
    isr := .check l, cache := List.replicate N none, entered := s.posted.length } ∧
      Inv base N s.xhciIsr := by
  cases h.progress with
  | idle isr ring done =>
      have hstep : s.xhciIsr = { s with
          isr := .check
            ⟨s.hcd.eventRing.readIndex, s.hcd.eventRing.trbAt s.hcd.eventRing.readIndex, s.hcd.erdp⟩
          cache := List.replicate N none
          entered := s.posted.length } := by
        simp only [xhciIsr, hisr, h.numTrb]
      refine ⟨_, hstep, ?_⟩
      rw [hstep]
      exact { h with
        entered := Nat.le_refl _
        copies := by
          intro _ c x _ _ hx
          change ((List.replicate N none)[c % N]?).join = some x at hx
          rw [cached_replicate] at hx
          cases hx
        progress := by
          refine .check _ rfl ⟨?_, h.ptr, rfl⟩ ring ?_
          · change s.hcd.eventRing.readIndex = s.acked % N
            rw [ring.rindex, done]
          · change s.hcd.eventRing.trbAt s.hcd.eventRing.readIndex = _
            rw [XhciRing.trbAt, h.trb, ring.rindex] }
  | check l isr | handle l isr | advance l _ isr | leave l isr => rw [hisr] at isr; cases isr

/-- The cycle test tells a posted event from anything else in its slot. -/
theorem Inv.isr_check (h : Inv base N s) (hN : 0 < N) {l : Locals} (hisr : s.isr = .check l) :
    (s.xhciIsr = { s with isr := .leave l } ∧ s.entered ≤ s.handled.length ∨
      s.xhciIsr = { s with isr := .handle l } ∧ s.handled.length < s.posted.length) ∧
      Inv base N s.xhciIsr := by
  have hrun : s.isr ≠ .idle := by rw [hisr]; exact Isr.noConfusion
  have hroom := h.room
  have hhandled := h.handled_le
  cases h.progress with
  | idle isr | handle _ isr | advance _ _ isr | leave _ isr => rw [hisr] at isr; cases isr
  | check l' isr kept ring eventTrb =>
      rw [hisr] at isr
      cases isr
      obtain ⟨x, hx, hcopy, hfrom⟩ := h.visible_copy hN hrun h.acked (by omega) eventTrb
      by_cases hcycle : x.cycle = s.hcd.eventRing.cycleBit
      · have hmark : x.marked = lapMark (s.handled.length / N) := by
          rw [x.cycle_eq, ring.cycle] at hcycle
          exact bit_injective hcycle
        have hget : s.posted[s.handled.length]? = some x := by
          rcases hcopy with hget | ⟨-, hne⟩
          · exact hget
          · exact absurd hmark hne
        have hlt := (List.getElem?_eq_some_iff.mp hget).1
        have hstep : s.xhciIsr = { s with isr := .handle l } := by
          simp only [xhciIsr, hisr, hx, hcycle, ne_eq, not_true_eq_false, if_false]
        refine ⟨.inr ⟨hstep, hlt⟩, ?_⟩
        rw [hstep]
        refine { h with copies := fun _ => h.copies hrun, progress := ?_ }
        refine .handle l rfl ⟨kept.curRdIndex, kept.ptr, kept.low⟩ ring eventTrb hlt ?_
        intro y hy
        change s.cached _ = _ at hy
        rcases hfrom with hc | ⟨hc, -⟩
        · rw [hc] at hy
          cases hy
          exact hget
        · rw [hc] at hy
          cases hy
      · have hle : s.entered ≤ s.handled.length := by
          rcases hcopy with hget | ⟨hle, -⟩
          · refine absurd ?_ hcycle
            rw [x.cycle_eq, ring.cycle, h.holds.marked _ _ hget]
          · exact hle
        have hstep : s.xhciIsr = { s with isr := .leave l } := by
          simp only [xhciIsr, hisr, hx, ne_eq, hcycle, not_false_eq_true, if_true]
        refine ⟨.inl ⟨hstep, hle⟩, ?_⟩
        rw [hstep]
        exact { h with
          copies := fun _ => h.copies hrun
          progress := .leave l rfl ⟨kept.curRdIndex, kept.ptr, kept.low⟩ ring eventTrb hle }

theorem Inv.isr_handle (h : Inv base N s) (hN : 0 < N) {l : Locals} (hisr : s.isr = .handle l) :
    ∃ x, s.posted[s.handled.length]? = some x ∧
      s.xhciIsr = { s with hcd := s.hcd.handle x, handled := s.handled ++ [x], isr := .advance l } ∧
      Inv base N s.xhciIsr := by
  have hrun : s.isr ≠ .idle := by rw [hisr]; exact Isr.noConfusion
  have hroom := h.room
  have hacked := h.acked
  cases h.progress with
  | idle isr | check _ isr | advance _ _ isr | leave _ isr => rw [hisr] at isr; cases isr
  | handle l' isr kept ring eventTrb posted copy =>
      rw [hisr] at isr
      cases isr
      obtain ⟨x, hx, -, hfrom⟩ := h.visible_copy hN hrun h.acked (by omega) eventTrb
      have hget : s.posted[s.handled.length]? = some x := by
        rcases hfrom with hc | ⟨-, hmem⟩
        · exact copy x hc
        · exact h.holds.read posted (by omega) hmem
      have hstep : s.xhciIsr =
          { s with hcd := s.hcd.handle x, handled := s.handled ++ [x], isr := .advance l } := by
        simp only [xhciIsr, hisr, hx]
      have hlen : (s.handled ++ [x]).length = s.handled.length + 1 := List.length_append
      obtain ⟨hring, herst, herdp, hevt⟩ := handle_spec s.hcd x
      refine ⟨x, hget, hstep, ?_⟩
      rw [hstep]
      exact { h with
        trb := by rw [hring]; exact h.trb
        numTrb := by rw [hring]; exact h.numTrb
        erst := by rw [herst]; exact h.erst
        handled := taken_concat h.handled hget
        acked := by rw [hlen]; exact Nat.le_succ_of_le hacked
        ptr := by rw [herdp]; exact h.ptr
        evtTrb := by
          rw [hevt, List.filter_append]
          by_cases hcompletes : completes x = true
          · simp [hcompletes]
          · simp [hcompletes, h.evtTrb]
        copies := fun _ => h.copies hrun
        progress := by
          refine .advance l s.handled.length rfl ⟨kept.curRdIndex, kept.ptr, ?_⟩ ?_ hlen
          · rw [herdp]
            exact kept.low
          · rw [hring]
            exact ring }

theorem Inv.isr_advance (h : Inv base N s) (hN : 0 < N) {l : Locals} (hisr : s.isr = .advance l) :
    ∃ l', s.xhciIsr = { s with
      hcd := { s.hcd with eventRing := s.hcd.eventRing.readNext }, isr := .check l' } ∧
        Inv base N s.xhciIsr := by
  have hrun : s.isr ≠ .idle := by rw [hisr]; exact Isr.noConfusion
  cases h.progress with
  | idle isr | check _ isr | handle _ isr | leave _ isr => rw [hisr] at isr; cases isr
  | advance l' c isr kept ring done =>
      rw [hisr] at isr
      cases isr
      have hnext := ring.next hN h.numTrb
      rw [← done] at hnext
      have hstep : s.xhciIsr = { s with
          hcd := { s.hcd with eventRing := s.hcd.eventRing.readNext }
          isr := .check { l with
            eventTrb := s.hcd.eventRing.readNext.trbAt s.hcd.eventRing.readNext.readIndex } } := by
        simp only [xhciIsr, hisr]
      refine ⟨_, hstep, ?_⟩
      rw [hstep]
      refine { h with copies := fun _ => h.copies hrun, progress := ?_ }
      refine .check _ rfl ⟨kept.curRdIndex, kept.ptr, kept.low⟩ hnext ?_
      change s.hcd.eventRing.readNext.trbAt s.hcd.eventRing.readNext.readIndex = _
      rw [XhciRing.trbAt, hnext.rindex]
      change s.hcd.eventRing.trb + _ = _
      rw [h.trb]

/-- On the way out `erdp` gets the address of the next entry to read. That start and end
index differ just when something was handled is because no full lap fits in one interrupt. -/
theorem Inv.isr_leave (h : Inv base N s) (halign : base % 16 = 0) {l : Locals}
    (hisr : s.isr = .leave l) :
    s.entered ≤ s.handled.length ∧ s.xhciIsr = { s with
      hcd := { s.hcd with erdp := base + 16 * (s.handled.length % N) + erstEhb + s.hcd.erdp % 8 }
      isr := .idle, acked := s.handled.length } ∧ Inv base N s.xhciIsr := by
  have hroom := h.room
  have hacked := h.acked
  have hhandled := h.handled_le
  cases h.progress with
  | idle isr | check _ isr | handle _ isr | advance _ _ isr => rw [hisr] at isr; cases isr
  | leave l' isr kept ring eventTrb entered =>
      rw [hisr] at isr
      cases isr
      have hptr :
          (if l.curRdIndex ≠ s.hcd.eventRing.readIndex then l.eventTrb else l.erdp / 16 * 16) =
          base + 16 * (s.handled.length % N) := by
        by_cases hmoved : l.curRdIndex ≠ s.hcd.eventRing.readIndex
        · rw [if_pos hmoved, eventTrb]
        · rw [if_neg hmoved, kept.ptr]
          rw [not_not, kept.curRdIndex, ring.rindex] at hmoved
          rw [eq_of_mod_eq hacked (by omega) hmoved.symm]
      have herdp := nextErdp_eq (by omega) hptr
      have hstep : s.xhciIsr = { s with
          hcd := { s.hcd with
            erdp := base + 16 * (s.handled.length % N) + erstEhb + s.hcd.erdp % 8 }
          isr := .idle, acked := s.handled.length } := by
        simp only [xhciIsr, hisr, herdp, kept.low]
      refine ⟨entered, hstep, ?_⟩
      rw [hstep]
      exact { h with
        acked := Nat.le_refl _
        room := by
          change s.posted.length < s.handled.length + N
          omega
        ptr := by
          have hlow := Nat.mod_lt s.hcd.erdp (show 0 < 8 by decide)
          change (base + 16 * (s.handled.length % N) + 8 + s.hcd.erdp % 8) / 16 * 16 =
            base + 16 * (s.handled.length % N)
          omega
        copies := fun hne => absurd rfl hne
        progress := .idle rfl ring rfl }

theorem Inv.isr (h : Inv base N s) (halign : base % 16 = 0) (hN : 0 < N) :
    Inv base N (s.step .isr) := by
  change Inv base N s.xhciIsr
  cases hisr : s.isr with
  | idle =>
      obtain ⟨l, -, h'⟩ := h.isr_idle hisr
      exact h'
  | check l => exact (h.isr_check hN hisr).2
  | handle l =>
      obtain ⟨x, -, -, h'⟩ := h.isr_handle hN hisr
      exact h'
  | advance l =>
      obtain ⟨l', -, h'⟩ := h.isr_advance hN hisr
      exact h'
  | leave l => exact (h.isr_leave halign hisr).2.2

/-- A step that no thread can see. -/
structure Unseen (s s' : EventSys) : Prop where
  posted : s'.posted = s.posted
  handled : s'.handled = s.handled
  evtTrb : s'.hcd.evtTrb = s.hcd.evtTrb
  eventWait : s'.hcd.eventWait = s.hcd.eventWait
  eventSync : s'.hcd.eventSync = s.hcd.eventSync

/-- A thread sees the ISR in the `switch` only. -/
theorem Inv.isr_seen (h : Inv base N s) (halign : base % 16 = 0) (hN : 0 < N) :
    (∃ l x, s.isr = .handle l ∧ s.posted[s.handled.length]? = some x ∧
      (s.step .isr).posted = s.posted ∧
        (s.step .isr).handled = s.handled ++ [x] ∧ (s.step .isr).hcd = s.hcd.handle x) ∨
      Unseen s (s.step .isr) := by
  change (∃ l x, _ ∧ _ ∧ s.xhciIsr.posted = _ ∧ s.xhciIsr.handled = _ ∧ s.xhciIsr.hcd = _) ∨
    Unseen s s.xhciIsr
  cases hisr : s.isr with
  | idle =>
      obtain ⟨l, hstep, -⟩ := h.isr_idle hisr
      rw [hstep]
      exact .inr ⟨rfl, rfl, rfl, rfl, rfl⟩
  | check l =>
      rcases (h.isr_check hN hisr).1 with ⟨hstep, -⟩ | ⟨hstep, -⟩
      all_goals
        rw [hstep]
        exact .inr ⟨rfl, rfl, rfl, rfl, rfl⟩
  | handle l =>
      obtain ⟨x, hx, hstep, -⟩ := h.isr_handle hN hisr
      refine .inl ⟨l, x, rfl, hx, ?_⟩
      rw [hstep]
      exact ⟨rfl, rfl, rfl⟩
  | advance l =>
      obtain ⟨l', hstep, -⟩ := h.isr_advance hN hisr
      rw [hstep]
      exact .inr ⟨rfl, rfl, rfl, rfl, rfl⟩
  | leave l =>
      obtain ⟨-, hstep, -⟩ := h.isr_leave halign hisr
      rw [hstep]
      exact .inr ⟨rfl, rfl, rfl, rfl, rfl⟩

theorem Inv.step (h : Inv base N s) (halign : base % 16 = 0) (hN : 0 < N) (a : EventAction) :
    Inv base N (s.step a) := by
  cases a with
  | post event => exact h.post hN event
  | isr => exact h.isr halign hN
  | load i => exact h.load hN i
  | evict i => exact h.evict hN i
  | ehb busy => exact h.ehb hN busy
  | wait => exact h.wait hN
  | wake => exact h.wake hN

theorem Inv.run (h : Inv base N s) (halign : base % 16 = 0) (hN : 0 < N)
    (actions : List EventAction) :
    Inv base N (s.run actions) := by
  induction actions generalizing s with
  | nil => exact h
  | cons a as ih => exact ih (h.step halign hN a)

/-! Left to itself, the ISR gets to the end of what was posted. -/

/-- A bound on the ISR's steps until then; it may go out once over an old copy. -/
def cost (s : EventSys) : Nat :=
  let again := if s.entered = s.posted.length then 0 else 3
  match s.isr with
  | .idle => 3 * s.unhandled + 1
  | .check _ => 3 * s.unhandled + again
  | .handle _ => 3 * s.unhandled + again - 1
  | .advance _ => 3 * s.unhandled + again + 1
  | .leave _ => 3 * s.unhandled + 2

theorem again_le (s : EventSys) : (if s.entered = s.posted.length then 0 else 3) ≤ 3 := by
  split <;> omega

theorem unhandled_le_cost (s : EventSys) :
    3 * s.unhandled ≤ s.cost + 1 ∧ s.cost ≤ 3 * s.unhandled + 4 := by
  have hagain := again_le s
  unfold cost
  cases s.isr <;> dsimp only <;> omega

/-- While something is unhandled every step of the ISR brings the end nearer. -/
theorem Inv.cost_isr (h : Inv base N s) (halign : base % 16 = 0) (hN : 0 < N)
    (hpos : 0 < s.unhandled) :
    (s.step .isr).cost < s.cost := by
  change s.xhciIsr.cost < s.cost
  have hagain := again_le s
  unfold unhandled at hpos
  cases hisr : s.isr with
  | idle =>
      obtain ⟨l, hstep, -⟩ := h.isr_idle hisr
      rw [hstep]
      simp only [cost, hisr, unhandled, if_true]
      omega
  | check l =>
      rcases (h.isr_check hN hisr).1 with ⟨hstep, hentered⟩ | ⟨hstep, -⟩
      · rw [hstep]
        have hstale : s.entered ≠ s.posted.length := by omega
        simp only [cost, hisr, unhandled, if_neg hstale]
        omega
      · rw [hstep]
        simp only [cost, hisr, unhandled]
        omega
  | handle l =>
      obtain ⟨x, -, hstep, -⟩ := h.isr_handle hN hisr
      rw [hstep]
      simp only [cost, hisr, unhandled, List.length_append, List.length_singleton]
      omega
  | advance l =>
      obtain ⟨l', hstep, -⟩ := h.isr_advance hN hisr
      rw [hstep]
      simp only [cost, hisr, unhandled]
      omega
  | leave l =>
      obtain ⟨-, hstep, -⟩ := h.isr_leave halign hisr
      rw [hstep]
      simp only [cost, hisr, unhandled]
      omega

theorem posted_isr (s : EventSys) : (s.step .isr).posted = s.posted := by
  change s.xhciIsr.posted = s.posted
  unfold xhciIsr
  cases s.isr with
  | idle | advance | leave => rfl
  | check l | handle l => dsimp only; split <;> rfl

theorem Inv.handled_eq (h : Inv base N s) (hz : s.unhandled = 0) : s.handled = s.posted := by
  refine h.handled.eq_of_length_le ?_
  unfold unhandled at hz
  omega

theorem handled_isr_le (s : EventSys) : s.handled.length ≤ (s.step .isr).handled.length := by
  change _ ≤ s.xhciIsr.handled.length
  unfold xhciIsr
  cases s.isr with
  | idle | advance | leave => exact Nat.le_refl _
  | check l => dsimp only; split <;> exact Nat.le_refl _
  | handle l =>
      dsimp only
      split
      · exact Nat.le_refl _
      · rw [List.length_append]
        exact Nat.le_add_right _ _

theorem Inv.drain (h : Inv base N s) (halign : base % 16 = 0) (hN : 0 < N) {n : Nat}
    (hn : s.unhandled = 0 ∨ s.cost ≤ n) : (s.run (List.replicate n .isr)).handled = s.posted := by
  induction n generalizing s with
  | zero =>
      have hcost := (unhandled_le_cost s).1
      refine h.handled_eq ?_
      omega
  | succ n ih =>
      have hnext : (s.step .isr).unhandled = 0 ∨ (s.step .isr).cost ≤ n := by
        by_cases hpos : 0 < s.unhandled
        · have hless := h.cost_isr halign hN hpos
          omega
        · have hle := handled_isr_le s
          refine .inl ?_
          unfold unhandled at hpos ⊢
          rw [posted_isr]
          omega
      rw [← posted_isr s]
      exact ih (h.isr halign hN) hnext

/-- In every interleaving the events are handled one by one as they were posted, and the
last one a thread may wait for is the one it finds. Whenever the ISR goes, it has handled
all that was posted before it came, and `erdp` points to the next entry to read with its low
bits kept and `EHB` set. Undisturbed, it handles everything. -/
theorem xhciIsr_handles {base numTrb : Nat} (halign : base % 16 = 0) (hnum : 0 < numTrb)
    (actions : List EventAction) :
    let s := (init base numTrb).run actions
    s.handled <+: s.posted ∧
      s.hcd.evtTrb = (s.handled.filter completes).getLastD ⟨0, 0, 0⟩ ∧
      (s.isr = .idle → s.hcd.erdp / 16 * 16 = base + 16 * (s.handled.length % numTrb)) ∧
      (∀ l, s.isr = .leave l → s.entered ≤ s.handled.length ∧ (s.step .isr).isr = .idle ∧
        (s.step .isr).hcd.erdp = base + 16 * (s.handled.length % numTrb) + erstEhb +
          s.hcd.erdp % 8) ∧
      (s.run (List.replicate (3 * s.unhandled + 4) .isr)).handled = s.posted := by
  intro s
  have h : Inv base numTrb s := (inv_init halign hnum).run halign hnum actions
  refine ⟨h.handled, h.evtTrb, ?_, ?_, h.drain halign hnum (.inr (unhandled_le_cost s).2)⟩
  · intro hisr
    cases h.progress with
    | idle _ _ done => rw [h.ptr, done]
    | check _ isr | handle _ isr | advance _ _ isr | leave _ isr => rw [hisr] at isr; cases isr
  · intro l hisr
    obtain ⟨hentered, hstep, -⟩ := h.isr_leave halign hisr
    refine ⟨hentered, ?_, ?_⟩
    · change s.xhciIsr.isr = .idle
      rw [hstep]
    · change s.xhciIsr.hcd.erdp = _
      rw [hstep]

theorem trbTransfer_noCycle : trbType trbTransfer &&& trbCycle = 0 := by decide

/-- A Transfer Event. -/
def transferEvent (n : Nat) : Body where
  paramater := n
  status := 0
  control := trbType trbTransfer
  noCycle := trbTransfer_noCycle

/-- Two interrupts in a ring of three: an event posted while the first one runs is seen old
through the cache and left to the second, and a post into the full ring waits. -/
def twoInterrupts : List EventAction :=
  [.wait, .post (transferEvent 1), .ehb true, .isr, .load 1, .post (transferEvent 2),
    .post (transferEvent 3), .isr, .isr, .isr, .isr, .isr, .wake, .post (transferEvent 3),
    .ehb true, .isr, .isr, .isr, .isr, .isr]

theorem xhciIsr_handles_twoInterrupts :
    let s := (init 64 3).run twoInterrupts
    s.handled <+: s.posted ∧
      s.hcd.evtTrb = (s.handled.filter completes).getLastD ⟨0, 0, 0⟩ ∧
      (s.isr = .idle → s.hcd.erdp / 16 * 16 = 64 + 16 * (s.handled.length % 3)) ∧
      (∀ l, s.isr = .leave l → s.entered ≤ s.handled.length ∧ (s.step .isr).isr = .idle ∧
        (s.step .isr).hcd.erdp = 64 + 16 * (s.handled.length % 3) + erstEhb + s.hcd.erdp % 8) ∧
      (s.run (List.replicate (3 * s.unhandled + 4) .isr)).handled = s.posted :=
  xhciIsr_handles (by decide) (by decide) twoInterrupts

end EventSys

end LinkedsemiZephyr.Xhci
