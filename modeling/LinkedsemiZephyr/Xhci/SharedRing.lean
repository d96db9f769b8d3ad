import LinkedsemiZephyr.Xhci.Submission

/-! One ring between several threads. A submission has two phases: the TRB is built with the
cycle bit the ring has then, and stored later, in the section between `xhci_enqueue_lock` and
`xhci_enqueue_unlock`, with a mutex for the two. -/
namespace LinkedsemiZephyr.Xhci
open LapRing

/-- What is submitted this way on the ring of a key. `xhci_xfer_control` builds its TRBs
inside the section. -/
inductive Client : RingKey → Type where
  | command (c : Command) : Client .command
  | bulk (slot : UInt32) (ep : UInt8) (data : Nat) (length : UInt32) :
      Client (.endpoint slot (otherEpIndex ep))

variable {key : RingKey}

namespace Client

def call : Client key → Call
  | .command c => .command c
  | .bulk slot ep data length => .bulk slot ep data length

def build (rings : Rings) : Client key → Build
  | .command c => c.build rings
  | .bulk _ ep data length => ⟨trbNormal, none, normalTrb ep data length⟩

theorem key_call (c : Client key) : c.call.key = key := by
  cases c <;> rfl

theorem builds_call (rings : Rings) (c : Client key) : c.call.builds rings = [c.build rings] := by
  cases c <;> rfl

def ResetsDevice : Client key → Prop
  | .command (.resetDevice _) => True
  | _ => False

instance (c : Client key) : Decidable c.ResetsDevice := by
  unfold ResetsDevice
  split <;> infer_instance

theorem build_formed {c : Client key} (rings : Rings) (hreset : ¬ c.ResetsDevice) :
    (c.build rings).Formed := by
  cases c with
  | command c =>
      apply c.build_formed rings
      intro slot heq
      subst heq
      exact hreset trivial
  | bulk slot ep data length => exact normalTrb_formed ep data length

end Client

/-- A TRB built and not yet stored; `stored` TRBs had been stored by then. -/
structure Built (key : RingKey) where
  client : Client key
  build : Build
  trb : XhciTrb
  stored : Nat

/-- The lap whose mark the TRB has: the one it was built in, where the function puts the
cycle bit into the control word. -/
def Built.mark (p : Built key) : Bool :=
  if p.client.ResetsDevice then false else lapMark (p.stored / 31)

inductive Phase (key : RingKey) where
  | idle
  | built (p : Built key)
  | inSection

/-- Threads, ring and controller; `stored` has each TRB with the cycle bit of the ring when
it was stored. -/
structure SharedRing (ι : Type) (key : RingKey) where
  sys : Sys
  threads : ι → Phase key
  owner : Option ι
  stored : List Entry

namespace SharedRing
open Sys

/-- `rings` is what a builder finds of the other rings. -/
inductive Action (ι : Type) (key : RingKey) where
  | build (i : ι) (client : Client key) (rings : Rings)
  | enter (i : ι)
  | fetch
  | leave (i : ι)

variable {ι : Type}

def init (ι : Type) (key : RingKey) (trb : Nat) : SharedRing ι key :=
  ⟨Bus.initRing key trb, fun _ => .idle, none, []⟩

/-- `enter` takes the lock, stores the TRB and rings the doorbell; `leave` is past
`xhci_event_wait`, the TRB consumed. -/
def step [DecidableEq ι] (s : SharedRing ι key) : Action ι key → SharedRing ι key
  | .build i client rings =>
    match s.threads i with
    | .idle =>
      let build := client.build rings
      let p : Built key := ⟨client, build, build.build s.sys.ring.cycleBit, s.stored.length⟩
      { s with threads := Function.update s.threads i (.built p) }
    | _ => s
  | .enter i =>
    match s.owner, s.threads i with
    | none, .built p =>
      { sys := s.sys.enqueueTrb p.trb
        threads := Function.update s.threads i .inSection
        owner := some i
        stored := s.stored ++ [⟨p.build, p.trb, s.sys.ring.cycleBit⟩] }
    | _, _ => s
  | .fetch => { s with sys := s.sys.step .fetch }
  | .leave i =>
    if s.owner = some i ∧ s.sys.taken.length = s.stored.length then
      { s with threads := Function.update s.threads i .idle, owner := none }
    else s

/-- Every TRB was stored with the ring's cycle bit, and the controller takes each of them
once, in order. -/
structure Delivers (s : SharedRing ι key) : Prop where
  current : ∀ e ∈ s.stored, e.trb.cycle = e.cycleBit
  taken : s.sys.taken <+: s.stored.map Entry.trb
  drained : s.sys.doorbell.taken = s.stored.map Entry.trb

/-- A TRB about to be stored has the mark of the lap it is stored in. -/
def InLap (s : SharedRing ι key) : Action ι key → Prop
  | .enter i =>
    match s.owner, s.threads i with
    | none, .built p => p.mark = lapMark (s.stored.length / 31)
    | _, _ => True
  | _ => True

/-- What every run keeps whose TRBs are stored in their laps. -/
structure Inv (trb : Nat) (s : SharedRing ι key) : Prop where
  behind : Behind (Bus.xhciAlign * trb) 1 s.sys
  free : s.owner = none → s.sys.unconsumed = 0
  current : ∀ e ∈ s.stored, e.trb.cycle = e.cycleBit
  log : s.sys.log = s.stored.map Entry.trb
  start : s.sys.start = 0
  built : ∀ i p, s.threads i = .built p → ∃ r : Request, p.trb = r.trb (bit p.mark)

variable {trb : Nat} {s : SharedRing ι key}

theorem inv_init (trb : Nat) : Inv trb (init ι key trb) where
  behind := by
    have h := Bus.initRing_behind key trb
    exact ⟨h.inv, h.settled, Nat.le_succ_of_le h.unconsumed⟩
  free _ := rfl
  current e he := absurd he List.not_mem_nil
  log := rfl
  start := rfl
  built i p h := by cases h

theorem Inv.enqueued (h : Inv trb s) : s.sys.enqueued = s.stored.map Entry.trb := by
  rw [Sys.enqueued, h.start, List.drop_zero, h.log]

/-- The ring's cycle bit tells how often it was turned over. -/
theorem Inv.cycleBit (h : Inv trb s) :
    s.sys.ring.cycleBit = bit (lapMark (s.stored.length / 31)) := by
  have hlen : s.sys.log.length = s.stored.length := by rw [h.log, List.length_map]
  cases h.behind.inv.writer with
  | settled _ cycle => rw [cycle, hlen]
  | turning windex _ _ => exact absurd (by rw [windex, h.behind.inv.numTrb]) h.behind.settled

theorem Inv.delivers (h : Inv trb s) : Delivers s where
  current := h.current
  taken := by
    rw [← h.enqueued]
    exact h.behind.inv.taken
  drained := by
    have hdoor := h.behind.doorbell (by decide)
    have hall := hdoor.inv.taken_of_unconsumed (Nat.le_zero.mp hdoor.unconsumed)
    have hsame : s.sys.doorbell.enqueued = s.sys.enqueued := (s.sys.fetches_frame _).2
    rw [hall, hsame, h.enqueued]

theorem Inv.build_request (h : Inv trb s) (client : Client key) (rings : Rings) :
    ∃ r : Request, (client.build rings).build s.sys.ring.cycleBit =
      r.trb (bit (Built.mark ⟨client, client.build rings,
        (client.build rings).build s.sys.ring.cycleBit, s.stored.length⟩)) := by
  by_cases hreset : client.ResetsDevice
  · rw [Built.mark, if_pos hreset]
    unfold Client.ResetsDevice at hreset
    split at hreset
    · rename_i slot
      have hempty : (0 : UInt32) &&& trbTypeBitmask ≠ trbType trbLink := by decide
      have hclear : (0 : UInt32) = 0 ||| bit false := by decide
      refine ⟨⟨⟨0, trbType trbResetDev ||| slotIdForTrb slot ||| s.sys.ring.cycleBit, 0, by decide⟩,
        hempty⟩, ?_⟩
      exact congrArg (XhciTrb.mk 0 _) hclear
    · exact hreset.elim
  · obtain ⟨r, hbuild, -⟩ := client.build_formed rings hreset
    rw [Built.mark, if_neg hreset, ← h.cycleBit]
    exact ⟨r, hbuild _⟩

variable [DecidableEq ι]

theorem Inv.updateThread (h : Inv trb s) (i : ι) {ph : Phase key}
    (hph : ∀ p, ph = .built p → ∃ r : Request, p.trb = r.trb (bit p.mark)) :
    ∀ j p, Function.update s.threads i ph j = .built p →
      ∃ r : Request, p.trb = r.trb (bit p.mark) := by
  intro j p hj
  by_cases hij : j = i
  · subst hij
    rw [Function.update_self] at hj
    exact hph p hj
  · rw [Function.update_of_ne hij] at hj
    exact h.built j p hj

theorem Inv.enter (h : Inv trb s) {i : ι} {p : Built key} (hfree : s.owner = none)
    (hp : s.threads i = .built p) (hlap : p.mark = lapMark (s.stored.length / 31)) :
    Inv trb (s.step (.enter i)) := by
  obtain ⟨r, hr⟩ := h.built i p hp
  have hcycle : s.sys.ring.cycleBit = bit p.mark := by rw [h.cycleBit, hlap]
  have hidle : Behind (Bus.xhciAlign * trb) 0 s.sys :=
    ⟨h.behind.inv, h.behind.settled, Nat.le_of_eq (h.free hfree)⟩
  have hstored := hidle.enqueueTrb (by decide) r
  rw [hcycle, ← hr] at hstored
  simp only [step, hfree, hp]
  exact
    { behind := hstored
      free := nofun
      current := by
        intro e he
        rcases List.mem_append.mp he with he | he
        · exact h.current e he
        · rw [List.mem_singleton.mp he, hcycle, hr, XhciTrb.cycle_eq, Body.marked_trb]
      log := by
        change s.sys.log ++ [p.trb] = _
        rw [h.log, List.map_append]
        rfl
      start := h.start
      built := h.updateThread i nofun }

/-- What one step keeps. -/
theorem Inv.step (h : Inv trb s) {a : Action ι key} (ha : s.InLap a) : Inv trb (s.step a) := by
  cases a with
  | build i client rings =>
      rw [SharedRing.step]
      split
      · exact { h with
          built := h.updateThread i fun p hp => by
            cases hp
            exact h.build_request client rings }
      · exact h
  | enter i =>
      cases hfree : s.owner with
      | some j =>
          simp only [SharedRing.step, hfree]
          exact h
      | none =>
          cases hp : s.threads i with
          | built p =>
              simp only [InLap, hfree, hp] at ha
              exact h.enter hfree hp ha
          | idle =>
              simp only [SharedRing.step, hfree, hp]
              exact h
          | inSection =>
              simp only [SharedRing.step, hfree, hp]
              exact h
  | fetch =>
      exact
        { behind := h.behind.fetch
          free := fun hfree => Nat.le_zero.mp (h.free hfree ▸ unconsumed_fetch_le s.sys)
          current := h.current
          log := h.log
          start := h.start
          built := h.built }
  | leave i =>
      rw [SharedRing.step]
      split
      · rename_i hdone
        exact { h with
          free := fun _ => by
            rw [unconsumed, h.enqueued, List.length_map, hdone.2, Nat.sub_self]
          built := h.updateThread i nofun }
      · exact h

/-- Storing a TRB out of its lap leaves it with the other cycle bit. -/
theorem Inv.outOfLap (h : Inv trb s) {a : Action ι key} (ha : ¬ s.InLap a) :
    ¬ Delivers (s.step a) := by
  cases a with
  | enter i =>
      cases hfree : s.owner with
      | some j => exact absurd (by simp only [InLap, hfree]) ha
      | none =>
          cases hp : s.threads i with
          | idle => exact absurd (by simp only [InLap, hfree, hp]) ha
          | inSection => exact absurd (by simp only [InLap, hfree, hp]) ha
          | built p =>
              simp only [InLap, hfree, hp] at ha
              obtain ⟨r, hr⟩ := h.built i p hp
              intro hd
              have hcur := hd.current ⟨p.build, p.trb, s.sys.ring.cycleBit⟩ (by
                simp only [SharedRing.step, hfree, hp]
                exact List.mem_append_right _ (List.mem_singleton_self _))
              rw [hr, XhciTrb.cycle_eq, Body.marked_trb, h.cycleBit] at hcur
              exact ha (bit_injective hcur)
  | build i client rings => exact absurd trivial ha
  | fetch => exact absurd trivial ha
  | leave i => exact absurd trivial ha

/-- In every interleaving the TRBs are delivered exactly when each is stored in a lap of the
mark it was built with. -/
theorem delivers_iff (ι : Type) [DecidableEq ι] (key : RingKey) (trb : Nat)
    (actions : List (Action ι key)) :
    GuardedRun.Always step Delivers (init ι key trb) actions ↔
      GuardedRun.Follows step InLap (init ι key trb) actions :=
  GuardedRun.always_iff_follows (inv_init trb) (fun _ _ h ha => h.step ha) (fun _ h => h.delivers)
    fun _ _ h ha => h.outOfLap ha

def submit (i : ι) (c : Client key) : List (Action ι key) :=
  [.build i c (Bus.init fun _ => 1).rings, .enter i, .fetch, .leave i]

/-- Two threads issue No Op commands. One has built its TRB when the other's turns the ring
over. -/
def crossed : List (Action Bool .command) :=
  (List.replicate 30 (submit false (.command .noop))).flatten ++
    [.build true (.command .noop) (Bus.init fun _ => 1).rings] ++
      submit false (.command .noop) ++ [.enter true]

/-- The controller does not take the TRB of the first. -/
theorem crossed_undelivered :
    ¬ ∀ (ι : Type) [DecidableEq ι] (key : RingKey) (trb : Nat) (actions : List (Action ι key)),
      GuardedRun.Always step Delivers (init ι key trb) actions := by
  intro h
  have hlast := (h Bool .command 1 crossed).last.drained
  exact absurd hlast (by decide +kernel)

end SharedRing

end LinkedsemiZephyr.Xhci
