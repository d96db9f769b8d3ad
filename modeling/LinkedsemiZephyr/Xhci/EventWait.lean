import LinkedsemiZephyr.Xhci.OwnCompletion

/-! `xhci_event_wait` at full length: the loop is left, `event_wait` is cleared and
`event_sync` is cleared in three steps, and an interrupt may come between any two. -/
namespace LinkedsemiZephyr.Xhci
open GuardedRun
open EventSys (completes)

/-- Where a waiting thread is: in the loop, behind it, or between the two assignments. -/
inductive Spin where
  | loop
  | left
  | waitCleared
  deriving DecidableEq, Repr

/-- Driver and controller; `spin` is about a thread that waits. -/
structure Waiter where
  host : Host
  spin : Spin := .loop

/-- The `wake` of `Host` is taken in three. -/
inductive WaitAction where
  | host (a : HostAction)
  | leaveLoop
  | clearWait
  | clearSync

namespace Waiter
open Host (Handled)

def init (base : Nat) (trbs : RingKey → Nat) : Waiter where
  host := .init base trbs

def setHcd (s : Host) (hcd : XhciHcd) : Host := { s with ev := { s.ev with hcd } }

def step (s : Waiter) : WaitAction → Waiter
  | .host .wake => s
  | .host a => { s with host := s.host.step a }
  | .leaveLoop =>
    match s.host.thread, s.spin with
    | .waiting _, .loop => if s.host.ev.hcd.eventSync then { s with spin := .left } else s
    | _, _ => s
  | .clearWait =>
    match s.host.thread, s.spin with
    | .waiting _, .left => ⟨setHcd s.host { s.host.ev.hcd with eventWait := false }, .waitCleared⟩
    | _, _ => s
  | .clearSync =>
    match s.host.thread, s.spin with
    | .waiting c, .waitCleared =>
      ⟨{ setHcd s.host { s.host.ev.hcd with eventSync := false } with thread := .woken c }, .loop⟩
    | _, _ => s

/-- Without an interrupt between them the three steps are one. -/
theorem wake_eq (s : Host) :
    (((⟨s, .loop⟩ : Waiter).step .leaveLoop).step .clearWait).step .clearSync =
      ⟨s.step .wake, .loop⟩ := by
  cases hthread : s.thread with
  | idle => simp [step, Host.step, hthread]
  | submitted c => simp [step, Host.step, hthread]
  | woken c => simp [step, Host.step, hthread]
  | waiting c =>
      by_cases hsync : s.ev.hcd.eventSync = true
      · simp [step, Host.step, EventSys.step, setHcd, hthread, hsync]
      · simp [step, Host.step, hthread, hsync]

/-- The thread is in the loop, the ISR has consumed its event, nothing is to come, and
`event_sync` is clear. -/
def Lost (s : Waiter) : Prop :=
  ∃ c, s.host.thread = .waiting c ∧ s.spin = .loop ∧ s.host.Handled c ∧
    (s.host.ev.handled.length = s.host.ev.posted.length ∧ s.host.work = []) ∧
    s.host.ev.hcd.eventSync = false

structure Handshake (s : Waiter) : Prop where
  awake : ¬ s.Lost
  clear : s.host.thread = .idle → s.host.ev.hcd.eventSync = false

/-- The ISR does not take an event of a call between its doorbell and `event_wait = 1`. -/
def InTime (s : Waiter) : WaitAction → Prop
  | .host .isr =>
    match s.host.thread with
    | .submitted c => ∀ p ∈ s.host.handling, p.owner ≠ some c
    | _ => True
  | _ => True

instance (s : Waiter) (a : WaitAction) : Decidable (s.InTime a) := by
  unfold InTime
  split
  · split <;> infer_instance
  · infer_instance

def FlagsOk (s : Host) : Thread → Spin → Prop
  | .idle, .loop | .woken _, .loop => s.ev.hcd.eventWait = false ∧ s.ev.hcd.eventSync = false
  | .submitted c, .loop => s.ev.hcd.eventWait = false ∧ s.ev.hcd.eventSync = false ∧ ¬ s.Handled c
  | .waiting c, .loop => s.ev.hcd.eventWait = true ∧ (s.Handled c → s.ev.hcd.eventSync = true)
  | .waiting _, .left => True
  | .waiting _, .waitCleared => s.ev.hcd.eventWait = false
  | _, _ => False

/-- What the controller and the ISR keep of the events, whatever the threads do. -/
structure Delivery (base : Nat) (s : Host) : Prop where
  ev : EventSys.Inv base xhciRingTrbMaxNum s.ev
  posts : s.posts.map Posted.event = s.ev.posted
  workId : ∀ j ∈ s.work, j.owner.id < s.calls
  postId : ∀ p ∈ s.posts, ∀ c, p.owner = some c → c.id < s.calls
  owned : ∀ p ∈ s.posts, ∀ c, p.owner = some c → completes p.event = true

/-- What every state of a run in time keeps. -/
structure Inv (base : Nat) (s : Waiter) : Prop where
  delivery : Delivery base s.host
  flags : FlagsOk s.host s.host.thread s.spin

variable {base : Nat} {s s' : Host} {w : Waiter}

theorem FlagsOk.spin {t : Thread} {p : Spin} (h : FlagsOk s t p) (ht : ∀ c, t ≠ .waiting c) :
    p = .loop := by
  cases t with
  | waiting c => exact absurd rfl (ht c)
  | idle | submitted c | woken c =>
      cases p with
      | loop => rfl
      | left | waitCleared => exact h.elim

theorem Inv.handshake (h : Inv base w) : Handshake w where
  awake := by
    rintro ⟨c, hthread, hspin, hhandled, -, hsync⟩
    have hflags := h.flags
    rw [hthread, hspin] at hflags
    rw [hflags.2 hhandled] at hsync
    cases hsync
  clear hidle := by
    have hflags := h.flags
    rw [hidle] at hflags
    have hspin := hflags.spin (by simp)
    rw [hspin] at hflags
    exact hflags.2

theorem Delivery.handled_le (h : Delivery base s) : s.ev.handled.length ≤ s.posts.length := by
  have hlen : s.posts.length = s.ev.posted.length := by rw [← h.posts, List.length_map]
  rw [hlen]
  exact h.ev.handled_le

/-- A step that the handshake does not see. -/
structure Still (s s' : Host) : Prop where
  thread : s'.thread = s.thread
  eventWait : s'.ev.hcd.eventWait = s.ev.hcd.eventWait
  eventSync : s'.ev.hcd.eventSync = s.ev.hcd.eventSync
  handled : ∀ c, s'.Handled c ↔ s.Handled c

theorem Still.flags (h : Still s s') {t : Thread} {p : Spin} (hok : FlagsOk s t p) :
    FlagsOk s' t p := by
  unfold FlagsOk at hok ⊢
  simp only [h.eventWait, h.eventSync, h.handled]
  exact hok

theorem Still.refl (s : Host) : Still s s := ⟨rfl, rfl, rfl, fun _ => Iff.rfl⟩

theorem Delivery.post (h : Delivery base s) {event : Body} {owner : Option Submitted}
    {work : List Job} (hwork : ∀ j ∈ work, j ∈ s.work)
    (howner : ∀ c, owner = some c → c.id < s.calls ∧ ∀ m, completes (event.trb (bit m)) = true) :
    Delivery base (s.post event owner work) ∧ Still s (s.post event owner work) := by
  unfold Host.post
  split
  · exact ⟨h, Still.refl s⟩
  · next hfull =>
      have hev := h.ev.post (by decide) event
      have hpcs := h.ev.producer.pcs
      have hstep : s.ev.step (.post event) = { s.ev with
          mem := s.ev.mem.set s.ev.hp.enqueue (event.trb s.ev.hp.pcs)
          hp := s.ev.hp.next s.ev.hcd.erst.segSize
          posted := s.ev.posted ++ [event.trb s.ev.hp.pcs] } := if_neg hfull
      refine ⟨⟨hev, ?_, fun j hj => h.workId j (hwork j hj), ?_, ?_⟩, ⟨rfl, ?_, ?_, fun c => ?_⟩⟩
      · rw [hstep, List.map_append, h.posts]
        rfl
      · intro p hp c hc
        rcases List.mem_append.mp hp with hp | hp
        · exact h.postId p hp c hc
        · rw [List.mem_singleton.mp hp] at hc
          exact (howner c hc).1
      · intro p hp c hc
        rcases List.mem_append.mp hp with hp | hp
        · exact h.owned p hp c hc
        · rw [List.mem_singleton.mp hp] at hc ⊢
          rw [hpcs]
          exact (howner c hc).2 _
      · rw [hstep]
      · rw [hstep]
      · rw [Handled, Handled, hstep, List.take_append_of_le_length h.handled_le]

theorem Delivery.execute (h : Delivery base s) (key : RingKey) (report : Option Body) :
    Delivery base (s.execute key report) ∧ Still s (s.execute key report) := by
  unfold Host.execute
  split
  · exact ⟨h, Still.refl s⟩
  · next j hj =>
      have hrest : ∀ i ∈ s.work.eraseP fun j => j.key = key,
        i ∈ s.work := fun i hi => List.mem_of_mem_eraseP hi
      simp only
      split
      · split
        · exact ⟨{ h with workId := fun i hi => h.workId i (hrest i hi) },
            ⟨rfl, rfl, rfl, fun _ => Iff.rfl⟩⟩
        · exact ⟨h, Still.refl s⟩
      · next event =>
          split
          · next hlegal =>
              refine h.post ?_ ?_
              · intro i hi
                split at hi
                · exact hrest i (List.mem_of_mem_filter hi)
                · exact hrest i hi
              · rintro c hc
                cases hc
                exact ⟨h.workId j (List.mem_of_find?_eq_some hj), hlegal.completes⟩
          · exact ⟨h, Still.refl s⟩

theorem Delivery.notice (h : Delivery base s) (event : Body) :
    Delivery base (s.step (.notice event)) ∧ Still s (s.step (.notice event)) := by
  simp only [Host.step]
  split
  · exact ⟨h, Still.refl s⟩
  · exact h.post (fun _ hj => hj) fun c hc => by cases hc

theorem Delivery.unseen (h : Delivery base s) {ev : EventSys}
    (hev : EventSys.Inv base xhciRingTrbMaxNum ev) (hunseen : EventSys.Unseen s.ev ev) :
    Delivery base { s with ev } ∧ Still s { s with ev } := by
  refine ⟨{ h with ev := hev, posts := h.posts.trans hunseen.posted.symm },
    ⟨rfl, hunseen.eventWait, hunseen.eventSync, ?_⟩⟩
  intro c
  rw [Handled, Handled, hunseen.handled]

theorem Delivery.notOwned (h : Delivery base s) {n : Nat} {p : Posted} (hp : s.posts[n]? = some p)
    (hnot : completes p.event = false) (c : Submitted) : p.owner ≠ some c := by
  intro howner
  rw [h.owned p (List.mem_of_getElem? hp) c howner] at hnot
  cases hnot

/-- What one step of the ISR does to the flags. -/
theorem Inv.isr (h : Inv base w) (halign : base % 16 = 0) (hturn : w.InTime (.host .isr)) :
    Inv base (w.step (.host .isr)) := by
  have hd := h.delivery
  have hev := hd.ev.isr halign (by decide)
  have hflags := h.flags
  change Inv base ⟨w.host.step .isr, w.spin⟩
  rcases hd.ev.isr_seen halign (by decide) with ⟨l, x, hisr, hx, hposted, hhandled, hhcd⟩ | hunseen
  · rw [← hd.posts, List.getElem?_map, Option.map_eq_some_iff] at hx
    obtain ⟨p, hp, rfl⟩ := hx
    have hsucc := Host.handled_succ (w.host.step .isr) hp rfl hhandled
    refine ⟨{ hd with ev := hev, posts := hd.posts.trans hposted.symm }, ?_⟩
    change FlagsOk (w.host.step .isr) w.host.thread w.spin
    cases hcompletes : completes p.event with
    | false =>
        have hsame : (w.host.step .isr).ev.hcd = w.host.ev.hcd :=
          hhcd.trans (EventSys.handle_notice hcompletes w.host.ev.hcd)
        have hstill : Still w.host (w.host.step .isr) := by
          refine ⟨rfl, congrArg _ hsame, congrArg _ hsame, fun c => ?_⟩
          rw [hsucc]
          exact or_iff_left (hd.notOwned hp hcompletes c)
        exact hstill.flags hflags
    | true =>
        have hcomplete : (w.host.step .isr).ev.hcd =
            xhciEventComplete { w.host.ev.hcd with evtTrb := p.event } :=
          hhcd.trans (EventSys.handle_completes hcompletes w.host.ev.hcd)
        obtain ⟨hwait, hsync⟩ :=
          EventSys.xhciEventComplete_flags { w.host.ev.hcd with evtTrb := p.event }
        rw [← hcomplete] at hwait hsync
        have hhandling : w.host.handling = some p := by
          rw [Host.handling, hisr]
          exact hp
        cases hthread : w.host.thread with
        | waiting c =>
            rw [hthread] at hflags
            cases hspin : w.spin with
            | loop =>
                rw [hspin] at hflags
                rw [FlagsOk, hwait, hsync]
                exact ⟨hflags.1, fun _ => by rw [hflags.1]; rfl⟩
            | left => trivial
            | waitCleared =>
                rw [hspin] at hflags
                rw [FlagsOk, hwait]
                exact hflags
        | submitted c =>
            rw [InTime, hthread] at hturn
            rw [hthread] at hflags
            have hspin := hflags.spin (by simp)
            rw [hspin] at hflags ⊢
            rw [FlagsOk, hwait, hsync, hsucc]
            exact ⟨hflags.1, by rw [hflags.1, hflags.2.1]; rfl,
              not_or.mpr ⟨hflags.2.2, hturn p hhandling⟩⟩
        | idle | woken c =>
            rw [hthread] at hflags
            have hspin := hflags.spin (by simp)
            rw [hspin] at hflags ⊢
            rw [FlagsOk, hwait, hsync]
            exact ⟨hflags.1, by rw [hflags.1, hflags.2]; rfl⟩
  · obtain ⟨hdelivery, hstill⟩ := hd.unseen hev hunseen
    exact ⟨hdelivery, hstill.flags hflags⟩

theorem Delivery.submit (h : Delivery base s) (call : Call) :
    Delivery base (s.submit call) ∧ ∃ c, (s.submit call).thread = .submitted c ∧
      ¬ (s.submit call).Handled c := by
  refine ⟨⟨h.ev, h.posts, ?_, fun p hp c hc => Nat.lt_succ_of_lt (h.postId p hp c hc), h.owned⟩, _,
    rfl, ?_⟩
  · intro j hj
    rcases List.mem_append.mp hj with hj | hj
    · exact Nat.lt_succ_of_lt (h.workId j hj)
    · obtain ⟨e, -, rfl⟩ := List.mem_map.mp hj
      exact Nat.lt_succ_self s.calls
  · rintro ⟨p, hp, howner⟩
    exact absurd (h.postId p (List.mem_of_mem_take hp) _ howner) (Nat.lt_irrefl _)

theorem Inv.submit (h : Inv base w) (hidle : w.host.thread = .idle) (call : Call)
    (todo : List Call) :
    Inv base ⟨{ w.host.submit call with todo }, w.spin⟩ := by
  obtain ⟨hd, c, hthread, hnone⟩ := h.delivery.submit call
  have hflags := h.flags
  refine ⟨{ hd with }, ?_⟩
  change FlagsOk _ (w.host.submit call).thread w.spin
  rw [hidle] at hflags
  have hspin := hflags.spin (by simp)
  rw [hthread]
  rw [hspin] at hflags ⊢
  exact ⟨hflags.1, hflags.2, hnone⟩

theorem Inv.call (h : Inv base w) (call : Call) : Inv base (w.step (.host (.call call))) := by
  change Inv base ⟨w.host.step (.call call), w.spin⟩
  simp only [Host.step]
  split
  · next hidle _ => exact h.submit hidle call w.host.todo
  · next next todo hidle _ => exact h.submit hidle next todo
  · exact h

theorem Inv.ringInit (h : Inv base w) (slot epIndex : UInt32) (trb : Nat) :
    Inv base (w.step (.host (.ringInit slot epIndex trb))) := by
  change Inv base ⟨w.host.step (.ringInit slot epIndex trb), w.spin⟩
  simp only [Host.step]
  split
  · exact ⟨{ h.delivery with }, h.flags⟩
  · exact h

theorem Inv.wait (h : Inv base w) : Inv base (w.step (.host .wait)) := by
  change Inv base ⟨w.host.step .wait, w.spin⟩
  simp only [Host.step]
  split
  · next c hthread =>
      have hflags := h.flags
      rw [hthread] at hflags
      refine ⟨{ h.delivery with ev := h.delivery.ev.wait (by decide) }, ?_⟩
      change FlagsOk _ (.waiting c) w.spin
      have hspin := hflags.spin (by simp)
      rw [hspin] at hflags ⊢
      exact ⟨rfl, fun hc => absurd hc hflags.2.2⟩
  · exact h

theorem Inv.read (h : Inv base w) : Inv base (w.step (.host .read)) := by
  change Inv base ⟨w.host.step .read, w.spin⟩
  simp only [Host.step]
  split
  · next c hthread =>
      have hflags := h.flags
      rw [hthread] at hflags
      refine ⟨{ h.delivery with }, ?_⟩
      change FlagsOk _ .idle w.spin
      have hspin := hflags.spin (by simp)
      rw [hspin] at hflags ⊢
      exact hflags
  · exact h

/-! The way out of `xhci_event_wait`. -/

theorem Delivery.setFlags (h : Delivery base s) (eventWait eventSync : Bool) (thread : Thread) :
    Delivery base { setHcd s { s.ev.hcd with eventWait, eventSync } with thread } where
  ev := h.ev.quiet (by decide)
    ⟨rfl, rfl, rfl, rfl, rfl, rfl, rfl, rfl, rfl, List.prefix_refl _, fun _ _ hx => .inl hx⟩ rfl rfl
    rfl
  posts := h.posts
  workId := h.workId
  postId := h.postId
  owned := h.owned

theorem Inv.leaveLoop (h : Inv base w) : Inv base (w.step .leaveLoop) := by
  rw [step]
  split
  · next c hthread hspin =>
      split
      · refine ⟨h.delivery, ?_⟩
        change FlagsOk w.host w.host.thread .left
        rw [hthread]
        trivial
      · exact h
  · exact h

theorem Inv.clearWait (h : Inv base w) : Inv base (w.step .clearWait) := by
  rw [step]
  split
  · next c hthread hspin =>
      refine ⟨h.delivery.setFlags false w.host.ev.hcd.eventSync w.host.thread, ?_⟩
      change FlagsOk _ w.host.thread .waitCleared
      rw [hthread]
      exact rfl
  · exact h

theorem Inv.clearSync (h : Inv base w) : Inv base (w.step .clearSync) := by
  rw [step]
  split
  · next c hthread hspin =>
      have hflags := h.flags
      rw [hthread, hspin] at hflags
      exact ⟨h.delivery.setFlags w.host.ev.hcd.eventWait false (.woken c), hflags, rfl⟩
  · exact h

/-- What one step in time keeps. -/
theorem Inv.step (h : Inv base w) (halign : base % 16 = 0) (a : WaitAction) (hturn : w.InTime a) :
    Inv base (w.step a) := by
  have hstill {s' : Host} (hs' : Delivery base s' ∧ Still w.host s') : Inv base ⟨s', w.spin⟩ := by
    refine ⟨hs'.1, ?_⟩
    change FlagsOk s' s'.thread w.spin
    rw [hs'.2.thread]
    exact hs'.2.flags h.flags
  cases a with
  | leaveLoop => exact h.leaveLoop
  | clearWait => exact h.clearWait
  | clearSync => exact h.clearSync
  | host a =>
      cases a with
      | call call => exact h.call call
      | ringInit slot epIndex trb => exact h.ringInit slot epIndex trb
      | wait => exact h.wait
      | wake => exact h
      | read => exact h.read
      | execute key report => exact hstill (h.delivery.execute key report)
      | notice event => exact hstill (h.delivery.notice event)
      | isr => exact h.isr halign hturn
      | load i =>
          exact hstill
            (h.delivery.unseen (h.delivery.ev.load (by decide) i) ⟨rfl, rfl, rfl, rfl, rfl⟩)
      | evict i =>
          exact hstill
            (h.delivery.unseen (h.delivery.ev.evict (by decide) i) ⟨rfl, rfl, rfl, rfl, rfl⟩)
      | ehb busy =>
          exact hstill
            (h.delivery.unseen (h.delivery.ev.ehb (by decide) busy) ⟨rfl, rfl, rfl, rfl, rfl⟩)

theorem inv_init (halign : base % 16 = 0) (trbs : RingKey → Nat) : Inv base (init base trbs) where
  delivery :=
    { ev := EventSys.inv_init halign (by decide)
      posts := rfl
      workId := nofun
      postId := nofun
      owned := nofun }
  flags := ⟨rfl, rfl⟩

/-- No wakeup is lost in any run in which the ISR takes no event of a call before the call
has set `event_wait`. -/
theorem handshake_inTime {base : Nat} (halign : base % 16 = 0) (trbs : RingKey → Nat)
    {actions : List WaitAction} (hrun : Follows step InTime (init base trbs) actions) :
    Always step Handshake (init base trbs) actions :=
  hrun.always (inv_init halign trbs) (fun _ a h ha => h.step halign a ha) fun _ h => h.handshake

def noopEvent : Body := ⟨0x2000, compSuccess <<< 24, trbType trbCompletion, by decide⟩

def interrupt : List WaitAction := Host.oneInterrupt.map .host

/-- A No Op command whose completion comes while it waits. -/
def slowNoop : List WaitAction :=
  [.host (.call (.command .noop)), .host .wait, .host (.execute .command (some noopEvent))] ++
    interrupt ++
    [.leaveLoop, .clearWait, .clearSync, .host .read]

theorem handshake_inTime_slowNoop : Always step Handshake (init 64 Host.sampleTrbs) slowNoop :=
  handshake_inTime (by decide) Host.sampleTrbs (by decide +kernel)

/-- Its completion comes before `event_wait = 1`. -/
def fastNoop : List WaitAction :=
  [.host (.call (.command .noop)), .host (.execute .command (some noopEvent))] ++
    interrupt ++ [.host .wait]

/-- The ISR drops it, and the thread stays in the loop. -/
theorem fastNoop_lost :
    ¬ ∀ (base : Nat) (trbs : RingKey → Nat) (actions : List WaitAction), base % 16 = 0 →
      Always step Handshake (init base trbs) actions := by
  intro h
  have hlast := (h 64 Host.sampleTrbs fastNoop (by decide)).last.awake
  exact hlast
    ⟨⟨0, .command .noop, [0x2000]⟩, by decide +kernel, by decide +kernel, by decide +kernel,
    by decide +kernel, by decide +kernel⟩

end Waiter

end LinkedsemiZephyr.Xhci
