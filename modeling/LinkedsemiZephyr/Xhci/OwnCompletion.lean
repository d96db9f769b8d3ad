import LinkedsemiZephyr.Xhci.Calls

/-! Whose event a call returns. The waiting thread looks at `event_sync` and `evt_trb` only,
so it gets its own completion when the ISR hands it over in time, and no other. -/
namespace LinkedsemiZephyr.Xhci
open GuardedRun
open EventSys (completes)

/-- What a transfer returns for a Short Packet. -/
theorem Call.result_short {call : Call} (htransfer : call.key ≠ .command) {event : XhciTrb}
    (hshort : getCompCode event.status = compShortPacket) :
    call.result event = (residual event.status).toNat := by
  cases call with
  | command c => exact absurd rfl htransfer
  | control | bulk =>
      rw [Call.result, if_pos hshort]

theorem Job.Legal.completes {j : Job} {event : Body} (h : j.Legal event) (m : Bool) :
    completes (event.trb (bit m)) = true := by
  have htype : (event.trb (bit m)).type =
      trbType (if j.key = .command then trbCompletion else trbTransfer) := by
    rw [Body.type_trb]
    exact h.2.1
  rw [EventSys.completes, htype]
  split <;> decide

/-- A TRB that is not the last of its call is reported only if it fails or is the one that
may come short. -/
theorem Job.Legal.reports {j : Job} {event : Body} (h : j.Legal event) (hdone : ¬ event.Failed) :
    j.Reports := by
  by_cases hsuccess : getCompCode event.status = compSuccess
  · exact (h.2.2.2 hsuccess).imp_right .inl
  · by_cases hshort : getCompCode event.status = compShortPacket
    · exact .inr (.inr (h.2.2.1 hshort))
    · exact absurd ⟨hsuccess, hshort⟩ hdone

/-! The TRBs of a call. -/

/-- The Setup Stage TRB neither asks for an event nor may come short. -/
theorem setupTrb_silent (req : UsbSetupPacket) (data : Nat) (length : UInt32) (m : Bool) :
    (setupTrb req data length (bit m)).control &&& trbIoc = 0 ∧
      (setupTrb req data length (bit m)).control &&& trbIsp = 0 := by
  have hcontrol : (setupTrb req data length (bit m)).control =
      trbType trbSetup ||| trbIdt ||| bit m |||
      if HasData data length then trbTrt (if req.isIn then trbDataIn else trbDataOut) else 0 := rfl
  rw [hcontrol]
  by_cases hdata : HasData data length
  · rw [if_pos hdata]
    by_cases hin : req.isIn
    · rw [if_pos hin]
      cases m <;> decide
    · rw [if_neg hin]
      cases m <;> decide
  · rw [if_neg hdata]
    cases m <;> decide

theorem statusTrb_not_isp (req : UsbSetupPacket) (data : Nat) (length : UInt32) (m : Bool) :
    (statusTrb req data length (bit m)).control &&& trbIsp = 0 := by
  have hcontrol : (statusTrb req data length (bit m)).control =
      trbType trbStatus ||| bit m ||| trbIoc |||
      if ¬ HasData data length ∨ ¬ req.isIn then trbDirIn else 0 := rfl
  rw [hcontrol]
  by_cases hin : ¬ HasData data length ∨ ¬ req.isIn
  · rw [if_pos hin]
    cases m <;> decide
  · rw [if_neg hin]
    cases m <;> decide

/-- Behind a TRB that can be reported none may come short. -/
def Submitted.InOrder (c : Submitted) (x y : XhciTrb) : Prop :=
  ∀ ptr ptr', Job.Reports ⟨c, ptr, x⟩ → ¬ Job.Isp ⟨c, ptr', y⟩

theorem Call.trbs_order (rings : Rings) (c : Submitted) :
    (c.call.trbs rings).Pairwise fun f g => ∀ m n, c.InOrder (f (bit m)) (g (bit n)) := by
  cases hcall : c.call with
  | command | bulk => exact List.pairwise_singleton _ _
  | control slot ep req data length =>
      have hsetup : ∀ m ptr, ¬ Job.Reports ⟨c, ptr, setupTrb req data length (bit m)⟩ := by
        rintro m ptr (hkey | hioc | hisp)
        · rw [Job.key, hcall] at hkey
          cases hkey
        · exact hioc (setupTrb_silent req data length m).1
        · exact hisp (setupTrb_silent req data length m).2
      have hstatus : ∀ m ptr, ¬ Job.Isp ⟨c, ptr, statusTrb req data length (bit m)⟩ :=
        fun m ptr => not_not.mpr (statusTrb_not_isp req data length m)
      rw [Call.trbs]
      split
      · simp [Submitted.InOrder, hsetup, hstatus]
      · simp [Submitted.InOrder, hstatus]

theorem wrapLink_cycleBit {ring : XhciRing} (h : ∃ m, ring.cycleBit = bit m) (mem : List XhciTrb) :
    ∃ m, (wrapLink ring mem).1.cycleBit = bit m := by
  obtain ⟨m, hm⟩ := h
  unfold wrapLink
  split
  · exact ⟨!m, (congrArg (· ^^^ 1) hm).trans (bit_xor_one m)⟩
  · exact ⟨m, hm⟩

theorem xhciEnqueueTrb_cycleBit {ring : XhciRing} (h : ∃ m, ring.cycleBit = bit m)
    (mem : List XhciTrb) (trb : XhciTrb) : ∃ m, (xhciEnqueueTrb ring mem trb).1.cycleBit = bit m :=
  wrapLink_cycleBit (show ∃ m, (storeTrb ring mem trb).1.cycleBit = bit m from h) _

theorem enqueueAll_cycleBit {builds : List (UInt32 → XhciTrb)} {ring : XhciRing}
    {mem : List XhciTrb} (h : ∃ m, ring.cycleBit = bit m) :
    ∃ m, (enqueueAll builds (ring, mem)).2.1.cycleBit = bit m := by
  induction builds generalizing ring mem with
  | nil => exact h
  | cons build builds ih => exact ih (xhciEnqueueTrb_cycleBit h mem _)

/-- Each TRB is built for some cycle bit. -/
theorem enqueueAll_built {builds : List (UInt32 → XhciTrb)} {ring : XhciRing} {mem : List XhciTrb}
    (h : ∃ m, ring.cycleBit = bit m) :
    ∀ e ∈ (enqueueAll builds (ring, mem)).1, ∃ f ∈ builds, ∃ m, e.trb = f (bit m) := by
  induction builds generalizing ring mem with
  | nil => exact fun e he => nomatch he
  | cons build builds ih =>
      intro e he
      rcases List.mem_cons.mp he with rfl | he
      · obtain ⟨m, hm⟩ := h
        exact ⟨build, List.mem_cons_self, m, congrArg build hm⟩
      · obtain ⟨f, hf, hbuilt⟩ := ih (xhciEnqueueTrb_cycleBit h mem _) e he
        exact ⟨f, List.mem_cons_of_mem build hf, hbuilt⟩

theorem enqueueAll_pairwise {R : XhciTrb → XhciTrb → Prop} {builds : List (UInt32 → XhciTrb)}
    {ring : XhciRing} {mem : List XhciTrb} (h : ∃ m, ring.cycleBit = bit m)
    (hbuilds : builds.Pairwise fun f g => ∀ m n, R (f (bit m)) (g (bit n))) :
    (enqueueAll builds (ring, mem)).1.Pairwise fun a b => R a.trb b.trb := by
  induction builds generalizing ring mem with
  | nil => exact List.Pairwise.nil
  | cons build builds ih =>
      obtain ⟨hfirst, hrest⟩ := List.pairwise_cons.mp hbuilds
      have hnext := xhciEnqueueTrb_cycleBit h mem (build ring.cycleBit)
      refine List.pairwise_cons.mpr ⟨fun e he => ?_, ih hnext hrest⟩
      obtain ⟨m, hm⟩ := h
      obtain ⟨f, hf, n, hn⟩ := enqueueAll_built hnext e he
      rw [hn]
      exact congrArg build hm ▸ hfirst f hf m n

namespace Host

variable {base : Nat} {trbs : RingKey → Nat} {s s' : Host}

/-- The first event the controller posted for a call. -/
def first (s : Host) (c : Submitted) : Option Posted := s.posts.find? fun p => p.owner = some c

/-- The ISR has handled an event of the call. -/
def Handled (s : Host) (c : Submitted) : Prop :=
  ∃ p ∈ s.posts.take s.ev.handled.length, p.owner = some c

/-- The event the ISR is about to handle. -/
def handling (s : Host) : Option Posted :=
  match s.ev.isr with
  | .handle _ => s.posts[s.ev.handled.length]?
  | _ => none

instance (s : Host) (c : Submitted) : Decidable (s.Handled c) :=
  inferInstanceAs (Decidable (∃ p ∈ _, _))

/-- When the ISR may handle a completion: not before the call it belongs to waits for it, and
not between the first event of the waiting call and its read. -/
def MayHandle (s : Host) (p : Posted) : Thread → Prop
  | .idle => True
  | .submitted c => p.owner ≠ some c
  | .waiting c | .woken c => ¬ s.Handled c

/-- The thread reads `evt_trb` behind the first event of its call. -/
def MayRead (s : Host) : Thread → Prop
  | .woken c => s.Handled c
  | .idle | .submitted _ | .waiting _ => True

/-- The order that serves every caller: the first event of a call is handled after the call
has set `event_wait` and before it reads `evt_trb`, and no other completion between that
event and the read. -/
def InTurn (s : Host) : HostAction → Prop
  | .isr => ∀ p ∈ s.handling, completes p.event = true → s.MayHandle p s.thread
  | .read => s.MayRead s.thread
  | .call _ | .ringInit .. | .wait | .wake | .execute .. | .notice _ | .load _ | .evict _
  | .ehb _ => True

instance (s : Host) (p : Posted) (t : Thread) : Decidable (s.MayHandle p t) :=
  match t with
  | .idle => inferInstanceAs (Decidable True)
  | .submitted c => inferInstanceAs (Decidable (p.owner ≠ some c))
  | .waiting c | .woken c => inferInstanceAs (Decidable (¬ s.Handled c))

instance (s : Host) (t : Thread) : Decidable (s.MayRead t) :=
  match t with
  | .woken c => inferInstanceAs (Decidable (s.Handled c))
  | .idle | .submitted _ | .waiting _ => inferInstanceAs (Decidable True)

instance (s : Host) (a : HostAction) : Decidable (s.InTurn a) :=
  match a with
  | .isr =>
      inferInstanceAs
        (Decidable (∀ p ∈ s.handling, completes p.event = true → s.MayHandle p s.thread))
  | .read => inferInstanceAs (Decidable (s.MayRead s.thread))
  | .call _ | .ringInit .. | .wait | .wake | .execute .. | .notice _ | .load _
  | .evict _ | .ehb _ =>
    inferInstanceAs (Decidable True)

/-- Every caller gets its own completion: a call that returned has read an event the
controller posted for one of its TRBs, and returns what a short transfer has left; a call
that waits for an event already handled is going to return. -/
structure OwnCompletions (s : Host) : Prop where
  posted : ∀ r ∈ s.returned, ⟨r.event, some r.owner⟩ ∈ s.posts
  pointer : ∀ r ∈ s.returned, r.event.paramater ∈ r.owner.trbs
  short : ∀ r ∈ s.returned, r.owner.call.key ≠ .command → ∀ p ∈ s.posts, p.owner = some r.owner →
    getCompCode p.event.status = compShortPacket → r.value = (residual p.event.status).toNat
  wakes : ∀ c, s.thread = .waiting c → s.Handled c → s.ev.hcd.eventSync = true

/-- What the thread would copy now is the first event of its call. -/
def Reads (s : Host) (c : Submitted) : Prop := ∃ p, s.first c = some p ∧ p.event = s.ev.hcd.evtTrb

/-- The flags and `evt_trb` by where the thread is. -/
def ThreadOk (s : Host) : Thread → Prop
  | .idle => s.ev.hcd.eventWait = false ∧ s.ev.hcd.eventSync = false
  | .submitted c => s.ev.hcd.eventWait = false ∧ s.ev.hcd.eventSync = false ∧ ¬ s.Handled c
  | .waiting c => s.ev.hcd.eventWait = true ∧ (s.Handled c → s.ev.hcd.eventSync = true ∧ s.Reads c)
  | .woken c => s.ev.hcd.eventWait = false ∧ s.ev.hcd.eventSync = false ∧ (s.Handled c → s.Reads c)

/-- What every state of a run in turn keeps. -/
structure Inv (base : Nat) (s : Host) : Prop where
  ev : EventSys.Inv base xhciRingTrbMaxNum s.ev
  posts : s.posts.map Posted.event = s.ev.posted
  rings : ∀ key, ∃ m, (s.rings key).1.cycleBit = bit m
  workId : ∀ j ∈ s.work, j.owner.id < s.calls
  postId : ∀ p ∈ s.posts, ∀ c, p.owner = some c → c.id < s.calls
  ptr : ∀ j ∈ s.work, j.ptr ∈ j.owner.trbs
  order : s.work.Pairwise fun a b => a.owner = b.owner → a.Reports → ¬ b.Isp
  reported : ∀ p ∈ s.posts, ∀ j ∈ s.work, p.owner = some j.owner → ¬ j.Isp
  owned : ∀ p ∈ s.posts, ∀ c, p.owner = some c →
    p.event.paramater ∈ c.trbs ∧ completes p.event = true
  shorts : s.posts.Pairwise fun p q =>
    ∀ c, p.owner = some c → q.owner = some c → getCompCode q.event.status ≠ compShortPacket
  thread : s.ThreadOk s.thread
  returned : ∀ r ∈ s.returned, ∃ p, s.first r.owner = some p ∧ p.event = r.event

theorem Inv.length_posts (h : Inv base s) : s.posts.length = s.ev.posted.length := by
  rw [← h.posts, List.length_map]

theorem Inv.handled_le (h : Inv base s) : s.ev.handled.length ≤ s.posts.length := by
  rw [h.length_posts]
  exact h.ev.handled_le

/-- The first event of a call stays the first. -/
theorem first_append {c : Submitted} {p : Posted} (h : s.first c = some p) {rest : List Posted}
    (hposts : s'.posts = s.posts ++ rest) : s'.first c = some p := by
  rw [first] at h ⊢
  rw [hposts, List.find?_append, h, Option.some_or]

/-- No later event of a call is a Short Packet. -/
theorem Inv.short_first (h : Inv base s) {c : Submitted} {p q : Posted}
    (hfirst : s.first c = some p) (hq : q ∈ s.posts) (howner : q.owner = some c)
    (hshort : getCompCode q.event.status = compShortPacket) : q = p := by
  obtain ⟨hp, earlier, later, hposts, hearlier⟩ := List.find?_eq_some_iff_append.mp hfirst
  rw [hposts] at hq
  rcases List.mem_append.mp hq with hq | hq
  · exact absurd howner (by simpa using hearlier q hq)
  · rcases List.mem_cons.mp hq with rfl | hq
    · rfl
    · have hshorts := h.shorts
      rw [hposts] at hshorts
      have hafter := (List.pairwise_cons.mp (List.pairwise_append.mp hshorts).2.1).1 q hq
      exact absurd hshort (hafter c (by simpa using hp) howner)

theorem sound (h : Inv base s) : s.OwnCompletions := by
  have hmem : ∀ r ∈ s.returned, ∃ p ∈ s.posts,
      p.owner = some r.owner ∧ p.event = r.event ∧ s.first r.owner = some p := by
    intro r hr
    obtain ⟨p, hfirst, hevent⟩ := h.returned r hr
    exact ⟨p, List.mem_of_find?_eq_some hfirst, by simpa using List.find?_some hfirst,
      hevent, hfirst⟩
  constructor
  · intro r hr
    obtain ⟨⟨event, owner⟩, hp, rfl, rfl, -⟩ := hmem r hr
    exact hp
  · intro r hr
    obtain ⟨p, hp, howner, hevent, -⟩ := hmem r hr
    rw [← hevent]
    exact (h.owned p hp _ howner).1
  · intro r hr htransfer q hq hqowner hshort
    obtain ⟨p, -, -, hevent, hfirst⟩ := hmem r hr
    obtain rfl := h.short_first hfirst hq hqowner hshort
    rw [Returned.value, ← hevent]
    exact Call.result_short htransfer hshort
  · intro c hthread hhandled
    have hok := h.thread
    rw [hthread] at hok
    exact (hok.2 hhandled).1

/-! Events come in, and nothing of a call is handled. -/

theorem ThreadOk.mono {t : Thread} (h : s.ThreadOk t)
    (hwait : s'.ev.hcd.eventWait = s.ev.hcd.eventWait)
    (hsync : s'.ev.hcd.eventSync = s.ev.hcd.eventSync) (hhandled : ∀ c, s'.Handled c ↔ s.Handled c)
    (hreads : ∀ c, s.Reads c → s'.Reads c) : s'.ThreadOk t := by
  cases t with
  | idle =>
      rw [ThreadOk, hwait, hsync]
      exact h
  | submitted c =>
      rw [ThreadOk, hwait, hsync, hhandled]
      exact h
  | waiting c =>
      rw [ThreadOk, hwait, hsync, hhandled]
      exact ⟨h.1, fun hc => ⟨(h.2 hc).1, hreads c (h.2 hc).2⟩⟩
  | woken c =>
      rw [ThreadOk, hwait, hsync, hhandled]
      exact ⟨h.1, h.2.1, fun hc => hreads c (h.2.2 hc)⟩

theorem Inv.unseen (h : Inv base s) {ev : EventSys} (hev : EventSys.Inv base xhciRingTrbMaxNum ev)
    (hunseen : EventSys.Unseen s.ev ev) : Inv base { s with ev } := by
  refine { h with ev := hev, posts := h.posts.trans hunseen.posted.symm, thread := ?_,
                  returned := h.returned }
  refine h.thread.mono hunseen.eventWait hunseen.eventSync (fun c => ?_) (fun c => ?_)
  · rw [Handled, Handled, hunseen.handled]
  · rintro ⟨p, hfirst, hevent⟩
    exact ⟨p, hfirst, hevent.trans hunseen.evtTrb.symm⟩

/-- What the controller may add: an event of no call, or of one whose TRBs it points into,
with no Short Packet but the first event, and none to come. -/
structure Admits (s : Host) (event : Body) (work : List Job) (c : Submitted) : Prop where
  id : c.id < s.calls
  pointer : event.paramater ∈ c.trbs
  completes : ∀ m, completes (event.trb (bit m)) = true
  short : getCompCode event.status = compShortPacket → ∀ p ∈ s.posts, p.owner ≠ some c
  more : ∀ j ∈ work, c = j.owner → ¬ j.Isp

theorem Inv.post (h : Inv base s) {event : Body} {owner : Option Submitted} {work : List Job}
    (hwork : work.Sublist s.work) (howner : ∀ c, owner = some c → s.Admits event work c) :
    Inv base (s.post event owner work) := by
  unfold Host.post
  split
  · exact h
  · next hfull =>
      have hev := h.ev.post (by decide) event
      obtain ⟨m, hpcs⟩ : ∃ m, s.ev.hp.pcs = bit m := ⟨_, h.ev.producer.pcs⟩
      have hstep : s.ev.step (.post event) = { s.ev with
          mem := s.ev.mem.set s.ev.hp.enqueue (event.trb s.ev.hp.pcs)
          hp := s.ev.hp.next s.ev.hcd.erst.segSize
          posted := s.ev.posted ++ [event.trb s.ev.hp.pcs] } := if_neg hfull
      refine ⟨hev, ?_, h.rings, ?_, ?_, ?_, ?_, ?_, ?_, ?_, ?_, ?_⟩
      · rw [hstep, List.map_append, h.posts]
        rfl
      · intro j hj
        exact h.workId j (hwork.subset hj)
      · intro p hp c hc
        rcases List.mem_append.mp hp with hp | hp
        · exact h.postId p hp c hc
        · rw [List.mem_singleton.mp hp] at hc
          exact (howner c hc).id
      · intro j hj
        exact h.ptr j (hwork.subset hj)
      · exact h.order.sublist hwork
      · intro p hp j hj hc
        rcases List.mem_append.mp hp with hp | hp
        · exact h.reported p hp j (hwork.subset hj) hc
        · rw [List.mem_singleton.mp hp] at hc
          exact (howner _ hc).more j hj rfl
      · intro p hp c hc
        rcases List.mem_append.mp hp with hp | hp
        · exact h.owned p hp c hc
        · rw [List.mem_singleton.mp hp] at hc ⊢
          refine ⟨(howner c hc).pointer, ?_⟩
          rw [hpcs]
          exact (howner c hc).completes m
      · refine List.pairwise_append.mpr ⟨h.shorts, List.pairwise_singleton _ _, ?_⟩
        intro p hp q hq c hpc hqc
        rw [List.mem_singleton.mp hq] at hqc ⊢
        intro hshort
        exact (howner c hqc).short hshort p hp hpc
      · refine h.thread.mono (by rw [hstep]) (by rw [hstep]) (fun c => ?_) ?_
        · rw [Handled, Handled, hstep, List.take_append_of_le_length h.handled_le]
        · rintro c ⟨p, hfirst, hevent⟩
          exact ⟨p, first_append hfirst rfl, by rw [hstep, hevent]⟩
      · intro r hr
        obtain ⟨p, hfirst, hevent⟩ := h.returned r hr
        exact ⟨p, first_append hfirst rfl, hevent⟩

theorem Inv.execute (h : Inv base s) (key : RingKey) (report : Option Body) :
    Inv base (s.execute key report) := by
  unfold Host.execute
  split
  · exact h
  · next j hj =>
      obtain ⟨hkey, before, after, hwork, hbefore⟩ := List.find?_eq_some_iff_append.mp hj
      have hrest : (s.work.eraseP fun j => j.key = key) = before ++ after := by
        rw [hwork, List.eraseP_append_right _ (by simpa using hbefore), List.eraseP_cons,
          hkey, cond_true]
      have hsub : (before ++ after).Sublist s.work := by
        rw [hwork]
        exact (List.sublist_cons_self j after).append_left before
      have hmem : j ∈ s.work := by
        rw [hwork]
        exact List.mem_append_right before List.mem_cons_self
      simp only [hrest]
      split
      · split
        · exact { h with
            workId := fun i hi => h.workId i (hsub.subset hi)
            ptr := fun i hi => h.ptr i (hsub.subset hi)
            order := h.order.sublist hsub
            reported := fun p hp i hi => h.reported p hp i (hsub.subset hi) }
        · exact h
      · next event =>
          split
          · next hlegal =>
              refine h.post ?_ ?_
              · split
                · exact List.filter_sublist.trans hsub
                · exact hsub
              · rintro c hc
                cases hc
                refine ⟨h.workId j hmem, ?_, hlegal.completes, ?_, ?_⟩
                · rw [hlegal.1]
                  exact h.ptr j hmem
                · intro hshort p hp howner
                  exact h.reported p hp j hmem howner (hlegal.2.2.1 hshort)
                · intro i hi howner
                  split at hi
                  · next hfailed =>
                      have hother := (List.mem_filter.mp hi).2
                      exact absurd howner.symm (by simpa using hother)
                  · next hdone =>
                      rcases List.mem_append.mp hi with hi | hi
                      · have hother : i.key ≠ key := by simpa using hbefore i hi
                        have hsame : i.key = j.key := congrArg (fun c => c.call.key) howner.symm
                        rw [hsame] at hother
                        exact absurd (by simpa using hkey) hother
                      · have horder := h.order
                        rw [hwork] at horder
                        have hlater :=
                          (List.pairwise_cons.mp (List.pairwise_append.mp horder).2.1).1 i hi
                        exact hlater howner (hlegal.reports hdone)
          · exact h

theorem Inv.notice (h : Inv base s) (event : Body) : Inv base (s.step (.notice event)) := by
  simp only [step]
  split
  · exact h
  · exact h.post (List.Sublist.refl _) fun c hc => nomatch hc

/-! The ISR hands an event over. -/

/-- With one more event handled, that is the only one a call may find handled besides. -/
theorem handled_succ (s' : Host) {p : Posted} (hp : s.posts[s.ev.handled.length]? = some p)
    {x : XhciTrb} (hposts : s'.posts = s.posts) (hhandled : s'.ev.handled = s.ev.handled ++ [x])
    (c : Submitted) :
    s'.Handled c ↔ s.Handled c ∨ p.owner = some c := by
  rw [Handled, Handled, hposts, hhandled, List.length_append, List.length_singleton,
    List.take_add_one, hp]
  simp [or_and_right, exists_or]

/-- The first event of a call is the first the ISR handles. -/
theorem first_of_handling {p : Posted} (hp : s.posts[s.ev.handled.length]? = some p) {c : Submitted}
    (howner : p.owner = some c) (hnone : ¬ s.Handled c) : s.first c = some p := by
  obtain ⟨hlt, rfl⟩ := List.getElem?_eq_some_iff.mp hp
  rw [first, List.find?_eq_some_iff_append]
  refine ⟨by simpa using howner, s.posts.take s.ev.handled.length,
    s.posts.drop (s.ev.handled.length + 1), ?_, ?_⟩
  · rw [← List.drop_eq_getElem_cons hlt, List.take_append_drop]
  · intro q hq
    simp only [Bool.not_eq_eq_eq_not, Bool.not_true, decide_eq_false_iff_not]
    intro hqowner
    exact hnone ⟨q, hq, hqowner⟩

theorem Inv.isr (h : Inv base s) (halign : base % 16 = 0) (hturn : s.InTurn .isr) :
    Inv base (s.step .isr) := by
  have hev := h.ev.isr halign (by decide)
  rcases h.ev.isr_seen halign (by decide) with ⟨l, x, hisr, hx, hposted, hhandled, hhcd⟩ | hunseen
  · rw [← h.posts, List.getElem?_map, Option.map_eq_some_iff] at hx
    obtain ⟨p, hp, rfl⟩ := hx
    have hsucc := handled_succ (s.step .isr) hp rfl hhandled
    refine { h with ev := hev, posts := h.posts.trans hposted.symm, thread := ?_,
                    returned := h.returned }
    have hok := h.thread
    cases hcompletes : completes p.event with
    | false =>
        have hsame : (s.step .isr).ev.hcd = s.ev.hcd :=
          hhcd.trans (EventSys.handle_notice hcompletes s.ev.hcd)
        refine hok.mono (congrArg _ hsame) (congrArg _ hsame) (fun c => ?_) (fun c => ?_)
        · rw [hsucc]
          apply or_iff_left
          intro howner
          rw [(h.owned p (List.mem_of_getElem? hp) c howner).2] at hcompletes
          cases hcompletes
        · rintro ⟨q, hfirst, hevent⟩
          exact ⟨q, hfirst, by rw [hsame, hevent]⟩
    | true =>
        have hcomplete : (s.step .isr).ev.hcd =
            xhciEventComplete { s.ev.hcd with evtTrb := p.event } :=
          hhcd.trans (EventSys.handle_completes hcompletes s.ev.hcd)
        obtain ⟨hwait, hsync⟩ :=
          EventSys.xhciEventComplete_flags { s.ev.hcd with evtTrb := p.event }
        have hevt := EventSys.xhciEventComplete_evtTrb { s.ev.hcd with evtTrb := p.event }
        rw [← hcomplete] at hwait hsync hevt
        have hhandling : s.handling = some p := by
          rw [handling, hisr]
          exact hp
        have hin := hturn p hhandling hcompletes
        -- What is handled for the first time is what the thread will read.
        have hreads (c : Submitted) (hnone : ¬ s.Handled c) (hc : (s.step .isr).Handled c) :
            (s.step .isr).Reads c := by
          have howner := ((hsucc c).mp hc).resolve_left hnone
          exact ⟨p, first_of_handling hp howner hnone, hevt.symm⟩
        change ThreadOk (s.step .isr) s.thread
        cases hthread : s.thread with
        | idle =>
            rw [hthread] at hok
            rw [ThreadOk, hwait, hsync]
            exact ⟨hok.1, by rw [hok.1, hok.2]; rfl⟩
        | submitted c =>
            rw [hthread] at hok hin
            rw [ThreadOk, hwait, hsync, hsucc]
            exact ⟨hok.1, by rw [hok.1, hok.2.1]; rfl, not_or.mpr ⟨hok.2.2, hin⟩⟩
        | waiting c =>
            rw [hthread] at hok hin
            rw [ThreadOk, hwait, hsync]
            exact ⟨hok.1, fun hc => ⟨by rw [hok.1]; rfl, hreads c hin hc⟩⟩
        | woken c =>
            rw [hthread] at hok hin
            rw [ThreadOk, hwait, hsync]
            exact ⟨hok.1, by rw [hok.1, hok.2.1]; rfl, hreads c hin⟩
  · exact h.unseen hev hunseen

/-! The thread. -/

theorem Inv.rings_update (h : Inv base s) {key : RingKey} {ring : XhciRing × List XhciTrb}
    (hring : ∃ m, ring.1.cycleBit = bit m) :
    ∀ k, ∃ m, (Function.update s.rings key ring k).1.cycleBit = bit m := by
  intro k
  by_cases hk : k = key
  · rw [hk, Function.update_self]
    exact hring
  · rw [Function.update_of_ne hk]
    exact h.rings k

theorem Inv.submit (h : Inv base s) (hidle : s.thread = .idle) (call : Call) :
    Inv base (s.submit call) := by
  have hcycle := h.rings call.key
  let built := enqueueAll (call.trbs s.rings) (s.rings call.key)
  let c : Submitted := ⟨s.calls, call, built.1.map Enqueued.ptr⟩
  let jobs :=
    (built.1.filter fun e => e.trb.cycle = e.cycleBit).map fun e => (⟨c, e.ptr, e.trb⟩ : Job)
  have hjobs : ∀ j ∈ jobs, j.owner = c ∧ j.ptr ∈ c.trbs := by
    intro j hj
    obtain ⟨e, he, rfl⟩ := List.mem_map.mp hj
    exact ⟨rfl, List.mem_map_of_mem (List.mem_of_mem_filter he)⟩
  have hfresh : ∀ p ∈ s.posts, p.owner ≠
    some c := fun p hp hc => absurd (h.postId p hp c hc) (Nat.lt_irrefl _)
  have horder : jobs.Pairwise fun a b => a.owner = b.owner → a.Reports → ¬ b.Isp := by
    have hbuilt : built.1.Pairwise fun a b => c.InOrder a.trb b.trb :=
      enqueueAll_pairwise hcycle (Call.trbs_order s.rings c)
    exact List.Pairwise.map _ (fun a b hab _ => hab a.ptr b.ptr)
      (hbuilt.sublist List.filter_sublist)
  have hold : ∀ j ∈ s.work, j.owner ≠ c := by
    intro j hj howner
    have hlt := h.workId j hj
    rw [howner] at hlt
    exact absurd hlt (Nat.lt_irrefl _)
  have hok := h.thread
  rw [hidle] at hok
  refine ⟨h.ev, h.posts, h.rings_update (enqueueAll_cycleBit hcycle), ?_, ?_, ?_, ?_, ?_,
    h.owned, h.shorts, ?_, h.returned⟩
  · intro j hj
    rcases List.mem_append.mp hj with hj | hj
    · exact Nat.lt_succ_of_lt (h.workId j hj)
    · rw [(hjobs j hj).1]
      exact Nat.lt_succ_self s.calls
  · intro p hp c' hc
    exact Nat.lt_succ_of_lt (h.postId p hp c' hc)
  · intro j hj
    rcases List.mem_append.mp hj with hj | hj
    · exact h.ptr j hj
    · rw [(hjobs j hj).1]
      exact (hjobs j hj).2
  · refine List.pairwise_append.mpr ⟨h.order, horder, fun a ha b hb hab => ?_⟩
    rw [(hjobs b hb).1] at hab
    exact absurd hab (hold a ha)
  · intro p hp j hj howner
    rcases List.mem_append.mp hj with hj | hj
    · exact h.reported p hp j hj howner
    · rw [(hjobs j hj).1] at howner
      exact absurd howner (hfresh p hp)
  · refine ⟨hok.1, hok.2, ?_⟩
    rintro ⟨p, hp, howner⟩
    exact hfresh p (List.mem_of_mem_take hp) howner

theorem Inv.call (h : Inv base s) (call : Call) : Inv base (s.step (.call call)) := by
  simp only [step]
  split
  · next hidle _ => exact h.submit hidle call
  · next next todo hidle _ =>
      have hnext := h.submit hidle next
      exact { hnext with thread := hnext.thread, returned := hnext.returned }
  · exact h

theorem Inv.ringInit (h : Inv base s) (slot epIndex : UInt32) (trb : Nat) :
    Inv base (s.step (.ringInit slot epIndex trb)) := by
  simp only [step]
  split
  · exact { h with rings := h.rings_update ⟨true, rfl⟩, thread := h.thread, returned := h.returned }
  · exact h

theorem Inv.wait (h : Inv base s) : Inv base (s.step .wait) := by
  simp only [step]
  split
  · next c hthread =>
      have hok := h.thread
      rw [hthread] at hok
      exact { h with
        ev := h.ev.wait (by decide)
        thread := ⟨rfl, fun hc => absurd hc hok.2.2⟩
        returned := h.returned }
  · exact h

theorem Inv.wake (h : Inv base s) : Inv base (s.step .wake) := by
  simp only [step]
  split
  · next c hthread =>
      have hok := h.thread
      rw [hthread] at hok
      split
      · next hsync =>
          have hev := h.ev.wake (by decide)
          have hstep : s.ev.step .wake =
              { s.ev with hcd := { s.ev.hcd with eventWait := false, eventSync := false } } :=
            if_pos hsync
          rw [hstep] at hev ⊢
          exact { h with
            ev := hev
            thread := ⟨rfl, rfl, fun hc => (hok.2 hc).2⟩
            returned := h.returned }
      · exact h
  · exact h

theorem Inv.read (h : Inv base s) (hturn : s.InTurn .read) : Inv base (s.step .read) := by
  simp only [step]
  split
  · next c hthread =>
      have hok := h.thread
      rw [hthread] at hok
      refine { h with thread := ⟨hok.1, hok.2.1⟩, returned := ?_ }
      intro r hr
      rcases List.mem_append.mp hr with hr | hr
      · exact h.returned r hr
      · rw [InTurn, hthread] at hturn
        rw [List.mem_singleton.mp hr]
        exact hok.2.2 hturn
  · exact h

theorem Inv.step (h : Inv base s) (halign : base % 16 = 0) (a : HostAction) (hturn : s.InTurn a) :
    Inv base (s.step a) := by
  cases a with
  | call call => exact h.call call
  | ringInit slot epIndex trb => exact h.ringInit slot epIndex trb
  | wait => exact h.wait
  | wake => exact h.wake
  | read => exact h.read hturn
  | execute key report => exact h.execute key report
  | notice event => exact h.notice event
  | isr => exact h.isr halign hturn
  | load i => exact h.unseen (h.ev.load (by decide) i) ⟨rfl, rfl, rfl, rfl, rfl⟩
  | evict i => exact h.unseen (h.ev.evict (by decide) i) ⟨rfl, rfl, rfl, rfl, rfl⟩
  | ehb busy => exact h.unseen (h.ev.ehb (by decide) busy) ⟨rfl, rfl, rfl, rfl, rfl⟩

theorem inv_init (halign : base % 16 = 0) (trbs : RingKey → Nat) : Inv base (init base trbs) where
  ev := EventSys.inv_init halign (by decide)
  posts := rfl
  rings key := ⟨true, rfl⟩
  workId := nofun
  postId := nofun
  ptr := nofun
  order := List.Pairwise.nil
  reported := nofun
  owned := nofun
  shorts := List.Pairwise.nil
  thread := ⟨rfl, rfl⟩
  returned := nofun

/-- In every run that hands the events over in turn, every caller gets its own completion. -/
theorem ownCompletions_inTurn (halign : base % 16 = 0) (trbs : RingKey → Nat)
    (actions : List HostAction) (hturn : Follows step InTurn (init base trbs) actions) :
    Always step OwnCompletions (init base trbs) actions :=
  hturn.always (inv_init halign trbs) (fun _ a h => h.step halign a) fun _ => sound

/-! A short GET_DESCRIPTOR, and its two events. -/

def sampleTrbs : RingKey → Nat
  | .command => 0x2000
  | .endpoint _ _ => 0x3000

def getDescriptor : Call := .control 1 0 ⟨0x80, 6, 0x0100, 0, 64⟩ 0x1000 64

/-- 46 of 64 bytes did not come. -/
def shortPacketEvent : Body :=
  ⟨0x3010, compShortPacket <<< 24 ||| 46, trbType trbTransfer, EventSys.trbTransfer_noCycle⟩

def statusEvent : Body :=
  ⟨0x3020, compSuccess <<< 24, trbType trbTransfer, EventSys.trbTransfer_noCycle⟩

/-- The ISR, from entry to exit, with one event to handle. -/
def oneInterrupt : List HostAction := List.replicate 6 .isr

/-- The call up to its return, which the Short Packet event brought about. -/
def untilReturn : List HostAction :=
  [.call getDescriptor, .execute getDescriptor.key none, .wait,
    .execute getDescriptor.key (some shortPacketEvent)] ++
    oneInterrupt ++ [.wake, .read]

/-- With the Status Stage handled before the next call, both calls get their own. -/
theorem ownCompletions_inTurn_statusFirst :
    Always step OwnCompletions (init 64 sampleTrbs)
      (untilReturn ++ [.execute getDescriptor.key (some statusEvent)] ++ oneInterrupt ++
        [.call (.command .noop)]) :=
  ownCompletions_inTurn (by decide) sampleTrbs _ (by decide +kernel)

/-- With the Status Stage handled while the next command waits, the command returns with
the event of the transfer before it. -/
theorem ownCompletions_statusLate :
    ¬ OwnCompletions ((init 64 sampleTrbs).run
      (untilReturn ++ [.call (.command .noop), .wait,
        .execute getDescriptor.key (some statusEvent)] ++ oneInterrupt ++
        [.wake, .read])) := by
  intro h
  have hforeign : ∃ r ∈ ((init 64 sampleTrbs).run
      (untilReturn ++ [.call (.command .noop), .wait,
        .execute getDescriptor.key (some statusEvent)] ++ oneInterrupt ++
        [.wake, .read])).returned, r.event.paramater ∉ r.owner.trbs := by
    decide +kernel
  obtain ⟨r, hr, hout⟩ := hforeign
  exact hout (h.pointer r hr)

end Host

end LinkedsemiZephyr.Xhci
