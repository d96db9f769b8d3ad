import Mathlib.Algebra.Group.Nat.Defs
import Mathlib.Data.List.Basic

/-! Two cores that pass a number to and fro over two mailbox channels, each sending until the
channel is full (`mbox_data_multi_channel_multi_msg`), in every interleaving of their programs
and of the deliveries. -/
namespace LinkedsemiZephyr.Mailbox

inductive Chan where
  | zero | one
deriving DecidableEq

/-- What `mbox_send_dt` returns: 0, `-ENOSPC` or another error. -/
inductive Sent where
  | ok | full | failed
deriving DecidableEq

/-- Where `main` stands: at its loop's condition, at a send, at or behind a semaphore. -/
inductive Pc where
  | check | send0 | send1 | take0 | read0 | take1 | read1 | ended
deriving DecidableEq

/-- What tells the two programs apart: the bound of the loop, and in which order it goes
through the burst of sends and the two receptions. -/
structure Program where
  limit : Nat
  enter : Pc
  afterBurst : Pc
  afterRead : Pc

/-- `main` of the main core. -/
def client : Program := ⟨100, .send0, .take0, .check⟩

/-- `main` of the remote core. -/
def server : Program := ⟨99, .take0, .check, .send0⟩

/-- `g_mbox_received_data` and `g_mbox_data_rx_sem` of a channel. -/
structure Inbox where
  data : Nat
  sem : Bool
deriving DecidableEq

/-- The sizes of a transfer with which both programs start. -/
abbrev Mtu : Type := { n : Nat // 0 < n ∧ n ≤ 4 }

/-- `memcpy` of the low octets over a number. -/
def memcpy (size : Mtu) (old new : Nat) : Nat := old - old % 256 ^ size.1 + new % 256 ^ size.1

def callback (size : Mtu) (i : Inbox) (message : Nat) : Inbox := ⟨memcpy size i.data message, true⟩

/-- A core. `value` is the message of its last burst, and the counters are those of the burst
it is in: calls of `mbox_send_dt` and messages put on each channel; no program reads them. -/
structure Core where
  pc : Pc
  message : Nat
  in0 : Inbox
  in1 : Inbox
  value : Nat
  calls : Nat
  put0 : Nat
  put1 : Nat
deriving DecidableEq

def Core.start : Core := ⟨.check, 0, ⟨0, false⟩, ⟨0, false⟩, 0, 0, 0, 0⟩

def Core.endBurst (c : Core) (pc : Pc) : Core :=
  { c with pc := pc, calls := 0, put0 := 0, put1 := 0 }

/-- One step of `main`, with the message it puts on a channel. -/
def Core.step (p : Program) (c : Core) (res : Sent) : Option (Core × Option (Chan × Nat)) :=
  match c.pc with
  | .check => some ({ c with pc := if c.message < p.limit then p.enter else .ended }, none)
  | .send0 =>
    match res with
    | .ok => some ({ c with pc := .send1, calls := c.calls + 1, put0 := c.put0 + 1 },
        some (.zero, c.message))
    | .failed => some ({ c with pc := .send1, calls := c.calls + 1 }, none)
    | .full => some (c.endBurst p.afterBurst, none)
  | .send1 =>
    match res with
    | .ok => some ({ c with pc := .send0, calls := c.calls + 1, put1 := c.put1 + 1 },
        some (.one, c.message))
    | .failed => some ({ c with pc := .send0, calls := c.calls + 1 }, none)
    | .full => some (c.endBurst p.afterBurst, none)
  | .take0 =>
      if c.in0.sem then some ({ c with pc := .read0, in0 := ⟨c.in0.data, false⟩ }, none) else none
  | .read0 => some ({ c with pc := .take1, message := c.in0.data }, none)
  | .take1 =>
      if c.in1.sem then some ({ c with pc := .read1, in1 := ⟨c.in1.data, false⟩ }, none) else none
  | .read1 =>
    let message := (c.in1.data + 1) % 0x100000000
    some ({ c with pc := p.afterRead, message := message, value := message }, none)
  | .ended => none

/-- The messages on their way to a core, oldest first. The mailbox is taken as a queue for each
channel that loses nothing, on which a message is put just when `mbox_send_dt` returned 0. -/
structure Wires where
  w0 : List Nat
  w1 : List Nat
deriving DecidableEq

def Wires.put (w : Wires) : Option (Chan × Nat) → Wires
  | none => w
  | some (.zero, message) => ⟨w.w0 ++ [message], w.w1⟩
  | some (.one, message) => ⟨w.w0, w.w1 ++ [message]⟩

/-- The oldest message of a channel comes in. -/
def deliver (size : Mtu) (c : Core) (w : Wires) : Chan → Option (Core × Wires)
  | .zero =>
    match w.w0 with
    | [] => none
    | message :: rest => some ({ c with in0 := callback size c.in0 message }, ⟨rest, w.w1⟩)
  | .one =>
    match w.w1 with
    | [] => none
    | message :: rest => some ({ c with in1 := callback size c.in1 message }, ⟨w.w0, rest⟩)

structure Net where
  client : Core
  server : Core
  toServer : Wires
  toClient : Wires
deriving DecidableEq

def Net.start : Net := ⟨Core.start, Core.start, ⟨[], []⟩, ⟨[], []⟩⟩

inductive Act where
  | client (res : Sent)
  | server (res : Sent)
  | toServer (ch : Chan)
  | toClient (ch : Chan)

def Net.step (size : Mtu) (n : Net) : Act → Option Net
  | .client res =>
    (n.client.step Mailbox.client res).map fun (c, out) =>
      { n with client := c, toServer := n.toServer.put out }
  | .server res =>
    (n.server.step Mailbox.server res).map fun (c, out) =>
      { n with server := c, toClient := n.toClient.put out }
  | .toServer ch =>
      (deliver size n.server n.toServer ch).map fun (c, w) => { n with server := c, toServer := w }
  | .toClient ch =>
      (deliver size n.client n.toClient ch).map fun (c, w) => { n with client := c, toClient := w }

/-- The runs of the two cores, with the number of their steps; `ok` is what is asked of each
step. -/
inductive Run (size : Mtu) (ok : Net → Act → Prop) : Nat → Net → Prop
  | start : Run size ok 0 Net.start
  | step {k : Nat} {n n' : Net} {a : Act} :
      Run size ok k n → ok n a → n.step size a = some n' → Run size ok (k + 1) n'

theorem memcpy_of_lt {size : Mtu} {old new : Nat} (hold : old < 256) (hnew : new < 256) :
    memcpy size old new = new := by
  have hpow : 256 ^ 1 ≤ 256 ^ size.1 := Nat.pow_le_pow_right (by decide) size.2.1
  rw [memcpy, Nat.mod_eq_of_lt (by omega), Nat.mod_eq_of_lt (by omega), Nat.sub_self, Nat.zero_add]

/-- The number last taken from a channel, those on their way and the one being sent never fall. -/
def Ascending (data : Nat) (w : List Nat) (sent : Nat) : Prop :=
  (data :: (w ++ [sent])).Pairwise (· ≤ ·)

theorem Ascending.le {data sent : Nat} {w : List Nat} (h : Ascending data w sent) : data ≤ sent :=
  List.rel_of_pairwise_cons h (List.mem_append_right w (List.mem_singleton_self sent))

theorem Ascending.put {data sent : Nat} {w : List Nat} (h : Ascending data w sent) :
    Ascending data (w ++ [sent]) sent := by
  have hle := h.le
  unfold Ascending at h ⊢
  rw [← List.cons_append, List.pairwise_append] at h ⊢
  refine ⟨?_, List.pairwise_singleton _ _, ?_⟩
  · rw [← List.cons_append, List.pairwise_append]
    exact h
  · intro x hx y hy
    rw [← List.cons_append, List.mem_append] at hx
    rcases hx with hx | hx
    · exact h.2.2 x hx y hy
    · exact Nat.le_of_eq ((List.mem_singleton.mp hx).trans (List.mem_singleton.mp hy).symm)

theorem Ascending.deliver {data v sent : Nat} {w : List Nat} (h : Ascending data (v :: w) sent) :
    Ascending v w sent :=
  (List.pairwise_cons.mp h).2

theorem Ascending.raise {data sent sent' : Nat} {w : List Nat} (h : Ascending data w sent)
    (hle : sent ≤ sent') :
    Ascending data w sent' := by
  unfold Ascending at h ⊢
  rw [← List.cons_append, List.pairwise_append] at h ⊢
  refine ⟨h.1, List.pairwise_singleton _ _, fun x hx y hy => ?_⟩
  rw [List.mem_singleton.mp hy]
  exact Nat.le_trans (h.2.2 x hx sent (List.mem_singleton_self sent)) hle

def Core.Sending (c : Core) : Prop := c.pc = .send0 ∨ c.pc = .send1

/-- Where `message` is still the value of the last burst or the one of the next. -/
def Core.Fresh (c : Core) : Prop := c.pc = .check ∨ c.Sending

/-- The steps of `main`, one by one. -/
inductive Core.Does (p : Program) (c : Core) : Core → Option (Chan × Nat) → Prop
  | check (hpc : c.pc = .check) :
      Does p c { c with pc := if c.message < p.limit then p.enter else .ended } none
  | put0 (hpc : c.pc = .send0) :
      Does p c { c with pc := .send1, calls := c.calls + 1, put0 := c.put0 + 1 }
        (some (.zero, c.message))
  | put1 (hpc : c.pc = .send1) :
      Does p c { c with pc := .send0, calls := c.calls + 1, put1 := c.put1 + 1 }
        (some (.one, c.message))
  | fail0 (hpc : c.pc = .send0) : Does p c { c with pc := .send1, calls := c.calls + 1 } none
  | fail1 (hpc : c.pc = .send1) : Does p c { c with pc := .send0, calls := c.calls + 1 } none
  | full (hpc : c.Sending) : Does p c (c.endBurst p.afterBurst) none
  | take0 (hpc : c.pc = .take0) (hsem : c.in0.sem = true) :
      Does p c { c with pc := .read0, in0 := ⟨c.in0.data, false⟩ } none
  | read0 (hpc : c.pc = .read0) : Does p c { c with pc := .take1, message := c.in0.data } none
  | take1 (hpc : c.pc = .take1) (hsem : c.in1.sem = true) :
      Does p c { c with pc := .read1, in1 := ⟨c.in1.data, false⟩ } none
  | read1 (hpc : c.pc = .read1) :
      Does p c { c with
        pc := p.afterRead
        message := (c.in1.data + 1) % 0x100000000
        value := (c.in1.data + 1) % 0x100000000 } none

theorem Core.does_of_step {p : Program} {c c' : Core} {res : Sent} {out : Option (Chan × Nat)}
    (h : c.step p res = some (c', out)) : c.Does p c' out := by
  unfold Core.step at h
  cases hpc : c.pc with
  | check =>
      rw [hpc] at h
      cases h
      exact .check hpc
  | send0 =>
      rw [hpc] at h
      cases res with
      | ok =>
          cases h
          exact .put0 hpc
      | full =>
          cases h
          exact .full (Or.inl hpc)
      | failed =>
          cases h
          exact .fail0 hpc
  | send1 =>
      rw [hpc] at h
      cases res with
      | ok =>
          cases h
          exact .put1 hpc
      | full =>
          cases h
          exact .full (Or.inr hpc)
      | failed =>
          cases h
          exact .fail1 hpc
  | take0 =>
      rw [hpc] at h
      obtain ⟨hsem, heq⟩ := Option.ite_none_right_eq_some.mp h
      cases heq
      exact .take0 hpc hsem
  | read0 =>
      rw [hpc] at h
      cases h
      exact .read0 hpc
  | take1 =>
      rw [hpc] at h
      obtain ⟨hsem, heq⟩ := Option.ite_none_right_eq_some.mp h
      cases heq
      exact .take1 hpc hsem
  | read1 =>
      rw [hpc] at h
      cases h
      exact .read1 hpc
  | ended =>
      rw [hpc] at h
      cases h

structure ClientOk (c : Core) : Prop where
  even : c.value % 2 = 0
  next : c.value ≤ c.in1.data + 1
  fresh : c.Fresh → c.message = c.value
  below : c.Sending → c.value < 100
  odd : c.in1.sem = true ∨ c.pc = .read1 → c.in1.data % 2 = 1

structure ServerOk (c : Core) : Prop where
  odd : c.value % 2 = 1 ∨ c.value = 0
  next : c.value ≤ c.in1.data + 1
  fresh : c.Fresh → c.message = c.value
  sends : c.Sending → c.value % 2 = 1
  even : c.in1.data % 2 = 0
  below : c.in1.data < 100

theorem ClientOk.step {c c' : Core} {out : Option (Chan × Nat)} {other : Nat} (h : ClientOk c)
    (hup : c.in1.data ≤ other) (hdown : other ≤ c.value + 1) (hother : other ≤ 100)
    (hdoes : c.Does client c' out) :
    ClientOk c' ∧ (c'.value = c.value ∨ c'.value = c.value + 2) ∧ c'.in1.data = c.in1.data := by
  obtain ⟨heven, hnext, hfresh, hbelow, hodd⟩ := h
  cases hdoes with
  | read1 hpc =>
      have hreceived := hodd (Or.inr hpc)
      have hwrap : (c.in1.data + 1) % 0x100000000 = c.in1.data + 1 := Nat.mod_eq_of_lt (by omega)
      rw [hwrap]
      refine ⟨⟨by dsimp only; omega, Nat.le_refl _, fun _ => rfl, ?_, fun _ => hreceived⟩, ?_, rfl⟩
      · rintro (hsend | hsend) <;> cases hsend
      · dsimp only
        omega
  | check hpc =>
      refine ⟨⟨heven, hnext, fun _ => hfresh (Or.inl hpc), ?_, ?_⟩, Or.inl rfl, rfl⟩ <;>
        grind [Core.Sending, Core.Fresh, client]
  | put0 hpc | put1 hpc | fail0 hpc | fail1 hpc | full hpc | take0 hpc hsem | read0 hpc
  | take1 hpc hsem =>
      refine ⟨⟨heven, hnext, ?_, ?_, ?_⟩, Or.inl rfl, rfl⟩ <;>
        grind [Core.Sending, Core.Fresh, Core.endBurst, client]

theorem ServerOk.step {c c' : Core} {out : Option (Chan × Nat)} {other : Nat} (h : ServerOk c)
    (hup : c.in1.data ≤ other) (hdown : other ≤ c.value + 1) (hdoes : c.Does server c' out) :
    ServerOk c' ∧ (c'.value = c.value ∨ c'.value = c.value + 2 ∨ c.value = 0 ∧ c'.value = 1) ∧
      c'.in1.data = c.in1.data := by
  obtain ⟨hodd, hnext, hfresh, hsends, heven, hbelow⟩ := h
  cases hdoes with
  | read1 hpc =>
      have hwrap : (c.in1.data + 1) % 0x100000000 = c.in1.data + 1 := Nat.mod_eq_of_lt (by omega)
      have hnew : (c.in1.data + 1) % 2 = 1 := by omega
      rw [hwrap]
      refine ⟨⟨Or.inl hnew, Nat.le_refl _, fun _ => rfl, fun _ => hnew, heven, hbelow⟩, ?_, rfl⟩
      dsimp only
      omega
  | check hpc =>
      refine ⟨⟨hodd, hnext, fun _ => hfresh (Or.inl hpc), ?_, heven, hbelow⟩, Or.inl rfl, rfl⟩
      grind [Core.Sending, server]
  | put0 hpc | put1 hpc | fail0 hpc | fail1 hpc | full hpc | take0 hpc hsem | read0 hpc
  | take1 hpc hsem =>
      refine ⟨⟨hodd, hnext, ?_, ?_, heven, hbelow⟩, Or.inl rfl, rfl⟩ <;>
        grind [Core.Sending, Core.Fresh, Core.endBurst, server]

/-- What a core puts on its channels is the value of its burst. -/
theorem Core.Does.out {p : Program} {c c' : Core} {out : Option (Chan × Nat)} (h : c.Does p c' out)
    (hfresh : c.Fresh → c.message = c.value) :
    out = none ∨ c.Sending ∧ c'.value = c.value ∧ ∃ ch, out = some (ch, c.value) := by
  cases h with
  | put0 hpc => exact Or.inr ⟨Or.inl hpc, rfl, .zero, by rw [hfresh (Or.inr (Or.inl hpc))]⟩
  | put1 hpc => exact Or.inr ⟨Or.inr hpc, rfl, .one, by rw [hfresh (Or.inr (Or.inr hpc))]⟩
  | _ => exact Or.inl rfl

theorem Wires.put_ascending {w : Wires} {data sent sent' : Nat} {out : Option (Chan × Nat)}
    (h : Ascending data w.w1 sent) (hle : sent ≤ sent')
    (hout : out = none ∨ ∃ ch, out = some (ch, sent)) :
    Ascending data (w.put out).w1 sent' := by
  rcases hout with rfl | ⟨ch, rfl⟩
  · exact h.raise hle
  · cases ch with
    | zero => exact h.raise hle
    | one => exact h.put.raise hle

/-- A message on either channel. -/
def Wires.Carries (w : Wires) (v : Nat) : Prop := v ∈ w.w0 ∨ v ∈ w.w1

theorem Wires.carries_put {w : Wires} {sent v : Nat} {out : Option (Chan × Nat)}
    (hout : out = none ∨ ∃ ch, out = some (ch, sent)) (hv : (w.put out).Carries v) :
    w.Carries v ∨ v = sent ∧ out ≠ none := by
  rcases hout with rfl | ⟨ch, rfl⟩
  · exact Or.inl hv
  · have hsent : v ∈ [sent] → w.Carries v ∨ v = sent ∧ some (ch, sent) ≠ none :=
      fun h => Or.inr ⟨List.mem_singleton.mp h, Option.some_ne_none _⟩
    cases ch with
    | zero =>
        rcases hv with hv | hv
        · exact (List.mem_append.mp hv).elim (fun h => Or.inl (Or.inl h)) hsent
        · exact Or.inl (Or.inr hv)
    | one =>
        rcases hv with hv | hv
        · exact Or.inl (Or.inl hv)
        · exact (List.mem_append.mp hv).elim (fun h => Or.inl (Or.inr h)) hsent

theorem deliver_cases {size : Mtu} {c c' : Core} {w w' : Wires} {ch : Chan}
    (h : deliver size c w ch = some (c', w')) :
    (∃ v rest, w.w0 = v :: rest ∧ c' = { c with in0 := callback size c.in0 v } ∧
      w' = ⟨rest, w.w1⟩) ∨
      ∃ v rest, w.w1 = v :: rest ∧ c' = { c with in1 := callback size c.in1 v } ∧
      w' = ⟨w.w0, rest⟩ := by
  cases ch with
  | zero =>
      cases hw : w.w0 with
      | nil =>
          rw [deliver, hw] at h
          cases h
      | cons v rest =>
          rw [deliver, hw] at h
          cases h
          exact Or.inl ⟨v, rest, rfl, rfl, rfl⟩
  | one =>
      cases hw : w.w1 with
      | nil =>
          rw [deliver, hw] at h
          cases h
      | cons v rest =>
          rw [deliver, hw] at h
          cases h
          exact Or.inr ⟨v, rest, rfl, rfl, rfl⟩

theorem ClientOk.receive {c : Core} (h : ClientOk c) {v : Nat} (hle : c.in1.data ≤ v)
    (hodd : v % 2 = 1) :
    ClientOk { c with in1 := ⟨v, true⟩ } :=
  ⟨h.even, Nat.le_trans h.next (Nat.succ_le_succ hle), h.fresh, h.below, fun _ => hodd⟩

theorem ServerOk.receive {c : Core} (h : ServerOk c) {v : Nat} (hle : c.in1.data ≤ v)
    (heven : v % 2 = 0) (hlow : v < 100) : ServerOk { c with in1 := ⟨v, true⟩ } :=
  ⟨h.odd, Nat.le_trans h.next (Nat.succ_le_succ hle), h.fresh, h.sends, heven, hlow⟩

/-- The two programs in step. -/
structure Lockstep (n : Net) : Prop where
  client : ClientOk n.client
  server : ServerOk n.server
  toServer : Ascending n.server.in1.data n.toServer.w1 n.client.value
  toClient : Ascending n.client.in1.data n.toClient.w1 n.server.value
  evens : ∀ v, n.toServer.Carries v → v % 2 = 0 ∧ v < 100
  odds : ∀ v, n.toClient.Carries v → v % 2 = 1 ∧ v < 100

theorem Core.not_sending_start : ¬ Core.start.Sending := by
  rintro (h | h) <;> cases h

theorem Lockstep.start : Lockstep Net.start where
  client := by
    refine ⟨rfl, Nat.zero_le _, fun _ => rfl, fun h => absurd h Core.not_sending_start, ?_⟩
    rintro (h | h) <;> cases h
  server := ⟨Or.inr rfl, Nat.zero_le _, fun _ => rfl, fun h => absurd h Core.not_sending_start,
    rfl, by decide⟩
  toServer := by
    unfold Ascending
    decide
  toClient := by
    unfold Ascending
    decide
  evens v hv := hv.elim (absurd · List.not_mem_nil) (absurd · List.not_mem_nil)
  odds v hv := hv.elim (absurd · List.not_mem_nil) (absurd · List.not_mem_nil)

section Step

variable {size : Mtu} {n n' : Net} {a : Act}

/-- The bounds that the chain around the two cores gives. -/
theorem Lockstep.bounds (h : Lockstep n) :
    n.client.value ≤ n.server.value + 1 ∧ n.server.value ≤ n.client.value + 1 ∧
      n.client.value ≤ 100 ∧
      n.server.value ≤ 99 ∧ n.client.in1.data ≤ n.server.value ∧
      n.server.in1.data ≤ n.client.value := by
  have hc := h.client.next
  have heven := h.client.even
  have hs := h.server.next
  have hsparity := h.server.odd
  have hlow := h.server.below
  have hdown := h.toServer.le
  have hup := h.toClient.le
  have hdata := h.server.even
  omega

/-- From one step to the next a value stays or goes on to the next one of its core. -/
def Advances (n n' : Net) : Prop :=
  (n'.client.value = n.client.value ∨ n'.client.value = n.client.value + 2) ∧
    (n'.server.value = n.server.value ∨ n'.server.value = n.server.value + 2 ∨
      n.server.value = 0 ∧ n'.server.value = 1)

theorem Lockstep.step (h : Lockstep n) (hstep : n.step size a = some n') :
    Lockstep n' ∧ Advances n n' := by
  obtain ⟨hcs, hsc, hcmax, hsmax, hcdata, hsdata⟩ := h.bounds
  cases a with
  | client res =>
      obtain ⟨⟨c', out⟩, hcore, rfl⟩ := Option.map_eq_some_iff.mp hstep
      have hdoes := Core.does_of_step hcore
      obtain ⟨hclient, hvalue, hdata⟩ := h.client.step hcdata hsc (by omega) hdoes
      have hout := hdoes.out h.client.fresh
      have hsent := hout.imp_right fun h => h.2.2
      have hle : n.client.value ≤ c'.value := by omega
      refine ⟨⟨hclient, h.server, ?_, ?_, ?_, h.odds⟩, hvalue, Or.inl rfl⟩
      · exact Wires.put_ascending h.toServer hle hsent
      · exact hdata ▸ h.toClient
      · intro v hv
        rcases Wires.carries_put hsent hv with hold | ⟨rfl, hsome⟩
        · exact h.evens v hold
        · exact ⟨h.client.even, h.client.below (hout.resolve_left hsome).1⟩
  | server res =>
      obtain ⟨⟨c', out⟩, hcore, rfl⟩ := Option.map_eq_some_iff.mp hstep
      have hdoes := Core.does_of_step hcore
      obtain ⟨hserver, hvalue, hdata⟩ := h.server.step hsdata hcs hdoes
      have hout := hdoes.out h.server.fresh
      have hsent := hout.imp_right fun h => h.2.2
      have hle : n.server.value ≤ c'.value := by omega
      refine ⟨⟨h.client, hserver, ?_, ?_, h.evens, ?_⟩, Or.inl rfl, hvalue⟩
      · exact hdata ▸ h.toServer
      · exact Wires.put_ascending h.toClient hle hsent
      · intro v hv
        rcases Wires.carries_put hsent hv with hold | ⟨rfl, hsome⟩
        · exact h.odds v hold
        · exact ⟨h.server.sends (hout.resolve_left hsome).1, by omega⟩
  | toServer ch =>
      obtain ⟨⟨c', w'⟩, hdel, rfl⟩ := Option.map_eq_some_iff.mp hstep
      rcases deliver_cases hdel with ⟨v, rest, hw, rfl, rfl⟩ | ⟨v, rest, hw, rfl, rfl⟩
      · have hserver : ServerOk { n.server with in0 := callback size n.server.in0 v } :=
          ⟨h.server.odd, h.server.next, h.server.fresh, h.server.sends, h.server.even,
            h.server.below⟩
        have hmem : ∀ x, (⟨rest, n.toServer.w1⟩ : Wires).Carries x → x % 2 = 0 ∧ x < 100 :=
          fun x hx => h.evens x (hx.imp_left fun hx => hw ▸ List.mem_cons_of_mem v hx)
        exact ⟨⟨h.client, hserver, h.toServer, h.toClient, hmem, h.odds⟩, Or.inl rfl, Or.inl rfl⟩
      · have hasc := h.toServer
        rw [hw] at hasc
        have hv := h.evens v (Or.inr (hw ▸ List.mem_cons_self))
        have hmem : ∀ x, (⟨n.toServer.w0, rest⟩ : Wires).Carries x → x % 2 = 0 ∧ x < 100 :=
          fun x hx => h.evens x (hx.imp_right fun hx => hw ▸ List.mem_cons_of_mem v hx)
        have hle : n.server.in1.data ≤ v := List.rel_of_pairwise_cons hasc List.mem_cons_self
        have hcopy : callback size n.server.in1 v = ⟨v, true⟩ := by
          rw [callback, memcpy_of_lt (by omega) (by omega)]
        rw [hcopy]
        exact ⟨⟨h.client, h.server.receive hle hv.1 hv.2, hasc.deliver, h.toClient, hmem, h.odds⟩,
          Or.inl rfl, Or.inl rfl⟩
  | toClient ch =>
      obtain ⟨⟨c', w'⟩, hdel, rfl⟩ := Option.map_eq_some_iff.mp hstep
      rcases deliver_cases hdel with ⟨v, rest, hw, rfl, rfl⟩ | ⟨v, rest, hw, rfl, rfl⟩
      · have hclient : ClientOk { n.client with in0 := callback size n.client.in0 v } :=
          ⟨h.client.even, h.client.next, h.client.fresh, h.client.below, h.client.odd⟩
        have hmem : ∀ x, (⟨rest, n.toClient.w1⟩ : Wires).Carries x → x % 2 = 1 ∧ x < 100 :=
          fun x hx => h.odds x (hx.imp_left fun hx => hw ▸ List.mem_cons_of_mem v hx)
        exact ⟨⟨hclient, h.server, h.toServer, h.toClient, h.evens, hmem⟩, Or.inl rfl, Or.inl rfl⟩
      · have hasc := h.toClient
        rw [hw] at hasc
        have hv := h.odds v (Or.inr (hw ▸ List.mem_cons_self))
        have hmem : ∀ x, (⟨n.toClient.w0, rest⟩ : Wires).Carries x → x % 2 = 1 ∧ x < 100 :=
          fun x hx => h.odds x (hx.imp_right fun hx => hw ▸ List.mem_cons_of_mem v hx)
        have hle : n.client.in1.data ≤ v := List.rel_of_pairwise_cons hasc List.mem_cons_self
        have hmax : v ≤ n.server.value := hasc.deliver.le
        have hcopy : callback size n.client.in1 v = ⟨v, true⟩ := by
          rw [callback, memcpy_of_lt (by omega) (by omega)]
        rw [hcopy]
        exact ⟨⟨h.client.receive hle hv.1, h.server, h.toServer, hasc.deliver, h.evens, hmem⟩,
          Or.inl rfl, Or.inl rfl⟩

end Step

theorem Run.lockstep {size : Mtu} {ok : Net → Act → Prop} {k : Nat} {n : Net}
    (h : Run size ok k n) : Lockstep n := by
  induction h with
  | start => exact Lockstep.start
  | step _ _ hstep ih => exact (ih.step hstep).1

/-- In every interleaving the main core's values are the even ones up to 100, the remote core's
the odd ones up to 99, on the wires as at their ends; neither core is more than one ahead of the
other, none goes back and none leaves a value out. -/
theorem pingpong_lockstep (size : Mtu) (k : Nat) (n : Net) (h : Run size (fun _ _ => True) k n) :
    (n.client.value % 2 = 0 ∧ n.client.value ≤ 100) ∧
      ((n.server.value % 2 = 1 ∨ n.server.value = 0) ∧ n.server.value ≤ 99) ∧
      (n.client.value ≤ n.server.value + 1 ∧ n.server.value ≤ n.client.value + 1) ∧
      (∀ v, n.toServer.Carries v → v % 2 = 0 ∧ v < 100) ∧
      (∀ v, n.toClient.Carries v → v % 2 = 1 ∧ v < 100) ∧
      ∀ a n', n.step size a = some n' → Advances n n' := by
  have hlock := h.lockstep
  obtain ⟨hcs, hsc, hcmax, hsmax, -, -⟩ := hlock.bounds
  exact ⟨⟨hlock.client.even, hcmax⟩, ⟨hlock.server.odd, hsmax⟩, ⟨hcs, hsc⟩, hlock.evens, hlock.odds,
    fun a n' hstep => (hlock.step hstep).2⟩

def fourOctets : Mtu := ⟨4, by decide, by decide⟩

/-- The main core has sent 0 once on each channel and waits. -/
def firstBurst : Net :=
  ⟨⟨.take0, 0, ⟨0, false⟩, ⟨0, false⟩, 0, 0, 0, 0⟩, Core.start, ⟨[0], [0]⟩, ⟨[], []⟩⟩

theorem pingpong_lockstep_firstBurst :
    (firstBurst.client.value % 2 = 0 ∧ firstBurst.client.value ≤ 100) ∧
      ((firstBurst.server.value % 2 = 1 ∨ firstBurst.server.value = 0) ∧
        firstBurst.server.value ≤ 99) ∧
      (firstBurst.client.value ≤ firstBurst.server.value + 1 ∧
        firstBurst.server.value ≤ firstBurst.client.value + 1) ∧
      (∀ v, firstBurst.toServer.Carries v → v % 2 = 0 ∧ v < 100) ∧
      (∀ v, firstBurst.toClient.Carries v → v % 2 = 1 ∧ v < 100) ∧
      ∀ a n', firstBurst.step fourOctets a = some n' → Advances firstBurst n' := by
  apply pingpong_lockstep fourOctets 4 firstBurst
  exact .step (a := .client .full)
    (.step (a := .client .ok) (.step (a := .client .ok) (.step (a := .client .ok) .start
    trivial rfl) trivial rfl) trivial rfl) trivial rfl

end LinkedsemiZephyr.Mailbox
