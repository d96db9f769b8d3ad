import Mathlib.Algebra.GroupWithZero.Nat
import Mathlib.Order.Monotone.Basic
import LinkedsemiZephyr.Mailbox.PingPong

/-! The two cores come to their end: no run goes on for ever when the bursts are bounded, and
none is stuck before the remote core is done when every burst gets through on both channels. -/
namespace LinkedsemiZephyr.Mailbox

/-- `mbox_send_dt` is called at most `B` times in a burst. -/
def Core.Bounded (B : Nat) (c : Core) (res : Sent) : Prop := c.Sending → res = .full ∨ c.calls < B

/-- A burst that ends has put a message on each channel. -/
def Core.Through (c : Core) (res : Sent) : Prop := c.Sending → res = .full → 0 < c.put0 ∧ 0 < c.put1

def Bounded (B : Nat) (n : Net) : Act → Prop
  | .client res => n.client.Bounded B res
  | .server res => n.server.Bounded B res
  | .toServer _ | .toClient _ => True

def Through (n : Net) : Act → Prop
  | .client res => n.client.Through res
  | .server res => n.server.Through res
  | .toServer _ | .toClient _ => True

section Measure

variable (B : Nat)

/-- What is still to be done for a number read that is so far from 100: the burst of the next
number, each message of it read again at the other end. -/
def cost : Nat → Nat
  | 0 => 6
  | n + 1 => B * (cost n + 5) + 6

theorem cost_mono : Monotone (cost B) := by
  apply monotone_nat_of_le_succ
  intro n
  induction n with
  | zero => exact Nat.le_add_left 6 _
  | succ n ih => exact Nat.add_le_add_right (Nat.mul_le_mul_left B (Nat.add_le_add_right ih 5)) 6

/-- The same of the number itself. -/
def read (v : Nat) : Nat := cost B (100 - v)

theorem read_le {v v' : Nat} (h : v ≤ v') : read B v' ≤ read B v :=
  cost_mono B (Nat.sub_le_sub_left h 100)

theorem read_eq {v : Nat} (h : v < 100) : read B v = B * (read B (v + 1) + 5) + 6 := by
  have hsub : 100 - v = 100 - (v + 1) + 1 := by omega
  rw [read, hsub, cost]
  rfl

def Wires.load (w : Wires) : Nat := 2 * w.w0.length + (w.w1.map fun v => read B v + 2).sum

/-- What is to be done at a place of `main`. -/
def Core.pcLoad (p : Program) (c : Core) : Nat :=
  match c.pc with
  | .check => if p.enter = .send0 then B * (read B c.value + 5) + 6 else 4
  | .send0 | .send1 => (B - c.calls) * (read B c.value + 5) + 5
  | .take0 => 3
  | .read0 => 2
  | .take1 => 1
  | .read1 => read B c.in1.data + 1
  | .ended => 0

def Core.load (p : Program) (c : Core) : Nat :=
  c.pcLoad B p + (if c.in0.sem then 1 else 0) + if c.in1.sem then read B c.in1.data + 1 else 0

theorem Wires.load_zero (w : Wires) (v : Nat) :
    (w.put (some (.zero, v))).load B = w.load B + 2 := by
  rw [Wires.load, Wires.load, Wires.put]
  simp only [List.length_append, List.length_singleton]
  omega

theorem Wires.load_one (w : Wires) (v : Nat) :
    (w.put (some (.one, v))).load B = w.load B + (read B v + 2) := by
  rw [Wires.load, Wires.load, Wires.put, List.map_append, List.sum_append, List.map_singleton,
    List.sum_singleton]
  exact (Nat.add_assoc _ _ _).symm

variable {B} {p : Program} {c c' : Core} {res : Sent} {out : Option (Chan × Nat)}

theorem Core.calls_lt (hp : p = client ∨ p = server) (hstep : c.step p res = some (c', out))
    (hB : c.Bounded B res) (hs : c.Sending) (hs' : c'.Sending) : c.calls < B := by
  refine (hB hs).resolve_left ?_
  rintro rfl
  have hend : c' = c.endBurst p.afterBurst := by
    unfold Core.step at hstep
    rcases hs with hpc | hpc
    · rw [hpc] at hstep
      cases hstep
      rfl
    · rw [hpc] at hstep
      cases hstep
      rfl
  subst hend
  rcases hp with rfl | rfl
  · rcases hs' with h | h <;> cases h
  · rcases hs' with h | h <;> cases h

/-- One call of a burst pays for its message. -/
theorem burst_call {k x : Nat} (h : k < B) : (B - (k + 1)) * x + x = (B - k) * x := by
  have hsub : B - k = B - (k + 1) + 1 := by omega
  rw [hsub, Nat.succ_mul]

theorem Core.Does.load_lt (hp : p = client ∨ p = server) (hdoes : c.Does p c' out)
    (hfresh : c.Fresh → c.message = c.value) (hdata : c.in1.data < 100)
    (hcalls : c.Sending → c'.Sending → c.calls < B) (w : Wires) :
    (w.put out).load B + c'.load B p < w.load B + c.load B p := by
  cases hdoes with
  | check hpc =>
      have hmost : (B - c.calls) * (read B c.value + 5) ≤ B * (read B c.value + 5) :=
        Nat.mul_le_mul_right _ (Nat.sub_le B _)
      rw [Wires.put, Core.load, Core.load, Core.pcLoad, Core.pcLoad, hpc]
      dsimp only
      by_cases hlt : c.message < p.limit
      · rw [if_pos hlt]
        rcases hp with rfl | rfl
        · have henter : client.enter = .send0 := rfl
          rw [henter, if_pos rfl]
          dsimp only
          omega
        · have henter : server.enter = .take0 := rfl
          have hother : Pc.take0 ≠ .send0 := Pc.noConfusion
          rw [henter, if_neg hother]
          dsimp only
          omega
      · rw [if_neg hlt]
        dsimp only
        split_ifs <;> omega
  | put0 hpc =>
      have hcall := burst_call (x := read B c.value + 5) (hcalls (Or.inl hpc) (Or.inr rfl))
      rw [Wires.load_zero, Core.load, Core.load, Core.pcLoad, Core.pcLoad, hpc]
      dsimp only
      omega
  | put1 hpc =>
      have hcall := burst_call (x := read B c.value + 5) (hcalls (Or.inr hpc) (Or.inl rfl))
      rw [Wires.load_one, hfresh (Or.inr (Or.inr hpc)), Core.load, Core.load, Core.pcLoad,
        Core.pcLoad, hpc]
      dsimp only
      omega
  | fail0 hpc =>
      have hcall := burst_call (x := read B c.value + 5) (hcalls (Or.inl hpc) (Or.inr rfl))
      rw [Wires.put, Core.load, Core.load, Core.pcLoad, Core.pcLoad, hpc]
      dsimp only
      omega
  | fail1 hpc =>
      have hcall := burst_call (x := read B c.value + 5) (hcalls (Or.inr hpc) (Or.inl rfl))
      rw [Wires.put, Core.load, Core.load, Core.pcLoad, Core.pcLoad, hpc]
      dsimp only
      omega
  | full hpc =>
      have hburst : c.pcLoad B p = (B - c.calls) * (read B c.value + 5) + 5 := by
        rw [Core.pcLoad]
        rcases hpc with hpc | hpc <;> rw [hpc]
      have hafter : (c.endBurst p.afterBurst).pcLoad B p ≤ 4 := by
        rcases hp with rfl | rfl
        · exact Nat.le_succ 3
        · exact Nat.le_refl 4
      have hsame : (c.endBurst p.afterBurst).load B p + c.pcLoad B p =
          (c.endBurst p.afterBurst).pcLoad B p + c.load B p := by
        rw [Core.load, Core.load, Core.endBurst]
        dsimp only
        omega
      rw [Wires.put]
      omega
  | take0 hpc hsem =>
      rw [Wires.put, Core.load, Core.load, Core.pcLoad, Core.pcLoad, hpc, if_pos hsem]
      dsimp only
      rw [if_neg Bool.false_ne_true]
      omega
  | read0 hpc =>
      rw [Wires.put, Core.load, Core.load, Core.pcLoad, Core.pcLoad, hpc]
      dsimp only
      omega
  | take1 hpc hsem =>
      rw [Wires.put, Core.load, Core.load, Core.pcLoad, Core.pcLoad, hpc,
        if_pos (c := c.in1.sem = true) hsem]
      dsimp only
      rw [if_neg (c := false = true) Bool.false_ne_true]
      omega
  | read1 hpc =>
      have hwrap : (c.in1.data + 1) % 0x100000000 = c.in1.data + 1 := Nat.mod_eq_of_lt (by omega)
      have hmost : (B - c.calls) * (read B (c.in1.data + 1) + 5) ≤
          B * (read B (c.in1.data + 1) + 5) :=
        Nat.mul_le_mul_right _ (Nat.sub_le B _)
      have hread := read_eq B hdata
      rw [Wires.put, Core.load, Core.load, Core.pcLoad, Core.pcLoad, hpc, hwrap]
      rcases hp with rfl | rfl
      · rw [client]
        dsimp only
        rw [if_pos rfl]
        omega
      · rw [server]
        dsimp only
        omega

/-- A delivery on channel 1 brings a number not under the one it replaces. -/
theorem deliver_load_lt {size : Mtu} {w w' : Wires} {ch : Chan} {sent : Nat}
    (hdel : deliver size c w ch = some (c', w')) (hasc : Ascending c.in1.data w.w1 sent)
    (hsent : sent < 256) :
    w'.load B + c'.load B p < w.load B + c.load B p := by
  rcases deliver_cases hdel with ⟨v, rest, hw, rfl, rfl⟩ | ⟨v, rest, hw, rfl, rfl⟩
  · rw [Wires.load, Wires.load, hw, List.length_cons, Core.load, Core.load, Core.pcLoad,
      Core.pcLoad, callback]
    dsimp only
    rw [if_pos rfl]
    omega
  · rw [hw] at hasc
    have hle : c.in1.data ≤ v := List.rel_of_pairwise_cons hasc List.mem_cons_self
    have hmax : v ≤ sent := hasc.deliver.le
    have hread := read_le B hle
    have hcopy : callback size c.in1 v = ⟨v, true⟩ := by
      rw [callback, memcpy_of_lt (by omega) (by omega)]
    have hpc : ({ c with in1 := ⟨v, true⟩ } : Core).pcLoad B p ≤ c.pcLoad B p := by
      rw [Core.pcLoad, Core.pcLoad]
      dsimp only
      cases c.pc with
      | read1 => exact Nat.succ_le_succ hread
      | _ => exact Nat.le_refl _
    rw [hcopy, Wires.load, Wires.load, hw, List.map_cons, List.sum_cons, Core.load, Core.load]
    dsimp only
    rw [if_pos rfl]
    omega

def Net.load (B : Nat) (n : Net) : Nat :=
  n.toServer.load B + n.client.load B Mailbox.client +
    (n.toClient.load B + n.server.load B Mailbox.server)

theorem Net.step_load_lt {size : Mtu} {n n' : Net} {a : Act} (hlock : Lockstep n)
    (hB : Bounded B n a) (hstep : n.step size a = some n') : n'.load B < n.load B := by
  obtain ⟨-, -, hcmax, hsmax, hcdata, hsdata⟩ := hlock.bounds
  have hlow := hlock.server.below
  cases a with
  | client res =>
      obtain ⟨⟨c', out⟩, hcore, rfl⟩ := Option.map_eq_some_iff.mp hstep
      have hlt := (Core.does_of_step hcore).load_lt (Or.inl rfl) hlock.client.fresh (by omega)
        (Core.calls_lt (Or.inl rfl) hcore hB) n.toServer
      exact Nat.add_lt_add_right hlt _
  | server res =>
      obtain ⟨⟨c', out⟩, hcore, rfl⟩ := Option.map_eq_some_iff.mp hstep
      have hlt := (Core.does_of_step hcore).load_lt (Or.inr rfl) hlock.server.fresh hlow
        (Core.calls_lt (Or.inr rfl) hcore hB) n.toClient
      exact Nat.add_lt_add_left hlt _
  | toServer ch =>
      obtain ⟨⟨c', w'⟩, hdel, rfl⟩ := Option.map_eq_some_iff.mp hstep
      have hlt := deliver_load_lt (B := B) (p := Mailbox.server) hdel hlock.toServer (by omega)
      rw [Net.load, Net.load]
      dsimp only
      omega
  | toClient ch =>
      obtain ⟨⟨c', w'⟩, hdel, rfl⟩ := Option.map_eq_some_iff.mp hstep
      have hlt := deliver_load_lt (B := B) (p := Mailbox.client) hdel hlock.toClient (by omega)
      rw [Net.load, Net.load]
      dsimp only
      omega

/-- The most steps of a run with bursts of at most `B` calls. -/
def stepBound (B : Nat) : Nat := B * (read B 0 + 5) + 10

theorem Net.start_load (B : Nat) : Net.start.load B = stepBound B := by
  have hclient : Core.start.load B Mailbox.client = B * (read B 0 + 5) + 6 := by
    simp only [Core.load, Core.pcLoad, Core.start, Mailbox.client, if_true, Bool.false_eq_true,
      if_false, Nat.add_zero]
  have hserver : Core.start.load B Mailbox.server = 4 := rfl
  have hwires : (⟨[], []⟩ : Wires).load B = 0 := rfl
  rw [Net.load, Net.start, hclient, hserver, hwires, stepBound]
  omega

theorem Run.length_le {size : Mtu} {ok : Net → Act → Prop} {k : Nat} {n : Net} (h : Run size ok k n)
    (hB : ∀ n a, ok n a → Bounded B n a) : k + n.load B ≤ stepBound B := by
  induction h with
  | start => exact Nat.le_of_eq ((Nat.zero_add _).trans (Net.start_load B))
  | step hrun hok hstep ih =>
      have hlt := Net.step_load_lt hrun.lockstep (hB _ _ hok) hstep
      omega

end Measure

/-- Where a core stands against its bound, and that its counters are those of a burst. -/
structure Core.Placed (p : Program) (c : Core) : Prop where
  ended : c.pc = .ended → p.limit ≤ c.value
  inRound : c.pc = .take0 ∨ c.pc = .read0 ∨ c.pc = .take1 ∨ c.pc = .read1 → c.value < p.limit
  quiet : ¬ c.Sending → c.put0 = 0 ∧ c.put1 = 0

theorem ClientOk.placed {c c' : Core} {out : Option (Chan × Nat)} (h : ClientOk c)
    (hplaced : c.Placed client) (hdoes : c.Does client c' out) : c'.Placed client := by
  obtain ⟨-, -, hfresh, hbelow, -⟩ := h
  obtain ⟨hended, hround, hquiet⟩ := hplaced
  cases hdoes <;> constructor <;> grind [Core.Sending, Core.Fresh, Core.endBurst, client]

theorem ServerOk.placed {c c' : Core} {out : Option (Chan × Nat)} (h : ServerOk c)
    (hplaced : c.Placed server) (hdoes : c.Does server c' out) : c'.Placed server := by
  obtain ⟨-, -, hfresh, -, -, -⟩ := h
  obtain ⟨hended, hround, hquiet⟩ := hplaced
  cases hdoes <;> constructor <;> grind [Core.Sending, Core.Fresh, Core.endBurst, server]

section Cycle

def Core.inbox (c : Core) : Chan → Inbox
  | .zero => c.in0
  | .one => c.in1

def Core.put (c : Core) : Chan → Nat
  | .zero => c.put0
  | .one => c.put1

def Wires.on (w : Wires) : Chan → List Nat
  | .zero => w.w0
  | .one => w.w1

/-- A core has a channel to take, on its way or come in. -/
def Available (w : Wires) (c : Core) (ch : Chan) : Prop := w.on ch ≠ [] ∨ (c.inbox ch).sem = true

/-- The places behind the reception of a channel in a round; the main core's first round begins
with its burst. -/
def Pc.Took (p : Program) : Pc → Chan → Prop
  | .read0, .zero | .take1, .zero | .read1, _ | .send0, _ | .send1, _ => True
  | .check, _ => p.enter = .send0
  | _, _ => False

/-- It has taken one channel and not yet put anything on the other core's. -/
def Core.Owes (p : Program) (c : Core) (i j : Chan) : Prop := c.pc.Took p i ∧ c.put j = 0

theorem Wires.on_put {w : Wires} {out : Option (Chan × Nat)} {ch : Chan} (h : w.on ch ≠ []) :
    (w.put out).on ch ≠ [] := by
  rcases out with _ | ⟨_ | _, v⟩ <;> cases ch <;>
    first | exact h | exact List.append_ne_nil_of_left_ne_nil h [v]

theorem Core.through_of_step {p : Program} {c c' : Core} {res : Sent} {out : Option (Chan × Nat)}
    (hstep : c.step p res = some (c', out)) (hthrough : c.Through res) (hs : c.Sending)
    (hs' : ¬ c'.Sending) :
    0 < c.put0 ∧ 0 < c.put1 := by
  apply hthrough hs
  by_contra hne
  apply hs'
  unfold Core.step at hstep
  rcases hs with hpc | hpc
  · rw [hpc] at hstep
    cases res with
    | full => exact absurd rfl hne
    | ok | failed =>
        cases hstep
        exact Or.inr rfl
  · rw [hpc] at hstep
    cases res with
    | full => exact absurd rfl hne
    | ok | failed =>
        cases hstep
        exact Or.inl rfl

theorem Core.put_quiet {c : Core} (h : c.put0 = 0 ∧ c.put1 = 0) (ch : Chan) : c.put ch = 0 := by
  cases ch with
  | zero => exact h.1
  | one => exact h.2

/-- What is to be taken or answered on a channel stays so until it is answered. -/
theorem Core.Does.answers {p : Program} {c c' : Core} {out : Option (Chan × Nat)}
    (hp : p = client ∨ p = server) (hdoes : c.Does p c' out)
    (hquiet : ¬ c.Sending → c.put0 = 0 ∧ c.put1 = 0)
    (hthrough : c.Sending → ¬ c'.Sending → 0 < c.put0 ∧ 0 < c.put1) (wout : Wires) {w : Wires}
    {i j : Chan} (h : Available w c i ∨ c.Owes p i j) :
    c'.pc = .ended ∨ (Available w c' i ∨ c'.Owes p i j) ∨ (wout.put out).on j ≠ [] := by
  cases hdoes with
  | check hpc =>
      rcases h with h | ⟨htook, hput⟩
      · exact Or.inr (Or.inl (Or.inl h))
      · rw [hpc] at htook
        by_cases hlt : c.message < p.limit
        · refine Or.inr (Or.inl (Or.inr ⟨?_, hput⟩))
          dsimp only
          rw [if_pos hlt, show p.enter = .send0 from htook]
          trivial
        · exact Or.inl (if_neg hlt)
  | put0 hpc =>
      rcases h with h | ⟨-, hput⟩
      · exact Or.inr (Or.inl (Or.inl h))
      · cases j with
        | zero =>
            exact Or.inr (Or.inr (List.append_ne_nil_of_right_ne_nil _ (List.cons_ne_nil _ _)))
        | one => exact Or.inr (Or.inl (Or.inr ⟨trivial, hput⟩))
  | put1 hpc =>
      rcases h with h | ⟨-, hput⟩
      · exact Or.inr (Or.inl (Or.inl h))
      · cases j with
        | zero => exact Or.inr (Or.inl (Or.inr ⟨trivial, hput⟩))
        | one => exact Or.inr (Or.inr (List.append_ne_nil_of_right_ne_nil _ (List.cons_ne_nil _ _)))
  | fail0 hpc | fail1 hpc => exact Or.inr (Or.inl (h.imp_right fun h => ⟨trivial, h.2⟩))
  | full hpc =>
      have hleft : ¬ (c.endBurst p.afterBurst).Sending := by
        rcases hp with rfl | rfl <;> rintro (h | h) <;> cases h
      obtain ⟨h0, h1⟩ := hthrough hpc hleft
      rcases h with h | ⟨-, hput⟩
      · exact Or.inr (Or.inl (Or.inl h))
      · cases j with
        | zero => exact absurd hput (Nat.ne_of_gt h0)
        | one => exact absurd hput (Nat.ne_of_gt h1)
  | take0 hpc hsem =>
      have hidle : ¬ c.Sending := by
        rintro (h | h) <;> cases hpc.symm.trans h
      cases i with
      | zero => exact Or.inr (Or.inl (Or.inr ⟨trivial, Core.put_quiet (hquiet hidle) j⟩))
      | one =>
          rcases h with h | ⟨htook, -⟩
          · exact Or.inr (Or.inl (Or.inl h))
          · rw [hpc] at htook
            exact htook.elim
  | read0 hpc =>
      rcases h with h | ⟨htook, hput⟩
      · exact Or.inr (Or.inl (Or.inl h))
      · rw [hpc] at htook
        cases i with
        | zero => exact Or.inr (Or.inl (Or.inr ⟨trivial, hput⟩))
        | one => exact htook.elim
  | take1 hpc hsem =>
      have hidle : ¬ c.Sending := by
        rintro (h | h) <;> cases hpc.symm.trans h
      cases i with
      | zero => exact Or.inr (Or.inl (h.imp_right fun h => ⟨trivial, h.2⟩))
      | one => exact Or.inr (Or.inl (Or.inr ⟨trivial, Core.put_quiet (hquiet hidle) j⟩))
  | read1 hpc =>
      have hafter : Pc.Took p p.afterRead i := by
        rcases hp with rfl | rfl
        · exact rfl
        · exact trivial
      exact Or.inr (Or.inl (h.imp_right fun h => ⟨hafter, h.2⟩))

theorem deliver_available {size : Mtu} {c c' : Core} {w w' : Wires} {ch i : Chan}
    (hdel : deliver size c w ch = some (c', w')) (h : Available w c i) : Available w' c' i := by
  rcases deliver_cases hdel with ⟨v, rest, hw, rfl, rfl⟩ | ⟨v, rest, hw, rfl, rfl⟩
  · cases i with
    | zero => exact Or.inr rfl
    | one => exact h
  · cases i with
    | zero => exact h
    | one => exact Or.inr rfl

theorem deliver_owes {size : Mtu} {p : Program} {c c' : Core} {w w' : Wires} {ch i j : Chan}
    (hdel : deliver size c w ch = some (c', w')) (h : c.Owes p i j) : c'.Owes p i j := by
  rcases deliver_cases hdel with ⟨v, rest, -, rfl, -⟩ | ⟨v, rest, -, rfl, -⟩ <;> cases j <;> exact h

theorem deliver_placed {size : Mtu} {p : Program} {c c' : Core} {w w' : Wires} {ch : Chan}
    (hdel : deliver size c w ch = some (c', w')) (h : c.Placed p) : c'.Placed p ∧ c'.pc = c.pc := by
  rcases deliver_cases hdel with ⟨v, rest, -, rfl, -⟩ | ⟨v, rest, -, rfl, -⟩ <;>
    exact ⟨⟨h.ended, h.inRound, h.quiet⟩, rfl⟩

/-- On the way round from a channel of the main core's over one of the remote core's there is
something to take or to answer. -/
def Net.Cycle (n : Net) (i j : Chan) : Prop :=
  (Available n.toServer n.server i ∨ n.server.Owes Mailbox.server i j) ∨
    (Available n.toClient n.client j ∨ n.client.Owes Mailbox.client j i)

structure Alive (n : Net) : Prop where
  client : n.client.Placed Mailbox.client
  server : n.server.Placed Mailbox.server
  cycle : n.client.pc = .ended ∨ n.server.pc = .ended ∨ ∀ i j, n.Cycle i j

theorem Core.placed_start (p : Program) : Core.start.Placed p where
  ended h := Pc.noConfusion h
  inRound h := by rcases h with h | h | h | h <;> cases h
  quiet _ := ⟨rfl, rfl⟩

theorem Alive.start : Alive Net.start where
  client := Core.placed_start Mailbox.client
  server := Core.placed_start Mailbox.server
  cycle := Or.inr (Or.inr fun i _ => Or.inr (Or.inr ⟨rfl, Core.put_quiet ⟨rfl, rfl⟩ i⟩))

/-- A core that has ended takes no step. -/
theorem Core.pc_ne_ended {p : Program} {c c' : Core} {out : Option (Chan × Nat)}
    (h : c.Does p c' out) :
    c.pc ≠ .ended := by
  intro hend
  cases h with
  | full hpc => rcases hpc with hpc | hpc <;> cases hpc.symm.trans hend
  | check hpc | put0 hpc | put1 hpc | fail0 hpc | fail1 hpc | take0 hpc _ | read0 hpc | take1 hpc _
  | read1 hpc =>
      cases hpc.symm.trans hend

theorem Alive.step {size : Mtu} {n n' : Net} {a : Act} (h : Alive n) (hlock : Lockstep n)
    (hthrough : Through n a) (hstep : n.step size a = some n') : Alive n' := by
  obtain ⟨hclient, hserver, hcycle⟩ := h
  cases a with
  | client res =>
      obtain ⟨⟨c', out⟩, hcore, rfl⟩ := Option.map_eq_some_iff.mp hstep
      have hdoes := Core.does_of_step hcore
      refine ⟨hlock.client.placed hclient hdoes, hserver, ?_⟩
      rcases hcycle with hend | hend | hcycle
      · exact absurd hend (Core.pc_ne_ended hdoes)
      · exact Or.inr (Or.inl hend)
      · by_cases hend : c'.pc = .ended
        · exact Or.inl hend
        refine Or.inr (Or.inr fun i j => ?_)
        rcases hcycle i j with (havail | howes) | hmine
        · exact Or.inl (Or.inl (havail.imp_left Wires.on_put))
        · exact Or.inl (Or.inr howes)
        · have hanswer :=
            hdoes.answers (Or.inl rfl) hclient.quiet (Core.through_of_step hcore hthrough)
              n.toServer hmine
          rcases hanswer.resolve_left hend with hmine | hput
          · exact Or.inr hmine
          · exact Or.inl (Or.inl (Or.inl hput))
  | server res =>
      obtain ⟨⟨c', out⟩, hcore, rfl⟩ := Option.map_eq_some_iff.mp hstep
      have hdoes := Core.does_of_step hcore
      refine ⟨hclient, hlock.server.placed hserver hdoes, ?_⟩
      rcases hcycle with hend | hend | hcycle
      · exact Or.inl hend
      · exact absurd hend (Core.pc_ne_ended hdoes)
      · by_cases hend : c'.pc = .ended
        · exact Or.inr (Or.inl hend)
        refine Or.inr (Or.inr fun i j => ?_)
        rcases hcycle i j with hmine | (havail | howes)
        · have hanswer :=
            hdoes.answers (Or.inr rfl) hserver.quiet (Core.through_of_step hcore hthrough)
              n.toClient hmine
          rcases hanswer.resolve_left hend with hmine | hput
          · exact Or.inl hmine
          · exact Or.inr (Or.inl (Or.inl hput))
        · exact Or.inr (Or.inl (havail.imp_left Wires.on_put))
        · exact Or.inr (Or.inr howes)
  | toServer ch =>
      obtain ⟨⟨c', w'⟩, hdel, rfl⟩ := Option.map_eq_some_iff.mp hstep
      obtain ⟨hplaced, hpc⟩ := deliver_placed hdel hserver
      refine ⟨hclient, hplaced, ?_⟩
      refine hcycle.imp_right (Or.imp (fun hend => hpc.trans hend) fun hcycle i j => ?_)
      exact (hcycle i j).imp_left (Or.imp (deliver_available hdel) (deliver_owes hdel))
  | toClient ch =>
      obtain ⟨⟨c', w'⟩, hdel, rfl⟩ := Option.map_eq_some_iff.mp hstep
      obtain ⟨hplaced, hpc⟩ := deliver_placed hdel hclient
      refine ⟨hplaced, hserver, ?_⟩
      refine hcycle.imp (fun hend => hpc.trans hend) (Or.imp_right fun hcycle i j => ?_)
      exact (hcycle i j).imp_right (Or.imp (deliver_available hdel) (deliver_owes hdel))

theorem Run.alive {size : Mtu} {ok : Net → Act → Prop} {k : Nat} {n : Net} (h : Run size ok k n)
    (hthrough : ∀ n a, ok n a → Through n a) : Alive n := by
  induction h with
  | start => exact Alive.start
  | step hrun hok hstep ih => exact ih.step hrun.lockstep (hthrough _ _ hok) hstep

end Cycle

/-- No step is left to take. -/
def Stuck (size : Mtu) (n : Net) : Prop := ∀ a, n.step size a = none

/-- A core stands before a semaphore that is not given. -/
def Core.WaitsOn (c : Core) : Chan → Prop
  | .zero => c.pc = .take0 ∧ c.in0.sem = false
  | .one => c.pc = .take1 ∧ c.in1.sem = false

theorem Core.blocked {p : Program} {c : Core} (h : c.step p .full = none) :
    c.pc = .ended ∨ ∃ ch, c.WaitsOn ch := by
  unfold Core.step at h
  cases hpc : c.pc with
  | take0 =>
      rw [hpc] at h
      have hsem : ¬ c.in0.sem =
        true := fun hsem => Option.some_ne_none _ ((if_pos hsem).symm.trans h)
      exact Or.inr ⟨.zero, hpc, Bool.eq_false_iff.mpr hsem⟩
  | take1 =>
      rw [hpc] at h
      have hsem : ¬ c.in1.sem =
        true := fun hsem => Option.some_ne_none _ ((if_pos hsem).symm.trans h)
      exact Or.inr ⟨.one, hpc, Bool.eq_false_iff.mpr hsem⟩
  | ended => exact Or.inl rfl
  | check | send0 | send1 | read0 | read1 =>
      rw [hpc] at h
      cases h

theorem Core.WaitsOn.pc {c : Core} {ch : Chan} (h : c.WaitsOn ch) :
    c.pc = .take0 ∨ c.pc = .take1 := by
  cases ch with
  | zero => exact Or.inl h.1
  | one => exact Or.inr h.1

theorem Core.WaitsOn.below {p : Program} {c : Core} {ch : Chan} (h : c.WaitsOn ch)
    (hplaced : c.Placed p) :
    c.value < p.limit :=
  hplaced.inRound (h.pc.imp_right fun h => Or.inr (Or.inl h))

/-- Nothing is to be taken or answered on the channel it waits for. -/
theorem Core.WaitsOn.idle {p : Program} {c : Core} {w : Wires} {ch j : Chan} (h : c.WaitsOn ch)
    (hw : w.on ch = []) :
    ¬ (Available w c ch ∨ c.Owes p ch j) := by
  rintro ((h' | h') | ⟨h', -⟩)
  · exact h' hw
  · cases ch with
    | zero => exact Bool.false_ne_true (h.2.symm.trans h')
    | one => exact Bool.false_ne_true (h.2.symm.trans h')
  · cases ch with
    | zero =>
        rw [h.1] at h'
        exact h'
    | one =>
        rw [h.1] at h'
        exact h'

theorem deliver_none {size : Mtu} {c : Core} {w : Wires} {ch : Chan}
    (h : deliver size c w ch = none) : w.on ch = [] := by
  cases ch with
  | zero =>
      cases hw : w.w0 with
      | nil => exact hw
      | cons v rest =>
          rw [deliver, hw] at h
          cases h
  | one =>
      cases hw : w.w1 with
      | nil => exact hw
      | cons v rest =>
          rw [deliver, hw] at h
          cases h

theorem Stuck.toServer {size : Mtu} {n : Net} (h : Stuck size n) (ch : Chan) :
    n.toServer.on ch = [] :=
  deliver_none (Option.map_eq_none_iff.mp (h (.toServer ch)))

theorem Stuck.toClient {size : Mtu} {n : Net} (h : Stuck size n) (ch : Chan) :
    n.toClient.on ch = [] :=
  deliver_none (Option.map_eq_none_iff.mp (h (.toClient ch)))

/-- Only the main core is left waiting, for an answer to its last even number. -/
theorem Alive.stuck {size : Mtu} {n : Net} (h : Alive n) (hlock : Lockstep n)
    (hstuck : Stuck size n) :
    (n.server.pc = .ended ∧ n.server.value = 99) ∧
      (n.client.pc = .ended ∧ n.client.value = 100 ∨
        (n.client.pc = .take0 ∨ n.client.pc = .take1) ∧ n.client.value = 98) := by
  obtain ⟨hcs, hsc, hcmax, hsmax, -, -⟩ := hlock.bounds
  have heven := hlock.client.even
  have hclient := Core.blocked (Option.map_eq_none_iff.mp (hstuck (.client .full)))
  have hserver := Core.blocked (Option.map_eq_none_iff.mp (hstuck (.server .full)))
  have hended : n.server.pc = .ended := by
    by_contra hopen
    obtain ⟨i, hwait⟩ := hserver.resolve_left hopen
    have hbelow : n.server.value < 99 := hwait.below h.server
    have hclientOpen : n.client.pc ≠ .ended := by
      intro hend
      have hlimit : 100 ≤ n.client.value := h.client.ended hend
      omega
    obtain ⟨j, hwait'⟩ := hclient.resolve_left hclientOpen
    have hcycle := (h.cycle.resolve_left hclientOpen).resolve_left hopen i j
    exact hcycle.elim (hwait.idle (hstuck.toServer i)) (hwait'.idle (hstuck.toClient j))
  have hlast : 99 ≤ n.server.value := h.server.ended hended
  refine ⟨⟨hended, by omega⟩, ?_⟩
  rcases hclient with hend | ⟨j, hwait⟩
  · have hlimit : 100 ≤ n.client.value := h.client.ended hend
    exact Or.inl ⟨hend, by omega⟩
  · have hbelow : n.client.value < 100 := hwait.below h.client
    exact Or.inr ⟨hwait.pc, by omega⟩

/-- A run whose bursts make at most `B` calls and get through on both channels is bounded in
length, and where it can go no further the remote core has sent 99 and ended; the main core has
ended too, or waits for a channel after 98. -/
theorem pingpong_completes (size : Mtu) (B k : Nat) (n : Net)
    (h : Run size (fun n a => Bounded B n a ∧ Through n a) k n) :
    k ≤ stepBound B ∧
      (Stuck size n → (n.server.pc = .ended ∧ n.server.value = 99) ∧
        (n.client.pc = .ended ∧ n.client.value = 100 ∨
          (n.client.pc = .take0 ∨ n.client.pc = .take1) ∧ n.client.value = 98)) := by
  have hlength := h.length_le fun _ _ hok => hok.1
  have halive := h.alive fun _ _ hok => hok.2
  exact ⟨by omega, halive.stuck h.lockstep⟩

section Replay

variable {size : Mtu} {B : Nat}

instance (c : Core) : Decidable c.Sending := inferInstanceAs (Decidable (_ ∨ _))

instance (c : Core) (res : Sent) : Decidable (c.Bounded B res) :=
  inferInstanceAs (Decidable (_ → _ ∨ _))

instance (c : Core) (res : Sent) : Decidable (c.Through res) :=
  inferInstanceAs (Decidable (_ → _ → _ ∧ _))

instance (n : Net) (a : Act) : Decidable (Bounded B n a ∧ Through n a) :=
  match a with
  | .client res => inferInstanceAs (Decidable (n.client.Bounded B res ∧ n.client.Through res))
  | .server res => inferInstanceAs (Decidable (n.server.Bounded B res ∧ n.server.Through res))
  | .toServer _ | .toClient _ => inferInstanceAs (Decidable (True ∧ True))

/-- Takes the acts one after another, as long as each is possible and keeps to the bursts. -/
def Net.replay (size : Mtu) (B : Nat) : Net → List Act → Option Net
  | n, [] => some n
  | n, a :: acts =>
    if Bounded B n a ∧ Through n a then (n.step size a).bind fun n' => n'.replay size B acts
    else none

theorem Run.replay {k : Nat} {n n' : Net} {acts : List Act}
    (h : Run size (fun n a => Bounded B n a ∧ Through n a) k n)
    (hreplay : n.replay size B acts = some n') :
    Run size (fun n a => Bounded B n a ∧ Through n a) (k + acts.length) n' := by
  induction acts generalizing k n with
  | nil =>
      cases hreplay
      exact h
  | cons a acts ih =>
      obtain ⟨hok, htaken⟩ := Option.ite_none_right_eq_some.mp hreplay
      obtain ⟨next, hstep, hrest⟩ := Option.bind_eq_some_iff.mp htaken
      rw [List.length_cons, Nat.add_comm acts.length 1, ← Nat.add_assoc]
      exact ih (h.step hok hstep) hrest

end Replay

theorem stuck_of_ended {size : Mtu} {client server : Core} (hclient : client.pc = .ended)
    (hserver : server.pc = .ended) : Stuck size ⟨client, server, ⟨[], []⟩, ⟨[], []⟩⟩ := by
  rintro (res | res | (_ | _) | (_ | _))
  · simp only [Net.step, Core.step, hclient, Option.map_none]
  · simp only [Net.step, Core.step, hserver, Option.map_none]
  all_goals rfl

/-- A round of both cores: a message on each channel one way, and the answers back. -/
def roundTrip : List Act :=
  [.client .ok, .client .ok, .client .ok, .client .full, .toServer .zero, .toServer .one,
    .server .ok, .server .ok, .server .ok, .server .ok, .server .ok, .server .ok, .server .ok,
    .server .full, .toClient .zero, .toClient .one, .client .ok, .client .ok,
    .client .ok, .client .ok]

/-- Fifty rounds, and the condition of each loop once more. -/
def wholeGame : List Act := (List.replicate 50 roundTrip).flatten ++ [.client .ok, .server .ok]

/-- Both cores at their end, with the numbers of the last round in their inboxes. -/
def gameOver : Net :=
  ⟨⟨.ended, 100, ⟨99, false⟩, ⟨99, false⟩, 100, 0, 0, 0⟩,
    ⟨.ended, 99, ⟨98, false⟩, ⟨98, false⟩, 99, 0, 0, 0⟩, ⟨[], []⟩, ⟨[], []⟩⟩

theorem pingpong_completes_wholeGame :
    1002 ≤ stepBound 3 ∧ Stuck fourOctets gameOver ∧
      (gameOver.server.pc = .ended ∧ gameOver.server.value = 99) ∧
      (gameOver.client.pc = .ended ∧ gameOver.client.value = 100 ∨
        (gameOver.client.pc = .take0 ∨ gameOver.client.pc = .take1) ∧
        gameOver.client.value = 98) := by
  have hreplay : Net.start.replay fourOctets 3 wholeGame = some gameOver := by decide +kernel
  have hlength : wholeGame.length = 1002 := by decide +kernel
  have hrun : Run fourOctets (fun n a => Bounded 3 n a ∧ Through n a)
      (0 + wholeGame.length) gameOver :=
    Run.start.replay hreplay
  rw [Nat.zero_add, hlength] at hrun
  have hstuck : Stuck fourOctets gameOver := stuck_of_ended rfl rfl
  obtain ⟨hbound, hend⟩ := pingpong_completes fourOctets 3 1002 gameOver hrun
  exact ⟨hbound, hstuck, hend hstuck⟩

end LinkedsemiZephyr.Mailbox
