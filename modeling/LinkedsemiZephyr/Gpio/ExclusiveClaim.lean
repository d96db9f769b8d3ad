import LinkedsemiZephyr.Gpio.PinOwnership

/-! Create ioctls of several clients at once. The pins are tested before `gpio_lock` is
taken and marked while it is held. -/
namespace LinkedsemiZephyr.Gpio
open BitMask GuardedRun

variable {k : Nat} {ι : Type} [DecidableEq ι]

/-- A client's one request. -/
structure Job (k : Nat) where
  chip : Fin k
  req : Request

/-- How far a create ioctl has come; `returned` keeps the descriptor in `req->fd`. -/
inductive Phase where
  | start
  | checked
  | allocated (n : Node)
  | returned (ret : Int) (fd : Option Nat)
  deriving DecidableEq

structure Clients (ι : Type) (k : Nat) where
  fs : GpioFs k
  gpioLock : Option ι
  phase : ι → Phase

/-- `allocate` takes `gpio_lock`, `install` opens the node and releases it. -/
inductive ClientStep (ι : Type) where
  | check (i : ι)
  | allocate (i : ι)
  | install (i : ι) (r : Reply)

namespace Clients

def start (fs : GpioFs k) : Clients ι k := ⟨fs, none, fun _ => .start⟩

def setPhase (s : Clients ι k) (i : ι) (p : Phase) : Clients ι k :=
  { s with phase := Function.update s.phase i p }

/-- A step its client is not ready for, or the lock's holder excludes, waits. -/
def step (job : ι → Job k) (s : Clients ι k) : ClientStep ι → Clients ι k
  | .check i =>
    match s.phase i with
    | .start =>
      match GpioFs.check (s.fs.gpioDevices (job i).chip) (job i).req with
      | .error e => s.setPhase i (.returned e none)
      | .ok () => s.setPhase i .checked
    | _ => s
  | .allocate i =>
    match s.phase i, s.gpioLock with
    | .checked, none =>
      match s.fs.alloc (job i).req with
      | none => s.setPhase i (.returned (-ENOMEM) none)
      | some n => { s.setPhase i (.allocated n) with gpioLock := some i }
    | _, _ => s
  | .install i r =>
    match s.phase i with
    | .allocated n =>
      let (fs, ret, fd) := s.fs.installNode (s.fs.fill (job i).chip n (job i).req) n r
      { s.setPhase i (.returned ret fd) with fs, gpioLock := none }
    | _ => s

/-- The steps of one client in a row are the ioctl. -/
theorem steps_create (job : ι → Job k) (fs : GpioFs k) (i : ι) (r : Reply) :
    ([.check i, .allocate i, .install i r].foldl (step job) (start fs)).fs =
        (fs.create (job i).chip r (job i).req).1 ∧
      ([.check i, .allocate i, .install i r].foldl (step job) (start fs)).phase i =
        .returned (fs.create (job i).chip r (job i).req).2.1
          (fs.create (job i).chip r (job i).req).2.2 := by
  rw [GpioFs.create_eq]
  cases hcheck : GpioFs.check (fs.gpioDevices (job i).chip) (job i).req with
  | error e => simp [step, start, setPhase, hcheck]
  | ok u =>
      cases halloc : fs.alloc (job i).req <;> simp [step, start, setPhase, hcheck, halloc]

/-- The client's create ioctl left it a descriptor. -/
def Succeeded (s : Clients ι k) (i : ι) : Prop := ∃ ret fd, s.phase i = .returned ret (some fd)

def SharePin (j j' : Job k) : Prop := j.chip = j'.chip ∧ ∃ p ∈ j.req.pins, p ∈ j'.req.pins

/-- No two clients whose requests share a pin have both been served. -/
def Exclusive (job : ι → Job k) (s : Clients ι k) : Prop :=
  ∀ i j, i ≠ j → s.Succeeded i → s.Succeeded j → ¬ SharePin (job i) (job j)

end Clients

/-- The system's answers let an allocated node be registered and opened. -/
def Reply.Opens (r : Reply) (fs : GpioFs k) (n : Node) : Prop :=
  r.registers = true ∧ (∃ fd, r.fd = some fd ∧ fd ∉ fs.files.map Prod.fst) ∧
    ∀ i, n = .event i → r.pinConfigure = 0 ∧ r.interruptConfigure = 0

namespace Clients

/-- A client that opens its node finds its pins still unmarked. -/
def StillUnmarked (job : ι → Job k) (s : Clients ι k) : ClientStep ι → Prop
  | .install i r => ∀ n, s.phase i = .allocated n → r.Opens s.fs n →
      ∀ p ∈ (job i).req.pins, (s.fs.gpioDevices (job i).chip).pinMask.getLsbD p = false
  | _ => True

/-- Between its check and its return. -/
def Pending (s : Clients ι k) (i : ι) : Prop := s.phase i = .checked ∨ ∃ n, s.phase i = .allocated n

structure Inv (job : ι → Job k) (s : Clients ι k) : Prop where
  exclusive : s.Exclusive job
  marked : ∀ i, s.Succeeded i → ∀ p ∈ (job i).req.pins,
    (s.fs.gpioDevices (job i).chip).pinMask.getLsbD p = true
  inWord : ∀ i, s.Pending i → ∀ p ∈ (job i).req.pins, p < 32
  /-- A pin of a pending client got its mark from a client served since the check. -/
  marker : ∀ i, s.Pending i → ∀ p ∈ (job i).req.pins,
    (s.fs.gpioDevices (job i).chip).pinMask.getLsbD p = true →
      ∃ j, s.Succeeded j ∧ (job j).chip = (job i).chip ∧ p ∈ (job j).req.pins
  serves : ∀ i n, s.phase i = .allocated n → n.Serves (job i).req

variable {job : ι → Job k} {s : Clients ι k}

omit [DecidableEq ι] in
theorem start_inv (job : ι → Job k) (fs : GpioFs k) : Inv job (start fs) where
  exclusive := by
    rintro i j - ⟨ret, fd, h⟩
    cases h
  marked := by
    rintro i ⟨ret, fd, h⟩
    cases h
  inWord := by
    rintro i (h | ⟨n, h⟩) <;> cases h
  marker := by
    rintro i (h | ⟨n, h⟩) <;> cases h
  serves := by
    intro i n h
    cases h

/-- A client that moves on without being served, the masks as they were. -/
theorem Inv.quiet (h : Inv job s) {i : ι} {p : Phase} {fs' : GpioFs k} {lock : Option ι}
    (hmask : ∀ c, (fs'.gpioDevices c).pinMask = (s.fs.gpioDevices c).pinMask) (hi : ¬ s.Succeeded i)
    (hp : ∀ ret fd, p ≠ .returned ret (some fd))
    (hpins : (p = .checked ∨ ∃ n, p = .allocated n) → ∀ q ∈ (job i).req.pins, q < 32 ∧
      ((s.fs.gpioDevices (job i).chip).pinMask.getLsbD q = true →
        ∃ j, s.Succeeded j ∧ (job j).chip = (job i).chip ∧ q ∈ (job j).req.pins))
    (hserves : ∀ n, p = .allocated n → n.Serves (job i).req) :
    Inv job ⟨fs', lock, Function.update s.phase i p⟩ := by
  have hsucceeded (j : ι) :
      (Clients.mk fs' lock (Function.update s.phase i p)).Succeeded j ↔ s.Succeeded j := by
    by_cases hj : j = i
    · subst hj
      refine iff_of_false ?_ hi
      rintro ⟨ret, fd, h⟩
      exact hp ret fd ((Function.update_self ..).symm.trans h)
    · simp only [Succeeded, Function.update_of_ne hj]
  have hpending {j : ι} (hj : j ≠ i)
      (hpend : (Clients.mk fs' lock (Function.update s.phase i p)).Pending j) :
      s.Pending j := by
    simpa only [Pending, Function.update_of_ne hj] using hpend
  have hpins' (hpend : (Clients.mk fs' lock (Function.update s.phase i p)).Pending i) :=
    hpins (by simpa only [Pending, Function.update_self] using hpend)
  constructor
  · intro j j' hne hj hj'
    exact h.exclusive j j' hne ((hsucceeded j).mp hj) ((hsucceeded j').mp hj')
  · intro j hj q hq
    rw [hmask]
    exact h.marked j ((hsucceeded j).mp hj) q hq
  · intro j hj q hq
    by_cases hji : j = i
    · subst hji
      exact (hpins' hj q hq).1
    · exact h.inWord j (hpending hji hj) q hq
  · intro j hj q hq hqmask
    rw [hmask] at hqmask
    have hmarker : ∃ j', s.Succeeded j' ∧ (job j').chip = (job j).chip ∧ q ∈ (job j').req.pins := by
      by_cases hji : j = i
      · subst hji
        exact (hpins' hj q hq).2 hqmask
      · exact h.marker j (hpending hji hj) q hq hqmask
    obtain ⟨j', hj', hshare⟩ := hmarker
    exact ⟨j', (hsucceeded j').mpr hj', hshare⟩
  · intro j n hj
    by_cases hji : j = i
    · subst hji
      exact hserves n ((Function.update_self ..).symm.trans hj)
    · exact h.serves j n ((Function.update_of_ne hji ..).symm.trans hj)

/-- A client served while its pins were unmarked. -/
theorem Inv.served (h : Inv job s) {i : ι} {n : Node} (hi : s.phase i = .allocated n)
    {fs' : GpioFs k} {ret : Int} {fd : Nat}
    (hfs : fs'.ownership = s.fs.ownership.take n (job i).chip (job i).req.pins fd)
    (hunmarked : ∀ p ∈ (job i).req.pins,
      (s.fs.gpioDevices (job i).chip).pinMask.getLsbD p = false) :
    Inv job ⟨fs', none, Function.update s.phase i (.returned ret (some fd))⟩ := by
  have hmask (c : Fin k) (p : Nat) : (fs'.gpioDevices c).pinMask.getLsbD p = true ↔
      (c = (job i).chip ∧ p ∈ (job i).req.pins) ∨
      (s.fs.gpioDevices c).pinMask.getLsbD p = true := by
    change (fs'.ownership.mask c).getLsbD p = true ↔ _
    rw [hfs]
    exact Ownership.getLsbD_take (h.inWord i (.inr ⟨n, hi⟩)) c p
  have hself :
      (Clients.mk fs' none (Function.update s.phase i (.returned ret (some fd)))).Succeeded i :=
    ⟨ret, fd, Function.update_self ..⟩
  have hother {j : ι} (hj : j ≠ i) :
      (Clients.mk fs' none (Function.update s.phase i (.returned ret (some fd)))).Succeeded j ↔
        s.Succeeded j := by
    simp only [Succeeded, Function.update_of_ne hj]
  have hpending {j : ι}
      (hpend :
        (Clients.mk fs' none (Function.update s.phase i (.returned ret (some fd)))).Pending j) :
      j ≠ i ∧ s.Pending j := by
    have hj : j ≠ i := by
      rintro rfl
      simp [Pending] at hpend
    exact ⟨hj, by simpa only [Pending, Function.update_of_ne hj] using hpend⟩
  -- nobody served before shares a pin: it would be marked
  have hapart {j : ι} (hj : s.Succeeded j) : ¬ SharePin (job i) (job j) := by
    rintro ⟨hchip, p, hp, hpj⟩
    have hmarked := h.marked j hj p hpj
    rw [← hchip, hunmarked p hp] at hmarked
    cases hmarked
  constructor
  · intro j j' hne hj hj'
    by_cases hji : j = i
    · subst hji
      exact hapart ((hother (Ne.symm hne)).mp hj')
    by_cases hj'i : j' = i
    · subst hj'i
      rintro ⟨hchip, p, hp, hpj⟩
      exact hapart ((hother hji).mp hj) ⟨hchip.symm, p, hpj, hp⟩
    · exact h.exclusive j j' hne ((hother hji).mp hj) ((hother hj'i).mp hj')
  · intro j hj p hp
    rw [hmask]
    by_cases hji : j = i
    · subst hji
      exact .inl ⟨rfl, hp⟩
    · exact .inr (h.marked j ((hother hji).mp hj) p hp)
  · intro j hj p hp
    exact h.inWord j (hpending hj).2 p hp
  · intro j hj p hp hpmask
    obtain ⟨hji, hpend⟩ := hpending hj
    rcases (hmask _ p).mp hpmask with ⟨hchip, hpi⟩ | hold
    · exact ⟨i, hself, hchip.symm, hpi⟩
    · obtain ⟨j', hj', hshare⟩ := h.marker j hpend p hp hold
      have hj'i : j' ≠ i := by
        rintro rfl
        obtain ⟨ret, fd, hret⟩ := hj'
        rw [hi] at hret
        cases hret
      exact ⟨j', (hother hj'i).mpr hj', hshare⟩
  · intro j m hj
    have hji := (hpending (.inr ⟨m, hj⟩)).1
    exact h.serves j m ((Function.update_of_ne hji ..).symm.trans hj)

theorem openNode_opens {fs : GpioFs k} {n : Node} {c : Fin k} {pins : List Nat}
    (hclaim : fs.claim n = some (c, pins)) (r : Reply) :
    (∃ fs', fs.openNode r n = .ok fs') ↔
      ∀ i, n = .event i → r.pinConfigure = 0 ∧ r.interruptConfigure = 0 := by
  cases n with
  | line i =>
      obtain ⟨d, hd, -⟩ := Option.map_eq_some_iff.mp hclaim
      simp only [GpioFs.openNode, GpioFs.gpioLineOpen, hd]
      refine iff_of_true ⟨_, rfl⟩ ?_
      rintro i hi
      cases hi
  | event i =>
      obtain ⟨d, hd, -⟩ := Option.map_eq_some_iff.mp hclaim
      simp only [GpioFs.openNode, GpioFs.gpioEventOpen, hd]
      constructor
      · rintro ⟨fs', h⟩ - -
        split at h
        · cases h
        split at h
        · cases h
        exact ⟨by_contra ‹_›, by_contra ‹_›⟩
      · intro h
        obtain ⟨hpin, hinterrupt⟩ := h i rfl
        rw [if_neg (not_not.mpr hpin), if_neg (not_not.mpr hinterrupt)]
        exact ⟨_, rfl⟩

theorem openPath_opens (fs : GpioFs k) {n : Node} (hreg : n ∈ fs.registered) (r : Reply) :
    (∃ x, fs.openPath n r = .ok x) ↔
      (∃ fd, r.fd = some fd ∧ fd ∉ fs.files.map Prod.fst) ∧ ∃ fs', fs.openNode r n = .ok fs' := by
  rw [GpioFs.openPath, if_neg (not_not.mpr hreg)]
  cases hfd : r.fd with
  | none => simp
  | some fd =>
      by_cases hused : fd ∈ fs.files.map Prod.fst
      · simp only [if_pos hused, Option.some.injEq]
        refine iff_of_false ?_ ?_
        · rintro ⟨x, h⟩
          cases h
        · rintro ⟨⟨fd', rfl, hfree⟩, -⟩
          exact hfree hused
      · simp only [if_neg hused]
        cases hopen : fs.openNode r n with
        | error e =>
            refine iff_of_false ?_ ?_
            · rintro ⟨x, h⟩
              cases h
            · rintro ⟨-, fs', h⟩
              cases h
        | ok fs' => exact iff_of_true ⟨_, rfl⟩ ⟨⟨fd, rfl, hused⟩, fs', rfl⟩

theorem installNode_opens (fs : GpioFs k) {n : Node} {req : Request} (c : Fin k) (h : n.Serves req)
    (r : Reply) :
    (∃ fd, (fs.installNode (fs.fill c n req) n r).2.2 = some fd) ↔ r.Opens fs n := by
  have hfilled := GpioFs.fill_ownership h fs c
  have hclaim : ((fs.fill c n req).devfsRegisterAnon n).claim n = some (c, req.pins) :=
    (congrFun (congrArg Ownership.claim hfilled) n).trans (Function.update_self ..)
  have hfiles : ((fs.fill c n req).devfsRegisterAnon n).files = fs.files :=
    congrArg Ownership.files hfilled
  have hopen := openPath_opens ((fs.fill c n req).devfsRegisterAnon n) List.mem_cons_self r
  rw [openNode_opens hclaim r, hfiles] at hopen
  rw [GpioFs.installNode, Reply.Opens, ← hopen]
  cases hreg : r.registers with
  | false => simp
  | true => cases hpath : ((fs.fill c n req).devfsRegisterAnon n).openPath n r <;> simp

theorem step_inv (h : Inv job s) {a : ClientStep ι} (hok : s.StillUnmarked job a) :
    Inv job (s.step job a) := by
  have free_of {i : ι} {p : Phase} (hphase : s.phase i = p) (hp : ∀ ret fd, p ≠ .returned ret fd) :
      ¬ s.Succeeded i := by
    rintro ⟨ret, fd, hret⟩
    exact hp ret _ (hphase.symm.trans hret)
  cases a with
  | check i =>
      rw [step]
      split
      · rename_i hphase
        split
        · exact h.quiet (fun _ => rfl) (free_of hphase nofun) nofun (by simp) nofun
        · rename_i hcheck
          refine h.quiet (fun _ => rfl) (free_of hphase nofun) nofun (fun _ q hq => ?_) nofun
          obtain ⟨hcount, hunmarked⟩ := GpioFs.check_spec hcheck q hq
          refine ⟨Nat.lt_of_lt_of_le hcount (s.fs.gpioDevices _).pinCount_le, fun hmarked => ?_⟩
          rw [hunmarked] at hmarked
          cases hmarked
      · exact h
  | allocate i =>
      rw [step]
      split
      · rename_i hphase hlock
        have hpins := fun q hq =>
          And.intro (h.inWord i (.inl hphase) q hq) (h.marker i (.inl hphase) q hq)
        split
        · exact h.quiet (fun _ => rfl) (free_of hphase nofun) nofun (fun _ => hpins) nofun
        · rename_i n halloc
          refine h.quiet (fun _ => rfl) (free_of hphase nofun) nofun (fun _ => hpins) ?_
          rintro m hm
          cases hm
          exact (GpioFs.alloc_spec halloc).1
      · exact h
  | install i r =>
      rw [step]
      split
      · rename_i n hphase
        have hserves := h.serves i n hphase
        have hspec := GpioFs.installNode_spec (s := s.fs) (c := (job i).chip) hserves r
        have hopens := installNode_opens s.fs (job i).chip hserves r
        generalize s.fs.installNode (s.fs.fill (job i).chip n (job i).req) n r =
          result at hspec hopens ⊢
        obtain ⟨fs', ret, fd⟩ := result
        obtain ⟨fd, rfl, -, htaken⟩ | ⟨rfl, hback⟩ := hspec
        · exact h.served hphase htaken (hok n hphase (hopens.mp ⟨fd, rfl⟩))
        · refine h.quiet (fun c => ?_) (free_of hphase nofun) nofun (by simp) nofun
          exact congrFun (congrArg Ownership.mask hback) c
      · exact h

/-- A client that opens its node over a mark joins the client that left it. -/
theorem step_not_exclusive (h : Inv job s) {a : ClientStep ι} (hok : ¬ s.StillUnmarked job a) :
    ¬ (s.step job a).Exclusive job := by
  cases a with
  | check i => exact absurd trivial hok
  | allocate i => exact absurd trivial hok
  | install i r =>
      simp only [StillUnmarked, not_forall, Bool.not_eq_false] at hok
      obtain ⟨n, hphase, hopens, p, hp, hmarked⟩ := hok
      obtain ⟨j, hj, hchip, hpj⟩ := h.marker i (.inr ⟨n, hphase⟩) p hp hmarked
      have hji : j ≠ i := by
        rintro rfl
        obtain ⟨ret, fd, hret⟩ := hj
        rw [hphase] at hret
        cases hret
      obtain ⟨fd, hfd⟩ := (installNode_opens s.fs (job i).chip (h.serves i n hphase) r).mpr hopens
      have hphases : (s.step job (.install i r)).phase =
          Function.update s.phase i
            (.returned (s.fs.installNode (s.fs.fill (job i).chip n (job i).req) n r).2.1
            (some fd)) := by
        rw [← hfd]
        simp only [step, hphase]
        rfl
      have hi : (s.step job (.install i r)).Succeeded i :=
        ⟨(s.fs.installNode (s.fs.fill (job i).chip n (job i).req) n r).2.1, fd,
          by rw [hphases, Function.update_self]⟩
      have hj' : (s.step job (.install i r)).Succeeded j := by
        obtain ⟨ret, fd', hret⟩ := hj
        exact ⟨ret, fd', by rw [hphases, Function.update_of_ne hji, hret]⟩
      intro hexclusive
      exact hexclusive i j (Ne.symm hji) hi hj' ⟨hchip.symm, p, hp, hpj⟩

/-- Requests that share a pin exclude each other all along a run just when no client opens
its node over a mark set since its check. -/
theorem exclusiveClaim (job : ι → Job k) (fs : GpioFs k) (steps : List (ClientStep ι)) :
    Always (step job) (Exclusive job) (start fs) steps ↔
      Follows (step job) (StillUnmarked job) (start fs) steps :=
  always_iff_follows (start_inv job fs) (fun _ _ h hok => step_inv h hok) (fun _ h => h.exclusive)
    fun _ _ h hok => step_not_exclusive h hok

/-- Both clients test pin 7 before either takes the lock. -/
def bothCheck : List (ClientStep Bool) :=
  [.check true, .check false, .allocate true, .install true ⟨true, some 5, 0, 0⟩, .allocate false,
    .install false ⟨true, some 6, 0, 0⟩]

theorem exclusiveClaim_bothCheck :
    ¬ Always (step fun _ => ⟨0, .handle ⟨.replicate 64 7, gpiohandleRequestOutput, 1⟩⟩)
      (Exclusive fun _ => ⟨0, .handle ⟨.replicate 64 7, gpiohandleRequestOutput, 1⟩⟩)
      (start (k := 1) (.init fun _ => ⟨16, 0#32, by decide⟩)) bothCheck := by
  intro h
  refine h.last true false (by decide) ⟨1, 5, by decide +kernel⟩ ⟨1, 6, by decide +kernel⟩
    ⟨rfl, 7, ?_, ?_⟩
  · decide +kernel
  · decide +kernel

end Clients

end LinkedsemiZephyr.Gpio
