import LinkedsemiZephyr.Gpio.GpioFs
import LinkedsemiZephyr.Lib.GuardedRun

/-! Who owns which pin: slots, `pin_mask` and open files as one relation. -/
namespace LinkedsemiZephyr.Gpio
open BitMask GuardedRun

variable {k : Nat}

/-- What ownership is about: the pins a node's slot claims, every chip's mask, the open files. -/
structure Ownership (k : Nat) where
  claim : Node → Option (Fin k × List Nat)
  mask : Fin k → BitVec 32
  files : List (Nat × Node)

namespace Ownership

def IsOpen (o : Ownership k) (n : Node) : Prop := ∃ fd, (fd, n) ∈ o.files

/-- A file of `n` is opened, `n` claiming the pins of `c` named. -/
def take (o : Ownership k) (n : Node) (c : Fin k) (pins : List Nat) (fd : Nat) : Ownership k where
  claim := Function.update o.claim n (some (c, pins))
  mask := Function.update o.mask c (setBits (o.mask c) pins)
  files := (fd, n) :: o.files

theorem take_held {o : Ownership k} {n : Node} {c : Fin k} {pins : List Nat}
    (held : o.claim n = some (c, pins)) (fd : Nat) :
    o.take n c pins fd =
      ⟨o.claim, Function.update o.mask c (setBits (o.mask c) pins), (fd, n) :: o.files⟩ := by
  rw [take, Function.update_eq_self_iff.mpr held.symm]

/-- A file of `n` is closed, and with it the slot. -/
def release (o : Ownership k) (n : Node) (c : Fin k) (pins : List Nat) (fd : Nat) :
    Ownership k where
  claim := Function.update o.claim n none
  mask := Function.update o.mask c (clearBits (o.mask c) pins)
  files := o.files.filter fun f => f.1 ≠ fd

/-- All a call can do to the ownership, by the descriptor it closes. -/
inductive Effect (o : Ownership k) : Option Nat → Ownership k → Prop
  | same (closes : Option Nat) (unopened : ∀ f ∈ o.files, closes ≠ some f.1) : Effect o closes o
  | take (n : Node) (c : Fin k) (pins : List Nat) (fd : Nat) (free : o.claim n = none)
      (unmarked : ∀ p ∈ pins, p < 32 ∧ (o.mask c).getLsbD p = false)
      (fresh : fd ∉ o.files.map Prod.fst) :
      Effect o none (o.take n c pins fd)
  | share (n : Node) (c : Fin k) (pins : List Nat) (fd : Nat) (held : o.claim n = some (c, pins))
      (fresh : fd ∉ o.files.map Prod.fst) : Effect o none (o.take n c pins fd)
  | release (n : Node) (c : Fin k) (pins : List Nat) (fd : Nat) (held : o.claim n = some (c, pins))
      (file : (fd, n) ∈ o.files) : Effect o (some fd) (o.release n c pins fd)
  | orphan (n : Node) (fd : Nat) (free : o.claim n = none) (file : (fd, n) ∈ o.files) :
      Effect o (some fd) { o with files := o.files.filter fun f => f.1 ≠ fd }

/-- Every pin has one claimant, the masks are the pins of the nodes in use, and the slots
in use are the open ones. -/
structure Owned (o : Ownership k) : Prop where
  exclusive : ∀ {n m c ps qs}, o.claim n = some (c, ps) → o.claim m = some (c, qs) → n ≠ m →
    ∀ p ∈ ps, p ∉ qs
  mask : ∀ c p, (o.mask c).getLsbD p = true ↔ ∃ n ps, o.claim n = some (c, ps) ∧ p ∈ ps ∧ o.IsOpen n
  free : ∀ n, o.claim n = none ↔ ¬ o.IsOpen n

/-- Ownership with what it rests on: pins of the word, descriptors used once. -/
structure Sound (o : Ownership k) : Prop extends Owned o where
  inWord : ∀ {n c ps}, o.claim n = some (c, ps) → ∀ p ∈ ps, p < 32
  descriptors : (o.files.map Prod.fst).Nodup

end Ownership

namespace GpioFs

def claim (s : GpioFs k) : Node → Option (Fin k × List Nat)
  | .line i => (s.gpioLineHandle i).chip.map fun c => (c, (s.gpioLineHandle i).req.pins)
  | .event i =>
      (s.gpioLineEvent i).chip.map fun c => (c, [(s.gpioLineEvent i).req.lineoffset.toNat])

def ownership (s : GpioFs k) : Ownership k where
  claim := s.claim
  mask := fun c => (s.gpioDevices c).pinMask
  files := s.files

theorem claim_setLine (s : GpioFs k) (i : Fin gpioLineHandleMax) (slot : GpioLine k) :
    claim { s with gpioLineHandle := Function.update s.gpioLineHandle i slot } =
      Function.update s.claim (.line i) (slot.chip.map fun c => (c, slot.req.pins)) := by
  funext n
  by_cases h : n = .line i
  · subst h
    simp [claim]
  · rw [Function.update_of_ne h]
    cases n with
    | line j =>
        have hj : j ≠ i := fun hj => h (by rw [hj])
        simp [claim, Function.update_of_ne hj]
    | event j => rfl

theorem claim_setEvent (s : GpioFs k) (i : Fin gpioLineEventMax) (slot : GpioEvent k) :
    claim { s with gpioLineEvent := Function.update s.gpioLineEvent i slot } =
      Function.update s.claim (.event i)
        (slot.chip.map fun c => (c, [slot.req.lineoffset.toNat])) := by
  funext n
  by_cases h : n = .event i
  · subst h
    simp [claim]
  · rw [Function.update_of_ne h]
    cases n with
    | line j => rfl
    | event j =>
        have hj : j ≠ i := fun hj => h (by rw [hj])
        simp [claim, Function.update_of_ne hj]

theorem ownership_free (s : GpioFs k) (n : Node) :
    (s.free n).ownership = { s.ownership with claim := Function.update s.claim n none } := by
  cases n with
  | line i => exact congrArg (Ownership.mk · _ _) (s.claim_setLine i _)
  | event i => exact congrArg (Ownership.mk · _ _) (s.claim_setEvent i _)

theorem fill_ownership {n : Node} {req : Request} (h : n.Serves req) (s : GpioFs k) (c : Fin k) :
    (s.fill c n req).ownership =
      { s.ownership with claim := Function.update s.claim n (some (c, req.pins)) } := by
  cases n with
  | line i =>
      cases req with
      | handle req => exact congrArg (Ownership.mk · _ _) (s.claim_setLine i _)
      | event req => cases h
  | event i =>
      cases req with
      | handle req => cases h
      | event req => exact congrArg (Ownership.mk · _ _) (s.claim_setEvent i _)

theorem alloc_spec {s : GpioFs k} {req : Request} {n : Node} (h : s.alloc req = some n) :
    n.Serves req ∧ s.claim n = none := by
  cases req with
  | handle req =>
      obtain ⟨i, hi, rfl⟩ := Option.map_eq_some_iff.mp h
      have hfree := List.find?_some hi
      exact ⟨trivial, by simpa [claim] using hfree⟩
  | event req =>
      obtain ⟨i, hi, rfl⟩ := Option.map_eq_some_iff.mp h
      have hfree := List.find?_some hi
      exact ⟨trivial, by simpa [claim] using hfree⟩

theorem setPinMask_ownership (s : GpioFs k) (c : Fin k) (m : BitVec 32) :
    (s.setPinMask c m).ownership =
      { s.ownership with mask := Function.update s.ownership.mask c m } := by
  refine congrArg (Ownership.mk _ · _) (funext fun d => ?_)
  by_cases h : d = c
  · subst h
    simp [setPinMask]
  · simp [setPinMask, ownership, Function.update_of_ne h]

theorem openNode_spec {s s' : GpioFs k} {n : Node} {r : Reply} (h : s.openNode r n = .ok s') :
    ∃ c pins, s.claim n = some (c, pins) ∧ s'.ownership =
      ⟨s.claim, Function.update s.ownership.mask c (setBits (s.ownership.mask c) pins),
        s.files⟩ := by
  cases n with
  | line i =>
      simp only [openNode, gpioLineOpen] at h
      cases hc : (s.gpioLineHandle i).chip with
      | none => rw [hc] at h; cases h
      | some c =>
          rw [hc] at h
          cases h
          exact ⟨c, _, by simp [claim, hc], s.setPinMask_ownership c _⟩
  | event i =>
      simp only [openNode, gpioEventOpen] at h
      cases hc : (s.gpioLineEvent i).chip with
      | none => rw [hc] at h; cases h
      | some c =>
          simp only [hc] at h
          split at h
          · cases h
          split at h
          · cases h
          · cases h
            exact ⟨c, [(s.gpioLineEvent i).req.lineoffset.toNat], by simp [claim, hc],
              s.setPinMask_ownership c _⟩

/-- Opening a node claims its pins anew, whoever has it open already. -/
theorem openPath_spec {s s' : GpioFs k} {n : Node} {r : Reply} {fd : Nat}
    (h : s.openPath n r = .ok (s', fd)) :
    ∃ c pins, s.claim n = some (c, pins) ∧ fd ∉ s.files.map Prod.fst ∧
      s'.ownership = s.ownership.take n c pins fd := by
  rw [openPath] at h
  split at h
  · cases h
  cases hfd : r.fd with
  | none => rw [hfd] at h; cases h
  | some fd' =>
      simp only [hfd] at h
      split at h
      · cases h
      rename_i hfresh
      cases hopen : s.openNode r n with
      | error e => rw [hopen] at h; cases h
      | ok s₁ =>
          rw [hopen] at h
          cases h
          obtain ⟨c, pins, hclaim, hs₁⟩ := openNode_spec hopen
          refine ⟨c, pins, hclaim, hfresh, ?_⟩
          have hfiles : s₁.files = s.files := congrArg Ownership.files hs₁
          rw [Ownership.take_held hclaim]
          change { s₁.ownership with files := (fd, n) :: s₁.files } = _
          rw [hs₁, hfiles]
          rfl

theorem closeNode_held {s : GpioFs k} {n : Node} {c : Fin k} {pins : List Nat}
    (held : s.claim n = some (c, pins)) :
    (s.closeNode n).ownership =
      ⟨Function.update s.claim n none,
        Function.update s.ownership.mask c (clearBits (s.ownership.mask c) pins), s.files⟩ := by
  cases n with
  | line i =>
      obtain ⟨d, hd, hpins⟩ := Option.map_eq_some_iff.mp held
      cases hpins
      simp only [closeNode, gpioLineClose, hd]
      change (((s.setPinMask c _).devfsUnregisterAnon (.line i)).free (.line i)).ownership = _
      rw [ownership_free]
      exact congrArg (fun o : Ownership k => Ownership.mk _ o.mask o.files)
        (s.setPinMask_ownership c _)
  | event i =>
      obtain ⟨d, hd, hpins⟩ := Option.map_eq_some_iff.mp held
      cases hpins
      simp only [closeNode, gpioEventClose, hd]
      change (((s.setPinMask c _).free (.event i))).ownership = _
      rw [ownership_free]
      exact congrArg (fun o : Ownership k => Ownership.mk _ o.mask o.files)
        (s.setPinMask_ownership c _)

theorem closeNode_free {s : GpioFs k} {n : Node} (free : s.claim n = none) :
    (s.closeNode n).ownership = s.ownership := by
  cases n with
  | line i =>
      have hc : (s.gpioLineHandle i).chip = none := Option.map_eq_none_iff.mp free
      simp only [closeNode, gpioLineClose, hc]
      rfl
  | event i =>
      have hc : (s.gpioLineEvent i).chip = none := Option.map_eq_none_iff.mp free
      simp only [closeNode, gpioEventClose, hc]
      rfl

theorem fileOf_none {s : GpioFs k} {fd : Nat} (h : s.fileOf fd = none) :
    ∀ f ∈ s.files, some fd ≠ some f.1 := by
  intro f hf hfd
  have hnot := List.find?_eq_none.mp (Option.map_eq_none_iff.mp h) f hf
  exact hnot (decide_eq_true (Option.some.inj hfd).symm)

theorem fileOf_mem {s : GpioFs k} {fd : Nat} {n : Node} (h : s.fileOf fd = some n) :
    (fd, n) ∈ s.files := by
  obtain ⟨⟨fd', m⟩, hf, rfl⟩ := Option.map_eq_some_iff.mp h
  have hfd := List.find?_some hf
  rw [← of_decide_eq_true hfd]
  exact List.mem_of_find?_eq_some hf

/-- A request that passes the checks asks for free pins of the chip. -/
theorem check_spec {chip : GpioChip} {req : Request} (h : check chip req = .ok ()) :
    ∀ p ∈ req.pins, p < chip.pinCount ∧ chip.pinMask.getLsbD p = false := by
  have free_of {p : Nat} (hp : ¬ bit 32 p &&& chip.pinMask ≠ 0#32) :
      chip.pinMask.getLsbD p = false :=
    Bool.eq_false_iff.mpr fun hbit => hp (bit_and_ne_zero.mpr hbit)
  cases req with
  | handle req =>
      rw [check, gpioLineHandleCheck] at h
      split at h
      · cases h
      split at h
      · cases h
      rename_i hcount
      split at h
      · cases h
      rename_i hmask
      intro p hp
      exact ⟨Nat.lt_of_not_le fun hle => hcount ⟨p, hp, hle⟩,
        free_of fun hbit => hmask ⟨p, hp, hbit⟩⟩
  | event req =>
      rw [check, gpioLineEventCheck] at h
      split at h
      · cases h
      rename_i hcount
      split at h
      · cases h
      rename_i hmask
      intro p hp
      rw [List.mem_singleton.mp hp]
      exact ⟨Nat.lt_of_not_le hcount, free_of hmask⟩

/-- The slot is taken with a descriptor, or given back without one. -/
theorem installNode_spec {s : GpioFs k} {n : Node} {c : Fin k} {req : Request} (h : n.Serves req)
    (r : Reply) :
    (∃ fd, (s.installNode (s.fill c n req) n r).2.2 = some fd ∧ fd ∉ s.files.map Prod.fst ∧
      (s.installNode (s.fill c n req) n r).1.ownership = s.ownership.take n c req.pins fd) ∨
    ((s.installNode (s.fill c n req) n r).2.2 = none ∧
      (s.installNode (s.fill c n req) n r).1.ownership =
        { s.ownership with claim := Function.update s.claim n none }) := by
  have hfilled := fill_ownership h s c
  have hclaim : (s.fill c n req).claim = Function.update s.claim n (some (c, req.pins)) :=
    congrArg Ownership.claim hfilled
  have hfiles : (s.fill c n req).files = s.files := congrArg Ownership.files hfilled
  rw [installNode]
  split
  · split
    · rename_i s' fd hopen
      obtain ⟨d, qs, hd, hfresh, hs'⟩ := openPath_spec hopen
      change (s.fill c n req).claim n = some (d, qs) at hd
      rw [hclaim, Function.update_self] at hd
      cases hd
      change fd ∉ (s.fill c n req).files.map Prod.fst at hfresh
      rw [hfiles] at hfresh
      refine .inl ⟨fd, rfl, hfresh, ?_⟩
      change s'.ownership = (s.fill c n req).ownership.take n c req.pins fd at hs'
      rw [hs', hfilled, Ownership.take, Function.update_idem]
      rfl
    · refine .inr ⟨rfl, ?_⟩
      rw [ownership_free]
      change { (s.fill c n req).ownership with
        claim := Function.update (s.fill c n req).claim n none } = _
      rw [hfilled, hclaim, Function.update_idem]
  · exact .inr ⟨rfl, ownership_free s n⟩

/-- Every call does one of the things an ownership allows for. -/
theorem step_effect (s : GpioFs k) (a : Action k) :
    Ownership.Effect s.ownership a.closes (s.step a).ownership := by
  cases a with
  | create c req r =>
      rw [step, create_eq]
      cases hcheck : check (s.gpioDevices c) req with
      | error e => exact .same _ nofun
      | ok u =>
          cases halloc : s.alloc req with
          | none => exact .same _ nofun
          | some n =>
              obtain ⟨hserves, hfree⟩ := alloc_spec halloc
              obtain ⟨fd, -, hfresh, htaken⟩ | ⟨-, hback⟩ :=
                installNode_spec (s := s) (c := c) hserves r
              · change Ownership.Effect _ _ (s.installNode (s.fill c n req) n r).1.ownership
                rw [htaken]
                refine .take n c req.pins fd hfree (fun p hp => ?_) hfresh
                obtain ⟨hcount, hunmarked⟩ := check_spec hcheck p hp
                exact ⟨Nat.lt_of_lt_of_le hcount (s.gpioDevices c).pinCount_le, hunmarked⟩
              · change Ownership.Effect _ _ (s.installNode (s.fill c n req) n r).1.ownership
                rw [hback, Function.update_eq_self_iff.mpr hfree.symm]
                exact .same _ nofun
  | openPath n r =>
      rw [step]
      split
      · rename_i s' fd hopen
        obtain ⟨c, pins, hheld, hfresh, hs'⟩ := openPath_spec hopen
        rw [hs']
        exact .share n c pins fd hheld hfresh
      · exact .same _ nofun
  | ioctl fd request =>
      rw [step]
      cases hfile : s.fileOf fd with
      | none => simp only [fileIoctl, hfile]; exact .same _ nofun
      | some n => cases n <;> cases request <;> simp only [fileIoctl, hfile] <;> exact .same _ nofun
  | close fd =>
      rw [step, closeFile]
      split
      · rename_i hfile
        exact .same _ (fileOf_none hfile)
      · rename_i n hfile
        have hmem := fileOf_mem hfile
        change Ownership.Effect _ _ { (s.closeNode n).ownership with
          files := (s.closeNode n).files.filter fun f => f.1 ≠ fd }
        cases hclaim : s.claim n with
        | none =>
            have hclosed := closeNode_free hclaim
            have hfiles : (s.closeNode n).files = s.files := congrArg Ownership.files hclosed
            rw [hclosed, hfiles]
            exact .orphan n fd hclaim hmem
        | some held =>
            obtain ⟨c, pins⟩ := held
            have hclosed := closeNode_held hclaim
            have hfiles : (s.closeNode n).files = s.files := congrArg Ownership.files hclosed
            rw [hclosed, hfiles]
            exact .release n c pins fd hclaim hmem

/-- The call closes the only open file of its node, if it closes one. -/
def SoleClose (s : GpioFs k) (a : Action k) : Prop :=
  ∀ f ∈ s.files, a.closes = some f.1 → ∀ g ∈ s.files, g.2 = f.2 → g.1 = f.1

instance (s : GpioFs k) (a : Action k) : Decidable (SoleClose s a) :=
  inferInstanceAs (Decidable (∀ f ∈ s.files, _))

end GpioFs

namespace Ownership

theorem isOpen_take {o : Ownership k} {n m : Node} {c : Fin k} {pins : List Nat} {fd : Nat} :
    (o.take n c pins fd).IsOpen m ↔ m = n ∨ o.IsOpen m := by
  constructor
  · rintro ⟨fd', hmem⟩
    cases hmem with
    | head => exact .inl rfl
    | tail _ htail => exact .inr ⟨fd', htail⟩
  · rintro (rfl | ⟨fd', hmem⟩)
    · exact ⟨fd, .head _⟩
    · exact ⟨fd', .tail _ hmem⟩

theorem claim_take {o : Ownership k} {n m : Node} {c d : Fin k} {pins ps : List Nat} {fd : Nat} :
    (o.take n c pins fd).claim m = some (d, ps) ↔
      m = n ∧ c = d ∧ pins = ps ∨ m ≠ n ∧ o.claim m = some (d, ps) := by
  by_cases hmn : m = n
  · subst hmn
    simp [take]
  · simp [take, hmn]

theorem claim_release {o : Ownership k} {n m : Node} {c d : Fin k} {pins ps : List Nat} {fd : Nat} :
    (o.release n c pins fd).claim m = some (d, ps) ↔ m ≠ n ∧ o.claim m = some (d, ps) := by
  by_cases hmn : m = n
  · subst hmn
    simp [release]
  · simp [release, hmn]

theorem getLsbD_take {o : Ownership k} {n : Node} {c : Fin k} {pins : List Nat} {fd : Nat}
    (inWord : ∀ p ∈ pins, p < 32) (d : Fin k) (p : Nat) :
    ((o.take n c pins fd).mask d).getLsbD p = true ↔
      (d = c ∧ p ∈ pins) ∨ (o.mask d).getLsbD p = true := by
  simp only [take]
  by_cases hd : d = c
  · subst hd
    rw [Function.update_self, getLsbD_setBits inWord, or_comm]
    exact or_congr_left ⟨fun hp => ⟨rfl, hp⟩, fun hp => hp.2⟩
  · rw [Function.update_of_ne hd]
    exact ⟨.inr, fun h => h.resolve_left fun hp => hd hp.1⟩

theorem getLsbD_release {o : Ownership k} {n : Node} {c : Fin k} {pins : List Nat} {fd : Nat}
    (inWord : ∀ p ∈ pins, p < 32) (d : Fin k) (p : Nat) :
    ((o.release n c pins fd).mask d).getLsbD p = true ↔
      (o.mask d).getLsbD p = true ∧ ¬ (d = c ∧ p ∈ pins) := by
  simp only [release]
  by_cases hd : d = c
  · subst hd
    rw [Function.update_self, getLsbD_clearBits inWord]
    exact and_congr_right fun _ => not_congr ⟨fun hp => ⟨rfl, hp⟩, fun hp => hp.2⟩
  · rw [Function.update_of_ne hd]
    constructor
    · intro h
      exact ⟨h, fun hp => hd hp.1⟩
    · intro h
      exact h.1

theorem isOpen_release {o : Ownership k} {n : Node} (m : Node) (c : Fin k) (pins : List Nat)
    {fd : Nat} (descriptors : (o.files.map Prod.fst).Nodup) (file : (fd, n) ∈ o.files)
    (sole : ∀ g ∈ o.files, g.2 = n → g.1 = fd) :
    (o.release n c pins fd).IsOpen m ↔ m ≠ n ∧ o.IsOpen m := by
  constructor
  · rintro ⟨fd', hmem⟩
    obtain ⟨hmem, hne⟩ := List.mem_filter.mp hmem
    exact ⟨fun hmn => of_decide_eq_true hne (sole _ hmem hmn), fd', hmem⟩
  · rintro ⟨hmn, fd', hmem⟩
    refine ⟨fd', List.mem_filter.mpr ⟨hmem, decide_eq_true fun hfd => hmn ?_⟩⟩
    have hsame := List.inj_on_of_nodup_map descriptors hmem file hfd
    exact congrArg Prod.snd hsame

/-- A claimed pin is marked: its node is open. -/
theorem Owned.marked {o : Ownership k} (h : o.Owned) {n : Node} {c : Fin k} {pins : List Nat}
    (held : o.claim n = some (c, pins)) {p : Nat} (hp : p ∈ pins) :
    (o.mask c).getLsbD p = true := by
  have hopen : o.IsOpen n := by
    by_contra hclosed
    rw [(h.free n).mpr hclosed] at held
    cases held
  exact (h.mask c p).mpr ⟨n, pins, held, hp, hopen⟩

theorem Sound.take {o : Ownership k} (h : o.Sound) {n : Node} {c : Fin k} {pins : List Nat}
    {fd : Nat} (free : o.claim n = none)
    (unmarked : ∀ p ∈ pins, p < 32 ∧ (o.mask c).getLsbD p = false)
    (fresh : fd ∉ o.files.map Prod.fst) : (o.take n c pins fd).Sound := by
  have hapart {m qs p} (hm : o.claim m = some (c, qs)) (hp : p ∈ pins) : p ∉ qs := by
    intro hq
    have hmarked := h.marked hm hq
    rw [(unmarked p hp).2] at hmarked
    cases hmarked
  constructor
  · constructor
    · intro n₁ n₂ d ps qs h₁ h₂ hne p hp hq
      rcases claim_take.mp h₁ with ⟨rfl, rfl, rfl⟩ | ⟨-, hold₁⟩
      · rcases claim_take.mp h₂ with ⟨rfl, -⟩ | ⟨-, hold₂⟩
        · exact hne rfl
        · exact hapart hold₂ hp hq
      · rcases claim_take.mp h₂ with ⟨rfl, rfl, rfl⟩ | ⟨-, hold₂⟩
        · exact hapart hold₁ hq hp
        · exact h.exclusive hold₁ hold₂ hne p hp hq
    · intro d p
      rw [getLsbD_take fun p hp => (unmarked p hp).1]
      constructor
      · rintro (⟨rfl, hp⟩ | hp)
        · exact ⟨n, pins, claim_take.mpr (.inl ⟨rfl, rfl, rfl⟩), hp, isOpen_take.mpr (.inl rfl)⟩
        · obtain ⟨m, ps, hm, hp, hopen⟩ := (h.mask d p).mp hp
          have hmn : m ≠ n := by
            rintro rfl
            rw [free] at hm
            cases hm
          exact ⟨m, ps, claim_take.mpr (.inr ⟨hmn, hm⟩), hp, isOpen_take.mpr (.inr hopen)⟩
      · rintro ⟨m, ps, hm, hp, -⟩
        rcases claim_take.mp hm with ⟨-, rfl, rfl⟩ | ⟨-, hm⟩
        · exact .inl ⟨rfl, hp⟩
        · exact .inr (h.marked hm hp)
    · intro m
      rw [isOpen_take]
      by_cases hmn : m = n
      · subst hmn
        simp [Ownership.take]
      · simp [Ownership.take, hmn, h.free m]
  · intro m d ps hm p hp
    rcases claim_take.mp hm with ⟨-, -, rfl⟩ | ⟨-, hm⟩
    · exact (unmarked p hp).1
    · exact h.inWord hm p hp
  · exact List.nodup_cons.mpr ⟨fresh, h.descriptors⟩

theorem Sound.share {o : Ownership k} (h : o.Sound) {n : Node} {c : Fin k} {pins : List Nat}
    {fd : Nat} (held : o.claim n = some (c, pins)) (fresh : fd ∉ o.files.map Prod.fst) :
    (o.take n c pins fd).Sound := by
  have hclaim : (o.take n c pins fd).claim = o.claim := by rw [take_held held]
  constructor
  · constructor
    · rw [hclaim]
      exact h.exclusive
    · intro d p
      rw [getLsbD_take (h.inWord held), hclaim]
      constructor
      · rintro (⟨rfl, hp⟩ | hp)
        · exact ⟨n, pins, held, hp, isOpen_take.mpr (.inl rfl)⟩
        · obtain ⟨m, ps, hm, hp, hopen⟩ := (h.mask d p).mp hp
          exact ⟨m, ps, hm, hp, isOpen_take.mpr (.inr hopen)⟩
      · rintro ⟨m, ps, hm, hp, -⟩
        exact .inr (h.marked hm hp)
    · intro m
      rw [isOpen_take, hclaim]
      by_cases hmn : m = n
      · subst hmn
        simp [held]
      · rw [h.free m]
        simp [hmn]
  · rw [hclaim]
    exact h.inWord
  · exact List.nodup_cons.mpr ⟨fresh, h.descriptors⟩

theorem Sound.release {o : Ownership k} (h : o.Sound) {n : Node} {c : Fin k} {pins : List Nat}
    {fd : Nat} (held : o.claim n = some (c, pins)) (file : (fd, n) ∈ o.files)
    (sole : ∀ g ∈ o.files, g.2 = n → g.1 = fd) : (o.release n c pins fd).Sound := by
  have hopen {m : Node} := isOpen_release m c pins h.descriptors file sole
  constructor
  · constructor
    · intro n₁ n₂ d ps qs h₁ h₂
      exact h.exclusive (claim_release.mp h₁).2 (claim_release.mp h₂).2
    · intro d p
      rw [getLsbD_release (h.inWord held)]
      constructor
      · rintro ⟨hp, hkept⟩
        obtain ⟨m, ps, hm, hp, hmopen⟩ := (h.mask d p).mp hp
        have hmn : m ≠ n := by
          rintro rfl
          rw [held] at hm
          cases hm
          exact hkept ⟨rfl, hp⟩
        exact ⟨m, ps, claim_release.mpr ⟨hmn, hm⟩, hp, hopen.mpr ⟨hmn, hmopen⟩⟩
      · rintro ⟨m, ps, hm, hp, -⟩
        obtain ⟨hmn, hold⟩ := claim_release.mp hm
        refine ⟨h.marked hold hp, ?_⟩
        rintro ⟨rfl, hp'⟩
        exact h.exclusive hold held hmn p hp hp'
    · intro m
      rw [hopen]
      by_cases hmn : m = n
      · subst hmn
        simp [Ownership.release]
      · simp [Ownership.release, hmn, h.free m]
  · intro m d ps hm
    exact h.inWord (claim_release.mp hm).2
  · exact h.descriptors.sublist (List.filter_sublist.map _)

/-- A close that leaves a file of the node behind leaves it without a slot. -/
theorem not_owned_release {o : Ownership k} {n : Node} {c : Fin k} {pins : List Nat} {fd fd' : Nat}
    (other : (fd', n) ∈ o.files) (hne : fd' ≠ fd) : ¬ (o.release n c pins fd).Owned := by
  intro howned
  have hclosed := (howned.free n).mp (Function.update_self ..)
  exact hclosed ⟨fd', List.mem_filter.mpr ⟨other, decide_eq_true hne⟩⟩

end Ownership

namespace GpioFs

theorem init_sound (gpioDevices : Fin k → GpioChip) : (init gpioDevices).ownership.Sound := by
  have hclaim (n : Node) : (init gpioDevices).ownership.claim n = none := by cases n <;> rfl
  have hclosed (n : Node) : ¬ (init gpioDevices).ownership.IsOpen n := by
    rintro ⟨fd, hmem⟩
    cases hmem
  constructor
  · constructor
    · intro n m c ps qs h
      rw [hclaim n] at h
      cases h
    · intro c p
      constructor
      · intro h
        rw [show (init gpioDevices).ownership.mask c = 0#32 from rfl, BitVec.getLsbD_zero] at h
        cases h
      · rintro ⟨n, ps, h, -⟩
        rw [hclaim n] at h
        cases h
    · intro n
      exact iff_of_true (hclaim n) (hclosed n)
  · intro n c ps h
    rw [hclaim n] at h
    cases h
  · exact List.nodup_nil

theorem step_sound {s : GpioFs k} {a : Action k} (h : s.ownership.Sound) (hsole : SoleClose s a) :
    (s.step a).ownership.Sound := by
  have heffect := s.step_effect a
  generalize hcloses : a.closes = closes at heffect
  generalize (s.step a).ownership = o at heffect ⊢
  cases heffect with
  | same => exact h
  | take n c pins fd free unmarked fresh => exact h.take free unmarked fresh
  | share n c pins fd held fresh => exact h.share held fresh
  | release n c pins fd held file =>
      exact h.release held file fun g hg hgn => hsole _ file hcloses g hg hgn
  | orphan n fd free file => exact absurd ⟨fd, file⟩ ((h.free n).mp free)

theorem step_not_owned {s : GpioFs k} {a : Action k} (h : s.ownership.Sound)
    (hsole : ¬ SoleClose s a) :
    ¬ (s.step a).ownership.Owned := by
  simp only [SoleClose, not_forall] at hsole
  obtain ⟨⟨fd, n⟩, hf, hcloses, ⟨fd', n'⟩, hg, rfl, hne⟩ := hsole
  have heffect := s.step_effect a
  rw [hcloses] at heffect
  generalize (s.step a).ownership = o at heffect ⊢
  have node_eq {m : Node} (file : (fd, m) ∈ s.files) : m = n' :=
    congrArg Prod.snd (List.inj_on_of_nodup_map h.descriptors file hf rfl)
  cases heffect with
  | same _ unopened => exact absurd rfl (unopened _ hf)
  | release n c pins _ held file =>
      obtain rfl := node_eq file
      exact Ownership.not_owned_release hg hne
  | orphan n _ free file => exact absurd ⟨fd, file⟩ ((h.free n).mp free)

/-- The ownership laws hold all along a run from boot just when no close leaves another
open file of the same node behind. -/
theorem pinOwnership (gpioDevices : Fin k → GpioChip) (actions : List (Action k)) :
    Always step (fun s => s.ownership.Owned) (init gpioDevices) actions ↔
      Follows step SoleClose (init gpioDevices) actions :=
  always_iff_follows (init_sound gpioDevices) (fun _ _ h hsole => step_sound h hsole)
    (fun _ h => h.toOwned) fun _ _ h hsole => step_not_owned h hsole

/-- Line 0 opened a second time through its path, and its first file closed. -/
def sharedLine : List (Action 1) :=
  let reply (fd : Nat) : Reply := ⟨true, some fd, 0, 0⟩
  [.create 0 (.handle ⟨.replicate 64 7, gpiohandleRequestOutput, 1⟩) (reply 5),
    .openPath (.line 0) (reply 6), .close 5]

theorem pinOwnership_sharedLine :
    ¬ Always step (fun s => s.ownership.Owned) (init fun _ => ⟨16, 0#32, by decide⟩)
      sharedLine := by
  intro h
  have hlast := h.last
  have hfree : (sharedLine.foldl step (init fun _ => ⟨16, 0#32, by decide⟩)).ownership.claim
      (.line 0) = none := by
    decide +kernel
  exact (hlast.free (.line 0)).mp hfree ⟨6, by decide +kernel⟩

end GpioFs

end LinkedsemiZephyr.Gpio
