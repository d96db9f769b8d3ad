import LinkedsemiZephyr.Gpio.PinOwnership

/-! What a create ioctl reports: its result and `req->fd` beside what it has done to slots,
paths and masks. -/
namespace LinkedsemiZephyr.Gpio
open BitMask

variable {k : Nat}

namespace GpioFs

/-- The slot table: chip and request of the slots in use. What a free slot last held is
overwritten before the slot is used. -/
def slots (s : GpioFs k) : Node → Option (Fin k × Request)
  | .line i => (s.gpioLineHandle i).chip.map fun c => (c, .handle (s.gpioLineHandle i).req)
  | .event i => (s.gpioLineEvent i).chip.map fun c => (c, .event (s.gpioLineEvent i).req)

structure Unchanged (s s' : GpioFs k) : Prop where
  slots : s'.slots = s.slots
  registered : s'.registered = s.registered
  pinMask : ∀ c, (s'.gpioDevices c).pinMask = (s.gpioDevices c).pinMask
  files : s'.files = s.files

/-- The descriptor is open on a node that has the request, and all its pins are marked. -/
def Serving (s : GpioFs k) (c : Fin k) (req : Request) (fd : Nat) : Prop :=
  ∃ n, s.fileOf fd = some n ∧ s.slots n = some (c, req) ∧
    ∀ p ∈ req.pins, (s.gpioDevices c).pinMask.getLsbD p = true

/-- A result that is not negative is one of a call that served the request, and a call that
did not has done nothing. -/
structure Reports (s : GpioFs k) (c : Fin k) (req : Request)
    (result : GpioFs k × Int × Option Nat) : Prop where
  served : 0 ≤ result.2.1 ↔ ∃ fd, result.2.2 = some fd ∧ result.1.Serving c req fd
  failed : result.2.2 = none → result.2.1 < 0 ∧ Unchanged s result.1

/-- No path of a free slot is registered. -/
def Tidy (s : GpioFs k) : Prop := ∀ n, s.slots n = none → n ∉ s.registered

theorem Reports.of_failed {s s' : GpioFs k} {c : Fin k} {req : Request} {e : Int} (he : e < 0)
    (unchanged : Unchanged s s') : Reports s c req (s', e, none) where
  served := iff_of_false (Int.not_le.mpr he) (by rintro ⟨fd, hfd, -⟩; cases hfd)
  failed := fun _ => ⟨he, unchanged⟩

theorem Reports.of_served {s s' : GpioFs k} {c : Fin k} {req : Request} {fd : Nat} {res : Int}
    (hres : 0 ≤ res) (serving : s'.Serving c req fd) : Reports s c req (s', res, some fd) where
  served := iff_of_true hres ⟨fd, rfl, serving⟩
  failed := by intro h; cases h

theorem claim_eq (s : GpioFs k) (n : Node) :
    s.claim n = (s.slots n).map fun held => (held.1, held.2.pins) := by
  cases n with
  | line i => simp only [claim, slots, Option.map_map]; rfl
  | event i => simp only [claim, slots, Option.map_map]; rfl

theorem slots_none_iff {s : GpioFs k} {n : Node} : s.slots n = none ↔ s.claim n = none := by
  rw [claim_eq, Option.map_eq_none_iff]

theorem slots_setLine (s : GpioFs k) (i : Fin gpioLineHandleMax) (slot : GpioLine k) :
    slots { s with gpioLineHandle := Function.update s.gpioLineHandle i slot } =
      Function.update s.slots (.line i) (slot.chip.map fun c => (c, .handle slot.req)) := by
  funext n
  by_cases h : n = .line i
  · subst h
    simp [slots]
  · rw [Function.update_of_ne h]
    cases n with
    | line j =>
        have hj : j ≠ i := fun hj => h (by rw [hj])
        simp [slots, Function.update_of_ne hj]
    | event j => rfl

theorem slots_setEvent (s : GpioFs k) (i : Fin gpioLineEventMax) (slot : GpioEvent k) :
    slots { s with gpioLineEvent := Function.update s.gpioLineEvent i slot } =
      Function.update s.slots (.event i) (slot.chip.map fun c => (c, .event slot.req)) := by
  funext n
  by_cases h : n = .event i
  · subst h
    simp [slots]
  · rw [Function.update_of_ne h]
    cases n with
    | line j => rfl
    | event j =>
        have hj : j ≠ i := fun hj => h (by rw [hj])
        simp [slots, Function.update_of_ne hj]

theorem slots_free (s : GpioFs k) (n : Node) :
    (s.free n).slots = Function.update s.slots n none := by
  cases n with
  | line i => exact slots_setLine s i _
  | event i => exact slots_setEvent s i _

theorem slots_fill {n : Node} {req : Request} (h : n.Serves req) (s : GpioFs k) (c : Fin k) :
    (s.fill c n req).slots = Function.update s.slots n (some (c, req)) := by
  cases n with
  | line i =>
      cases req with
      | handle req => exact slots_setLine s i ⟨some c, req⟩
      | event req => exact h.elim
  | event i =>
      cases req with
      | handle req => exact h.elim
      | event req => exact slots_setEvent s i ⟨some c, req⟩

section Frame
variable {s s' : GpioFs k} {n : Node} {r : Reply} {fd : Nat}

theorem fill_frame (s : GpioFs k) (c : Fin k) (n : Node) (req : Request) :
    (s.fill c n req).registered = s.registered ∧ (s.fill c n req).gpioDevices = s.gpioDevices ∧
      (s.fill c n req).files = s.files := by
  cases n <;> cases req <;> exact ⟨rfl, rfl, rfl⟩

theorem free_frame (s : GpioFs k) (n : Node) :
    (s.free n).registered = s.registered ∧ (s.free n).gpioDevices = s.gpioDevices ∧
      (s.free n).files = s.files := by
  cases n <;> exact ⟨rfl, rfl, rfl⟩

theorem openNode_frame (h : s.openNode r n = .ok s') :
    s'.slots = s.slots ∧ s'.registered = s.registered ∧ s'.files = s.files := by
  cases n with
  | line i =>
      simp only [openNode, gpioLineOpen] at h
      split at h <;> cases h
      exact ⟨rfl, rfl, rfl⟩
  | event i =>
      simp only [openNode, gpioEventOpen] at h
      split at h
      · cases h
      · split_ifs at h
        cases h
        exact ⟨rfl, rfl, rfl⟩

theorem openPath_frame (h : s.openPath n r = .ok (s', fd)) :
    s'.slots = s.slots ∧ s'.registered = s.registered ∧ s'.files = (fd, n) :: s.files := by
  simp only [openPath] at h
  split_ifs at h
  split at h
  · cases h
  · split_ifs at h
    cases hnode : s.openNode r n with
    | error e => rw [hnode] at h; cases h
    | ok s₁ =>
        rw [hnode] at h
        cases h
        obtain ⟨hslots, hregistered, hfiles⟩ := openNode_frame hnode
        exact ⟨hslots, hregistered, congrArg ((fd, n) :: ·) hfiles⟩

theorem openNode_error (hpin : r.pinConfigure ≤ 0) (hinterrupt : r.interruptConfigure ≤ 0) {e : Int}
    (h : s.openNode r n = .error e) : e < 0 := by
  cases n with
  | line i =>
      simp only [openNode, gpioLineOpen] at h
      split at h <;> cases h
      decide
  | event i =>
      simp only [openNode, gpioEventOpen] at h
      split at h
      · cases h
        decide
      split at h
      · rename_i hconfigure
        cases h
        exact lt_of_le_of_ne hpin hconfigure
      split at h
      · rename_i hedge
        cases h
        exact lt_of_le_of_ne hinterrupt hedge
      · cases h

/-- `open` fails with a negative code where the pin driver does. -/
theorem openPath_error (hpin : r.pinConfigure ≤ 0) (hinterrupt : r.interruptConfigure ≤ 0) {e : Int}
    (h : s.openPath n r = .error e) : e < 0 := by
  rw [openPath] at h
  split at h
  · cases h
    decide
  cases hfd : r.fd with
  | none =>
      simp only [hfd] at h
      cases h
      decide
  | some fd =>
      simp only [hfd] at h
      split at h
      · cases h
        decide
      cases hnode : s.openNode r n with
      | error e' =>
          rw [hnode] at h
          cases h
          exact openNode_error hpin hinterrupt hnode
      | ok s₁ =>
          rw [hnode] at h
          cases h

end Frame

theorem unchanged_refl (s : GpioFs k) : Unchanged s s := ⟨rfl, rfl, fun _ => rfl, rfl⟩

/-- A slot given back before its path was registered. -/
theorem unchanged_free {s : GpioFs k} {n : Node} (hfree : s.slots n = none) :
    Unchanged s (s.free n) := by
  obtain ⟨hregistered, hdevices, hfiles⟩ := free_frame s n
  refine ⟨?_, hregistered, fun c => by rw [hdevices], hfiles⟩
  rw [slots_free, Function.update_eq_self_iff.mpr hfree.symm]

/-- A slot given back after its path was registered and could not be opened. -/
theorem unchanged_undone {s : GpioFs k} {n : Node} {req : Request} (hserves : n.Serves req)
    (hfree : s.slots n = none) (hregistered : n ∉ s.registered) (c : Fin k) :
    Unchanged s ((((s.fill c n req).devfsRegisterAnon n).devfsUnregisterAnon n).free n) := by
  obtain ⟨hfillRegistered, hfillDevices, hfillFiles⟩ := fill_frame s c n req
  obtain ⟨hfreeRegistered, hfreeDevices, hfreeFiles⟩ :=
    free_frame (((s.fill c n req).devfsRegisterAnon n).devfsUnregisterAnon n) n
  constructor
  · rw [slots_free]
    change Function.update (s.fill c n req).slots n none = s.slots
    rw [slots_fill hserves, Function.update_idem, Function.update_eq_self_iff.mpr hfree.symm]
  · rw [hfreeRegistered]
    change (n :: (s.fill c n req).registered).filter (· ≠ n) = s.registered
    rw [hfillRegistered, List.filter_cons_of_neg (by simp), List.filter_eq_self]
    intro m hm
    exact decide_eq_true fun hmn => hregistered (hmn ▸ hm)
  · intro d
    rw [hfreeDevices]
    exact congrArg (fun devices : Fin k → GpioChip => (devices d).pinMask) hfillDevices
  · rw [hfreeFiles]
    exact hfillFiles

inductive Created (s : GpioFs k) (c : Fin k) (req : Request) (r : Reply) :
  GpioFs k × Int × Option Nat → Prop
  | refused (e : Int)
      (cause : check (s.gpioDevices c) req = .error e ∨ s.alloc req = none ∧ e = -ENOMEM) :
      Created s c req r (s, e, none)
  | opened (n : Node) (s' : GpioFs k) (fd : Nat) (alloc : s.alloc req = some n)
      (registers : r.registers = true)
      (slots : s'.slots = Function.update s.slots n (some (c, req)))
      (registered : s'.registered = n :: s.registered)
      (files : s'.files = (fd, n) :: s.files)
      (marked : ∀ p ∈ req.pins, (s'.gpioDevices c).pinMask.getLsbD p = true) :
        Created s c req r (s', 1, some fd)
  | unopened (n : Node) (s' : GpioFs k) (e : Int) (registers : r.registers = true)
      (cause : ((s.fill c n req).devfsRegisterAnon n).openPath n r = .error e)
      (unchanged : Unchanged s s') :
      Created s c req r (s', e, none)
  | unregistered (n : Node) (s' : GpioFs k) (passed : check (s.gpioDevices c) req = .ok ())
      (alloc : s.alloc req = some n) (registers : r.registers = false)
      (unchanged : Unchanged s s') :
      Created s c req r (s', 0, none)

/-- A served request has its pins marked. -/
theorem marked_of_take {s s' : GpioFs k} {c : Fin k} {n : Node} {req : Request} {fd : Nat}
    (hcheck : check (s.gpioDevices c) req = .ok ())
    (h : s'.ownership = s.ownership.take n c req.pins fd) :
    ∀ p ∈ req.pins, (s'.gpioDevices c).pinMask.getLsbD p = true := by
  intro p hp
  have hmask := congrArg (fun o : Ownership k => o.mask c) h
  change (s'.gpioDevices c).pinMask = (s.ownership.take n c req.pins fd).mask c at hmask
  rw [hmask]
  refine (Ownership.getLsbD_take (fun q hq => ?_) c p).mpr (.inl ⟨rfl, hp⟩)
  exact Nat.lt_of_lt_of_le (check_spec hcheck q hq).1 (s.gpioDevices c).pinCount_le

theorem create_created {s : GpioFs k} (tidy : s.Tidy) (c : Fin k) (req : Request) (r : Reply) :
    Created s c req r (s.create c r req) := by
  rw [create_eq]
  cases hcheck : check (s.gpioDevices c) req with
  | error e => exact .refused e (.inl hcheck)
  | ok u =>
      cases halloc : s.alloc req with
      | none => exact .refused _ (.inr ⟨halloc, rfl⟩)
      | some n =>
          obtain ⟨hserves, hclaim⟩ := alloc_spec halloc
          have hfree : s.slots n = none := slots_none_iff.mpr hclaim
          have hspec := installNode_spec (s := s) (c := c) hserves r
          simp only [installNode] at hspec ⊢
          cases hregisters : r.registers with
          | false => exact .unregistered n _ hcheck halloc hregisters (unchanged_free hfree)
          | true =>
              simp only [hregisters, if_true] at hspec ⊢
              cases hopen : ((s.fill c n req).devfsRegisterAnon n).openPath n r with
              | error e =>
                  exact .unopened n _ e hregisters hopen
                    (unchanged_undone hserves hfree (tidy n hfree) c)
              | ok opened =>
                  obtain ⟨s', fd⟩ := opened
                  obtain ⟨hregistered, -, hfiles⟩ := fill_frame s c n req
                  obtain ⟨hslots', hregistered', hfiles'⟩ := openPath_frame hopen
                  rw [hopen] at hspec
                  refine .opened n s' fd halloc hregisters ?_ ?_ ?_ ?_
                  · rw [hslots']
                    exact slots_fill hserves s c
                  · rw [hregistered']
                    exact congrArg (n :: ·) hregistered
                  · rw [hfiles']
                    exact congrArg ((fd, n) :: ·) hfiles
                  · obtain ⟨fd', -, -, htaken⟩ | ⟨hnone, -⟩ := hspec
                    · exact marked_of_take hcheck htaken
                    · cases hnone

theorem tidy_init (gpioDevices : Fin k → GpioChip) : (init gpioDevices).Tidy := by
  intro n _ hmem
  cases hmem

theorem Unchanged.tidy {s s' : GpioFs k} (h : Unchanged s s') (tidy : s.Tidy) : s'.Tidy := by
  intro n
  rw [h.slots, h.registered]
  exact tidy n

/-- The close of a free slot dereferences NULL. -/
theorem closeNode_unused {s : GpioFs k} {n : Node} (h : s.slots n = none) :
    (s.closeNode n).slots = s.slots ∧ (s.closeNode n).registered = s.registered := by
  cases n with
  | line i =>
      have hchip : (s.gpioLineHandle i).chip = none := Option.map_eq_none_iff.mp h
      simp only [closeNode, gpioLineClose, hchip]
      exact ⟨rfl, trivial⟩
  | event i =>
      have hchip : (s.gpioLineEvent i).chip = none := Option.map_eq_none_iff.mp h
      simp only [closeNode, gpioEventClose, hchip]
      exact ⟨rfl, trivial⟩

theorem closeNode_used {s : GpioFs k} {n : Node} {held : Fin k × Request}
    (h : s.slots n = some held) :
    (s.closeNode n).slots = Function.update s.slots n none ∧
      (s.closeNode n).registered = s.registered.filter (· ≠ n) := by
  cases n with
  | line i =>
      obtain ⟨c, hchip, -⟩ := Option.map_eq_some_iff.mp h
      simp only [closeNode, gpioLineClose, hchip]
      exact ⟨slots_free _ (.line i), rfl⟩
  | event i =>
      obtain ⟨c, hchip, -⟩ := Option.map_eq_some_iff.mp h
      simp only [closeNode, gpioEventClose, hchip]
      exact ⟨slots_free (s.setPinMask c _) (.event i), rfl⟩

/-- The slot a close frees loses its path with it. -/
theorem closeNode_tidy {s : GpioFs k} (tidy : s.Tidy) (n : Node) : (s.closeNode n).Tidy := by
  intro m
  cases hn : s.slots n with
  | none =>
      obtain ⟨hslots, hregistered⟩ := closeNode_unused hn
      rw [hslots, hregistered]
      exact tidy m
  | some held =>
      obtain ⟨hslots, hregistered⟩ := closeNode_used hn
      rw [hslots, hregistered, List.mem_filter]
      rintro hm ⟨hmem, hne⟩
      rw [Function.update_of_ne (of_decide_eq_true hne)] at hm
      exact tidy m hm hmem

/-- A path is registered once its slot is filled. -/
theorem Tidy.opened {s s' : GpioFs k} (tidy : s.Tidy) {n : Node} {held : Fin k × Request}
    (slots : s'.slots = Function.update s.slots n (some held))
    (registered : s'.registered = n :: s.registered) :
    s'.Tidy := by
  intro m hm hmem
  rw [slots] at hm
  rw [registered] at hmem
  by_cases hmn : m = n
  · rw [hmn, Function.update_self] at hm
    cases hm
  · rw [Function.update_of_ne hmn] at hm
    exact tidy m hm ((List.mem_cons.mp hmem).resolve_left hmn)

theorem step_tidy {s : GpioFs k} (tidy : s.Tidy) (a : Action k) : (s.step a).Tidy := by
  cases a with
  | create c req r =>
      have hcreated := create_created tidy c req r
      rw [step]
      generalize s.create c r req = result at hcreated ⊢
      cases hcreated with
      | refused => exact tidy
      | opened _ _ _ _ _ slots registered => exact tidy.opened slots registered
      | unopened _ _ _ _ _ unchanged => exact unchanged.tidy tidy
      | unregistered _ _ _ _ _ unchanged => exact unchanged.tidy tidy
  | openPath n r =>
      rw [step]
      split
      · rename_i s' fd hopen
        obtain ⟨hslots, hregistered, -⟩ := openPath_frame hopen
        intro m
        rw [hslots, hregistered]
        exact tidy m
      · exact tidy
  | ioctl fd request =>
      rw [step]
      cases hfile : s.fileOf fd with
      | none => simp only [fileIoctl, hfile]; exact tidy
      | some n => cases n <;> cases request <;> simp only [fileIoctl, hfile] <;> exact tidy
  | close fd =>
      rw [step, closeFile]
      split
      · exact tidy
      · rename_i n _
        exact closeNode_tidy tidy n

theorem run_tidy (gpioDevices : Fin k → GpioChip) (actions : List (Action k)) :
    (actions.foldl step (init gpioDevices)).Tidy :=
  List.foldlRecOn actions step (tidy_init gpioDevices) fun _ tidy a _ => step_tidy tidy a

theorem check_error {chip : GpioChip} {req : Request} {e : Int} (h : check chip req = .error e) :
    e < 0 := by
  have einval : (-EINVAL : Int) < 0 := by decide
  cases req with
  | handle req =>
      simp only [check, gpioLineHandleCheck] at h
      split_ifs at h <;> cases h <;> exact einval
  | event req =>
      simp only [check, gpioLineEventCheck] at h
      split_ifs at h <;> cases h <;> exact einval

/-- In whatever state the calls before have left the tables, a create reports what it did
just when it fails before it registers a path, or registers it: `res` is the negated result
of `devfs_register_anon`, and zero where that failed. -/
theorem create_reports_iff (gpioDevices : Fin k → GpioChip) (actions : List (Action k)) (c : Fin k)
    (req : Request) (r : Reply) (hpin : r.pinConfigure ≤ 0)
    (hinterrupt : r.interruptConfigure ≤ 0) :
    Reports (actions.foldl step (init gpioDevices)) c req
        ((actions.foldl step (init gpioDevices)).create c r req) ↔
      (∃ e, check ((actions.foldl step (init gpioDevices)).gpioDevices c) req = .error e) ∨
        (actions.foldl step (init gpioDevices)).alloc req = none ∨ r.registers = true := by
  have hcreated := create_created (run_tidy gpioDevices actions) c req r
  generalize actions.foldl step (init gpioDevices) = s at hcreated ⊢
  generalize s.create c r req = result at hcreated ⊢
  cases hcreated with
  | refused e cause =>
      refine iff_of_true (.of_failed ?_ (unchanged_refl s))
        (cause.imp (fun h => ⟨e, h⟩) fun h => .inl h.1)
      rcases cause with hcheck | ⟨-, rfl⟩
      · exact check_error hcheck
      · decide
  | opened n s' fd alloc registers slots registered files marked =>
      refine iff_of_true (.of_served (by decide) ⟨n, ?_, ?_, marked⟩) (.inr (.inr registers))
      · simp [fileOf, files]
      · rw [slots, Function.update_self]
  | unopened n s' e registers cause unchanged =>
      exact iff_of_true (.of_failed (openPath_error hpin hinterrupt cause) unchanged)
        (.inr (.inr registers))
  | unregistered n s' passed alloc registers unchanged =>
      refine iff_of_false ?_ ?_
      · intro h
        exact Int.lt_irrefl 0 (h.failed rfl).1
      · rintro (⟨e, he⟩ | he | he)
        · rw [passed] at he; cases he
        · rw [alloc] at he; cases he
        · rw [registers] at he; cases he

/-- An event on line 3 of a fresh chip, the pin driver content. -/
def requestRising : Request := .event ⟨3, 0, gpioeventRequestRisingEdge⟩

theorem create_reports_registered :
    Reports (init fun _ : Fin 1 => ⟨16, 0#32, by decide⟩) 0 requestRising
      ((init fun _ => ⟨16, 0#32, by decide⟩).create 0 ⟨true, some 5, 0, 0⟩ requestRising) :=
  (create_reports_iff _ [] 0 requestRising ⟨true, some 5, 0, 0⟩ (by decide) (by decide)).mpr
    (.inr (.inr rfl))

/-- `devfs_register_anon` fails and the ioctl returns 0, with no descriptor. -/
theorem create_unregistered_zero :
    ¬ Reports (init fun _ : Fin 1 => ⟨16, 0#32, by decide⟩) 0 requestRising
      ((init fun _ => ⟨16, 0#32, by decide⟩).create 0 ⟨false, some 5, 0, 0⟩ requestRising) := by
  intro h
  have hnegative := (h.failed (by decide +kernel)).1
  exact absurd hnegative (by decide +kernel)

end GpioFs

end LinkedsemiZephyr.Gpio
