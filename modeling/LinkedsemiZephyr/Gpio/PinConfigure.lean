import LinkedsemiZephyr.Gpio.GpioFs
import LinkedsemiZephyr.Lib.GuardedRun

/-! The calls that reach the pin driver. A create checks its flag word and keeps it for
the opens of its node; SET_CONFIG brings a word of its own. -/
namespace LinkedsemiZephyr.Gpio
open BitMask GuardedRun

variable {k : Nat}

/-- The `gpio_flags_t` bits of the driver interface. -/
structure GpioFlags where
  gpioInput : UInt32
  gpioOutput : UInt32
  gpioOutputInitLow : UInt32
  gpioOpenDrain : UInt32
  gpioOpenSource : UInt32
  gpioPullUp : UInt32
  gpioPullDown : UInt32
  gpioDisconnected : UInt32

def reqFlag2GpioFlag (G : GpioFlags) (flags : UInt32) : UInt32 :=
  if HasFlag flags gpiohandleRequestBiasDisable then G.gpioDisconnected
  else
    (if HasFlag flags gpiohandleRequestInput then G.gpioInput else 0) |||
      (if HasFlag flags gpiohandleRequestOutput then G.gpioOutput else 0) |||
      (if HasFlag flags gpiohandleRequestActiveLow then G.gpioOutputInitLow else 0) |||
      (if HasFlag flags gpiohandleRequestOpenDrain then G.gpioOpenDrain else 0) |||
      (if HasFlag flags gpiohandleRequestOpenSource then G.gpioOpenSource else 0) |||
      (if HasFlag flags gpiohandleRequestBiasPullUp then G.gpioPullUp else 0) |||
      (if HasFlag flags gpiohandleRequestBiasPullDown then G.gpioPullDown else 0)

/-- `gpio_pin_configure`, with the handle flags it is made for where there are any, and
`gpio_pin_set`. -/
inductive PinCall (k : Nat) where
  | configure (c : Fin k) (pin : Nat) (requested : Option UInt32) (flags : UInt32)
  | set (c : Fin k) (pin : Nat)

/-- Flags that contradict each other or are none. -/
def Contradictory (flags : UInt32) : Prop :=
  (HasFlag flags gpiohandleRequestInput ∧ HasFlag flags gpiohandleRequestOutput) ∨
    (HasFlag flags gpiohandleRequestOpenDrain ∧ HasFlag flags gpiohandleRequestOpenSource) ∨
    (¬ HasFlag flags gpiohandleRequestOutput ∧
      (HasFlag flags gpiohandleRequestOpenDrain ∨ HasFlag flags gpiohandleRequestOpenSource)) ∨
    HasFlag flags (~~~gpiohandleRequestValidFlags)

instance (flags : UInt32) : Decidable (Contradictory flags) := inferInstanceAs (Decidable (_ ∨ _))

/-- A call of a client, with the `config->flags` a SET_CONFIG carries. -/
structure Operation (k : Nat) where
  action : Action k
  lflags : UInt32 := 0

/-- The handle flags a call asks for. -/
def Operation.requested (op : Operation k) : Option UInt32 :=
  match op.action with
  | .create _ (.handle req) _ => some req.flags
  | .create _ (.event req) _ => some req.handleflags
  | .ioctl _ .setConfig => some op.lflags
  | _ => none

namespace GpioFs

/-- The loop over a handle's lines in `gpio_line_open` and in SET_CONFIG. -/
def configureLines (G : GpioFlags) (s : GpioFs k) (i : Fin gpioLineHandleMax) (lflags : UInt32) :
    List (PinCall k) :=
  match (s.gpioLineHandle i).chip with
  | none => []
  | some c =>
    let flags := reqFlag2GpioFlag G lflags
    (s.gpioLineHandle i).req.pins.flatMap fun pin =>
      .configure c pin (some lflags) flags :: if HasFlag flags G.gpioOutput then
        [.set c pin] else []

/-- An open of a node; `gpio_event_open` configures its pin whatever comes of it. -/
def openCalls (G : GpioFlags) (s : GpioFs k) : Node → List (PinCall k)
  | .line i => s.configureLines G i (s.gpioLineHandle i).req.flags
  | .event i =>
    match (s.gpioLineEvent i).chip with
    | none => []
    | some c => [.configure c (s.gpioLineEvent i).req.lineoffset.toNat none G.gpioInput]

def openPathCalls (G : GpioFlags) (s : GpioFs k) (n : Node) (r : Reply) : List (PinCall k) :=
  if n ∉ s.registered then []
  else match r.fd with
    | none => []
    | some fd => if fd ∈ s.files.map Prod.fst then [] else s.openCalls G n

def createCalls (G : GpioFlags) (s : GpioFs k) (c : Fin k) (r : Reply) (req : Request) :
    List (PinCall k) :=
  match check (s.gpioDevices c) req with
  | .error _ => []
  | .ok () =>
    match s.alloc req with
    | none => []
    | some n =>
        if r.registers then ((s.fill c n req).devfsRegisterAnon n).openPathCalls G n r else []

/-- `gpio_line_close` disconnects its pins; `gpio_event_close` leaves its pin an input. -/
def closeCalls (G : GpioFlags) (s : GpioFs k) (fd : Nat) : List (PinCall k) :=
  match s.fileOf fd with
  | some (.line i) =>
    match (s.gpioLineHandle i).chip with
    | none => []
    | some c =>
        (s.gpioLineHandle i).req.pins.map fun pin => .configure c pin none G.gpioDisconnected
  | _ => []

def ioctlCalls (G : GpioFlags) (s : GpioFs k) (fd : Nat) (request : FileRequest) (lflags : UInt32) :
    List (PinCall k) :=
  match s.fileOf fd, request with
  | some (.line i), .setConfig => s.configureLines G i lflags
  | some (.line i), .setLineValues =>
    match (s.gpioLineHandle i).chip with
    | none => []
    | some c => (s.gpioLineHandle i).req.pins.map fun pin => .set c pin
  | _, _ => []

/-- What a call does to the pins. -/
def pinCalls (G : GpioFlags) (s : GpioFs k) (op : Operation k) : List (PinCall k) :=
  match op.action with
  | .create c req r => s.createCalls G c r req
  | .openPath n r => s.openPathCalls G n r
  | .ioctl fd request => s.ioctlCalls G fd request op.lflags
  | .close fd => s.closeCalls G fd

/-- What a call returns. -/
def result (s : GpioFs k) : Action k → Int
  | .create c req r => (s.create c r req).2.1
  | .openPath n r =>
    match s.openPath n r with
    | .ok (_, fd) => fd
    | .error e => e
  | .ioctl fd request => (s.fileIoctl fd request).2
  | .close fd => (s.closeFile fd).2

def operate (s : GpioFs k) (op : Operation k) : GpioFs k := s.step op.action

/-- No pin is configured for contradictory flags, and a call that asks for them fails and
leaves pins and files as they were. -/
structure Lawful (G : GpioFlags) (s : GpioFs k) (op : Operation k) : Prop where
  sound : ∀ {c pin w flags}, PinCall.configure c pin (some w) flags ∈ s.pinCalls G op →
    ¬ Contradictory w
  rejected : ∀ w ∈ op.requested, Contradictory w →
    s.result op.action < 0 ∧ s.pinCalls G op = [] ∧ s.operate op = s

/-- A SET_CONFIG on a line file has the flags a create would accept. -/
def Admissible (s : GpioFs k) (op : Operation k) : Prop :=
  ∀ fd i, op.action = .ioctl fd .setConfig → s.fileOf fd = some (.line i) →
    ¬ Contradictory op.lflags

/-- The slots in use hold checked flags. -/
def Checked (s : GpioFs k) : Prop :=
  ∀ i, (s.gpioLineHandle i).chip ≠ none → ¬ Contradictory (s.gpioLineHandle i).req.flags

section Check
variable {chip : GpioChip}

theorem handleCheck_rejects {req : GpiohandleRequest} (h : Contradictory req.flags) :
    gpioLineHandleCheck req chip = .error (-EINVAL) := by
  unfold gpioLineHandleCheck
  split_ifs with hlines hoffsets hmask hvalid hdirection hdrive hmode
  all_goals first | rfl | skip
  rcases h with h | h | h | h
  · exact absurd h hdirection
  · exact absurd h hdrive
  · exact absurd h hmode
  · exact absurd h hvalid

theorem eventCheck_rejects {req : GpioeventRequest} (h : Contradictory req.handleflags) :
    gpioLineEventCheck req chip = .error (-EINVAL) := by
  unfold gpioLineEventCheck
  simp only
  split_ifs with hoffset hmask hvalid hdrive hbias
  all_goals first | rfl | skip
  simp only [not_or] at hdrive hvalid
  rcases h with h | h | h | h
  · exact absurd h.2 hdrive.1
  · exact absurd h.1 hdrive.2.1
  · exact absurd h.2 (not_or.mpr hdrive.2)
  · exact absurd h hvalid.1

theorem check_rejects (chip : GpioChip) {op : Operation k} {c : Fin k} {req : Request} {r : Reply}
    {w : UInt32} (hop : op.action = .create c req r) (hw : w ∈ op.requested) (h : Contradictory w) :
    check chip req = .error (-EINVAL) := by
  simp only [Operation.requested, hop] at hw
  cases req with
  | handle req =>
      cases hw
      exact handleCheck_rejects h
  | event req =>
      cases hw
      exact eventCheck_rejects h

end Check

section Slots
variable {s s' : GpioFs k} {n : Node} {r : Reply} {req : Request} {c : Fin k}

/-- Only the line slots matter. -/
theorem Checked.congr (h : s.Checked) (hslots : s'.gpioLineHandle = s.gpioLineHandle) :
    s'.Checked := by
  intro i
  rw [hslots]
  exact h i

theorem openNode_slots (h : s.openNode r n = .ok s') : s'.gpioLineHandle = s.gpioLineHandle := by
  cases n with
  | line i =>
      simp only [openNode, gpioLineOpen] at h
      split at h <;> cases h
      rfl
  | event i =>
      simp only [openNode, gpioEventOpen] at h
      split at h
      · cases h
      · split_ifs at h
        cases h
        rfl

theorem openPath_slots {fd : Nat} (h : s.openPath n r = .ok (s', fd)) :
    s'.gpioLineHandle = s.gpioLineHandle := by
  simp only [openPath] at h
  split_ifs at h
  split at h
  · cases h
  · split_ifs at h
    cases hnode : s.openNode r n with
    | error e => rw [hnode] at h; cases h
    | ok s₁ =>
        rw [hnode] at h
        cases h
        have hslots : s₁.gpioLineHandle = s.gpioLineHandle := openNode_slots hnode
        exact hslots

theorem Checked.free (h : s.Checked) (n : Node) : (s.free n).Checked := by
  cases n with
  | line i =>
      intro j hj
      simp only [GpioFs.free, gpioLineHandleFree] at hj ⊢
      by_cases hji : j = i
      · subst hji
        rw [Function.update_self] at hj
        exact absurd rfl hj
      · rw [Function.update_of_ne hji] at hj ⊢
        exact h j hj
  | event i => exact h

/-- A slot is filled once its request has passed the checks. -/
theorem Checked.fill (h : s.Checked) (hcheck : check (s.gpioDevices c) req = .ok ()) :
    (s.fill c n req).Checked := by
  cases req with
  | event req =>
      cases n <;> exact h
  | handle req =>
      cases n with
      | event i => exact h
      | line i =>
          intro j hj
          simp only [GpioFs.fill] at hj ⊢
          by_cases hji : j = i
          · subst hji
            rw [Function.update_self]
            intro hcon
            rw [check, handleCheck_rejects hcon] at hcheck
            cases hcheck
          · rw [Function.update_of_ne hji] at hj ⊢
            exact h j hj

theorem Checked.install (h : s.Checked) (hcheck : check (s.gpioDevices c) req = .ok ()) :
    (s.installNode (s.fill c n req) n r).1.Checked := by
  have hfilled : (s.fill c n req).Checked := h.fill hcheck
  simp only [installNode]
  split
  · split
    · next s' fd hopen =>
        exact hfilled.congr (openPath_slots (s := (s.fill c n req).devfsRegisterAnon n) hopen)
    · exact Checked.free (s := ((s.fill c n req).devfsRegisterAnon n).devfsUnregisterAnon n) hfilled
        n
  · exact h.free n

theorem Checked.close (h : s.Checked) (n : Node) : (s.closeNode n).Checked := by
  cases n with
  | line i =>
      simp only [closeNode, gpioLineClose]
      split
      · exact h
      · next c hc =>
          exact Checked.free (s := (s.setPinMask c (clearBits (s.gpioDevices c).pinMask
            (s.gpioLineHandle i).req.pins)).devfsUnregisterAnon (.line i)) h (.line i)
  | event i =>
      simp only [closeNode, gpioEventClose]
      split <;> exact h

theorem Checked.step (h : s.Checked) (a : Action k) : (s.step a).Checked := by
  cases a with
  | create c req r =>
      simp only [GpioFs.step, create_eq]
      split
      · exact h
      · next hcheck =>
          split
          · exact h
          · exact h.install hcheck
  | openPath n r =>
      simp only [GpioFs.step]
      split
      · next s' fd hopen => exact h.congr (openPath_slots hopen)
      · exact h
  | ioctl fd request =>
      simp only [GpioFs.step, fileIoctl]
      split <;> exact h
  | close fd =>
      simp only [GpioFs.step, closeFile]
      split
      · exact h
      · exact h.close _

theorem init_checked (gpioDevices : Fin k → GpioChip) : (init gpioDevices).Checked :=
  fun _ hchip => absurd rfl hchip

end Slots

section Calls
variable {G : GpioFlags} {s : GpioFs k} {n : Node} {r : Reply} {c : Fin k} {pin : Nat}
  {w flags : UInt32}

theorem configureLines_sound {i : Fin gpioLineHandleMax} {lflags : UInt32}
    (h : PinCall.configure c pin (some w) flags ∈ s.configureLines G i lflags) :
    w = lflags ∧ (s.gpioLineHandle i).chip ≠ none := by
  simp only [configureLines] at h
  split at h
  · cases h
  · next c' hc =>
      obtain ⟨p, -, hp⟩ := List.mem_flatMap.mp h
      refine ⟨?_, by rw [hc]; exact nofun⟩
      rcases List.mem_cons.mp hp with hp | hp
      · cases hp
        rfl
      · split at hp
        · cases List.mem_singleton.mp hp
        · cases hp

theorem openPathCalls_sound (hs : s.Checked)
    (h : PinCall.configure c pin (some w) flags ∈ s.openPathCalls G n r) :
    ¬ Contradictory w := by
  have hopen : PinCall.configure c pin (some w) flags ∈ s.openCalls G n := by
    simp only [openPathCalls] at h
    split_ifs at h
    · split at h
      · cases h
      · split_ifs at h
        · cases h
        · exact h
    · cases h
  cases n with
  | line i =>
      obtain ⟨rfl, hchip⟩ := configureLines_sound hopen
      exact hs i hchip
  | event i =>
      simp only [openCalls] at hopen
      split at hopen
      · cases hopen
      · cases List.mem_singleton.mp hopen

end Calls

/-- In a state with checked slots a call is lawful just when it is no SET_CONFIG of
contradictory flags on a line file. -/
theorem lawful_iff {G : GpioFlags} {s : GpioFs k} (hs : s.Checked) (op : Operation k) :
    Lawful G s op ↔ Admissible s op := by
  constructor
  · intro hlawful fd i haction hfile hcon
    have hrejected := hlawful.rejected op.lflags (by rw [Operation.requested, haction]; rfl) hcon
    have hresult : s.result op.action = 0 := by simp only [result, haction, fileIoctl, hfile]
    rw [hresult] at hrejected
    exact absurd hrejected.1 (by decide)
  · intro hadmissible
    obtain ⟨action, lflags⟩ := op
    cases action with
    | create c req r =>
        refine ⟨fun {d pin w flags} hcall => ?_, fun w hw hcon => ?_⟩
        · simp only [pinCalls, createCalls] at hcall
          split at hcall
          · cases hcall
          · next hcheck =>
              split at hcall
              · cases hcall
              · next n _ =>
                  split_ifs at hcall
                  · exact openPathCalls_sound (s := (s.fill c n req).devfsRegisterAnon n)
                      (hs.fill hcheck) hcall
                  · cases hcall
        · have hreject := check_rejects (s.gpioDevices c) rfl hw hcon
          have hcreate : s.create c r req = (s, -EINVAL, none) := by rw [create_eq, hreject]
          refine ⟨?_, ?_, ?_⟩
          · simp only [result, hcreate]
            decide
          · simp only [pinCalls, createCalls, hreject]
          · simp only [operate, step, hcreate]
    | openPath n r =>
        refine ⟨fun {d pin w flags} hcall => openPathCalls_sound hs hcall, fun w hw => by cases hw⟩
    | close fd =>
        refine ⟨fun {d pin w flags} hcall => ?_, fun w hw => by cases hw⟩
        simp only [pinCalls, closeCalls] at hcall
        split at hcall
        · split at hcall
          · cases hcall
          · obtain ⟨p, -, hp⟩ := List.mem_map.mp hcall
            cases hp
        · cases hcall
    | ioctl fd request =>
        refine ⟨fun {d pin w flags} hcall => ?_, fun w hw hcon => ?_⟩
        · simp only [pinCalls, ioctlCalls] at hcall
          split at hcall
          · next i hfile =>
              obtain ⟨rfl, -⟩ := configureLines_sound hcall
              exact hadmissible fd i rfl hfile
          · split at hcall
            · cases hcall
            · obtain ⟨p, -, hp⟩ := List.mem_map.mp hcall
              cases hp
          · cases hcall
        · cases request <;> cases hw
          cases hfile : s.fileOf fd with
          | none => simp [result, pinCalls, ioctlCalls, operate, step, fileIoctl, hfile, EBADF]
          | some n =>
              cases n with
              | line i => exact absurd hcon (hadmissible fd i rfl hfile)
              | event i =>
                  simp [result, pinCalls, ioctlCalls, operate, step, fileIoctl, hfile, ENOTTY]

/-- From boot, every call of a run is lawful just when every SET_CONFIG on a line file is
admissible. -/
theorem pinConfigure_lawful (G : GpioFlags) (gpioDevices : Fin k → GpioChip)
    (ops : List (Operation k)) :
    Follows operate (Lawful G) (init gpioDevices) ops ↔
      Follows operate Admissible (init gpioDevices) ops :=
  follows_congr (init_checked gpioDevices) (fun _ op h => h.step op.action) fun _ op h =>
    lawful_iff h op

/-- A line handle for pin 7 as output, then SET_CONFIG to input and output at once. -/
def bothDirections : List (Operation 1) :=
  [⟨.create ⟨0, by decide⟩ (.handle ⟨.replicate 64 7, gpiohandleRequestOutput, 1⟩)
    ⟨true, some 5, 0, 0⟩, 0⟩,
      ⟨.ioctl 5 .setConfig, gpiohandleRequestInput ||| gpiohandleRequestOutput⟩]

/-- SET_CONFIG returns 0 and both directions reach the pin driver. -/
theorem pinConfigure_bothDirections :
    ¬ ∀ (k : Nat) (G : GpioFlags) (gpioDevices : Fin k → GpioChip) (ops : List (Operation k)),
      Follows operate (Lawful G) (init gpioDevices) ops := by
  intro h
  have hrun :=
    h 1 ⟨0x10000, 0x20000, 0x40000, 0x06, 0x02, 0x10, 0x20, 0⟩ (fun _ => ⟨16, 0#32, by decide⟩)
      bothDirections
  have hrejected := hrun.2.1.rejected _ rfl (by decide)
  exact absurd hrejected.1 (by decide +kernel)

end GpioFs

end LinkedsemiZephyr.Gpio
