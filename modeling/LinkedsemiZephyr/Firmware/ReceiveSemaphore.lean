import LinkedsemiZephyr.Firmware.RequesterMailbox
import LinkedsemiZephyr.Lib.GuardedRun

/-! `pending_valid` and the count of `spdm_rx_sem` say the same only while every call takes
the give of the frame it clears. -/
namespace LinkedsemiZephyr.Firmware
open GuardedRun

namespace Requester

/-- A give is left only for a pending frame, calls fail only after a wait without one, and
no frame is handed over twice. -/
structure Honest (s : Requester) : Prop where
  semaphore : s.pc = .idle → 0 < s.spdmRxSem → s.pendingValid = true
  failures : ∀ f ∈ s.failures, 8000 ≤ f.waited ∧ f.framePending = false
  once : (s.handovers.map fun h => h.frame.serial).Nodup

/-- The call clears a frame whose give was taken, and none has come since. -/
def TookGive (s : Requester) : RequesterAction → Prop
  | .proceed => s.pc = .clearing → s.spdmRxSem = 0
  | _ => True

instance (s : Requester) (a : RequesterAction) : Decidable (TookGive s a) :=
  match a with
  | .proceed => inferInstanceAs (Decidable (_ → _))
  | .rxMessage _ | .sendMessage _ | .receiveMessage .. | .tick => inferInstanceAs (Decidable True)

/-- What a call knows at each of its steps. -/
def CallFacts (s : Requester) : ReceivePc → Prop
  | .idle => s.pendingValid = true → s.spdmRxSem = 1
  | .entered wait =>
      8000 ≤ wait ∧ s.framePending = s.pendingValid ∧ (s.pendingValid = true → s.spdmRxSem = 1)
  | .taking wait =>
      8000 ≤ wait ∧ s.framePending = s.pendingValid ∧ (s.pendingValid = true → s.spdmRxSem = 1)
  | .waiting wait => 8000 ≤ wait ∧ s.framePending = false ∧ s.pendingValid = false
  | .checking | .copying => s.pendingValid = true
  | .clearing => s.pendingValid = true

structure Inv (s : Requester) : Prop extends Honest s where
  given : 0 < s.spdmRxSem → s.pendingValid = true
  count : s.spdmRxSem ≤ 1
  facts : s.CallFacts s.pc
  room : spdmReceiverBufferSize ≤ s.messageSize
  fits : s.pendingRx.message.msg.length ≤ spdmReceiverBufferSize
  serial : s.pendingValid = true → s.pendingRx.serial < s.accepted.length
  numbered : ∀ h ∈ s.handovers, h.frame.serial < s.accepted.length
  fresh : s.pendingValid = true → s.pc ≠ .clearing →
    ∀ h ∈ s.handovers, h.frame.serial ≠ s.pendingRx.serial

variable {s : Requester}

theorem init_inv : Inv {} where
  semaphore := nofun
  failures := nofun
  once := List.nodup_nil
  given := nofun
  count := Nat.zero_le 1
  facts := nofun
  room := Nat.le_refl _
  fits := Nat.zero_le _
  serial := nofun
  numbered := nofun
  fresh := nofun

theorem kSemGive_eq {count : Nat} (h : count ≤ 1) : kSemGive count = 1 := by
  unfold kSemGive spdmRxSemLimit
  split <;> omega

theorem Inv.rxMessage (h : s.Inv) (m : MctpMessage) : (s.rxMessage m).Inv := by
  unfold Requester.rxMessage
  split
  · rename_i haccepts
    have hnumbered : ∀ d ∈ s.handovers, d.frame.serial < (s.accepted ++ [m]).length := by
      intro d hd
      rw [List.length_append]
      exact Nat.lt_add_right _ (h.numbered d hd)
    have hfresh : ∀ d ∈ s.handovers, d.frame.serial ≠ s.accepted.length :=
      fun d hd => Nat.ne_of_lt (h.numbered d hd)
    have hserial : s.accepted.length < (s.accepted ++ [m]).length := by simp
    unfold giveRxSem
    split
    · constructor
      · exact ⟨nofun, h.failures, h.once⟩
      · intro _
        rfl
      · exact h.count
      · exact rfl
      · exact h.room
      · exact haccepts.2
      · intro _
        exact hserial
      · exact hnumbered
      · intro _ _
        exact hfresh
    · rename_i hpc
      change ∀ w, s.pc = .waiting w → False at hpc
      constructor
      · exact ⟨fun _ _ => rfl, h.failures, h.once⟩
      · intro _
        rfl
      · exact Nat.le_of_eq (kSemGive_eq h.count)
      · have hfacts := h.facts
        change CallFacts _ s.pc
        cases hcase : s.pc with
        | idle => exact fun _ => kSemGive_eq h.count
        | entered w =>
            rw [hcase] at hfacts
            exact ⟨hfacts.1, rfl, fun _ => kSemGive_eq h.count⟩
        | taking w =>
            rw [hcase] at hfacts
            exact ⟨hfacts.1, rfl, fun _ => kSemGive_eq h.count⟩
        | waiting w => exact absurd hcase (hpc w)
        | checking => rfl
        | copying => rfl
        | clearing => rfl
      · exact h.room
      · exact haccepts.2
      · intro _
        exact hserial
      · exact hnumbered
      · intro _ _
        exact hfresh
  · exact h

/-- A call that gives up: it waited long enough, without a frame. -/
theorem Inv.fail (h : s.Inv) {waited : Nat} (hwaited : 8000 ≤ waited)
    (hnone : s.framePending = false) (hpending : s.pendingValid = false) :
    (fail { s with waited }).Inv := by
  have hinvalid : s.pendingValid ≠ true := by
    rw [hpending]
    exact Bool.false_ne_true
  have hfailures : ∀ f ∈ (Requester.fail { s with waited }).failures, 8000 ≤ f.waited ∧
      f.framePending = false := by
    intro f hf
    rcases List.mem_append.mp hf with hold | hnew
    · exact h.failures f hold
    · rw [List.mem_singleton.mp hnew]
      exact ⟨hwaited, hnone⟩
  exact { h with
    semaphore := fun _ => h.given
    failures := hfailures
    facts := fun hvalid => absurd hvalid hinvalid
    fresh := fun hvalid => absurd hvalid hinvalid }

theorem Inv.tick (h : s.Inv) : s.tick.Inv := by
  unfold Requester.tick
  split
  · rename_i wait hpc
    have hfacts := h.facts
    rw [hpc] at hfacts
    obtain ⟨hwait, hnone, hpending⟩ := hfacts
    dsimp only
    split
    · rename_i hover
      exact h.fail (Nat.le_trans hwait hover) hnone hpending
    · exact { h with facts := by rw [hpc]; exact ⟨hwait, hnone, hpending⟩ }
  · exact h

/-- The call goes on to another step, the semaphore as it was or taken. -/
theorem Inv.goOn (h : s.Inv) (hpc : s.pc ≠ .clearing) {pc : ReceivePc} {count : Nat}
    (hidle : pc ≠ .idle) (hcount : count ≤ s.spdmRxSem)
    (hfacts : CallFacts { s with spdmRxSem := count } pc) :
    Inv { s with pc, spdmRxSem := count } := by
  exact { h with
    semaphore := fun h => absurd h hidle
    given := fun hpos => h.given (Nat.lt_of_lt_of_le hpos hcount)
    count := Nat.le_trans hcount h.count
    facts := hfacts
    fresh := fun hvalid _ => h.fresh hvalid hpc }

theorem Inv.copy (h : s.Inv) (hpc : s.pc = .copying) {requestTag : Option UInt8} :
    Inv { s with pc := .clearing, handovers := s.handovers ++ [⟨s.pendingRx, requestTag⟩] } := by
  have hpending : s.pendingValid = true := by
    have hfacts := h.facts
    rwa [hpc] at hfacts
  have hfresh := h.fresh hpending (by rw [hpc]; nofun)
  constructor
  · refine ⟨nofun, h.failures, ?_⟩
    rw [List.map_append]
    refine List.nodup_append.mpr ⟨h.once, List.pairwise_singleton _ _, ?_⟩
    intro a ha b hb hab
    obtain ⟨d, hd, rfl⟩ := List.mem_map.mp ha
    exact hfresh d hd (hab.trans (List.mem_singleton.mp hb))
  · exact h.given
  · exact h.count
  · exact hpending
  · exact h.room
  · exact h.fits
  · exact h.serial
  · intro d hd
    rcases List.mem_append.mp hd with hold | hnew
    · exact h.numbered d hold
    · rw [List.mem_singleton.mp hnew]
      exact h.serial hpending
  · intro _ hne
    exact absurd rfl hne

theorem Inv.clear (h : s.Inv) (htook : s.spdmRxSem = 0) :
    Inv { s with pendingValid := false, pc := .idle } := by
  have hcount : ¬ 0 < s.spdmRxSem := by
    rw [htook]
    exact Nat.lt_irrefl 0
  exact { h with
    semaphore := fun _ hpos => absurd hpos hcount
    given := fun hpos => absurd hpos hcount
    facts := nofun
    serial := nofun
    fresh := nofun }

theorem Inv.proceed (h : s.Inv) (htook : s.TookGive .proceed) : s.proceed.Inv := by
  have hfacts := h.facts
  unfold Requester.proceed
  split
  · rename_i wait hpc
    rw [hpc] at hfacts
    refine h.goOn (by rw [hpc]; nofun) (by split <;> nofun) (Nat.le_refl _) ?_
    split
    · rename_i hpending
      exact hpending
    · exact hfacts
  · rename_i wait hpc
    rw [hpc] at hfacts
    obtain ⟨hwait, hseen, hgiven⟩ := hfacts
    split
    · rename_i hpos
      exact h.goOn (by rw [hpc]; nofun) nofun (Nat.sub_le _ _) (h.given hpos)
    · rename_i hzero
      have hpending : s.pendingValid = false := by
        by_contra hvalid
        rw [hgiven (eq_true_of_ne_false hvalid)] at hzero
        exact hzero Nat.one_pos
      exact h.goOn (by rw [hpc]; nofun) nofun (Nat.le_refl _)
        ⟨hwait, hseen.trans hpending, hpending⟩
  · rename_i hpc
    rw [hpc] at hfacts
    split
    · rename_i hfail
      have hfits : ¬ s.messageSize < s.pendingRx.message.msg.length :=
        Nat.not_lt.mpr (Nat.le_trans h.fits h.room)
      exact absurd hfacts (hfail.resolve_right hfits)
    · exact h.goOn (by rw [hpc]; nofun) nofun (Nat.le_refl _) hfacts
  · rename_i hpc
    exact h.copy hpc
  · rename_i hpc
    exact h.clear (htook hpc)
  · exact h
  · exact h

theorem step_inv {a : RequesterAction} (h : s.Inv) (htook : s.TookGive a) : (s.step a).Inv := by
  cases a with
  | rxMessage m => exact h.rxMessage m
  | sendMessage message =>
      rw [step]
      split
      · unfold Requester.sendMessage
        split
        · exact h
        · exact { h with }
      · exact h
  | receiveMessage timeout buffer =>
      rw [step]
      split
      · rename_i hpc
        have hfacts := h.facts
        rw [hpc] at hfacts
        exact { h with
          semaphore := nofun
          facts := ⟨le_waitMs timeout, rfl, hfacts⟩
          room := buffer.holds
          fresh := fun hvalid _ => h.fresh hvalid (by rw [hpc]; nofun) }
      · exact h
  | proceed => exact h.proceed htook
  | tick => exact h.tick

/-- Clearing a frame whose give is still there leaves a give for no frame. -/
theorem step_not_honest {a : RequesterAction} (htook : ¬ s.TookGive a) : ¬ (s.step a).Honest := by
  cases a with
  | proceed =>
      simp only [TookGive, not_forall] at htook
      obtain ⟨hpc, hcount⟩ := htook
      intro hhonest
      rw [step, Requester.proceed, hpc] at hhonest
      exact Bool.false_ne_true (hhonest.semaphore rfl (Nat.pos_of_ne_zero hcount))
  | rxMessage _ | sendMessage _ | receiveMessage _ _ | tick => exact absurd trivial htook

/-- The receive path stays honest all along a run just when every frame a call clears had
its give taken, with no give since. -/
theorem receiveMessage_honest (actions : List RequesterAction) :
    Always step Honest {} actions ↔ Follows step TookGive {} actions :=
  always_iff_follows init_inv (fun _ _ h htook => step_inv h htook) (fun _ h => h.toHonest)
    fun _ _ _ htook => step_not_honest htook

/-- A frame that arrives before the call that receives it, and the call after that. -/
def earlyFrame : List RequesterAction :=
  let call := RequesterAction.receiveMessage 0 ⟨2048, Nat.le_refl _⟩
  [.rxMessage ⟨busOwnerId, false, 0, [0x05]⟩, call, .proceed, .proceed, .proceed, .proceed, call,
    .proceed, .proceed, .proceed]

/-- The second call fails without waiting. -/
theorem receiveMessage_honest_earlyFrame : ¬ Always step Honest {} earlyFrame := by
  intro h
  have hfail : ⟨0, false⟩ ∈ (earlyFrame.foldl step {}).failures := by decide
  exact absurd (h.last.failures _ hfail).1 (by decide)

end Requester

end LinkedsemiZephyr.Firmware
