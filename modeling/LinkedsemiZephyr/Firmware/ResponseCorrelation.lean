import LinkedsemiZephyr.Firmware.RequesterMailbox
import LinkedsemiZephyr.Lib.GuardedRun

/-! Which message a receive hands to libspdm: the last one accepted, whoever sent it. -/
namespace LinkedsemiZephyr.Firmware
open GuardedRun Octets

/-- The bus owner's answer to the request sent with a tag. -/
def MctpMessage.Answers (m : MctpMessage) (tag : UInt8) : Prop :=
  m.eid = busOwnerId ∧ m.tagOwner = false ∧ m.msgTag = tag

namespace Requester

/-- Every message handed over after a send answers the latest one. -/
def Correlated (s : Requester) : Prop :=
  ∀ h ∈ s.handovers, ∀ tag, h.requestTag = some tag → h.frame.message.Answers tag

/-- When a call copies a frame after `n + 1` sends, the message accepted last is the bus
owner's, tag owner clear, with tag `n` modulo 8. -/
def LastAnswers (s : Requester) : RequesterAction → Prop
  | .proceed => s.pc = .copying → ∀ n, s.transmitted.length = n + 1 →
      ∃ m, s.accepted.getLast? = some m ∧ m.eid = busOwnerId ∧ m.tagOwner = false ∧
      m.msgTag.toNat = n % 8
  | _ => True

/-- The slot holds the message accepted last, and tags count sends. -/
structure Slot (s : Requester) : Prop where
  latest : s.pendingValid = true → s.accepted.getLast? = some s.pendingRx.message
  copying : s.pc = .copying → s.pendingValid = true
  nextTag : s.txMsgTag.toNat = s.transmitted.length % 8
  lastTag : ∀ t, s.transmitted.getLast? = some t → t.msgTag.toNat = (s.transmitted.length - 1) % 8

variable {s : Requester}

theorem init_slot : Slot {} := ⟨nofun, nofun, rfl, nofun⟩

theorem nextTag_eq {tag : UInt8} {n : Nat} (h : tag.toNat = n % 8) :
    ((tag + 1) &&& 0x07).toNat = (n + 1) % 8 := by
  have hmask : ((tag + 1) &&& 0x07).toNat = (tag + 1).toNat % 8 := by
    rw [UInt8.toNat_and]
    exact Nat.and_two_pow_sub_one_eq_mod _ 3
  rw [hmask, UInt8.toNat_add, h]
  change (n % 8 + 1) % 256 % 8 = (n + 1) % 8
  omega

theorem Slot.rxMessage (h : s.Slot) (m : MctpMessage) : (s.rxMessage m).Slot := by
  unfold Requester.rxMessage
  split
  · unfold giveRxSem
    split
    · exact ⟨fun _ => List.getLast?_concat .., nofun, h.nextTag, h.lastTag⟩
    · exact ⟨fun _ => List.getLast?_concat .., fun _ => rfl, h.nextTag, h.lastTag⟩
  · exact h

theorem Slot.sendMessage (h : s.Slot) (message : Bytes) : (s.sendMessage message).Slot := by
  unfold Requester.sendMessage
  split
  · exact h
  · refine ⟨h.latest, h.copying, ?_, ?_⟩
    · rw [List.length_append]
      exact nextTag_eq h.nextTag
    · intro t ht
      rw [List.getLast?_concat] at ht
      cases ht
      rw [List.length_append]
      exact h.nextTag

theorem Slot.tick (h : s.Slot) : s.tick.Slot := by
  unfold Requester.tick
  split
  · rename_i hpc
    dsimp only
    split
    · exact ⟨h.latest, nofun, h.nextTag, h.lastTag⟩
    · exact ⟨h.latest, h.copying, h.nextTag, h.lastTag⟩
  · exact h

theorem Slot.proceed (h : s.Slot) : s.proceed.Slot := by
  unfold Requester.proceed
  split
  · refine ⟨h.latest, fun hpc => ?_, h.nextTag, h.lastTag⟩
    dsimp only at hpc
    split at hpc <;> cases hpc
  · split
    · exact ⟨h.latest, nofun, h.nextTag, h.lastTag⟩
    · exact ⟨h.latest, nofun, h.nextTag, h.lastTag⟩
  · split
    · exact ⟨h.latest, nofun, h.nextTag, h.lastTag⟩
    · rename_i hpass
      have hvalid : s.pendingValid = true := not_not.mp (not_or.mp hpass).1
      exact ⟨h.latest, fun _ => hvalid, h.nextTag, h.lastTag⟩
  · exact ⟨h.latest, nofun, h.nextTag, h.lastTag⟩
  · exact ⟨nofun, nofun, h.nextTag, h.lastTag⟩
  · exact h
  · exact h

theorem Slot.step (h : s.Slot) (a : RequesterAction) : (s.step a).Slot := by
  cases a with
  | rxMessage m => exact h.rxMessage m
  | sendMessage message =>
      rw [Requester.step]
      split
      · exact h.sendMessage message
      · exact h
  | receiveMessage timeout buffer =>
      rw [Requester.step]
      split
      · exact ⟨h.latest, nofun, h.nextTag, h.lastTag⟩
      · exact h
  | proceed => exact h.proceed
  | tick => exact h.tick

@[simp] theorem giveRxSem_handovers (s : Requester) : s.giveRxSem.handovers = s.handovers := by
  unfold giveRxSem
  split <;> rfl

@[simp] theorem rxMessage_handovers (s : Requester) (m : MctpMessage) :
    (s.rxMessage m).handovers = s.handovers := by
  unfold Requester.rxMessage
  split
  · exact giveRxSem_handovers _
  · rfl

@[simp] theorem sendMessage_handovers (s : Requester) (message : Bytes) :
    (s.sendMessage message).handovers = s.handovers := by
  unfold Requester.sendMessage
  split <;> rfl

@[simp] theorem tick_handovers (s : Requester) : s.tick.handovers = s.handovers := by
  unfold Requester.tick
  split
  · dsimp only
    split <;> rfl
  · rfl

/-- Only the copy hands a message over. -/
theorem step_handovers (s : Requester) (a : RequesterAction) :
    (s.step a).handovers = s.handovers ∨ a = .proceed ∧ s.pc = .copying ∧
      (s.step a).handovers = s.handovers ++
        [⟨s.pendingRx, s.transmitted.getLast?.map Transmission.msgTag⟩] := by
  cases a with
  | rxMessage m => exact .inl (s.rxMessage_handovers m)
  | sendMessage message => exact .inl (by rw [step]; split <;> simp)
  | receiveMessage timeout buffer => exact .inl (by rw [step]; split <;> rfl)
  | tick => exact .inl s.tick_handovers
  | proceed =>
      rw [step, Requester.proceed]
      split
      · exact .inl rfl
      · split <;> exact .inl rfl
      · split <;> exact .inl rfl
      · rename_i hpc
        exact .inr ⟨rfl, hpc, rfl⟩
      · exact .inl rfl
      · exact .inl rfl
      · exact .inl rfl

/-- A frame copied at a step the condition admits answers the latest send, and one copied
at a step it does not admit does not. -/
theorem Slot.answers_iff (h : s.Slot) (hpc : s.pc = .copying) :
    s.LastAnswers .proceed ↔
      ∀ tag, s.transmitted.getLast?.map Transmission.msgTag = some tag →
      s.pendingRx.message.Answers tag := by
  have hlatest := h.latest (h.copying hpc)
  constructor
  · intro hok tag htag
    obtain ⟨t, ht, rfl⟩ := Option.map_eq_some_iff.mp htag
    have hlength : s.transmitted.length = s.transmitted.length - 1 + 1 := by
      have hne : s.transmitted ≠ [] := by
        rintro hnil
        rw [hnil] at ht
        cases ht
      exact (Nat.sub_add_cancel (List.length_pos_iff.mpr hne)).symm
    obtain ⟨m, hm, heid, howner, htag⟩ := hok hpc _ hlength
    obtain rfl := Option.some.inj (hlatest.symm.trans hm)
    exact ⟨heid, howner, UInt8.toNat_inj.mp (htag.trans (h.lastTag t ht).symm)⟩
  · intro hanswers _ n hn
    obtain ⟨t, ht⟩ : ∃ t, s.transmitted.getLast? = some t := by
      cases hlast : s.transmitted.getLast? with
      | none =>
          rw [List.getLast?_eq_none_iff.mp hlast] at hn
          cases hn
      | some t => exact ⟨t, rfl⟩
    obtain ⟨heid, howner, htag⟩ := hanswers t.msgTag (by rw [ht]; rfl)
    refine ⟨_, hlatest, heid, howner, ?_⟩
    rw [htag, h.lastTag t ht, hn]
    rfl

/-- The messages handed over answer the latest send all along a run just when the last
message accepted before every copy does. -/
theorem receiveMessage_correlated (actions : List RequesterAction) :
    Always step Correlated {} actions ↔ Follows step LastAnswers {} actions := by
  have hinit : Slot {} ∧ Correlated {} := ⟨init_slot, nofun⟩
  refine @always_iff_follows _ _ _ _ (fun s => s.Slot ∧ s.Correlated) _ _ _ hinit ?_
    (fun _ h => h.2) ?_
  · rintro s a ⟨hslot, hcorrelated⟩ hok
    refine ⟨hslot.step a, fun d hd => ?_⟩
    obtain hkept | ⟨rfl, hpc, hcopied⟩ := s.step_handovers a
    · exact hcorrelated d (hkept ▸ hd)
    · rw [hcopied] at hd
      rcases List.mem_append.mp hd with hold | hnew
      · exact hcorrelated d hold
      · rw [List.mem_singleton.mp hnew]
        exact (hslot.answers_iff hpc).mp hok
  · rintro s a ⟨hslot, -⟩ hok hcorrelated
    cases a with
    | proceed =>
        have hpc : s.pc = .copying := by
          by_contra hpc
          exact hok fun h => absurd h hpc
        refine hok ((hslot.answers_iff hpc).mpr ?_)
        obtain hkept | ⟨-, -, hcopied⟩ := s.step_handovers .proceed
        · simp [step, Requester.proceed, hpc] at hkept
        · exact hcorrelated _
            (by rw [hcopied]; exact List.mem_append_right _ (List.mem_singleton_self _))
    | rxMessage _ | sendMessage _ | receiveMessage _ _ | tick => exact hok trivial

/-- The answer to the first request, repeated after the second. -/
def lateDuplicate : List RequesterAction :=
  let call := RequesterAction.receiveMessage 0 ⟨2048, Nat.le_refl _⟩
  let answer := RequesterAction.rxMessage ⟨busOwnerId, false, 0, [0x05, 0x13]⟩
  [.sendMessage [0x05], call, .proceed, .proceed, answer, .proceed, .proceed, .proceed,
    .sendMessage [0x05], call, .proceed, .proceed, answer, .proceed, .proceed]

theorem receiveMessage_correlated_lateDuplicate : ¬ Always step Correlated {} lateDuplicate := by
  intro h
  have hlast : ⟨⟨1, busOwnerId, false, 0, [0x05, 0x13]⟩, some 1⟩ ∈
    (lateDuplicate.foldl step {}).handovers := by decide
  exact absurd (h.last _ hlast 1 rfl).2.2 (by decide)

end Requester

end LinkedsemiZephyr.Firmware
