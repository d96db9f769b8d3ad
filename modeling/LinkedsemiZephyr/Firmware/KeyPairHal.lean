/-! `spdm_secret.c`: the responder firmware's record of its one key pair. -/
namespace LinkedsemiZephyr.Firmware

def spdmSampleKeyPairCount : UInt8 := 1

def spdmKeyPairCapCertAssoc : UInt16 := 0x0004
def spdmKeyPairCapKeyUsage : UInt16 := 0x0008
def spdmKeyPairCapAsymAlgo : UInt16 := 0x0010
def spdmKeyUsageKeyExUse : UInt16 := 0x0001
def spdmKeyUsageChallengeUse : UInt16 := 0x0002
def spdmKeyPairAsymAlgoCapEcc256 : UInt32 := 0x00000008

def spdmSetKeyPairInfoChangeOperation : UInt8 := 0
def spdmSetKeyPairInfoEraseOperation : UInt8 := 1
def spdmSetKeyPairInfoGenerateOperation : UInt8 := 2

/-- `g_ecp256_spki_algid`. -/
def ecp256SpkiAlgid : List UInt8 :=
  [0x30, 0x13, 0x06, 0x07, 0x2A, 0x86, 0x48, 0xCE, 0x3D, 0x02, 0x01, 0x06, 0x08, 0x2A, 0x86,
    0x48, 0xCE, 0x3D, 0x03, 0x01, 0x07]

/-- `g_key_usage`, `g_key_asym` and `g_key_slot_mask`. -/
structure KeyPairHal where
  keyUsage : UInt16 := spdmKeyUsageKeyExUse ||| spdmKeyUsageChallengeUse
  keyAsym : UInt32 := spdmKeyPairAsymAlgoCapEcc256
  keySlotMask : UInt8 := 0x01
  deriving DecidableEq, Repr

/-- The out parameters of `libspdm_read_key_pair_info`. -/
structure KeyPairReading where
  capabilities : UInt16
  keyUsageCapabilities : UInt16
  currentKeyUsage : UInt16
  asymAlgoCapabilities : UInt32
  currentAsymAlgo : UInt32
  assocCertSlotMask : UInt8
  publicKeyInfo : List UInt8
  deriving DecidableEq, Repr

namespace KeyPairHal

/-- `libspdm_read_key_pair_info` into a buffer of a size; `none` is its `false`. -/
def libspdmReadKeyPairInfo (hal : KeyPairHal) (keyPairId : UInt8) (publicKeyInfoLen : Nat) :
    Option KeyPairReading :=
  if keyPairId = 0 ∨ spdmSampleKeyPairCount < keyPairId then none
  else if publicKeyInfoLen < ecp256SpkiAlgid.length then none
  else some {
    capabilities := spdmKeyPairCapCertAssoc ||| spdmKeyPairCapKeyUsage ||| spdmKeyPairCapAsymAlgo
    keyUsageCapabilities := spdmKeyUsageKeyExUse ||| spdmKeyUsageChallengeUse
    currentKeyUsage := hal.keyUsage
    asymAlgoCapabilities := spdmKeyPairAsymAlgoCapEcc256
    currentAsymAlgo := hal.keyAsym
    assocCertSlotMask := hal.keySlotMask
    publicKeyInfo := ecp256SpkiAlgid }

/-- `libspdm_write_key_pair_info`; `none` is its `false`. -/
def libspdmWriteKeyPairInfo (hal : KeyPairHal) (keyPairId operation : UInt8)
    (desiredKeyUsage : UInt16) (desiredAsymAlgo : UInt32) (desiredAssocCertSlotMask : UInt8) :
    Option KeyPairHal :=
  if keyPairId = 0 ∨ spdmSampleKeyPairCount < keyPairId then none
  else if operation = spdmSetKeyPairInfoEraseOperation then some ⟨0, 0, 0⟩
  else if operation = spdmSetKeyPairInfoChangeOperation then
    some {
      keyUsage := if desiredKeyUsage ≠ 0 then desiredKeyUsage else hal.keyUsage
      keyAsym := if desiredAsymAlgo ≠ 0 then desiredAsymAlgo else hal.keyAsym
      keySlotMask := desiredAssocCertSlotMask }
  else if operation = spdmSetKeyPairInfoGenerateOperation then
    some ⟨desiredKeyUsage, desiredAsymAlgo, desiredAssocCertSlotMask⟩
  else none

end KeyPairHal

/-- One CHANGE: what it wants usage, algorithm and slot mask to be. -/
structure KeyPairChange where
  usage : UInt16
  asym : UInt32
  assoc : UInt8
  deriving DecidableEq, Repr

namespace KeyPairHal

/-- The record after a CHANGE of key pair 1. -/
def change (hal : KeyPairHal) (c : KeyPairChange) : KeyPairHal :=
  (hal.libspdmWriteKeyPairInfo 1 spdmSetKeyPairInfoChangeOperation c.usage c.asym c.assoc).getD hal

variable (hal : KeyPairHal) (c : KeyPairChange)

@[simp] theorem change_keyUsage :
    (hal.change c).keyUsage = if c.usage ≠ 0 then c.usage else hal.keyUsage :=
  rfl

@[simp] theorem change_keyAsym :
    (hal.change c).keyAsym = if c.asym ≠ 0 then c.asym else hal.keyAsym :=
  rfl

@[simp] theorem change_keySlotMask : (hal.change c).keySlotMask = c.assoc := rfl

end KeyPairHal

/-- The last value of a list that is not zero, if any. -/
def lastNonzero {α : Type} [OfNat α 0] [DecidableEq α] (values : List α) : Option α :=
  (values.filter (· ≠ 0)).getLast?

/-- A field that keeps its value when told to become zero ends as the last other value. -/
theorem foldl_keepZero {σ α : Type} [OfNat α 0] [DecidableEq α] {f : σ → KeyPairChange → σ}
    {field : σ → α} {want : KeyPairChange → α}
    (hf : ∀ s c, field (f s c) = if want c ≠ 0 then want c else field s) (s : σ)
    (cs : List KeyPairChange) :
    field (cs.foldl f s) = (lastNonzero (cs.map want)).getD (field s) := by
  induction cs generalizing s with
  | nil => rfl
  | cons c cs ih =>
      rw [List.foldl_cons, ih, hf, lastNonzero, lastNonzero, List.map_cons]
      by_cases hc : want c = 0
      · simp [hc]
      · simp [hc, List.getLast?_cons]

namespace KeyPairHal

theorem changes_keyUsage (hal : KeyPairHal) (cs : List KeyPairChange) :
    (cs.foldl change hal).keyUsage = (lastNonzero (cs.map KeyPairChange.usage)).getD hal.keyUsage :=
  foldl_keepZero change_keyUsage hal cs

theorem changes_keyAsym (hal : KeyPairHal) (cs : List KeyPairChange) :
    (cs.foldl change hal).keyAsym = (lastNonzero (cs.map KeyPairChange.asym)).getD hal.keyAsym :=
  foldl_keepZero change_keyAsym hal cs

theorem changes_keySlotMask (hal : KeyPairHal) (cs : List KeyPairChange) :
    (cs.foldl change hal).keySlotMask =
      (cs.map KeyPairChange.assoc).getLast?.getD hal.keySlotMask := by
  induction cs generalizing hal with
  | nil => rfl
  | cons c cs ih => rw [List.foldl_cons, ih, change_keySlotMask, List.map_cons, List.getLast?_cons,
      Option.getD_some]

end KeyPairHal

end LinkedsemiZephyr.Firmware
