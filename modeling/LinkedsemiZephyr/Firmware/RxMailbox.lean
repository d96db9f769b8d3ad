import LinkedsemiZephyr.Lib.Octets

/-! What the requester's and the responder's firmware share: messages as libmctp hands them
to `rx_message`, the ones it keeps, and the semaphore it gives. -/
namespace LinkedsemiZephyr.Firmware
open Octets

def busOwnerId : UInt8 := 20
def spdmReceiverBufferSize : Nat := 2048
def mctpMessageTypeSpdm : UInt8 := 0x05
def mctpMessageTypeSecuredMctp : UInt8 := 0x06

/-- The arguments of `rx_message`. -/
structure MctpMessage where
  eid : UInt8
  tagOwner : Bool
  msgTag : UInt8
  msg : Bytes
  deriving DecidableEq, Repr

/-- The messages `rx_message` puts into `pending_rx`: an SPDM type behind the IC bit, and
short enough. -/
def Accepts (m : MctpMessage) : Prop :=
  (∃ type ∈ m.msg.head?, type &&& 0x7f = mctpMessageTypeSpdm ∨
    type &&& 0x7f = mctpMessageTypeSecuredMctp) ∧
    m.msg.length ≤ spdmReceiverBufferSize

instance (m : MctpMessage) : Decidable (Accepts m) :=
  inferInstanceAs (Decidable ((∃ type ∈ m.msg.head?, _) ∧ _))

/-- `K_SEM_DEFINE(spdm_rx_sem, 0, 1)`. -/
def spdmRxSemLimit : Nat := 1

/-- `k_sem_give` with nobody waiting. -/
def kSemGive (count : Nat) : Nat := if count ≠ spdmRxSemLimit then count + 1 else count

end LinkedsemiZephyr.Firmware
