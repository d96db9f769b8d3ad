import LinkedsemiZephyr.Lib.Octets

/-! The exceptions of the host testers. -/
namespace LinkedsemiZephyr.Spdm
open Octets

/-- The wait of `recv_mctp_frame` in which a `USBTimeoutError` was raised. -/
inductive UsbWait where
  | header
  | fullFrame (have_ need : Nat)
  deriving DecidableEq, Repr

/-- The capability checks of the requester, in order. -/
inductive Capability where
  | certChal | keyEx | event | multiKey | keyPairInfo
  deriving DecidableEq, Repr

/-- One constructor for each raise site the modelled code can reach, with the values
its text prints; `struct.error` and `IndexError` come from the standard library. -/
inductive PyErr where
  | structError
  | indexError
  | usbTimeout (wait : UsbWait)
  | frameTooLarge (totalLen : Nat)
  | usbFrameTooShort
  | mctpPayloadTooShort (payload : Bytes)
  | emptyMctpPayload
  | unexpectedMctpType (msg : Bytes)
  | responseTooShort
  | spdmError (code param2 : UInt8)
  | unexpectedCode (expected got : UInt8)
  | securedTooShort (length : Nat)
  | sessionIdMismatch (got own : UInt32)
  | securedLengthField (length available : Nat)
  | invalidTag
  | innerTypeNotSpdm (app : Bytes)
  | securedRequestBeforeSession
  | securedReplyWithoutSession
  | unexpectedRequestType (mtype : UInt8)
  | requestTimeout (first : Bool)
  | peerKeyLength (length : Nat)
  | invalidPoint
  | invalidSignature
  | versionMissing13
  | missingCapability (cap : Capability)
  | digestsMissingFields
  | keyPairIdNotOne (kid : UInt8)
  | certModelNotDevice (certInfo : UInt8)
  | keyUsageMissingKeyEx
  | requesterContextMismatch
  | keyPairInfoTooShort (length : Nat)
  | keyPairIdMismatch (got requested : UInt8)
  | keyPairNotBound (assoc : UInt8)
  | keyExchangeRspTooShort (length : Nat)
  | mutAuthRequested (value : UInt8)
  | keyExchangeRspTruncated (opaqueLen length : Nat)
  | keyExchangeRspExtra (extra : Nat)
  | finishRspTooShort (length : Nat)
  | finishHmacMismatch
  | derNotSequence (offset : Nat)
  | derLengthUnsupported (offset : Nat)
  | chainDigestMismatch
  | chainLengthField (length blob : Nat)
  | rootHashMismatch
  deriving DecidableEq, Repr

/-- `if not p: raise e`. -/
def require (p : Prop) [Decidable p] (e : PyErr) : Except PyErr Unit :=
  if p then .ok () else .error e

theorem require_ok {p : Prop} [Decidable p] (h : p) (e : PyErr) : require p e = .ok () := if_pos h

end LinkedsemiZephyr.Spdm
