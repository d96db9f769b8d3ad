import LinkedsemiZephyr.Spdm.KeySchedule

/-! SPDM codes and the little-endian fields the testers pack and unpack. -/
namespace LinkedsemiZephyr.Spdm
open Octets

def spdmDigests : UInt8 := 0x01
def spdmCertificate : UInt8 := 0x02
def spdmChallengeAuth : UInt8 := 0x03
def spdmVersion : UInt8 := 0x04
def spdmCapabilities : UInt8 := 0x61
def spdmSupportedEventTypes : UInt8 := 0x62
def spdmAlgorithms : UInt8 := 0x63
def spdmKeyExchangeRsp : UInt8 := 0x64
def spdmFinishRsp : UInt8 := 0x65
def spdmEndSessionAck : UInt8 := 0x6C
def spdmSubscribeEventTypesAck : UInt8 := 0x70
def spdmKeyPairInfo : UInt8 := 0x7C
def spdmSetKeyPairInfoAck : UInt8 := 0x7D
def spdmVendorDefinedResponse : UInt8 := 0x7E
def spdmErrorCode : UInt8 := 0x7F
def spdmGetDigests : UInt8 := 0x81
def spdmGetCertificate : UInt8 := 0x82
def spdmChallenge : UInt8 := 0x83
def spdmGetVersion : UInt8 := 0x84
def spdmGetCapabilities : UInt8 := 0xE1
def spdmGetSupportedEventTypes : UInt8 := 0xE2
def spdmNegotiateAlgorithms : UInt8 := 0xE3
def spdmKeyExchange : UInt8 := 0xE4
def spdmFinish : UInt8 := 0xE5
def spdmEndSession : UInt8 := 0xEC
def spdmSubscribeEventTypes : UInt8 := 0xF0
def spdmGetKeyPairInfo : UInt8 := 0xFC
def spdmSetKeyPairInfo : UInt8 := 0xFD
def spdmVendorDefinedRequest : UInt8 := 0xFE

def spdmVer : UInt8 := 0x13

def spdmBaseAsymEcdsaP256 : Nat := 0x00000010
def spdmBaseHashSha256 : Nat := 0x00000001
def spdmDheSecp256R1 : Nat := 0x0008
def spdmAeadAes128Gcm : Nat := 0x0001
def spdmKeyScheduleSpdm : Nat := 0x0001
def spdmOpaqueDataFormat1 : UInt8 := 0x02
def spdmMultiKeyConn : UInt8 := 0x10

def spdmReqFlagsEncrypt : UInt32 := 0x00000040
def spdmReqFlagsMac : UInt32 := 0x00000080
def spdmReqFlagsKeyEx : UInt32 := 0x00000200
def spdmReqFlagsHandshakeInTheClear : UInt32 := 0x00008000
def spdmReqFlagsMultiKeyNeg : UInt32 := 0x08000000
def spdmRspFlagsCert : UInt32 := 0x00000002
def spdmRspFlagsChal : UInt32 := 0x00000004
def spdmRspFlagsKeyEx : UInt32 := 0x00000200
def spdmRspFlagsEvent : UInt32 := 0x02000000
def spdmRspFlagsMultiKeyNeg : UInt32 := 0x08000000
def spdmRspFlagsMultiKeyOnly : UInt32 := 0x04000000
def spdmRspFlagsGetKeyPair : UInt32 := 0x10000000
def spdmRspFlagsSetKeyPair : UInt32 := 0x20000000

def spdmKeyUsageKeyEx : UInt16 := 0x0001
def spdmKeyUsageChallenge : UInt16 := 0x0002
def spdmKeyPairAsymEcc256 : UInt32 := 0x00000008
def spdmSetKeyPairChange : UInt8 := 0
def spdmEventAllPolicy : UInt8 := 0x02
def spdmCertModelDevice : UInt8 := 0x01
def certPortion : Nat := 200

/-- `struct.pack` fields of typed values: nothing is out of range. -/
def pack16 (v : UInt16) : Bytes := leBytes 2 v.toNat
def pack32 (v : UInt32) : Bytes := leBytes 4 v.toNat

/-- `struct.unpack_from` of one field at an offset where enough bytes stand. -/
def field16 (b : Bytes) (offset : Nat) : UInt16 :=
  UInt16.ofNat (leNat (slice b offset (offset + 2)))
def field32 (b : Bytes) (offset : Nat) : UInt32 :=
  UInt32.ofNat (leNat (slice b offset (offset + 4)))

@[simp] theorem length_pack16 (v : UInt16) : (pack16 v).length = 2 := length_leBytes 2 _

theorem field16_pack16 {a : Bytes} (v : UInt16) (c : Bytes) {i : Nat} (hi : a.length = i) :
    field16 (a ++ (pack16 v ++ c)) i = v := by
  rw [field16, slice_middle c hi (by rw [length_pack16]), pack16,
    leNat_leBytes (by simpa using v.toNat_lt), UInt16.ofNat_toNat]

@[simp] theorem length_pack32 (v : UInt32) : (pack32 v).length = 4 := length_leBytes 4 _

theorem field32_pack32 {a : Bytes} (v : UInt32) (c : Bytes) {i : Nat} (hi : a.length = i) :
    field32 (a ++ (pack32 v ++ c)) i = v := by
  rw [field32, slice_middle c hi (by rw [length_pack32]), pack32,
    leNat_leBytes (by simpa using v.toNat_lt), UInt32.ofNat_toNat]

def spdmError (code param2 : UInt8) : Bytes := [spdmVer, spdmErrorCode, code, param2]

/-- `build_vendor_defined` and the response of `handle_vendor` differ in the code. -/
def vendorDefined (code : UInt8) (payload : Bytes) : Bytes :=
  [spdmVer, code, 0, 0] ++ leBytes 2 0 ++ [0] ++ leBytes 2 payload.length ++ payload

def parseVendorPayload (spdm : Bytes) : Except PyErr Bytes :=
  if spdm.length < 7 then .error .structError
  else
    let vidLen := (spdm.getD 6 0).toNat
    if spdm.length < 7 + vidLen + 2 then .error .structError
    else
      let payloadLen := leNat (slice spdm (7 + vidLen) (7 + vidLen + 2))
      let start := 7 + vidLen + 2
      .ok (slice spdm start (start + payloadLen))

/-- The algorithm tables of NEGOTIATE_ALGORITHMS and ALGORITHMS. -/
def algorithmTables : Bytes :=
  [2, 0x20] ++ leBytes 2 spdmDheSecp256R1 ++ ([3, 0x20] ++ leBytes 2 spdmAeadAes128Gcm) ++
    ([5, 0x20] ++ leBytes 2 spdmKeyScheduleSpdm)

end LinkedsemiZephyr.Spdm
