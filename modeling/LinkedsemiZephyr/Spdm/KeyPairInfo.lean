import LinkedsemiZephyr.Firmware.KeyPairHal
import LinkedsemiZephyr.Spdm.Exchange

/-! SET_KEY_PAIR_INFO between the host testers, against the firmware's record of the same
key pair. -/
namespace LinkedsemiZephyr.Spdm
open Octets PartialRun Firmware SpdmPythonResponder

/-- What a KEY_PAIR_INFO says about the key pair now. -/
structure KeyPairState where
  usage : UInt16
  asym : UInt32
  assoc : UInt8
  deriving DecidableEq, Repr

/-- The requests of the sequences. -/
inductive KeyPairRequest where
  | get
  | change (c : KeyPairChange)
  deriving DecidableEq, Repr

namespace KeyPairRequest

def changeOf : KeyPairRequest → Option KeyPairChange
  | .get => none
  | .change c => some c

end KeyPairRequest

namespace Linked

/-- The request of `get_key_pair_info`. -/
def getKeyPairInfoReq (keyPairId : UInt8) : Bytes := [spdmVer, spdmGetKeyPairInfo, 0, 0, keyPairId]

/-- The request of `set_key_pair_info_change`: five bytes, and `<BHIB` behind them. -/
def setKeyPairInfoChangeReq (info : KeyPairInfo) : Bytes :=
  [spdmVer, spdmSetKeyPairInfo, spdmSetKeyPairChange, 0, info.id] ++
    ([0] ++ pack16 info.usage ++ pack32 info.asym ++ [info.assoc])

theorem setKeyPairInfoChange_request (E : Device) (d : Draw) (host : Linked) (info : KeyPairInfo) :
    setKeyPairInfoChange E d host info = (do
      let (_, host) ← exchange E d host (setKeyPairInfoChangeReq info) spdmSetKeyPairInfoAck false
      .ok host) := rfl

/-- `struct.unpack_from("<BBHHHIIHB", rsp, 4)`. -/
def unpackKeyPairInfo (rsp : Bytes) : Except PyErr KeyPairState :=
  if rsp.length < 23 then .error .structError
  else .ok ⟨field16 rsp 10, field32 rsp 16, rsp.getD 22 0⟩

end Linked

/-- The bytes of a request about key pair 1. -/
def KeyPairRequest.bytes : KeyPairRequest → Bytes
  | .get => Linked.getKeyPairInfoReq 1
  | .change c => Linked.setKeyPairInfoChangeReq ⟨1, c.usage, c.asym, c.assoc⟩

namespace SpdmPythonResponder

/-- The responder after a sequence of requests. -/
def afterRequests (E : Device) (d : Draw) (st : SpdmPythonResponder) (reqs : List Bytes) :
    Except PyErr SpdmPythonResponder :=
  reqs.foldlM (fun st req => (·.2) <$> st.dispatch E d req) st

/-- What a GET after the sequence reports. -/
def reportedKeyPair (E : Device) (d : Draw) (requests : List KeyPairRequest) :
    Except PyErr KeyPairState := do
  let st ← afterRequests E d {} (requests.map KeyPairRequest.bytes)
  let (rsp, _) ← st.dispatch E d KeyPairRequest.get.bytes
  Linked.unpackKeyPairInfo rsp

end SpdmPythonResponder

/-- What the firmware's HAL reports after the same CHANGEs. -/
def halKeyPair (requests : List KeyPairRequest) : Option KeyPairState :=
  let hal := (requests.filterMap KeyPairRequest.changeOf).foldl KeyPairHal.change {}
  (hal.libspdmReadKeyPairInfo 1 ecp256SpkiAlgid.length).map fun r =>
    ⟨r.currentKeyUsage, r.currentAsymAlgo, r.assocCertSlotMask⟩

namespace SpdmPythonResponder

variable (E : Device) (d : Draw) (st : SpdmPythonResponder)

/-- A CHANGE has 13 bytes, one less than the handler asks for. -/
theorem dispatch_change (c : KeyPairChange) :
    st.dispatch E d (KeyPairRequest.change c).bytes = .ok (setKeyPairAck, st) := by
  have hlength : (KeyPairRequest.change c).bytes.length = 13 := by
    simp [KeyPairRequest.bytes, Linked.setKeyPairInfoChangeReq]
  have hhandler : handlerOf (KeyPairRequest.change c).bytes = some .setKeyPair := rfl
  rw [dispatch, if_neg (by rw [hlength]; decide)]
  simp only [hhandler, Handler.call, handleSetKeyPair, hlength]
  rfl

/-- The response to a GET for key pair 1. -/
def keyPairInfoRsp (st : SpdmPythonResponder) : Bytes :=
  [spdmVer, spdmKeyPairInfo, 0, 0] ++
    ([1, 1] ++ leBytes 2 0x000C ++ pack16 st.usage ++ pack16 st.usage ++
    pack32 spdmKeyPairAsymEcc256 ++ pack32 st.asym ++ leBytes 2 publicKeyInfo.length ++
      [st.assoc]) ++ publicKeyInfo

theorem dispatch_get : st.dispatch E d KeyPairRequest.get.bytes = .ok (st.keyPairInfoRsp, st) :=
  dispatch_handler .keyPairInfo (by decide) rfl

/-- The fields stand where `get_key_pair_info` looks for them. -/
theorem unpackKeyPairInfo_rsp :
    Linked.unpackKeyPairInfo st.keyPairInfoRsp = .ok ⟨st.usage, st.asym, st.assoc⟩ := by
  let capabilities : Bytes :=
    [spdmVer, spdmKeyPairInfo, 0, 0, 1, 1] ++ (leBytes 2 0x000C ++ pack16 st.usage)
  let upToAsym : Bytes := capabilities ++ (pack16 st.usage ++ pack32 spdmKeyPairAsymEcc256)
  let upToAssoc : Bytes := upToAsym ++ (pack32 st.asym ++ leBytes 2 publicKeyInfo.length)
  have husage : st.keyPairInfoRsp =
      capabilities ++ (pack16 st.usage ++ (pack32 spdmKeyPairAsymEcc256 ++
      (pack32 st.asym ++ (leBytes 2 publicKeyInfo.length ++ ([st.assoc] ++ publicKeyInfo))))) := by
    simp [keyPairInfoRsp, capabilities]
  have hasym : st.keyPairInfoRsp = upToAsym ++
      (pack32 st.asym ++ (leBytes 2 publicKeyInfo.length ++ ([st.assoc] ++ publicKeyInfo))) := by
    rw [husage]
    simp only [upToAsym, List.append_assoc]
  have hassoc : st.keyPairInfoRsp = upToAssoc ++ ([st.assoc] ++ publicKeyInfo) := by
    rw [hasym]
    simp only [upToAssoc, List.append_assoc]
  have hcapabilities : capabilities.length = 10 := by simp [capabilities]
  have hupToAsym : upToAsym.length = 16 := by simp [upToAsym, hcapabilities]
  have hupToAssoc : upToAssoc.length = 22 := by simp [upToAssoc, hupToAsym]
  have hlength : ¬ st.keyPairInfoRsp.length < 23 := by
    rw [hassoc, List.length_append, hupToAssoc, List.length_append, List.length_singleton]
    omega
  have hlast : st.keyPairInfoRsp.getD 22 0 = st.assoc := by
    rw [hassoc, ← hupToAssoc]
    simp
  rw [Linked.unpackKeyPairInfo, if_neg hlength, hlast, husage, field16_pack16 _ _ hcapabilities,
    ← husage, hasym, field32_pack32 _ _ hupToAsym]

theorem afterRequests_same (requests : List KeyPairRequest) :
    afterRequests E d st (requests.map KeyPairRequest.bytes) = .ok st := by
  induction requests with
  | nil => rfl
  | cons r requests ih =>
      have hstep : (·.2) <$> st.dispatch E d r.bytes = .ok st := by
        cases r with
        | get =>
            rw [dispatch_get]
            rfl
        | change c =>
            rw [dispatch_change]
            rfl
      rw [List.map_cons, afterRequests, List.foldlM_cons, hstep]
      exact ih

/-- No CHANGE reaches what a KEY_PAIR_INFO reports. -/
theorem reportedKeyPair_initial (requests : List KeyPairRequest) :
    reportedKeyPair E d requests =
      .ok ⟨spdmKeyUsageKeyEx ||| spdmKeyUsageChallenge, spdmKeyPairAsymEcc256, 0x01⟩ := by
  rw [reportedKeyPair, afterRequests_same, ok_bind, dispatch_get]
  exact unpackKeyPairInfo_rsp {}

end SpdmPythonResponder

theorem halKeyPair_last (requests : List KeyPairRequest) :
    halKeyPair requests = some
      ⟨(lastNonzero ((requests.filterMap KeyPairRequest.changeOf).map KeyPairChange.usage)).getD
          (spdmKeyUsageKeyEx ||| spdmKeyUsageChallenge),
        (lastNonzero ((requests.filterMap KeyPairRequest.changeOf).map KeyPairChange.asym)).getD
          spdmKeyPairAsymEcc256,
        ((requests.filterMap KeyPairRequest.changeOf).map KeyPairChange.assoc).getLast?.getD
          0x01⟩ := by
  have hread (hal : KeyPairHal) : (hal.libspdmReadKeyPairInfo 1 ecp256SpkiAlgid.length).map
      (fun r => KeyPairState.mk r.currentKeyUsage r.currentAsymAlgo r.assocCertSlotMask) =
        some ⟨hal.keyUsage, hal.keyAsym, hal.keySlotMask⟩ := rfl
  rw [halKeyPair, hread, KeyPairHal.changes_keyUsage, KeyPairHal.changes_keyAsym,
    KeyPairHal.changes_keySlotMask]
  rfl

/-- The CHANGEs amount to nothing: the last usage and algorithm asked for that are not
zero, and the last slot mask, are the initial ones. -/
def KeepsInitial (requests : List KeyPairRequest) : Prop :=
  let changes := requests.filterMap KeyPairRequest.changeOf
  (∀ usage, lastNonzero (changes.map KeyPairChange.usage) = some usage →
      usage = spdmKeyUsageKeyEx ||| spdmKeyUsageChallenge) ∧
    (∀ asym, lastNonzero (changes.map KeyPairChange.asym) = some asym →
      asym = spdmKeyPairAsymEcc256) ∧
    ∀ assoc, (changes.map KeyPairChange.assoc).getLast? = some assoc → assoc = 0x01

theorem getD_eq_self {α : Type} {o : Option α} {a : α} :
    a = o.getD a ↔ ∀ b, o = some b → b = a := by
  cases o with
  | none => exact iff_of_true rfl nofun
  | some b => exact ⟨fun h c hc => (Option.some.inj hc).symm.trans h.symm, fun h => (h b rfl).symm⟩

/-- A KEY_PAIR_INFO after CHANGEs and GETs reports what the firmware would just when the
CHANGEs amount to nothing. -/
theorem keyPairInfo_agrees (E : Device) (d : Draw) (requests : List KeyPairRequest) :
    (∃ report, reportedKeyPair E d requests = .ok report ∧ halKeyPair requests = some report) ↔
      KeepsInitial requests := by
  rw [reportedKeyPair_initial, halKeyPair_last, KeepsInitial, ← getD_eq_self, ← getD_eq_self,
    ← getD_eq_self]
  constructor
  · rintro ⟨report, hreport, hhal⟩
    cases hreport
    have hsame := Option.some.inj hhal
    rw [KeyPairState.mk.injEq] at hsame
    exact ⟨hsame.1.symm, hsame.2.1.symm, hsame.2.2.symm⟩
  · rintro ⟨husage, hasym, hassoc⟩
    exact ⟨_, rfl, by rw [← husage, ← hasym, ← hassoc]⟩

/-- A CHANGE to KEY_EX alone, and the GET after it. -/
theorem keyPairInfo_agrees_keyExOnly :
    ¬ ∃ report, reportedKeyPair sampleDevice (sampleDraw 0) [.change ⟨spdmKeyUsageKeyEx, 0, 0x01⟩] =
      .ok report ∧
      halKeyPair [.change ⟨spdmKeyUsageKeyEx, 0, 0x01⟩] = some report := by
  rintro ⟨report, hreport, hhal⟩
  rw [reportedKeyPair_initial] at hreport
  cases hreport
  exact absurd hhal (by decide)

end LinkedsemiZephyr.Spdm
