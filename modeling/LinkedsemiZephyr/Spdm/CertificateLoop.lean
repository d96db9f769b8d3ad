import LinkedsemiZephyr.Lib.BodyLoop
import LinkedsemiZephyr.Spdm.CertificateChain

/-! The loop of `get_slot0_certificate` against any responder: how long it goes on, and
for which offsets it asks. -/
namespace LinkedsemiZephyr.Spdm
open Octets PartialRun BodyLoop

/-- A GET_CERTIFICATE exchange of a requester with state `σ`. -/
abbrev CertificateExchange (σ : Type) := σ → Bytes → Except PyErr (Bytes × σ)

structure Collecting (σ : Type) where
  host : σ
  chain : Bytes := []
  offset : Nat := 0

namespace Collecting

variable {σ : Type}

def request (s : Collecting σ) : Bytes :=
  Linked.getCertificateReq (UInt16.ofNat s.offset) (UInt16.ofNat certPortion)

/-- One turn; an offset past two bytes cannot be packed. -/
def turn (exchange : CertificateExchange σ) (s : Collecting σ) :
    Collecting σ ⊕ Except PyErr (Bytes × σ) :=
  if 65536 ≤ s.offset then .inr (.error .structError)
  else
    match exchange s.host s.request with
    | .error e => .inr (.error e)
    | .ok (certRsp, host) =>
      if certRsp.length < 8 then .inr (.error .structError)
      else
        let portion := leNat (slice certRsp 4 6)
        let remain := leNat (slice certRsp 6 8)
        let chain := s.chain ++ slice certRsp 8 (8 + portion)
        if remain = 0 then .inr (.ok (chain, host)) else .inl ⟨host, chain, s.offset + portion⟩

def getSlot0Certificate (exchange : CertificateExchange σ) (C : Crypto) (fuel : Nat) (host : σ)
    (digest : Bytes) :
    Option (Except PyErr ((Bytes × List Bytes) × σ)) :=
  match turns (turn exchange) fuel ⟨host, [], 0⟩ with
  | .inl _ => none
  | .inr collected => some do
    let (chain, host) ← collected
    let certs ← Linked.checkChain C digest chain
    .ok ((chain, certs), host)

theorem certificateLoop_eq (E : Device) (d : Draw) (fuel : Nat) (host : Linked) (chain : Bytes)
    (offset : Nat) :
    Linked.certificateLoop E d fuel host chain offset =
      (turns (turn fun host req => Linked.exchange E d host req spdmCertificate false) fuel
        ⟨host, chain, offset⟩).getRight? := by
  induction fuel generalizing host chain offset with
  | zero => rfl
  | succ fuel ih =>
      simp only [Linked.certificateLoop, turns, turn, request, Linked.getCertificate]
      by_cases hoffset : 65536 ≤ offset
      · rw [if_pos hoffset, if_pos hoffset]
        rfl
      · rw [if_neg hoffset, if_neg hoffset]
        cases Linked.exchange E d host _ spdmCertificate false with
        | error e => rfl
        | ok answer =>
            obtain ⟨certRsp, host'⟩ := answer
            by_cases hshort : certRsp.length < 8
            · simp only [if_pos hshort]
              rfl
            · by_cases hlast : leNat (slice certRsp 6 8) = 0
              · simp only [if_neg hshort, if_pos hlast]
                rfl
              · simp only [if_neg hshort, if_neg hlast]
                exact ih _ _ _

theorem getSlot0Certificate_linked (E : Device) (d : Draw) (fuel : Nat) (host : Linked)
    (digest : Bytes) :
    Linked.getSlot0Certificate E d fuel host digest =
      getSlot0Certificate (fun host req => Linked.exchange E d host req spdmCertificate false)
        E.crypto fuel host
        digest := by
  rw [Linked.getSlot0Certificate, getSlot0Certificate, certificateLoop_eq]
  cases turns _ fuel _ <;> rfl

theorem returns_iff {exchange : CertificateExchange σ} {C : Crypto} {host : σ} {digest : Bytes} :
    (∃ fuel r, getSlot0Certificate exchange C fuel host digest = some r) ↔
      Leaves (turn exchange) ⟨host, [], 0⟩ := by
  constructor
  · rintro ⟨fuel, r, h⟩
    rw [getSlot0Certificate] at h
    cases hturns : turns (turn exchange) fuel ⟨host, [], 0⟩ with
    | inl s => rw [hturns] at h; cases h
    | inr collected => exact ⟨fuel, collected, hturns⟩
  · rintro ⟨fuel, collected, h⟩
    exact ⟨fuel, _, by rw [getSlot0Certificate, h]⟩

end Collecting

/-- A CERTIFICATE response: the header, and whatever stands behind it. -/
structure CertificateRsp where
  version : UInt8
  param1 : UInt8
  param2 : UInt8
  portion : UInt16
  remain : UInt16
  payload : Bytes

namespace CertificateRsp

def bytes (r : CertificateRsp) : Bytes :=
  [r.version, spdmCertificate, r.param1, r.param2] ++
    (pack16 r.portion ++ (pack16 r.remain ++ r.payload))

theorem pack16_leNat (low high : UInt8) :
    pack16 (UInt16.ofNat (leNat [low, high])) = [low, high] := by
  have hlow := low.toNat_lt
  have hhigh := high.toNat_lt
  have hfits : leNat [low, high] < 2 ^ 16 := by
    simp only [leNat]
    omega
  have hdiv : (low.toNat + 256 * high.toNat) / 256 = high.toNat := by omega
  have hmod : UInt8.ofNat (low.toNat + 256 * high.toNat) = low := by
    apply UInt8.toNat_inj.mp
    rw [UInt8.toNat_ofNat']
    omega
  rw [pack16, UInt16.toNat_ofNat_of_lt' hfits]
  simp only [leNat, leBytes, Nat.mul_zero, Nat.add_zero, hmod, hdiv, UInt8.ofNat_toNat]

/-- Every message with the code and the whole header is one. -/
theorem exists_bytes {b : Bytes} (hlong : 8 ≤ b.length) (hcode : b.getD 1 0 = spdmCertificate) :
    ∃ r : CertificateRsp, r.bytes = b := by
  match b, hlong, hcode with
  | version :: code :: param1 :: param2 :: p0 :: p1 :: r0 :: r1 :: payload, _, hcode =>
      refine ⟨⟨version, param1, param2, UInt16.ofNat (leNat [p0, p1]),
        UInt16.ofNat (leNat [r0, r1]), payload⟩, ?_⟩
      change code = spdmCertificate at hcode
      simp only [bytes, pack16_leNat, hcode]
      rfl

theorem length_bytes (r : CertificateRsp) : r.bytes.length = 8 + r.payload.length := by
  simp only [bytes, List.length_append, length_pack16, List.length_cons, List.length_nil]
  omega

theorem portion_bytes (r : CertificateRsp) : leNat (slice r.bytes 4 6) = r.portion.toNat := by
  have hfield : slice r.bytes 4 6 = pack16 r.portion := rfl
  rw [hfield, pack16, leNat_leBytes (by simpa using r.portion.toNat_lt)]

theorem remain_bytes (r : CertificateRsp) : leNat (slice r.bytes 6 8) = r.remain.toNat := by
  have hfield : slice r.bytes 6 8 = pack16 r.remain := rfl
  rw [hfield, pack16, leNat_leBytes (by simpa using r.remain.toNat_lt)]

/-- What the loop appends; the slice ends where the response does. -/
theorem payload_bytes (r : CertificateRsp) (portion : Nat) :
    slice r.bytes 8 (8 + portion) = r.payload.take portion := by
  have hpayload : r.bytes.drop 8 = r.payload := rfl
  rw [slice, Nat.add_sub_cancel_left, hpayload]

theorem expectCode_bytes (r : CertificateRsp) : expectCode r.bytes spdmCertificate = .ok () := by
  have hcode : r.bytes.getD 1 0 = spdmCertificate := rfl
  have hlong := r.length_bytes
  rw [expectCode, hcode, if_neg (by omega), if_neg (by decide), if_neg (not_not.mpr rfl)]

end CertificateRsp

/-- A requester whose peer answers with these responses, one after another, whatever it is asked. -/
abbrev Scripted := SpdmHost (Nat → CertificateRsp)

namespace Scripted

def exchange (host : Scripted) (request : Bytes) : Except PyErr (Bytes × Scripted) := do
  let _ ← buildFrame (buildMctp (mctpTypeSpdm :: request) host.tag true)
  let rsp := (host.usb 0).bytes
  expectCode rsp spdmCertificate
  .ok (rsp, { host with
    usb := fun n => host.usb (n + 1)
    tag := (host.tag + 1) &&& 0x07
    transcript := host.transcript ++ request ++ rsp })

/-- What the `n`-th request asks for: the portions announced before it. -/
def offsetAt (responses : Nat → CertificateRsp) : Nat → Nat
  | 0 => 0
  | n + 1 => offsetAt responses n + (responses n).portion.toNat

/-- The `n`-th request is made. -/
def Asks (responses : Nat → CertificateRsp) (n : Nat) : Prop :=
  (∀ i < n, (responses i).remain ≠ 0) ∧ offsetAt responses n < 65536

/-- The function comes to an end, and each request asks for what stands right behind the
bytes collected. -/
structure Collects (host : Scripted) : Prop where
  returns : ∀ C digest, ∃ fuel r,
    Collecting.getSlot0Certificate exchange C fuel host digest = some r
  aligned : ∀ n s, turns (Collecting.turn exchange) n ⟨host, [], 0⟩ = .inl s → s.offset < 65536 →
    s.offset = s.chain.length

def received (host : Scripted) (request : Bytes) : Scripted :=
  { host with
    usb := fun n => host.usb (n + 1)
    tag := (host.tag + 1) &&& 0x07
    transcript := host.transcript ++ request ++ (host.usb 0).bytes }

theorem exchange_request (host : Scripted) (s : Collecting Scripted) :
    exchange host s.request = .ok ((host.usb 0).bytes, received host s.request) := by
  have hfits : (buildMctp (mctpTypeSpdm :: s.request) host.tag true).length ≤ 251 := by
    change 13 ≤ 251
    decide
  rw [exchange, buildFrame_ok hfits, ok_bind]
  simp only [CertificateRsp.expectCode_bytes, ok_bind]
  rfl

/-- The variables of the loop behind `n` responses. -/
def trace (host : Scripted) : Nat → Collecting Scripted
  | 0 => ⟨host, [], 0⟩
  | n + 1 =>
    let s := trace host n
    let r := host.usb n
    ⟨received s.host s.request, s.chain ++ r.payload.take r.portion.toNat,
      s.offset + r.portion.toNat⟩

section Trace
variable (host : Scripted) (n : Nat)

theorem trace_usb (i : Nat) : (trace host n).host.usb i = host.usb (n + i) := by
  induction n generalizing i with
  | zero => rw [Nat.zero_add]; rfl
  | succ n ih =>
      change (trace host n).host.usb (i + 1) = host.usb (n + 1 + i)
      rw [ih, Nat.add_assoc, Nat.add_comm 1 i]

theorem trace_offset : (trace host n).offset = offsetAt host.usb n := by
  induction n with
  | zero => rfl
  | succ n ih =>
      change (trace host n).offset + (host.usb n).portion.toNat = offsetAt host.usb (n + 1)
      rw [ih]
      rfl

theorem turn_trace (hasks : offsetAt host.usb n < 65536) : Collecting.turn exchange (trace host n) =
    if (host.usb n).remain = 0 then
      .inr (.ok ((trace host (n + 1)).chain, (trace host (n + 1)).host))
    else .inl (trace host (n + 1)) := by
  have hoffset : ¬ 65536 ≤ (trace host n).offset := by rw [trace_offset]; omega
  have hrsp : (trace host n).host.usb 0 = host.usb n := trace_usb host n 0
  have hlong : ¬ (host.usb n).bytes.length < 8 := by rw [CertificateRsp.length_bytes]; omega
  have hzero : (host.usb n).remain.toNat = 0 ↔ (host.usb n).remain = 0 := by
    rw [← UInt16.toNat_inj]
    rfl
  rw [Collecting.turn, if_neg hoffset, exchange_request, hrsp]
  simp only [if_neg hlong, CertificateRsp.portion_bytes, CertificateRsp.remain_bytes,
    CertificateRsp.payload_bytes, hzero]
  rfl

end Trace

variable {host : Scripted}

/-- The loop goes on behind a response that says that something remains, unless it could
not even ask for it. -/
theorem traced (host : Scripted) : Traced (Collecting.turn exchange) (trace host) fun n =>
    (host.usb n).remain ≠ 0 ∧ offsetAt host.usb n < 65536 where
  goes n := by
    rintro ⟨hremain, hasks⟩
    rw [turn_trace host n hasks, if_neg hremain]
  leaves n := by
    intro hlast
    by_cases hasks : offsetAt host.usb n < 65536
    · have hzero : (host.usb n).remain = 0 := by
        by_contra hremain
        exact hlast ⟨hremain, hasks⟩
      exact ⟨_, by rw [turn_trace host n hasks, if_pos hzero]⟩
    · have hoffset : 65536 ≤ (trace host n).offset := by rw [trace_offset]; omega
      exact ⟨.error .structError, by rw [Collecting.turn, if_pos hoffset]⟩

theorem offsetAt_mono {responses : Nat → CertificateRsp} {m n : Nat} (h : m ≤ n) :
    offsetAt responses m ≤ offsetAt responses n := by
  induction h with
  | refl => exact Nat.le_refl _
  | step _ ih => exact Nat.le_trans ih (Nat.le_add_right _ _)

theorem Asks.before {responses : Nat → CertificateRsp} {m n : Nat} (h : Asks responses n)
    (hle : m ≤ n) :
    Asks responses m :=
  ⟨fun i hi => h.1 i (Nat.lt_of_lt_of_le hi hle), Nat.lt_of_le_of_lt (offsetAt_mono hle) h.2⟩

theorem asks_iff (n : Nat) : Asks host.usb n ↔
    (∀ i < n, (host.usb i).remain ≠ 0 ∧ offsetAt host.usb i < 65536) ∧
    (trace host n).offset < 65536 := by
  rw [trace_offset]
  constructor
  · intro h
    exact ⟨fun i hi => ⟨h.1 i hi, (h.before (Nat.le_of_lt hi)).2⟩, h.2⟩
  · intro h
    exact ⟨fun i hi => (h.1 i hi).1, h.2⟩

/-- The offset runs ahead of the collected bytes as soon as a portion is longer than the
bytes that came with it. -/
theorem offset_eq_length_iff (n : Nat) : (trace host n).offset = (trace host n).chain.length ↔
    ∀ i < n, (host.usb i).portion.toNat ≤ (host.usb i).payload.length := by
  have hahead : ∀ n, (trace host n).chain.length ≤ (trace host n).offset := by
    intro n
    induction n with
    | zero => exact Nat.le_refl 0
    | succ n ih =>
        simp only [trace, List.length_append, List.length_take]
        omega
  induction n with
  | zero => exact ⟨fun _ i hi => absurd hi (Nat.not_lt_zero i), fun _ => rfl⟩
  | succ n ih =>
      have hn := hahead n
      have hstep : (trace host (n + 1)).offset = (trace host (n + 1)).chain.length ↔
          (trace host n).offset = (trace host n).chain.length ∧
            (host.usb n).portion.toNat ≤ (host.usb n).payload.length := by
        simp only [trace, List.length_append, List.length_take]
        omega
      refine (hstep.trans (and_congr_left fun _ => ih)).trans ?_
      constructor
      · rintro ⟨hbefore, hlast⟩ i hi
        rcases Nat.lt_succ_iff_lt_or_eq.mp hi with hlt | rfl
        · exact hbefore i hlt
        · exact hlast
      · intro h
        exact ⟨fun i hi => h i (Nat.lt_succ_of_lt hi), h n (Nat.lt_succ_self n)⟩

theorem leaves_iff (host : Scripted) : Leaves (Collecting.turn exchange) ⟨host, [], 0⟩ ↔
    ∃ n, (host.usb n).remain = 0 ∨ 65536 ≤ offsetAt host.usb n := by
  refine (traced host).leaves_iff.trans (exists_congr fun n => ?_)
  rw [not_and_or, not_not, Nat.not_lt]

theorem ends_of_returns {host : Scripted} {C : Crypto} {digest : Bytes}
    (h : ∃ fuel r, Collecting.getSlot0Certificate exchange C fuel host digest = some r) :
    ∃ n, (host.usb n).remain = 0 ∨ 65536 ≤ offsetAt host.usb n :=
  (leaves_iff host).mp (Collecting.returns_iff.mp h)

/-- The collection ends if some response says that nothing remains or the offset runs out,
and it asks for the right bytes as long as no portion that another request follows is
longer than its payload. -/
theorem collects_iff (host : Scripted) : Collects host ↔
    (∃ n, (host.usb n).remain = 0 ∨ 65536 ≤ offsetAt host.usb n) ∧
      ∀ n, Asks host.usb (n + 1) → (host.usb n).portion.toNat ≤ (host.usb n).payload.length := by
  constructor
  · intro h
    refine ⟨ends_of_returns (h.returns constantCrypto []), fun n hasks => ?_⟩
    obtain ⟨hmore, hoffset⟩ := (asks_iff (n + 1)).mp hasks
    have haligned := h.aligned (n + 1) _ ((traced host).turns_more hmore) hoffset
    exact (offset_eq_length_iff (n + 1)).mp haligned n (Nat.lt_succ_self n)
  · rintro ⟨hend, hfits⟩
    refine ⟨fun C digest => Collecting.returns_iff.mpr ((leaves_iff host).mpr hend),
      fun n s hs hoffset => ?_⟩
    obtain ⟨hmore, rfl⟩ := (traced host).turns_inl_iff.mp hs
    have hasks := (asks_iff n).mpr ⟨hmore, hoffset⟩
    refine (offset_eq_length_iff n).mpr fun i hi => hfits i (hasks.before hi)

/-- Every response is empty and says that one byte remains. -/
def emptyPortions : Scripted := { usb := fun _ => ⟨spdmVer, 0, 0, 0, 1, []⟩ }

/-- The same offset is asked for over and over. -/
theorem emptyPortions_endless : ¬ ∀ host : Scripted, Collects host := by
  intro h
  obtain ⟨n, hn⟩ := ends_of_returns ((h emptyPortions).returns constantCrypto [])
  have hzero : ∀ n, offsetAt emptyPortions.usb n = 0 := by
    intro n
    induction n with
    | zero => rfl
    | succ n ih => rw [offsetAt, ih]; rfl
  rcases hn with hremain | hoffset
  · have hone : (emptyPortions.usb n).remain = 1 := rfl
    rw [hone] at hremain
    exact absurd hremain (by decide)
  · rw [hzero] at hoffset
    exact absurd hoffset (by decide)

end Scripted

end LinkedsemiZephyr.Spdm
