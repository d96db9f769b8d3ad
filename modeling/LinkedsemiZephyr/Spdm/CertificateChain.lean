import LinkedsemiZephyr.Spdm.Exchange

/-! GET_CERTIFICATE from the first portion to the parsed chain: the requester's loop
against `handle_certificate`, and the cut of what it collected into DER certificates. -/
namespace LinkedsemiZephyr.Spdm
open Octets PartialRun SpdmPythonResponder

/-- `b[i]`. -/
def byteAt (b : Bytes) (i : Nat) : Except PyErr UInt8 :=
  match b[i]? with
  | none => .error .indexError
  | some x => .ok x

/-- `hdr + length` of the certificate at an offset. -/
def derTotal (blob : Bytes) (i : Nat) : Except PyErr { total : Nat // 0 < total } := do
  let first ← byteAt blob (i + 1)
  if first < 0x80 then .ok ⟨2 + first.toNat, by omega⟩
  else if first = 0x81 then do
    let length ← byteAt blob (i + 2)
    .ok ⟨3 + length.toNat, by omega⟩
  else if first = 0x82 then do
    let high ← byteAt blob (i + 2)
    let low ← byteAt blob (i + 3)
    .ok ⟨4 + (high.toNat <<< 8 ||| low.toNat), by omega⟩
  else .error (.derLengthUnsupported i)

/-- The loop of `split_der_certs` from an offset on. -/
def splitDerCertsFrom (blob : Bytes) (i : Nat) : Except PyErr (List Bytes) :=
  if i < blob.length then
    if blob.getD i 0 ≠ 0x30 then .error (.derNotSequence i)
    else
      match derTotal blob i with
      | .error e => .error e
      | .ok ⟨total, _⟩ =>
        match splitDerCertsFrom blob (i + total) with
        | .error e => .error e
        | .ok certs => .ok (slice blob i (i + total) :: certs)
  else .ok []
termination_by blob.length - i

def splitDerCerts (blob : Bytes) : Except PyErr (List Bytes) := splitDerCertsFrom blob 0

/-- The encodings of a length that `split_der_certs` knows. -/
inductive DerForm where
  | short | long81 | long82
  deriving DecidableEq, Repr

namespace DerForm

/-- The first length a form cannot carry. -/
def bound : DerForm → Nat
  | .short => 0x80
  | .long81 => 0x100
  | .long82 => 0x10000

def lengthOctets (n : Nat) : DerForm → Bytes
  | .short => [UInt8.ofNat n]
  | .long81 => [0x81, UInt8.ofNat n]
  | .long82 => [0x82, UInt8.ofNat (n >>> 8), UInt8.ofNat n]

end DerForm

/-- Tag and length field. -/
structure DerHeader where
  form : DerForm
  length : Nat
  fits : length < form.bound

namespace DerHeader

def bytes (h : DerHeader) : Bytes := 0x30 :: h.form.lengthOctets h.length

def total (h : DerHeader) : Nat := h.bytes.length + h.length

theorem total_pos (h : DerHeader) : 0 < h.total :=
  Nat.lt_of_lt_of_le (Nat.zero_lt_succ _) (Nat.le_add_right _ _)

end DerHeader

/-- A DER certificate: a SEQUENCE whose length field says how long its content is, in a
form that need not be the shortest. -/
structure DerCert where
  form : DerForm
  content : Bytes
  fits : content.length < form.bound

/-- Tag, length and content. -/
def DerCert.bytes (c : DerCert) : Bytes :=
  0x30 :: (c.form.lengthOctets c.content.length ++ c.content)

def DerCert.header (c : DerCert) : DerHeader := ⟨c.form, c.content.length, c.fits⟩

theorem DerCert.bytes_eq (c : DerCert) : c.bytes = c.header.bytes ++ c.content := rfl

/-- The chain layout of `gen_certs.py`. -/
def certChain (C : Crypto) (certs : List Bytes) : Bytes :=
  let chainBody := C.sha256 (certs.headD []) ++ certs.flatten
  leBytes 2 (4 + chainBody.length) ++ leBytes 2 0 ++ chainBody

namespace Linked

/-- The loop of `get_slot0_certificate`; without fuel it has not returned yet. -/
def certificateLoop (E : Device) (d : Draw) :
    Nat → Linked → Bytes → Nat → Option (Except PyErr (Bytes × Linked))
  | 0, _, _, _ => none
  | fuel + 1, host, chain, offset =>
    if 65536 ≤ offset then some (.error .structError)
    else
      match getCertificate E d host (UInt16.ofNat offset) (UInt16.ofNat certPortion) with
      | .error e => some (.error e)
      | .ok (certRsp, host) =>
        if certRsp.length < 8 then some (.error .structError)
        else
          let portion := leNat (slice certRsp 4 6)
          let remain := leNat (slice certRsp 6 8)
          let chain := chain ++ slice certRsp 8 (8 + portion)
          if remain = 0 then some (.ok (chain, host))
          else certificateLoop E d fuel host chain (offset + portion)

/-- The checks of `get_slot0_certificate` behind the loop. -/
def checkChain (C : Crypto) (digest chain : Bytes) : Except PyErr (List Bytes) := do
  require (C.sha256 chain = digest) .chainDigestMismatch
  require (4 ≤ chain.length) .structError
  let length := leNat (slice chain 0 2)
  require (length = chain.length) (.chainLengthField length chain.length)
  let certs ← splitDerCerts (chain.drop 36)
  match certs with
  | [] => .error .indexError
  | first :: rest => do
    require (C.sha256 first = slice chain 4 36) .rootHashMismatch
    .ok (first :: rest)

def getSlot0Certificate (E : Device) (d : Draw) (fuel : Nat) (host : Linked) (digest : Bytes) :
    Option (Except PyErr ((Bytes × List Bytes) × Linked)) :=
  (certificateLoop E d fuel host [] 0).map fun collected => do
    let (chain, host) ← collected
    let certs ← checkChain E.crypto digest chain
    .ok ((chain, certs), host)

end Linked

section Split

theorem byteAt_append (pre rest : Bytes) (k : Nat) :
    byteAt (pre ++ rest) (pre.length + k) = byteAt rest k := by
  simp only [byteAt, List.getElem?_append_right (Nat.le_add_right pre.length k),
    Nat.add_sub_cancel_left]

theorem high_low_octets {n : Nat} (h : n < 0x10000) :
    (UInt8.ofNat (n >>> 8)).toNat <<< 8 ||| (UInt8.ofNat n).toNat = n := by
  have hhigh : n >>> 8 < 2 ^ 8 := by
    rw [Nat.shiftRight_eq_div_pow]
    omega
  have hlow : n % 2 ^ 8 < 2 ^ 8 := Nat.mod_lt n (by decide)
  rw [UInt8.toNat_ofNat', UInt8.toNat_ofNat', Nat.mod_eq_of_lt hhigh,
    ← Nat.shiftLeft_add_eq_or_of_lt hlow, Nat.shiftLeft_eq, Nat.shiftRight_eq_div_pow]
  exact Nat.div_add_mod' n (2 ^ 8)

/-- A header tells the size of its certificate, whatever stands around it. -/
theorem derTotal_header (pre : Bytes) (h : DerHeader) (rest : Bytes) :
    derTotal (pre ++ (h.bytes ++ rest)) pre.length = .ok ⟨h.total, h.total_pos⟩ := by
  obtain ⟨form, length, fits⟩ := h
  have hat := byteAt_append pre (DerHeader.bytes ⟨form, length, fits⟩ ++ rest)
  cases form with
  | short =>
      have hlength : (UInt8.ofNat length).toNat = length :=
        UInt8.toNat_ofNat_of_lt' (Nat.lt_trans fits (by decide))
      have hsmall : UInt8.ofNat length < 0x80 := by
        rw [UInt8.lt_iff_toNat_lt, hlength]
        exact fits
      rw [derTotal, hat 1]
      change (if UInt8.ofNat length < 0x80 then _ else _) = _
      rw [if_pos hsmall]
      exact congrArg Except.ok (Subtype.ext (congrArg (2 + ·) hlength))
  | long81 =>
      have hlength : (UInt8.ofNat length).toNat = length := UInt8.toNat_ofNat_of_lt' fits
      rw [derTotal, hat 1, hat 2]
      exact congrArg Except.ok (Subtype.ext (congrArg (3 + ·) hlength))
  | long82 =>
      rw [derTotal, hat 1, hat 2, hat 3]
      exact congrArg Except.ok (Subtype.ext (congrArg (4 + ·) (high_low_octets fits)))

theorem derTotal_bytes (pre : Bytes) (c : DerCert) (post : Bytes) :
    derTotal (pre ++ (c.bytes ++ post)) pre.length = .ok ⟨c.bytes.length, Nat.zero_lt_succ _⟩ := by
  have hsize : c.header.total = c.bytes.length := by
    rw [c.bytes_eq, List.length_append]
    rfl
  have hheader : pre ++ (c.bytes ++ post) = pre ++ (c.header.bytes ++ (c.content ++ post)) := by
    rw [c.bytes_eq, List.append_assoc]
  refine (congrArg (derTotal · pre.length) hheader).trans
    ((derTotal_header pre c.header _).trans ?_)
  exact congrArg Except.ok (Subtype.ext hsize)

/-- A concatenation of certificates is cut where they end. -/
theorem splitDerCertsFrom_bytes (pre : Bytes) (certs : List DerCert) :
    splitDerCertsFrom (pre ++ certs.flatMap DerCert.bytes) pre.length =
      .ok (certs.map DerCert.bytes) := by
  induction certs generalizing pre with
  | nil =>
      rw [splitDerCertsFrom, if_neg (by simp)]
      rfl
  | cons c certs ih =>
      have hpos : 0 < c.bytes.length := Nat.zero_lt_succ _
      have hinside : pre.length < (pre ++ (c.bytes ++ certs.flatMap DerCert.bytes)).length := by
        rw [List.length_append, List.length_append]
        omega
      have htag : (pre ++ (c.bytes ++ certs.flatMap DerCert.bytes)).getD pre.length 0 = 0x30 := by
        simp [DerCert.bytes]
      have hrest := ih (pre ++ c.bytes)
      rw [List.append_assoc, List.length_append] at hrest
      rw [List.flatMap_cons, splitDerCertsFrom, if_pos hinside, htag, if_neg (by decide),
        derTotal_bytes pre c]
      simp only [hrest, slice_middle _ rfl rfl, List.map_cons]

theorem splitDerCerts_bytes (certs : List DerCert) :
    splitDerCerts (certs.flatMap DerCert.bytes) = .ok (certs.map DerCert.bytes) :=
  splitDerCertsFrom_bytes [] certs

end Split

namespace SpdmPythonResponder

/-- The CERTIFICATE response that carries the bytes from an offset on. -/
def certificateRsp (E : Device) (multiKey : Bool) (offset : Nat) : Bytes :=
  let portion := slice E.chain offset (offset + certPortion)
  [spdmVer, spdmCertificate, 0, if multiKey then spdmCertModelDevice else 0] ++
    leBytes 2 portion.length ++
    leBytes 2 (E.chain.length - offset - portion.length) ++ portion

theorem handleCertificate_request {E : Device} (hchain : E.chain.length < 65536)
    (st : SpdmPythonResponder) {offset : Nat} (hoffset : offset < 65536) :
    st.handleCertificate E
      (Linked.getCertificateReq (UInt16.ofNat offset) (UInt16.ofNat certPortion)) =
      .ok (certificateRsp E st.multiKey offset,
        st.record (Linked.getCertificateReq (UInt16.ofNat offset) (UInt16.ofNat certPortion))
          (certificateRsp E st.multiKey offset)) := by
  let req := Linked.getCertificateReq (UInt16.ofNat offset) (UInt16.ofNat certPortion)
  have hoffsetField : slice req 4 6 = pack16 (UInt16.ofNat offset) := rfl
  have hlengthField : slice req 6 8 = pack16 (UInt16.ofNat certPortion) := rfl
  have hfirst : leNat (slice req 4 6) = offset := by
    rw [hoffsetField, pack16, UInt16.toNat_ofNat_of_lt' hoffset, leNat_leBytes hoffset]
  have hsecond : min (leNat (slice req 6 8)) certPortion = certPortion := by
    rw [hlengthField]
    decide
  have hremain : ¬ 65536 ≤ E.chain.length - offset -
      (slice E.chain offset (offset + certPortion)).length := by
    omega
  have hlong : ¬ req.length < 8 := Nat.lt_irrefl 8
  change (if req.length < 8 then _ else _) = _
  rw [if_neg hlong, hfirst, hsecond, if_neg hremain]
  rfl

/-- The three fields `get_slot0_certificate` reads from it. -/
theorem certificateRsp_fields {E : Device} (hchain : E.chain.length < 65536) (multiKey : Bool)
    (offset : Nat) :
    let portion := slice E.chain offset (offset + certPortion)
    leNat (slice (certificateRsp E multiKey offset) 4 6) = portion.length ∧
      leNat (slice (certificateRsp E multiKey offset) 6 8) =
        E.chain.length - offset - portion.length ∧
      slice (certificateRsp E multiKey offset) 8 (8 + portion.length) = portion := by
  intro portion
  have hportion : portion.length < 256 ^ 2 := by
    simp only [portion, length_slice]
    omega
  have hremain : E.chain.length - offset - portion.length < 256 ^ 2 := by omega
  have hpacked : slice (certificateRsp E multiKey offset) 4 6 = leBytes 2 portion.length := rfl
  have hpacked' : slice (certificateRsp E multiKey offset) 6 8 =
      leBytes 2 (E.chain.length - offset - portion.length) := rfl
  refine ⟨?_, ?_, ?_⟩
  · rw [hpacked, leNat_leBytes hportion]
  · rw [hpacked', leNat_leBytes hremain]
  · exact slice_suffix rfl (Nat.le_refl _)

end SpdmPythonResponder

namespace Linked

variable {E : Device} {host : Linked}

/-- One request of the loop is answered with the portion at its offset. -/
theorem getCertificate_portion (hchain : E.chain.length < 65536) (d : Draw) (host : Linked)
    {offset : Nat} (hoffset : offset < 65536) :
    ∃ host', getCertificate E d host (UInt16.ofNat offset) (UInt16.ofNat certPortion) =
      .ok (certificateRsp E host.usb.multiKey offset, host') := by
  let req := getCertificateReq (UInt16.ofNat offset) (UInt16.ofNat certPortion)
  have hlong : 2 ≤ req.length := Nat.le_add_left 2 6
  have hanswer (tag : UInt8) : dispatch E d { host.usb with lastTag := tag } req =
      .ok (certificateRsp E host.usb.multiKey offset,
        SpdmPythonResponder.record { host.usb with lastTag := tag } req
          (certificateRsp E host.usb.multiKey offset)) :=
    (dispatch_handler .certificate hlong rfl).trans
      (handleCertificate_request hchain { host.usb with lastTag := tag } hoffset)
  have hshort : (certificateRsp E host.usb.multiKey offset).length ≤ 246 := by
    simp only [certificateRsp, List.length_append, length_leBytes, length_slice, List.length_cons,
      List.length_nil, certPortion]
    omega
  have hfits : req.length ≤ 246 := Nat.le_add_right 8 238
  have hcode : req.getD 1 0 ≠ spdmEndSession := by
    change spdmGetCertificate ≠ spdmEndSession
    decide
  obtain ⟨tag, host', hexchange, -⟩ :=
    exchange_answered E d host req _ spdmCertificate false hlong hfits hcode hanswer
      hshort rfl
  exact ⟨host', hexchange⟩

/-- From an offset inside the chain with everything before it collected, the loop
collects the rest. -/
theorem certificateLoop_collects (hchain : E.chain.length < 65536) (d : Draw) (fuel : Nat)
    (host : Linked) {offset : Nat} (hinside : offset < E.chain.length)
    (hfuel : E.chain.length ≤ offset + certPortion * fuel) :
    ∃ host', certificateLoop E d fuel host (E.chain.take offset) offset =
      some (.ok (E.chain, host')) := by
  induction fuel generalizing host offset with
  | zero => omega
  | succ fuel ih =>
      have hoffset : offset < 65536 := by omega
      obtain ⟨host₁, hrequest⟩ := getCertificate_portion hchain d host hoffset
      obtain ⟨hportion, hremain, hbytes⟩ := certificateRsp_fields hchain host.usb.multiKey offset
      have hlong : ¬ (certificateRsp E host.usb.multiKey offset).length < 8 := by
        simp only [certificateRsp, List.length_append, length_leBytes, List.length_cons,
          List.length_nil]
        omega
      have hcollected := take_append_slice E.chain (Nat.le_add_right offset certPortion)
      have hsize := length_slice E.chain offset (offset + certPortion)
      rw [Nat.add_sub_cancel_left] at hsize
      rw [certificateLoop, if_neg (Nat.not_le.mpr hoffset), hrequest]
      simp only [if_neg hlong, hportion, hremain, hbytes, hcollected]
      split
      · next hlast =>
          -- The last portion reaches the end of the chain.
          refine ⟨host₁, ?_⟩
          rw [List.take_of_length_le (by omega)]
      · next hmore =>
          have hfull : (slice E.chain offset (offset + certPortion)).length = certPortion := by
            omega
          rw [hfull]
          exact ih host₁ (by omega) (by rw [Nat.mul_succ] at hfuel; omega)

end Linked

section Checks

variable {C : Crypto} {first : DerCert} {rest : List DerCert}

theorem certChain_layout (C : Crypto) (first : DerCert) (rest : List DerCert) :
    certChain C ((first :: rest).map DerCert.bytes) =
      leBytes 2 (4 + (C.sha256 first.bytes ++ (first :: rest).flatMap DerCert.bytes).length) ++
        (leBytes 2 0 ++ (C.sha256 first.bytes ++ (first :: rest).flatMap DerCert.bytes)) := by
  rw [certChain, List.flatMap_def, List.append_assoc]
  rfl

/-- The chain `gen_certs.py` packs passes every check, and is cut into its certificates. -/
theorem checkChain_certChain (hhash : ∀ m, (C.sha256 m).length = 32)
    (htotal : (certChain C ((first :: rest).map DerCert.bytes)).length ≤ 65535) :
    Linked.checkChain C (C.sha256 (certChain C ((first :: rest).map DerCert.bytes)))
      (certChain C ((first :: rest).map DerCert.bytes)) =
        .ok ((first :: rest).map DerCert.bytes) := by
  have hlayout := certChain_layout C first rest
  have hroot : slice (certChain C ((first :: rest).map DerCert.bytes)) 4 36 =
      C.sha256 first.bytes := by
    rw [hlayout, ← List.append_assoc]
    exact slice_middle _ (by simp) (by rw [hhash])
  have hblob : (certChain C ((first :: rest).map DerCert.bytes)).drop 36 =
      (first :: rest).flatMap DerCert.bytes := by
    rw [hlayout, ← List.append_assoc, ← List.append_assoc]
    exact List.drop_left' (by simp [hhash])
  generalize C.sha256 first.bytes ++ (first :: rest).flatMap DerCert.bytes = chainBody at hlayout
  have hlength : (certChain C ((first :: rest).map DerCert.bytes)).length =
      4 + chainBody.length := by
    rw [hlayout, List.length_append, List.length_append, length_leBytes, length_leBytes,
      ← Nat.add_assoc]
  have hfield : leNat (slice (certChain C ((first :: rest).map DerCert.bytes)) 0 2) =
      4 + chainBody.length := by
    rw [hlayout, slice_prefix _ (length_leBytes 2 _), leNat_leBytes (by omega)]
  have hsplit : splitDerCerts ((certChain C ((first :: rest).map DerCert.bytes)).drop 36) =
      .ok (first.bytes :: rest.map DerCert.bytes) := by
    rw [hblob]
    exact splitDerCerts_bytes (first :: rest)
  rw [Linked.checkChain, require_ok rfl, ok_bind, require_ok (by omega), ok_bind]
  simp only [hfield]
  rw [require_ok hlength.symm, ok_bind, hsplit, ok_bind]
  simp only
  rw [require_ok hroot.symm]
  rfl

end Checks

/-- The certificate transfer, from the first request to the parsed chain, for a chain
whose length fits its field: the loop returns within 328 requests. -/
theorem Linked.getSlot0Certificate_certChain {C : Crypto} (hhash : ∀ m, (C.sha256 m).length = 32)
    {certs : List DerCert} (hne : certs ≠ [])
    (htotal : (certChain C (certs.map DerCert.bytes)).length ≤ 65535) (d : Draw) (host : Linked)
    {fuel : Nat} (hfuel : 328 ≤ fuel) :
    ∃ host', getSlot0Certificate ⟨C, certChain C (certs.map DerCert.bytes)⟩ d fuel host
        (Device.digest ⟨C, certChain C (certs.map DerCert.bytes)⟩) =
      some (.ok ((certChain C (certs.map DerCert.bytes), certs.map DerCert.bytes), host')) := by
  cases certs with
  | nil => exact absurd rfl hne
  | cons first rest =>
      let E : Device := ⟨C, certChain C ((first :: rest).map DerCert.bytes)⟩
      have hchain : E.chain.length < 65536 := Nat.lt_succ_of_le htotal
      have hnonempty : 0 < E.chain.length := by
        change 0 < (certChain C ((first :: rest).map DerCert.bytes)).length
        rw [certChain_layout, List.length_append, length_leBytes]
        omega
      obtain ⟨host', hloop⟩ := certificateLoop_collects hchain d fuel host hnonempty
        (by simp only [certPortion]; omega)
      refine ⟨host', ?_⟩
      have hchecks : checkChain E.crypto E.digest E.chain =
          .ok ((first :: rest).map DerCert.bytes) :=
        checkChain_certChain hhash htotal
      rw [List.take_zero] at hloop
      rw [getSlot0Certificate, hloop, Option.map_some, ok_bind]
      simp only
      rw [hchecks]
      rfl

/-- A root and a device certificate, in two portions. -/
def sampleCerts : List DerCert :=
  [⟨.short, zeros 20, by simp [DerForm.bound]⟩, ⟨.long81, zeros 150, by simp [DerForm.bound]⟩]

theorem Linked.getSlot0Certificate_sampleCerts : ∃ host',
    getSlot0Certificate ⟨constantCrypto, certChain constantCrypto (sampleCerts.map DerCert.bytes)⟩
      (sampleDraw 0) 328
        { usb := {} } (Device.digest
          ⟨constantCrypto, certChain constantCrypto (sampleCerts.map DerCert.bytes)⟩) =
      some (.ok ((certChain constantCrypto (sampleCerts.map DerCert.bytes),
        sampleCerts.map DerCert.bytes), host')) :=
  getSlot0Certificate_certChain constantCrypto_fixedLengths.sha256 (List.cons_ne_nil _ _)
    (by simp [certChain, DerCert.bytes, DerForm.lengthOctets, constantCrypto]) (sampleDraw 0) _
    (Nat.le_refl 328)

end LinkedsemiZephyr.Spdm
