import LinkedsemiZephyr.Spdm.CertificateChain

/-! `parse_first_der` of the requester firmware beside `split_der_certs` of the host tool:
which byte strings the two cut in the same way. -/
namespace LinkedsemiZephyr.Firmware
open Octets Spdm

/-- Header length and declared length, where the header is all there. -/
def derHeader (blob : Bytes) : Option (Nat × Nat) :=
  if blob.getD 1 0 < 0x80 then some (2, (blob.getD 1 0).toNat)
  else if blob.getD 1 0 = 0x81 ∧ 3 ≤ blob.length then some (3, (blob.getD 2 0).toNat)
  else if blob.getD 1 0 = 0x82 ∧ 4 ≤ blob.length then
    some (4, (blob.getD 2 0).toNat <<< 8 ||| (blob.getD 3 0).toNat)
  else none

/-- `parse_first_der`: the length of the first certificate, which starts where `blob` does. -/
def parseFirstDer (blob : Bytes) : Option Nat :=
  if blob.length < 2 ∨ blob.getD 0 0 ≠ 0x30 then none
  else
    match derHeader blob with
    | none => none
    | some (hdr, length) => if hdr + length > blob.length then none else some (hdr + length)

/-- The element is one TLV whose declared length is that of its content. -/
def Complete (element : Bytes) : Prop := ∃ c : DerCert, c.bytes = element

/-- The two splitters agree on the first certificate, and the list one of them returns is a
partition into whole certificates. -/
structure Agree (blob : Bytes) : Prop where
  first : ∀ n, parseFirstDer blob = some n ↔
    ∃ certs element, splitDerCerts blob = .ok certs ∧ certs.head? = some element ∧
    Complete element ∧
      element.length = n
  whole : ∀ certs, splitDerCerts blob = .ok certs → (∀ c ∈ certs, Complete c) ∧ certs.flatten = blob

/-- A certificate starts here, as far as its header tells. -/
def StartsDer (blob : Bytes) : Prop := ∃ (h : DerHeader) (rest : Bytes), blob = h.bytes ++ rest

section Header
variable (h : DerHeader) (rest : Bytes)

theorem derHeader_header : derHeader (h.bytes ++ rest) = some (h.bytes.length, h.length) := by
  obtain ⟨form, length, fits⟩ := h
  cases form with
  | short =>
      have hlength : (UInt8.ofNat length).toNat = length :=
        UInt8.toNat_ofNat_of_lt' (Nat.lt_trans fits (by decide))
      have hsmall : UInt8.ofNat length < 0x80 := by
        rw [UInt8.lt_iff_toNat_lt, hlength]
        exact fits
      change (if UInt8.ofNat length < 0x80 then _ else _) = _
      rw [if_pos hsmall]
      exact congrArg (fun n => some (2, n)) hlength
  | long81 =>
      have hlength : (UInt8.ofNat length).toNat = length := UInt8.toNat_ofNat_of_lt' fits
      have hlong : 3 ≤ (DerHeader.bytes ⟨.long81, length, fits⟩ ++ rest).length := by
        rw [List.length_append]
        exact Nat.le_add_right 3 _
      have hcode : (DerHeader.bytes ⟨.long81, length, fits⟩ ++ rest).getD 1 0 = 0x81 := rfl
      rw [derHeader, if_neg (by rw [hcode]; decide), if_pos ⟨hcode, hlong⟩]
      exact congrArg (fun n => some (3, n)) hlength
  | long82 =>
      have hlong : 4 ≤ (DerHeader.bytes ⟨.long82, length, fits⟩ ++ rest).length := by
        rw [List.length_append]
        exact Nat.le_add_right 4 _
      have hcode : (DerHeader.bytes ⟨.long82, length, fits⟩ ++ rest).getD 1 0 = 0x82 := rfl
      rw [derHeader, if_neg (by rw [hcode]; decide),
        if_neg (by rw [hcode]; exact fun hne => absurd hne.1 (by decide)),
        if_pos ⟨hcode, hlong⟩]
      exact congrArg (fun n => some (4, n)) (high_low_octets fits)

/-- The firmware takes a certificate that is all there. -/
theorem parseFirstDer_header :
    parseFirstDer (h.bytes ++ rest) = if h.length ≤ rest.length then some h.total else none := by
  have hlong : ¬ ((h.bytes ++ rest).length < 2 ∨ (h.bytes ++ rest).getD 0 0 ≠ 0x30) := by
    have hoctets : 0 < (h.form.lengthOctets h.length).length := by
      cases h.form <;> exact Nat.zero_lt_succ _
    rintro (hshort | htag)
    · rw [List.length_append, DerHeader.bytes, List.length_cons] at hshort
      omega
    · exact htag rfl
  rw [parseFirstDer, if_neg hlong, derHeader_header]
  simp only [List.length_append, DerHeader.total]
  by_cases hfits : h.length ≤ rest.length
  · rw [if_neg (by omega), if_pos hfits]
  · rw [if_pos (by omega), if_neg hfits]

end Header

section Prefix
variable {blob : Bytes}

theorem octets_high_low (high low : UInt8) :
    high.toNat <<< 8 ||| low.toNat < 0x10000 ∧
      UInt8.ofNat ((high.toNat <<< 8 ||| low.toNat) >>> 8) = high ∧
      UInt8.ofNat (high.toNat <<< 8 ||| low.toNat) = low := by
  have hhigh := high.toNat_lt
  have hlow := low.toNat_lt
  have hsum : high.toNat <<< 8 ||| low.toNat = high.toNat * 2 ^ 8 + low.toNat := by
    rw [← Nat.shiftLeft_add_eq_or_of_lt hlow, Nat.shiftLeft_eq]
  rw [hsum]
  refine ⟨by omega, ?_, ?_⟩
  · apply UInt8.toNat_inj.mp
    rw [UInt8.toNat_ofNat', Nat.shiftRight_eq_div_pow]
    omega
  · apply UInt8.toNat_inj.mp
    rw [UInt8.toNat_ofNat']
    omega

/-- A length that `split_der_certs` can read is part of a header. -/
theorem startsDer_of_derTotal {total : { n : Nat // 0 < n }} (htag : blob.getD 0 0 = 0x30)
    (h : derTotal blob 0 = .ok total) : StartsDer blob := by
  rcases blob with _ | ⟨tag, _ | ⟨first, rest⟩⟩
  · exact absurd htag (by decide)
  · cases h
  · change tag = 0x30 at htag
    subst htag
    change (if first < 0x80 then _ else _) = _ at h
    split_ifs at h with hshort h81 h82
    · have hbound : first.toNat < 0x80 := UInt8.lt_iff_toNat_lt.mp hshort
      exact ⟨⟨.short, first.toNat, hbound⟩, rest, by simp [DerHeader.bytes, DerForm.lengthOctets]⟩
    · rcases rest with _ | ⟨length, rest⟩
      · cases h
      · exact ⟨⟨.long81, length.toNat, length.toNat_lt⟩, rest, by
          simp [DerHeader.bytes, DerForm.lengthOctets, h81]⟩
    · rcases rest with _ | ⟨high, _ | ⟨low, rest⟩⟩
      · cases h
      · cases h
      · obtain ⟨hbound, hhigh, hlow⟩ := octets_high_low high low
        exact ⟨⟨.long82, high.toNat <<< 8 ||| low.toNat, hbound⟩, rest, by
          simp only [DerHeader.bytes, DerForm.lengthOctets, h82, hhigh, hlow]
          rfl⟩

/-- Both read the length field in the same way. -/
theorem derTotal_of_derHeader {header : Nat × Nat} (hlong : 2 ≤ blob.length)
    (h : derHeader blob = some header) :
    ∃ total, derTotal blob 0 = .ok total := by
  match blob, hlong, h with
  | tag :: first :: rest, _, h =>
      simp only [derHeader, List.getD_cons_succ, List.getD_cons_zero] at h
      change ∃ total,
        (if first < 0x80 then _ else if first = 0x81 then _ else if first = 0x82 then _ else _) =
        Except.ok total
      split_ifs at h with hshort h81 h82
      · rw [if_pos hshort]
        exact ⟨_, rfl⟩
      · rw [if_neg hshort, if_pos h81.1]
        cases rest with
        | nil => exact absurd h81.2 (by decide : ¬ 3 ≤ 2)
        | cons length rest => exact ⟨_, rfl⟩
      · have hne : first ≠ 0x81 := by rw [h82.1]; decide
        rw [if_neg hshort, if_neg hne, if_pos h82.1]
        match rest, h82.2 with
        | [], hroom => exact absurd hroom (by decide : ¬ 4 ≤ 2)
        | [_], hroom => exact absurd hroom (by decide : ¬ 4 ≤ 3)
        | high :: low :: rest, _ => exact ⟨_, rfl⟩

theorem startsDer_of_parseFirstDer {n : Nat} (h : parseFirstDer blob = some n) :
    StartsDer blob := by
  rw [parseFirstDer] at h
  split_ifs at h with hno
  rw [not_or, not_not, Nat.not_lt] at hno
  cases hheader : derHeader blob with
  | none => rw [hheader] at h; cases h
  | some header =>
      obtain ⟨total, htotal⟩ := derTotal_of_derHeader hno.1 hheader
      exact startsDer_of_derTotal hno.2 htotal

theorem startsDer_of_splitDerCerts {certs : List Bytes} (hne : blob ≠ [])
    (h : splitDerCerts blob = .ok certs) :
    StartsDer blob := by
  rw [splitDerCerts, splitDerCertsFrom, if_pos (List.length_pos_of_ne_nil hne)] at h
  by_cases htag : blob.getD 0 0 = 0x30
  · rw [if_neg (not_not.mpr htag)] at h
    cases htotal : derTotal blob 0 with
    | error e => rw [htotal] at h; cases h
    | ok total => exact startsDer_of_derTotal htag htotal
  · rw [if_pos htag] at h
    cases h

/-- The slice of a certificate that is cut short is the rest of the bytes, and the loop ends. -/
theorem splitDerCerts_truncated (h : DerHeader) {rest : Bytes} (hshort : rest.length < h.length) :
    splitDerCerts (h.bytes ++ rest) = .ok [h.bytes ++ rest] := by
  have hlength : (h.bytes ++ rest).length < 0 + h.total := by
    rw [List.length_append, DerHeader.total]
    omega
  have htag : (h.bytes ++ rest).getD 0 0 = 0x30 := rfl
  have hslice : slice (h.bytes ++ rest) 0 (0 + h.total) = h.bytes ++ rest := by
    rw [slice, List.drop_zero, List.take_of_length_le (by omega)]
  have hend : splitDerCertsFrom (h.bytes ++ rest) (0 + h.total) = .ok [] := by
    rw [splitDerCertsFrom, if_neg (by omega)]
  have hpos : 0 < (h.bytes ++ rest).length := Nat.zero_lt_succ _
  have htotal : derTotal (h.bytes ++ rest) 0 = _ := derTotal_header [] h rest
  rw [splitDerCerts, splitDerCertsFrom, if_pos hpos, htag, if_neg (by decide), htotal]
  simp only [hend, hslice]

end Prefix

theorem exists_derCerts {elements : List Bytes} (h : ∀ element ∈ elements, Complete element) :
    ∃ certs : List DerCert, elements = certs.map DerCert.bytes := by
  induction elements with
  | nil => exact ⟨[], rfl⟩
  | cons element elements ih =>
      obtain ⟨c, rfl⟩ := h element List.mem_cons_self
      obtain ⟨certs, rfl⟩ := ih fun e he => h e (List.mem_cons_of_mem _ he)
      exact ⟨c :: certs, rfl⟩

theorem agree_certs (certs : List DerCert) : Agree (certs.flatMap DerCert.bytes) := by
  have hsplit := splitDerCerts_bytes certs
  constructor
  · intro n
    cases certs with
    | nil =>
        constructor
        · intro h
          cases h
        · rintro ⟨certs', element, hcerts, hhead, -⟩
          rw [hsplit] at hcerts
          cases hcerts
          cases hhead
    | cons c certs =>
        have hparse : parseFirstDer ((c :: certs).flatMap DerCert.bytes) = some c.bytes.length := by
          have hfits : c.header.length ≤ (c.content ++ certs.flatMap DerCert.bytes).length := by
            rw [List.length_append]
            exact Nat.le_add_right _ _
          rw [List.flatMap_cons, c.bytes_eq, List.append_assoc, parseFirstDer_header, if_pos hfits,
            List.length_append]
          rfl
        rw [hparse, hsplit]
        constructor
        · intro h
          exact ⟨_, _, rfl, rfl, ⟨c, rfl⟩, Option.some.inj h⟩
        · rintro ⟨certs', element, hcerts, hhead, -, rfl⟩
          cases hcerts
          cases hhead
          rfl
  · intro certs' hcerts
    rw [hsplit] at hcerts
    cases hcerts
    refine ⟨fun element he => ?_, (List.flatMap_def ..).symm⟩
    obtain ⟨c, -, rfl⟩ := List.mem_map.mp he
    exact ⟨c, rfl⟩

/-- The two agree on the concatenations of whole certificates, and where not even the first
header can be read. -/
theorem agree_iff (blob : Bytes) : Agree blob ↔
    (∃ certs : List DerCert, blob = certs.flatMap DerCert.bytes) ∨ ¬ StartsDer blob := by
  constructor
  · intro hagree
    by_cases hstart : StartsDer blob
    · obtain ⟨h, rest, rfl⟩ := hstart
      have hsplit : ∃ elements, splitDerCerts (h.bytes ++ rest) = .ok elements := by
        by_cases hfits : h.length ≤ rest.length
        · have hparse := parseFirstDer_header h rest
          rw [if_pos hfits] at hparse
          obtain ⟨elements, -, hok, -⟩ := (hagree.first h.total).mp hparse
          exact ⟨elements, hok⟩
        · exact ⟨_, splitDerCerts_truncated h (Nat.not_le.mp hfits)⟩
      obtain ⟨elements, hok⟩ := hsplit
      obtain ⟨hcomplete, hflat⟩ := hagree.whole elements hok
      obtain ⟨certs, rfl⟩ := exists_derCerts hcomplete
      exact .inl ⟨certs, by rw [← hflat, List.flatMap_def]⟩
    · exact .inr hstart
  · rintro (⟨certs, rfl⟩ | hstart)
    · exact agree_certs certs
    · by_cases hne : blob = []
      · subst hne
        exact agree_certs []
      · constructor
        · intro n
          constructor
          · intro h
            exact absurd (startsDer_of_parseFirstDer h) hstart
          · rintro ⟨certs, element, hok, -⟩
            exact absurd (startsDer_of_splitDerCerts hne hok) hstart
        · intro certs hok
          exact absurd (startsDer_of_splitDerCerts hne hok) hstart

/-- A certificate of five content bytes of which two are there. -/
def truncatedDer : Bytes := [0x30, 0x05, 0x01, 0x02]

/-- The firmware rejects it; the host tool returns it as a certificate. -/
theorem truncatedDer_disagrees : ¬ ∀ blob, Agree blob := by
  intro h
  have hsplit : splitDerCerts truncatedDer = .ok [truncatedDer] :=
    splitDerCerts_truncated ⟨.short, 5, by decide⟩ (by decide : [0x01, 0x02].length < 5)
  obtain ⟨c, hc⟩ := ((h truncatedDer).whole _ hsplit).1 truncatedDer (List.mem_singleton_self _)
  have hparse := parseFirstDer_header c.header c.content
  have hfits : c.header.length ≤ c.content.length := Nat.le_refl _
  rw [← c.bytes_eq, hc, if_pos hfits] at hparse
  cases hparse

end LinkedsemiZephyr.Firmware
