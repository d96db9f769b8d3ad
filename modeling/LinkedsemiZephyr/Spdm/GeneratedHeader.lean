import LinkedsemiZephyr.Lib.Regex
import LinkedsemiZephyr.Lib.TextLines
import LinkedsemiZephyr.Lib.Tiling

/-! The header that `gen_certs.py` writes for the firmware, and `_chain_from_generated_header`,
which takes the certificate chain out of it again. -/
namespace LinkedsemiZephyr.Spdm.GeneratedHeader
open Octets Tiling Regex TextLines

/-- `str.decode` of a byte that is not ASCII, with its position. -/
structure UnicodeDecodeError where
  position : Nat
  deriving DecidableEq

def decodeAscii (data : Bytes) : Except UnicodeDecodeError Text :=
  match data.findIdx? (0x80 ≤ ·) with
  | some position => .error ⟨position⟩
  | none => .ok (data.map fun b => Char.ofNat b.toNat)

def hexDigit (n : Nat) : Char := "0123456789abcdef".toList.getD n '0'

/-- `f"0x{b:02x}"`. -/
def part (b : UInt8) : Text := ['0', 'x', hexDigit (b.toNat / 16), hexDigit (b.toNat % 16)]

/-- `range(0, n, 12)`, with the twelve parts that a line takes. -/
def rows (n : Nat) : List Piece := (List.range ((n + 11) / 12)).map fun i => (12 * i, 12)

def arrayLine (parts : List Text) : Text :=
  "    ".toList ++ (", ".toList.intercalate parts ++ ",".toList)

def arrayBody (data : Bytes) : Text :=
  let parts := data.map part
  "\n".toList.intercalate ((rows parts.length).map fun p => arrayLine (Piece.of parts p))

def stringLine (line : Text) : Text := "    \"".toList ++ (line ++ "\\n\"".toList)

def opening : Text := "] = \x7b\n".toList
def closing : Text := "\n\x7d;\n".toList

/-- `_c_array`. -/
def cArray (name : Text) (data : Bytes) (asString : Bool) : Except UnicodeDecodeError Text :=
  if asString then do
    let text ← decodeAscii data
    let text := if text.getLast? = some '\n' then text else text ++ "\n".toList
    let lines := (splitlines text).map stringLine
    .ok ("static const char ".toList ++ name ++ "[] =\n".toList ++
      "\n".toList.intercalate lines ++ ";\n".toList)
  else
    .ok ("static const uint8_t ".toList ++ (name ++ ("[".toList ++ (Nat.toDigits 10 data.length ++
      (opening ++ (arrayBody data ++ (closing ++
      ("static const size_t ".toList ++
        (name ++ ("_len = sizeof(".toList ++ (name ++ ");\n".toList)))))))))))

def preamble : Text :=
  "/* Generated by certs/gen_certs.py. Do not edit by hand. */\n".toList ++
    "#ifndef SPDM_CERTS_GENERATED_H\n".toList ++
    "#define SPDM_CERTS_GENERATED_H\n\n".toList ++
    "#include <stddef.h>\n".toList ++
    "#include <stdint.h>\n\n".toList

/-- What `main` writes to `certs_generated.h`. -/
def headerText (chain deviceKeyPem : Bytes) : Except UnicodeDecodeError Text := do
  let chainArray ← cArray "g_spdm_cert_chain".toList chain false
  let keyArray ← cArray "g_spdm_device_key_pem".toList deviceKeyPem true
  .ok (preamble ++
    (chainArray ++ ("\n".toList ++ (keyArray ++ "\n#endif /* SPDM_CERTS_GENERATED_H */\n".toList))))

/-- `\d` and `\s`, which depend on the version of Unicode beyond ASCII. -/
structure CharClasses where
  digit : Char → Bool
  space : Char → Bool
  digit_ascii : ∀ c, c.toNat < 0x80 → digit c = c.isDigit
  space_ascii : ∀ c, c.toNat < 0x80 →
    space c = decide (c ∈ "\t\n\x0b\x0c\r\x1c\x1d\x1e\x1f ".toList)

/-- `g_spdm_cert_chain\[\d+\]\s*=\s*\{([^}]+)\}`. -/
def chainPattern (U : CharClasses) : Pattern Char :=
  .seq (.lit "g_spdm_cert_chain".toList) <| .seq (.lit "[".toList) <| .seq (.plus U.digit) <|
    .seq (.lit "]".toList) <|
    .seq (.star U.space) <| .seq (.lit "=".toList) <| .seq (.star U.space) <|
      .seq (.lit "\x7b".toList) <|
    .seq (.group (.plus (· ≠ '\x7d'))) (.lit "\x7d".toList)

def isHex (c : Char) : Bool := c.isDigit || 'a' ≤ c && c ≤ 'f' || 'A' ≤ c && c ≤ 'F'

/-- `0x([0-9a-fA-F]{2})`. -/
def hexPattern : Pattern Char := .seq (.lit "0x".toList) (.group (.seq (.cls isHex) (.cls isHex)))

def hexValue (c : Char) : Nat :=
  if c.isDigit then c.toNat - '0'.toNat
  else if 'a' ≤ c then c.toNat - 'a'.toNat + 10
  else c.toNat - 'A'.toNat + 10

/-- `int(h, 16)` of digits that the pattern has let through. -/
def int16 (h : Text) : Nat := h.foldl (fun n c => 16 * n + hexValue c) 0

/-- `_chain_from_generated_header`, of the file if there is one. -/
def chainFromGeneratedHeader (U : CharClasses) (header : Option Text) : Option Bytes := do
  let stored ← header
  let text := universalNewlines stored
  let m ← (chainPattern U).search text
  let hexes := (hexPattern.findall (m.1.headD [])).map (·.headD [])
  if hexes = [] then none
  else some (hexes.map fun h => UInt8.ofNat (int16 h))

section Hex

theorem hexDigit_spec (n : Fin 16) : isHex (hexDigit n) = true ∧ hexValue (hexDigit n) = n := by
  revert n
  decide +kernel

/-- The two digits of a byte. -/
def digits (b : UInt8) : Text := [hexDigit (b.toNat / 16), hexDigit (b.toNat % 16)]

theorem part_eq (b : UInt8) : part b = "0x".toList ++ digits b := by
  rfl

theorem digits_spec (b : UInt8) :
    (∀ c ∈ digits b, isHex c = true) ∧ int16 (digits b) = b.toNat := by
  obtain ⟨hhigh, hhighValue⟩ := hexDigit_spec ⟨b.toNat / 16, by have := b.toNat_lt; omega⟩
  obtain ⟨hlow, hlowValue⟩ := hexDigit_spec ⟨b.toNat % 16, Nat.mod_lt _ (by decide)⟩
  constructor
  · exact List.forall_mem_cons.mpr ⟨hhigh, List.forall_mem_singleton.mpr hlow⟩
  · change 16 * (16 * 0 + hexValue (hexDigit (b.toNat / 16))) +
      hexValue (hexDigit (b.toNat % 16)) = b.toNat
    rw [hhighValue, hlowValue]
    change 16 * (16 * 0 + b.toNat / 16) + b.toNat % 16 = b.toNat
    omega

end Hex

section Body
variable {data : Bytes}

/-- The second pattern finds a part where it begins. -/
theorem yields_part (b : UInt8) : hexPattern.Yields (part b) [[digits b]] := by
  have hne : part b ≠ [] := List.cons_ne_nil _ _
  apply Pattern.Yields.single hne
  intro s
  have hhex := (digits_spec b).1
  have hdigits : (Pattern.seq (.cls isHex) (.cls isHex)).first (digits b ++ s) = some ([], s) :=
    Pattern.first_seq (Pattern.first_cls (hhex _ List.mem_cons_self))
      (Pattern.first_cls (hhex _ (List.mem_cons_of_mem _ List.mem_cons_self)))
  rw [part_eq, List.append_assoc]
  exact Pattern.first_seq (Pattern.first_lit _ _) (Pattern.first_group hdigits)

/-- Nothing is found in the text between the parts. -/
theorem yields_between {w : Text} (h : '0' ∉ w) : hexPattern.Yields w [] := by
  apply Pattern.Yields.skip
  intro c hc s
  apply Pattern.first_lit_none
  intro hpre
  rw [← (List.cons_prefix_cons.mp hpre).1] at hc
  exact h hc

theorem yields_line (row : Bytes) :
    hexPattern.Yields (arrayLine (row.map part)) (row.map fun b => [digits b]) := by
  have hparts : hexPattern.Yields (", ".toList.intercalate (row.map part))
      (row.flatMap fun b => [[digits b]]) :=
    intercalate_induction .nil .append (yields_between (by decide)) (fun b _ => yields_part b)
  have hindent : hexPattern.Yields "    ".toList [] := yields_between (by decide)
  have hcomma : hexPattern.Yields ",".toList [] := yields_between (by decide)
  have hline := hindent.append (hparts.append hcomma)
  rw [List.nil_append, List.append_nil, ← List.map_eq_flatMap] at hline
  exact hline

theorem tiles_rows (n : Nat) : Tiles 0 (rows n) (12 * ((n + 11) / 12)) := by
  rw [rows]
  generalize (n + 11) / 12 = k
  induction k with
  | zero => rfl
  | succ k ih =>
      rw [List.range_succ, List.map_append, List.map_singleton]
      exact ih.concat 12

/-- The rows take all the bytes. -/
theorem rows_flatMap (data : Bytes) : (rows data.length).flatMap (Piece.of data) = data := by
  rw [(tiles_rows data.length).flatMap_of data, slice, List.drop_zero]
  exact List.take_of_length_le (by omega)

theorem piece_map (p : Piece) : Piece.of (data.map part) p = (Piece.of data p).map part := by
  rw [Piece.of, Piece.of, slice, slice, ← List.map_drop, ← List.map_take]

theorem arrayBody_eq (data : Bytes) : arrayBody data =
    "\n".toList.intercalate
      ((rows data.length).map fun p => arrayLine ((Piece.of data p).map part)) := by
  rw [arrayBody, List.length_map]
  simp only [piece_map]

/-- All the parts are found, in their order. -/
theorem yields_body (data : Bytes) :
    hexPattern.Yields (arrayBody data) (data.map fun b => [digits b]) := by
  have hbody : hexPattern.Yields (arrayBody data)
      ((rows data.length).flatMap fun p => (Piece.of data p).map fun b => [digits b]) := by
    rw [arrayBody_eq]
    exact intercalate_induction .nil .append (yields_between (by decide))
      (fun p _ => yields_line (Piece.of data p))
  rw [← List.map_flatMap, rows_flatMap] at hbody
  exact hbody

/-- What the body of the array is made of. -/
def bodyChar (c : Char) : Bool := "0123456789abcdefx, \n".toList.contains c

theorem bodyChar_part (b : UInt8) : ∀ c ∈ part b, bodyChar c = true := by
  have hdigit : ∀ n : Fin 16, bodyChar (hexDigit n) = true := by decide +kernel
  have hhigh := hdigit ⟨b.toNat / 16, by have := b.toNat_lt; omega⟩
  have hlow := hdigit ⟨b.toNat % 16, Nat.mod_lt _ (by decide)⟩
  have hdigits : ∀ c ∈ digits b, bodyChar c = true :=
    List.forall_mem_cons.mpr ⟨hhigh, List.forall_mem_singleton.mpr hlow⟩
  rw [part_eq]
  exact List.forall_mem_append.mpr ⟨List.all_eq_true.mp (by decide), hdigits⟩

theorem bodyChar_arrayLine (row : Bytes) : ∀ c ∈ arrayLine (row.map part), bodyChar c = true := by
  have hparts : ∀ c ∈ ", ".toList.intercalate (row.map part), bodyChar c = true :=
    forall_mem_intercalate (List.all_eq_true.mp (by decide)) fun b _ => bodyChar_part b
  have hindent : ∀ c ∈ "    ".toList, bodyChar c = true := List.all_eq_true.mp (by decide)
  have hcomma : ∀ c ∈ ",".toList, bodyChar c = true := List.all_eq_true.mp (by decide)
  exact List.forall_mem_append.mpr ⟨hindent, List.forall_mem_append.mpr ⟨hparts, hcomma⟩⟩

theorem bodyChar_arrayBody (data : Bytes) : ∀ c ∈ arrayBody data, bodyChar c = true := by
  rw [arrayBody_eq]
  exact forall_mem_intercalate (List.all_eq_true.mp (by decide)) fun p _ =>
    bodyChar_arrayLine (Piece.of data p)

/-- Group 1 of the first pattern. -/
def groupText (data : Bytes) : Text := "\n".toList ++ (arrayBody data ++ "\n".toList)

theorem bodyChar_groupText (data : Bytes) : ∀ c ∈ groupText data, bodyChar c = true := by
  have hend : ∀ c ∈ "\n".toList, bodyChar c = true := List.all_eq_true.mp (by decide)
  exact List.forall_mem_append.mpr
    ⟨hend, List.forall_mem_append.mpr ⟨bodyChar_arrayBody data, hend⟩⟩

theorem yields_groupText (data : Bytes) :
    hexPattern.Yields (groupText data) (data.map fun b => [digits b]) := by
  have hend : hexPattern.Yields "\n".toList [] := yields_between (by decide)
  have hgroup := hend.append ((yields_body data).append hend)
  rw [List.nil_append, List.append_nil] at hgroup
  exact hgroup

end Body

section Header
variable (U : CharClasses)

theorem digit_of_isDigit {c : Char} (h : c.isDigit = true) : U.digit c = true := by
  have hascii : c.toNat < 0x80 := by
    have hle : c.val ≤ '9'.val := (Bool.and_eq_true_iff.mp h).2 |> of_decide_eq_true
    exact Nat.lt_of_le_of_lt hle (by decide)
  rw [U.digit_ascii c hascii, h]

/-- The array from its name on. -/
def declaration (data : Bytes) (rest : Text) : Text :=
  "g_spdm_cert_chain".toList ++
    ("[".toList ++ (Nat.toDigits 10 data.length ++ ("]".toList ++ (" ".toList ++
    ("=".toList ++
      (" ".toList ++ ("\x7b".toList ++ (groupText data ++ ("\x7d".toList ++ rest)))))))))

/-- At the name of the array the first pattern takes what stands between the braces. -/
theorem first_chainPattern (data : Bytes) (rest : Text) :
    (chainPattern U).first (declaration data rest) = some ([groupText data], rest) := by
  have hdigit : ∀ c ∈ Nat.toDigits 10 data.length, U.digit c = true := fun c hc =>
    digit_of_isDigit U (Nat.isDigit_of_mem_toDigits (by decide) (by decide) hc)
  have hspace : ∀ c ∈ " ".toList, U.space c = true := by
    intro c hc
    have hblank : c = ' ' := List.mem_singleton.mp hc
    rw [hblank, U.space_ascii ' ' (by decide)]
    decide
  have hbracket : U.digit ']' = false := (U.digit_ascii ']' (by decide)).trans (by decide)
  have hequal : U.space '=' = false := (U.space_ascii '=' (by decide)).trans (by decide)
  have hcurly : U.space '\x7b' = false := (U.space_ascii '\x7b' (by decide)).trans (by decide)
  have hbrace : ∀ c ∈ groupText data, decide (c ≠ '\x7d') = true := by
    intro c hc
    have hbody := bodyChar_groupText data c hc
    apply decide_eq_true
    rintro rfl
    exact absurd hbody (by decide)
  have hgroup := Pattern.first_group
    (Pattern.first_plus (t := "\x7d".toList ++ rest) (List.cons_ne_nil _ _) hbrace
      (Pattern.stops rfl rest))
  have hopen := Pattern.first_seq (Pattern.first_lit "\x7b".toList _)
    (Pattern.first_seq hgroup (Pattern.first_lit "\x7d".toList rest))
  have hequals := Pattern.first_seq (Pattern.first_lit "=".toList _)
    (Pattern.first_seq (Pattern.first_star hspace (Pattern.stops hcurly _)) hopen)
  have hclose := Pattern.first_seq (Pattern.first_lit "]".toList _)
    (Pattern.first_seq (Pattern.first_star hspace (Pattern.stops hequal _)) hequals)
  have hlength := Pattern.first_seq
    (Pattern.first_plus Nat.toDigits_ne_nil hdigit (Pattern.stops hbracket _)) hclose
  have hbegin := Pattern.first_seq (Pattern.first_lit "[".toList _) hlength
  exact Pattern.first_seq (Pattern.first_lit "g_spdm_cert_chain".toList _) hbegin

variable {chain deviceKeyPem : Bytes} {text : Text}

/-- What stands in front of the name. -/
def beforeName : Text := preamble ++ "static const uint8_t ".toList

/-- The search comes to the array, whatever follows it. -/
theorem search_chainPattern (data : Bytes) (rest : Text) :
    (chainPattern U).search (beforeName ++ declaration data rest) =
      some ([groupText data], rest) := by
  have hpre : ∀ t ∈ beforeName.tails, t ≠ [] →
      ¬ "g_spdm_cert_chain".toList <+: t ++ "g_spdm_cert_chain".toList := by decide +kernel
  have hname : "g_spdm_cert_chain".toList <+: declaration data rest := List.prefix_append _ _
  rw [chainPattern, Pattern.search_lit_append hpre hname]
  exact Pattern.search_first (first_chainPattern U data rest)

theorem opening_eq : opening =
    "]".toList ++
      (" ".toList ++ ("=".toList ++ (" ".toList ++ ("\x7b".toList ++ "\n".toList)))) := by
  decide

theorem closing_eq : closing = "\n".toList ++ ("\x7d".toList ++ ";\n".toList) := by decide

theorem cArray_chain (chain : Bytes) : ∃ rest, cArray "g_spdm_cert_chain".toList chain false =
    .ok ("static const uint8_t ".toList ++ declaration chain rest) ∧ cr ∉ rest := by
  refine ⟨";\n".toList ++
    ("static const size_t ".toList ++ ("g_spdm_cert_chain".toList ++ ("_len = sizeof(".toList ++
    ("g_spdm_cert_chain".toList ++ ");\n".toList)))), ?_, by decide⟩
  rw [cArray, if_neg Bool.false_ne_true, opening_eq, closing_eq]
  -- by `delta`, since an equation of `declaration` would evaluate its literals
  delta declaration groupText
  simp only [List.append_assoc]

theorem declaration_append (data : Bytes) (rest more : Text) :
    declaration data (rest ++ more) = declaration data rest ++ more := by
  delta declaration
  simp only [List.append_assoc]

theorem cr_not_mem_declaration (data : Bytes) {rest : Text} (h : cr ∉ rest) :
    cr ∉ declaration data rest := by
  have hlength : cr ∉ Nat.toDigits 10 data.length := by
    intro hmem
    exact absurd (Nat.isDigit_of_mem_toDigits (by decide) (by decide) hmem) (by decide)
  have hgroup : cr ∉ groupText data := by
    intro hmem
    exact absurd (bodyChar_groupText data cr hmem) (by decide)
  delta declaration
  simp only [List.mem_append, not_or]
  exact ⟨by decide, by decide, hlength, by decide, by decide, by decide, by decide, by decide,
    hgroup, by decide, h⟩

/-- The lines of the key are what `splitlines` leaves of them. -/
theorem cr_not_mem_key {name : Text} {data : Bytes} (h : cArray name data true = .ok text)
    (hname : cr ∉ name) :
    cr ∉ text := by
  rw [cArray, if_pos rfl] at h
  cases hdecode : decodeAscii data with
  | error e =>
      rw [hdecode] at h
      cases h
  | ok decoded =>
      rw [hdecode] at h
      cases h
      have hlines : ∀ s : Text, cr ∉ "\n".toList.intercalate ((splitlines s).map stringLine) := by
        intro s
        apply not_mem_intercalate (by decide)
        intro line hline
        have hcr : cr ∉ line := splitlinesFrom_no_cr List.not_mem_nil line hline
        delta stringLine
        simp only [List.mem_append, not_or]
        exact ⟨by decide, hcr, by decide⟩
      simp only [List.mem_append, not_or]
      exact ⟨⟨⟨⟨by decide, hname⟩, by decide⟩, hlines _⟩, by decide⟩

/-- The text of the header, up to the array. -/
theorem headerText_eq (h : headerText chain deviceKeyPem = .ok text) :
    cr ∉ text ∧ ∃ rest, text = beforeName ++ declaration chain rest := by
  obtain ⟨rest, hchain, hrest⟩ := cArray_chain chain
  rw [headerText, hchain] at h
  cases hkey : cArray "g_spdm_device_key_pem".toList deviceKeyPem true with
  | error e =>
      rw [hkey] at h
      cases h
  | ok keyArray =>
      rw [hkey] at h
      have hkeyCr := cr_not_mem_key hkey (by decide)
      have hdeclarationCr := cr_not_mem_declaration chain hrest
      have htext := Except.ok.inj h
      rw [← htext]
      constructor
      · simp only [List.mem_append, not_or]
        exact ⟨by decide +kernel, ⟨by decide, hdeclarationCr⟩, by decide, hkeyCr, by decide⟩
      · refine ⟨rest ++
          ("\n".toList ++ (keyArray ++ "\n#endif /* SPDM_CERTS_GENERATED_H */\n".toList)), ?_⟩
        delta beforeName
        rw [declaration_append, List.append_assoc, List.append_assoc]

/-- What the header was written from comes back. -/
theorem chain_of_headerText (linesep : Linesep) (hne : chain ≠ [])
    (h : headerText chain deviceKeyPem = .ok text) :
    chainFromGeneratedHeader U (some (written linesep text)) = some chain := by
  obtain ⟨hcr, rest, htext⟩ := headerText_eq h
  have hsearch : (chainPattern U).search text = some ([groupText chain], rest) := by
    rw [htext]
    exact search_chainPattern U chain rest
  have hfind : (hexPattern.findall (groupText chain)).map (·.headD []) = chain.map digits := by
    rw [(yields_groupText chain).findall_eq, List.map_map]
    rfl
  have hbytes : (chain.map digits).map (fun h => UInt8.ofNat (int16 h)) = chain := by
    have hbyte : ∀ b : UInt8, UInt8.ofNat (int16 (digits b)) = b := by
      intro b
      rw [(digits_spec b).2, UInt8.ofNat_toNat]
    rw [List.map_map]
    exact List.map_id'' hbyte chain
  rw [chainFromGeneratedHeader, Option.bind_eq_bind, Option.bind_some,
    universalNewlines_written linesep hcr]
  simp only [hsearch, Option.bind_eq_bind, Option.bind_some, List.headD_cons, hfind]
  rw [if_neg (fun hnil => hne (List.map_eq_nil_iff.mp hnil)), hbytes]

end Header

/-- The classes without Unicode. -/
def asciiClasses : CharClasses where
  digit := Char.isDigit
  space := fun c => decide (c ∈ "\t\n\x0b\x0c\r\x1c\x1d\x1e\x1f ".toList)
  digit_ascii := fun _ _ => rfl
  space_ascii := fun _ _ => rfl

/-- Thirteen bytes, which take two lines. -/
def shortChain : Bytes := [0x0d, 0, 0, 0, 0xde, 0xad, 0xbe, 0xef, 1, 2, 3, 4, 0x7d]

theorem chain_of_shortHeader : ∃ text, headerText shortChain [0x41, 0x0d, 0x0a, 0x42] = .ok text ∧
    chainFromGeneratedHeader asciiClasses (some (written ⟨['\n'], .inl rfl⟩ text)) =
      some shortChain := by
  obtain ⟨text, htext⟩ : ∃ text, headerText shortChain [0x41, 0x0d, 0x0a, 0x42] = .ok text :=
    ⟨_, rfl⟩
  exact ⟨text, htext, chain_of_headerText asciiClasses ⟨['\n'], .inl rfl⟩ (by decide) htext⟩

end LinkedsemiZephyr.Spdm.GeneratedHeader
