import LinkedsemiZephyr.Http.Base64

/-! The credential check of `handle_client`. The three buffers are on the stack, and what an
earlier call left in them stands behind what this one writes. -/
namespace LinkedsemiZephyr.Http
open CString

def bufferSize : Nat := 4096

/-- The size of `b64` and `creds`. -/
def wordSize : Nat := 256

def authHeader : List UInt8 := literal "Authorization: Basic "
def config : List UInt8 := literal "root:zephyr0penBmc"
def updateService : List UInt8 := literal "POST /redfish/v1/UpdateService/"

/-- What the first `wolfSSL_read` stored, nothing when it failed. -/
abbrev Received := { r : List UInt8 // r.length ≤ bufferSize - 1 }

structure Leftovers where
  buffer : List UInt8
  b64 : List UInt8
  creds : List UInt8
  length_buffer : buffer.length = bufferSize
  length_b64 : b64.length = wordSize
  length_creds : creds.length = wordSize

/-- `sscanf(auth, "Authorization: Basic %s", b64)`; without a word `b64` stays as it was. -/
def sscanf (auth b64 : List UInt8) : Option (List UInt8) := do
  let w ← scanWord (auth.drop authHeader.length)
  if w = [] then pure b64
  else if w.length < b64.length then pure (overwrite (w ++ [0]) b64)
  else none

inductive Decision where
  | badRequest
  | unauthorized
  | authorized
  deriving DecidableEq, Repr

def checkCreds (junk : UInt8) (b64 creds : List UInt8) : Option Decision := do
  let out ← base64Decode junk b64
  if out.length ≤ creds.length then
    let cmp ← strcmp (overwrite out creds) (config ++ [0])
    pure (if cmp ≠ 0 then .unauthorized else .authorized)
  else none

/-- `handle_client` up to its decision; `none` where it reads or writes outside a buffer. -/
def authenticate (junk : UInt8) (r : Received) (m : Leftovers) : Option Decision :=
  match strstr authHeader (overwrite r.1 m.buffer) with
  | .overrun => none
  | .notFound => some .badRequest
  | .found auth => do
    let b64 ← sscanf auth m.b64
    checkCreds junk b64 m.creds

def FindsPost (r : Received) (m : Leftovers) : Prop :=
  ∃ rest, strstr updateService (overwrite r.1 m.buffer) = .found rest

def ReachesPost (junk : UInt8) (r : Received) (m : Leftovers) : Prop :=
  authenticate junk r m = some .authorized ∧ FindsPost r m

/-- The bytes contain a Basic token that is base64 of the configured credentials. -/
def Presents (junk : UInt8) (r : List UInt8) : Prop :=
  ∃ auth w, auth <:+ r ∧ authHeader <+: auth ∧
    scanWord (auth.drop authHeader.length ++ [0]) = some w ∧
    (∀ c ∈ w, c ∈ b64 ∨ c = padding) ∧ decoded junk w = config

/-- The decision is one of the request alone, and a POST is carried out for credentials only. -/
structure Sound (junk : UInt8) (r : Received) : Prop where
  decides : ∀ m, ∃ d, authenticate junk r m = some d
  same : ∀ m m', authenticate junk r m = some .authorized →
    authenticate junk r m' = some .authorized
  authentic : ∀ m, ReachesPost junk r m → Presents junk r.1

/-- What the bytes received have to show by themselves: a NUL before any Basic header, or a
header with a token that ends in them, fits, and differs from the credentials or goes on
behind them and their NUL; then no POST may be found, or the credentials stand elsewhere. -/
def Determined (junk : UInt8) (r : Received) : Prop :=
  match strstr authHeader r.1 with
  | .overrun => False
  | .notFound => True
  | .found auth =>
    match scanWord (auth.drop authHeader.length) with
    | none => False
    | some w => w ≠ [] ∧ w.length < wordSize ∧
      if config ++ [0] <+: decoded junk w then Presents junk r.1 ∨ ∀ m, ¬ FindsPost r m
      else ¬ decoded junk w <+: config ++ [0]

def fill (x : UInt8) : Leftovers where
  buffer := List.replicate bufferSize x
  b64 := List.replicate wordSize x
  creds := List.replicate wordSize x
  length_buffer := List.length_replicate
  length_b64 := List.length_replicate
  length_creds := List.length_replicate

theorem mem_fill {x : UInt8} {n : Nat} {c : UInt8} (h : c ∈ (List.replicate bufferSize x).drop n) :
    c = x :=
  List.eq_of_mem_replicate (List.mem_of_mem_drop h)

section Steps
variable {junk : UInt8} {r : Received} {m : Leftovers} {auth w : List UInt8}

theorem drop_header (h : strstr authHeader r.1 = .found auth) (l : List UInt8) :
    (auth ++ l).drop authHeader.length = auth.drop authHeader.length ++ l :=
  List.drop_append_of_le_length (strstr_found h).1.length_le

theorem authenticate_found (h : strstr authHeader r.1 = .found auth) (m : Leftovers) :
    authenticate junk r m =
      (sscanf (auth ++ m.buffer.drop r.1.length) m.b64).bind fun b64 =>
        checkCreds junk b64 m.creds := by
  rw [authenticate, overwrite, strstr_append_found h]
  rfl

theorem checkCreds_word (junk : UInt8) {b64 creds : List UInt8} (hw : w.length < wordSize)
    (hcreds : creds.length = wordSize) :
    checkCreds junk (overwrite (w ++ [0]) b64) creds =
      some (if config ++ [0] <+: overwrite (decoded junk w) creds then .authorized
        else .unauthorized) := by
  have hfits : (decoded junk w).length ≤ creds.length := by
    have hle := length_decoded_le junk w
    omega
  have hlong : config.length < (overwrite (decoded junk w) creds).length := by
    rw [length_overwrite hfits, hcreds]
    decide
  obtain ⟨d, hd, hiff⟩ := strcmp_literal (by decide : 0 ∉ config) hlong
  have hout : base64Decode junk (overwrite (w ++ [0]) b64) = some (decoded junk w) := by
    rw [overwrite, List.append_assoc]
    exact base64Decode_string junk w _
  simp only [checkCreds, hout, Option.bind_eq_bind, Option.bind_some, if_pos hfits, hd]
  by_cases heq : config ++ [0] <+: overwrite (decoded junk w) creds
  · rw [if_pos heq, if_neg (not_not.mpr (hiff.mpr heq))]
    rfl
  · rw [if_neg heq, if_pos fun hzero => heq (hiff.mp hzero)]
    rfl

theorem authenticate_word (junk : UInt8) (h : strstr authHeader r.1 = .found auth)
    (hscan : scanWord (auth.drop authHeader.length) = some w) (hne : w ≠ [])
    (hw : w.length < wordSize) (m : Leftovers) :
    authenticate junk r m =
      some (if config ++ [0] <+: overwrite (decoded junk w) m.creds then .authorized
        else .unauthorized) := by
  have hscan' := scanWord_append hscan (m.buffer.drop r.1.length)
  rw [authenticate_found h, sscanf, drop_header h, hscan']
  have hfits : w.length < m.b64.length := m.length_b64.symm ▸ hw
  simp only [Option.bind_eq_bind, Option.bind_some, if_neg hne, if_pos hfits]
  exact checkCreds_word junk hw m.length_creds

/-! What a stack of ones brings to light. -/

theorem authenticate_overrun (h : strstr authHeader r.1 = .overrun) :
    authenticate junk r (fill 1) = none := by
  have hrun : strstr authHeader (overwrite r.1 (fill 1).buffer) = .overrun := by
    apply strstr_append_overrun (by decide) h
    intro x hx
    rw [mem_fill hx]
    decide
  rw [authenticate, hrun]

theorem authenticate_unended (h : strstr authHeader r.1 = .found auth)
    (hscan : scanWord (auth.drop authHeader.length) = none) :
    authenticate junk r (fill 1) = none := by
  have hscan' : scanWord (auth.drop authHeader.length ++ (fill 1).buffer.drop r.1.length) =
      none := by
    apply scanWord_append_none hscan
    intro x hx
    rw [mem_fill hx]
    decide
  rw [authenticate_found h, sscanf, drop_header h, hscan']
  rfl

theorem authenticate_noWord (h : strstr authHeader r.1 = .found auth)
    (hscan : scanWord (auth.drop authHeader.length) = some []) :
    authenticate junk r (fill 1) = none := by
  have hrun : base64Decode junk (fill 1).b64 = none := by
    apply base64DecodeFrom_overrun
    intro x hx
    rw [List.eq_of_mem_replicate hx]
    decide
  have hscan' := scanWord_append hscan ((fill 1).buffer.drop r.1.length)
  rw [authenticate_found h, sscanf, drop_header h, hscan']
  simp only [Option.bind_eq_bind, Option.bind_some, if_true, Option.pure_def, checkCreds, hrun,
    Option.bind_none]

theorem authenticate_longWord (h : strstr authHeader r.1 = .found auth)
    (hscan : scanWord (auth.drop authHeader.length) = some w) (hne : w ≠ [])
    (hw : ¬ w.length < wordSize) (m : Leftovers) :
    authenticate junk r m = none := by
  have hscan' := scanWord_append hscan (m.buffer.drop r.1.length)
  rw [authenticate_found h, sscanf, drop_header h, hscan']
  have hlong : ¬ w.length < m.b64.length := m.length_b64.symm ▸ hw
  simp only [Option.bind_eq_bind, Option.bind_some, if_neg hne, if_neg hlong, Option.bind_none]

end Steps

section Credentials
variable {d creds : List UInt8}

theorem config_begins (h : config ++ [0] <+: d) (creds : List UInt8) :
    config ++ [0] <+: overwrite d creds :=
  h.trans (List.prefix_append d _)

/-- Decoded bytes that differ from the credentials differ whatever follows. -/
theorem config_differs (hlong : ¬ config ++ [0] <+: d) (hshort : ¬ d <+: config ++ [0])
    (creds : List UInt8) :
    ¬ config ++ [0] <+: overwrite d creds := by
  intro h
  rcases List.prefix_or_prefix_of_prefix h (List.prefix_append d _) with h | h
  · exact hlong h
  · exact hshort h

/-- Decoded bytes that stop within the credentials leave the rest to the stack. -/
theorem config_completed (h : d <+: config ++ [0]) (rest : List UInt8) :
    config ++ [0] <+: overwrite d (overwrite (config ++ [0]) rest) := by
  obtain ⟨t, ht⟩ := h
  refine ⟨rest.drop (config ++ [0]).length, ?_⟩
  rw [overwrite, overwrite, ← ht, List.append_assoc, List.drop_left]

theorem config_not_completed (h : ¬ config ++ [0] <+: d) :
    ¬ config ++ [0] <+: overwrite d (fill 1).creds := by
  intro hpre
  rcases prefix_append_cases hpre with hpre | ⟨x, xs, hd, hx⟩
  · exact h hpre
  · have hone : x = 1 := List.eq_of_mem_replicate (List.mem_of_mem_drop hx)
    have hmem : x ∈ config ++ [0] := by
      rw [hd]
      exact List.mem_append_right _ List.mem_cons_self
    rw [hone] at hmem
    exact absurd hmem (by decide)

end Credentials

def fillCreds : Leftovers :=
  { fill 1 with
    creds := overwrite (config ++ [0]) (fill 1).creds
    length_creds := by
      rw [length_overwrite (by rw [(fill 1).length_creds]; decide), (fill 1).length_creds] }

/-- With a word that fits everything hangs on how it compares with the credentials. -/
theorem sound_word_iff {junk : UInt8} {r : Received} {auth w : List UInt8}
    (h : strstr authHeader r.1 = .found auth)
    (hscan : scanWord (auth.drop authHeader.length) = some w) (hne : w ≠ [])
    (hw : w.length < wordSize) :
    Sound junk r ↔
      if config ++ [0] <+: decoded junk w then Presents junk r.1 ∨ ∀ m, ¬ FindsPost r m
      else ¬ decoded junk w <+: config ++ [0] := by
  have hauth := authenticate_word junk h hscan hne hw
  by_cases hlong : config ++ [0] <+: decoded junk w
  · rw [if_pos hlong]
    have hyes : ∀ m, authenticate junk r m = some .authorized := by
      intro m
      rw [hauth, if_pos (config_begins hlong m.creds)]
    constructor
    · intro hsound
      by_cases hpost : ∃ m, FindsPost r m
      · obtain ⟨m, hm⟩ := hpost
        exact .inl (hsound.authentic m ⟨hyes m, hm⟩)
      · exact .inr (not_exists.mp hpost)
    · intro hcond
      exact ⟨fun m => ⟨_, hyes m⟩, fun _ m' _ => hyes m',
        fun m hm => hcond.resolve_right fun hnone => hnone m hm.2⟩
  · rw [if_neg hlong]
    constructor
    · intro hsound hshort
      have hyes : authenticate junk r fillCreds = some .authorized := by
        rw [hauth]
        exact congrArg some (if_pos (config_completed hshort (fill 1).creds))
      have hno := hsound.same fillCreds (fill 1) hyes
      rw [hauth, if_neg (config_not_completed hlong)] at hno
      cases hno
    · intro hshort
      have hno : ∀ m, authenticate junk r m = some .unauthorized := by
        intro m
        rw [hauth, if_neg (config_differs hlong hshort m.creds)]
      refine ⟨fun m => ⟨_, hno m⟩, fun m _ hm => ?_, fun m hm => ?_⟩
      · rw [hno m] at hm
        cases hm
      · rw [ReachesPost, hno m] at hm
        cases hm.1

/-- A request that runs past a buffer somewhere has no outcome of its own. -/
theorem not_sound_of_none {junk : UInt8} {r : Received} {m : Leftovers}
    (h : authenticate junk r m = none) :
    ¬ Sound junk r := by
  intro hsound
  obtain ⟨d, hd⟩ := hsound.decides m
  rw [h] at hd
  cases hd

/-- The requests whose outcome is their own. -/
theorem sound_iff_determined (junk : UInt8) (r : Received) : Sound junk r ↔ Determined junk r := by
  rw [Determined]
  cases hs : strstr authHeader r.1 with
  | overrun => exact iff_of_false (not_sound_of_none (authenticate_overrun hs)) id
  | notFound =>
      have hbad : ∀ m, authenticate junk r m = some .badRequest := by
        intro m
        rw [authenticate, overwrite, strstr_append_notFound (by decide) hs]
      refine iff_of_true ⟨fun m => ⟨_, hbad m⟩, fun m _ hm => ?_, fun m hm => ?_⟩ trivial
      · rw [hbad m] at hm
        cases hm
      · rw [ReachesPost, hbad m] at hm
        cases hm.1
  | found auth =>
      simp only
      cases hscan : scanWord (auth.drop authHeader.length) with
      | none => exact iff_of_false (not_sound_of_none (authenticate_unended hs hscan)) id
      | some w =>
          simp only
          by_cases hne : w = []
          · subst hne
            exact iff_of_false (not_sound_of_none (authenticate_noWord hs hscan))
              fun hcond => hcond.1 rfl
          · by_cases hw : w.length < wordSize
            · rw [sound_word_iff hs hscan hne hw]
              constructor
              · intro hcond
                exact ⟨hne, hw, hcond⟩
              · intro hcond
                exact hcond.2.2
            · exact iff_of_false
                (not_sound_of_none (authenticate_longWord hs hscan hne hw (fill 1))) fun hcond =>
                hw hcond.2.1

/-- The request of an earlier client, with the credentials in it. -/
def earlierRequest : List UInt8 :=
  updateService ++ literal " HTTP/1.1\r\n" ++ authHeader ++ literal "cm9vdDp6ZXBoeXIwcGVuQm1j" ++
    literal "\r\n\r\n"

/-- The stack it leaves, where it was clear before. -/
def afterEarlier : Leftovers :=
  { fill 0 with
    buffer := overwrite earlierRequest (fill 0).buffer
    length_buffer := by
      rw [length_overwrite (by rw [(fill 0).length_buffer]; decide), (fill 0).length_buffer] }

/-- A client that sends nothing is served in the name of the one before. -/
theorem earlier_credentials : ¬ ∀ (junk : UInt8) (r : Received), Sound junk r := by
  intro h
  have hpost : ReachesPost 0 ⟨[], Nat.zero_le _⟩ afterEarlier := by
    have hfound : strstr updateService earlierRequest = .found earlierRequest := by decide +kernel
    exact ⟨by decide +kernel, _,
      strstr_append_found hfound ((fill 0).buffer.drop earlierRequest.length)⟩
  obtain ⟨auth, w, hsuf, hpre, -⟩ := (h 0 ⟨[], Nat.zero_le _⟩).authentic afterEarlier hpost
  rw [List.suffix_nil.mp hsuf, List.prefix_nil] at hpre
  exact absurd hpre (by decide)

end LinkedsemiZephyr.Http
