import LinkedsemiZephyr.Http.Authentication

/-! The POST of `handle_client`: the body is what the first read brought behind the header,
and what the reads after it bring. -/
namespace LinkedsemiZephyr.Http
open CString

def contentLengthHeader : List UInt8 := literal "Content-Length: "
def headerEnd : List UInt8 := literal "\r\n\r\n"

def okResponse : List UInt8 :=
  literal "HTTP/1.1 200 OK\r\n" ++ literal "Content-Type: application/json\r\n" ++
    literal "Content-Length: 17\r\n" ++ literal "\r\n" ++ literal "\x7b\"v1\": \"Redfish\"\x7d"

def unauthorizedResponse : List UInt8 := literal "HTTP/1.1 401 Unauthorized\r\n\r\n"
def badRequestResponse : List UInt8 :=
  literal "HTTP/1.1 400 Bad Request\r\nContent-Length: 11\r\n\r\nBad Request"
def notFoundResponse : List UInt8 :=
  literal "HTTP/1.1 404 Not Found\r\nContent-Length: 9\r\n\r\nNot Found"

def atol (s : List UInt8) : Option Int := strtol s

/-- What is still to come, and how much of it each read returns at most; a read that
returns nothing returns `failure`. -/
structure Connection where
  stream : List UInt8
  split : Nat → Nat
  failure : Int
  failure_nonpos : failure ≤ 0

namespace Connection

/-- The bytes `wolfSSL_read` stores for a size. -/
def taken (c : Connection) (sz : Nat) : List UInt8 := c.stream.take (min sz (c.split 0))

/-- Its result. -/
def bytes (c : Connection) (sz : Nat) : Int :=
  if c.taken sz = [] then c.failure else (c.taken sz).length

def after (c : Connection) (sz : Nat) : Connection :=
  { c with stream := c.stream.drop (min sz (c.split 0)), split := fun k => c.split (k + 1) }

theorem taken_append_after (c : Connection) (sz : Nat) :
    c.taken sz ++ (c.after sz).stream = c.stream :=
  List.take_append_drop _ _

theorem length_after_lt {c : Connection} {sz : Nat} (h : c.taken sz ≠ []) :
    (c.after sz).stream.length < c.stream.length := by
  have hpos : 0 < (c.taken sz).length := List.length_pos_iff.mpr h
  have hlen := congrArg List.length (c.taken_append_after sz)
  rw [List.length_append] at hlen
  omega

end Connection

inductive Event where
  | putchar (c : UInt8)
  | separator
  | creds
  | wrote (response : List UInt8)
  deriving DecidableEq

/-- `authenticate`, on any object `buffer` points to. -/
def authenticateIn (junk : UInt8) (object : List UInt8) (m : Leftovers) : Option Decision :=
  match strstr authHeader object with
  | .overrun => none
  | .notFound => some .badRequest
  | .found auth => do
    let b64 ← sscanf auth m.b64
    checkCreds junk b64 m.creds

theorem authenticate_eq (junk : UInt8) (r : Received) (m : Leftovers) :
    authenticate junk r m = authenticateIn junk (overwrite r.1 m.buffer) m := rfl

def contentLength (object : List UInt8) : Option Int :=
  match strstr contentLengthHeader object with
  | .overrun => none
  | .notFound => some 0
  | .found clHeader => atol (clHeader.drop contentLengthHeader.length)

/-- The `while` loop, with what it prints; the difference is one of `long`. -/
def readBody (c : Connection) (contentLength totalRead : Int) : Option (List UInt8) :=
  if totalRead < contentLength then
    if longMax < contentLength - totalRead then none
    else
      let sz := (min (contentLength - totalRead) bufferSize).toNat
      if c.taken sz = [] then some []
      else (readBody (c.after sz) contentLength (totalRead + (c.taken sz).length)).map
        (c.taken sz ++ ·)
  else some []
termination_by c.stream.length
decreasing_by
  exact Connection.length_after_lt ‹_›

/-- The branch of the POST. -/
def update (object : List UInt8) (bytes : Int) (c : Connection) : Option (List Event) :=
  match contentLength object, strstr headerEnd object with
  | none, _ => none
  | _, .overrun => none
  | some _, .notFound => some [.wrote badRequestResponse]
  | some n, .found rest =>
    let body := rest.drop headerEnd.length
    let totalRead := bytes - (object.length - body.length : Nat)
    -- nothing leaves the branch before `BAD_REQUEST`
    (readBody c n totalRead).map fun more =>
      .separator :: (body.take totalRead.toNat ++ more).map .putchar ++
        [.separator, .wrote okResponse, .wrote badRequestResponse]

/-- `handle_client` behind its first read. -/
def respond (junk : UInt8) (object : List UInt8) (m : Leftovers) (bytes : Int) (c : Connection) :
    Option (List Event) :=
  match authenticateIn junk object m with
  | none => none
  | some .unauthorized => some [.creds, .wrote unauthorizedResponse]
  | some .badRequest => some [.wrote badRequestResponse]
  | some .authorized =>
    match strstr updateService object with
    | .overrun => none
    | .notFound => some [.wrote notFoundResponse]
    | .found _ => update object bytes c

/-- What the first read stored. -/
def Connection.first (c : Connection) : List UInt8 := c.taken (bufferSize - 1)

/-- `handle_client` with the object that `buffer` is after the first read. -/
def handleClientOn (junk : UInt8) (object : List UInt8) (c : Connection) (m : Leftovers) :
    Option (List Event) :=
  (respond junk object m (c.bytes (bufferSize - 1)) (c.after (bufferSize - 1))).map
    (c.first.map .putchar ++ ·)

def handleClient (junk : UInt8) (c : Connection) (m : Leftovers) : Option (List Event) :=
  handleClientOn junk (overwrite c.first m.buffer) c m

/-- What is printed between the first separator line and the next. -/
def between (t : List Event) : List Event :=
  ((t.dropWhile (· ≠ .separator)).drop 1).takeWhile (· ≠ .separator)

def responses (t : List Event) : List (List UInt8) :=
  t.filterMap fun
    | .wrote response => some response
    | _ => none

theorem count_putchar (l : List UInt8) : (l.map Event.putchar).count .separator = 0 := by
  apply List.count_eq_zero_of_not_mem
  intro hmem
  obtain ⟨x, -, hx⟩ := List.mem_map.mp hmem
  cases hx

theorem putchar_ne_separator (l : List UInt8) :
    ∀ e ∈ l.map Event.putchar, decide (e ≠ .separator) = true := by
  intro e he
  obtain ⟨x, -, rfl⟩ := List.mem_map.mp he
  rfl

theorem between_separators (l body : List UInt8) (rest : List Event) :
    between (l.map .putchar ++ (.separator :: body.map .putchar ++ .separator :: rest)) =
      body.map .putchar := by
  rw [between, List.dropWhile_append_of_pos (putchar_ne_separator l)]
  change (body.map Event.putchar ++ .separator :: rest).takeWhile _ = _
  rw [List.takeWhile_append_of_pos (putchar_ne_separator body)]
  exact List.append_nil _

/-- The bytes received decide alone, and the body stands between the separator lines. -/
structure BodyFramed (junk : UInt8) (c : Connection) (m : Leftovers) (body : List UInt8) :
    Prop where
  received : ∃ t, handleClientOn junk c.first c m = some t
  printed : ∃ t, handleClient junk c m = some t ∧ t.count .separator = 2 ∧
    between t = body.map .putchar

/-- One response is written as well. -/
structure Framed (junk : UInt8) (c : Connection) (m : Leftovers) (body : List UInt8) : Prop
    extends BodyFramed junk c m body where
  response : (handleClient junk c m).map responses = some [okResponse]

section Responses
variable {junk : UInt8} {object : List UInt8} {bytes : Int} {c : Connection} {m : Leftovers}
  {t : List Event}

@[simp]
theorem responses_append (t t' : List Event) : responses (t ++ t') = responses t ++ responses t' :=
  List.filterMap_append

@[simp]
theorem responses_putchar (l : List UInt8) : responses (l.map .putchar) = [] := by
  rw [responses, List.filterMap_map, List.filterMap_eq_nil_iff]
  intro x _
  rfl

theorem responses_separated (l : List UInt8) (t : List Event) :
    responses (.separator :: l.map .putchar ++ t) = responses t := by
  rw [← List.singleton_append, responses_append, responses_append, responses_putchar]
  rfl

/-- Whatever the branch of the POST writes, the last response is the 400. -/
theorem update_badRequest (h : update object bytes c = some t) :
    responses t = [badRequestResponse] ∨ responses t = [okResponse, badRequestResponse] := by
  rw [update] at h
  split at h
  · cases h
  · cases h
  · cases h
    exact .inl rfl
  · obtain ⟨more, -, rfl⟩ := Option.map_eq_some_iff.mp h
    exact .inr (responses_separated _ _)

theorem respond_responses (h : respond junk object m bytes c = some t) :
    responses t = [unauthorizedResponse] ∨ responses t = [badRequestResponse] ∨
      responses t = [notFoundResponse] ∨
      responses t = [okResponse, badRequestResponse] := by
  rw [respond] at h
  split at h
  · cases h
  · cases h
    exact .inl rfl
  · cases h
    exact .inr (.inl rfl)
  · split at h
    · cases h
    · cases h
      exact .inr (.inr (.inl rfl))
    · rcases update_badRequest h with hbad | hboth
      · exact .inr (.inl hbad)
      · exact .inr (.inr (.inr hboth))

theorem response_ne_ok :
    unauthorizedResponse ≠ okResponse ∧ badRequestResponse ≠ okResponse ∧
      notFoundResponse ≠ okResponse := by
  decide +kernel

theorem ok_and_badRequest : [okResponse, badRequestResponse] ≠ [okResponse] := by
  intro h
  exact absurd (congrArg List.length h) (by decide : (2 : Nat) ≠ 1)

theorem handleClientOn_responses (h : handleClientOn junk object c m = some t) :
    responses t ≠ [okResponse] := by
  obtain ⟨t', ht', rfl⟩ := Option.map_eq_some_iff.mp h
  rw [responses_append, responses_putchar, List.nil_append]
  rcases respond_responses ht' with hone | hone | hone | hboth
  · rw [hone]
    exact fun hok => response_ne_ok.1 (List.singleton_inj.mp hok)
  · rw [hone]
    exact fun hok => response_ne_ok.2.1 (List.singleton_inj.mp hok)
  · rw [hone]
    exact fun hok => response_ne_ok.2.2 (List.singleton_inj.mp hok)
  · rw [hboth]
    exact ok_and_badRequest

end Responses

/-- A POST that the credentials in it authenticate, with its body. -/
structure PostRequest (junk : UInt8) (m : Leftovers) where
  header : List UInt8
  body : List UInt8
  fits : header.length ≤ bufferSize - 1
  post : updateService <+: header
  authorized : authenticateIn junk header m = some .authorized
  value : List UInt8
  valued : strstr contentLengthHeader header = .found value
  counted : atol (value.drop contentLengthHeader.length) = some (body.length : Int)
  ends : strstr headerEnd header = .found headerEnd

section Searches
variable {junk : UInt8} {r : List UInt8} {m : Leftovers}

/-- What the first bytes decide is not changed by more. -/
theorem authenticateIn_append {d : Decision} (h : authenticateIn junk r m = some d)
    (l : List UInt8) :
    authenticateIn junk (r ++ l) m = some d := by
  rw [authenticateIn] at h ⊢
  cases hs : strstr authHeader r with
  | overrun =>
      rw [hs] at h
      cases h
  | notFound =>
      rw [hs] at h
      rw [strstr_append_notFound (by decide) hs]
      exact h
  | found auth =>
      rw [hs] at h
      rw [strstr_append_found hs]
      obtain ⟨b64, hb64, hd⟩ := Option.bind_eq_some_iff.mp h
      obtain ⟨w, hw, hfit⟩ := Option.bind_eq_some_iff.mp hb64
      have hdrop : (auth ++ l).drop authHeader.length = auth.drop authHeader.length ++ l :=
        List.drop_append_of_le_length (strstr_found hs).1.length_le
      have hscan : sscanf (auth ++ l) m.b64 = some b64 := by
        rw [sscanf, hdrop, scanWord_append hw]
        exact hfit
      simp only [hscan, Option.bind_eq_bind, Option.bind_some]
      exact hd

/-- A search in the first bytes finds what a search in all of them finds, or needs more. -/
theorem strstr_cut {n l t : List UInt8} (hnul : 0 ∉ n) (h : strstr n (r ++ l) = .found t) :
    strstr n r = .overrun ∨ ∃ u, strstr n r = .found u ∧ u ++ l = t := by
  cases hr : strstr n r with
  | overrun => exact .inl rfl
  | notFound =>
      rw [strstr_append_notFound hnul hr] at h
      cases h
  | found u =>
      rw [strstr_append_found hr] at h
      cases h
      exact .inr ⟨u, rfl, rfl⟩

theorem strstr_whole {n s : List UInt8} (hn : n <+: s) (hs : s ≠ []) : strstr n s = .found s := by
  cases s with
  | nil => exact absurd rfl hs
  | cons c cs => exact if_pos hn

end Searches

/-- The reads bring the rest of the body, however it is split. -/
theorem readBody_complete {c : Connection} {n total : Int} (hsplit : ∀ k, 0 < c.split k)
    (htotal : 0 ≤ total) (hn : n ≤ longMax) (hrest : total + c.stream.length = n) :
    readBody c n total = some c.stream := by
  fun_induction readBody c n total with
  | case1 c total hlt hover => omega
  | case2 c total hlt hover sz hnone =>
      have hsz : 0 < sz := by
        dsimp only [sz, bufferSize]
        omega
      have hstream : c.stream = [] := by
        rcases List.take_eq_nil_iff.mp hnone with hzero | hempty
        · have hgranted := Nat.lt_min.mpr ⟨hsz, hsplit 0⟩
          omega
        · exact hempty
      rw [hstream]
  | case3 c total hlt hover sz hsome ih =>
      have hlen := congrArg List.length (c.taken_append_after sz)
      rw [List.length_append] at hlen
      rw [ih (fun k => hsplit (k + 1)) (by omega) (by omega), Option.map_some, c.taken_append_after]
  | case4 c total hdone =>
      have hstream : c.stream = [] := List.length_eq_zero_iff.mp (by omega)
      rw [hstream]

namespace PostRequest

variable {junk : UInt8} {m : Leftovers} (q : PostRequest junk m)

theorem contentLength_append (l : List UInt8) :
    contentLength (q.header ++ l) = some (q.body.length : Int) := by
  have hdrop : (q.value ++ l).drop contentLengthHeader.length =
      q.value.drop contentLengthHeader.length ++ l :=
    List.drop_append_of_le_length (strstr_found q.valued).1.length_le
  rw [contentLength, strstr_append_found q.valued]
  simp only [hdrop]
  exact strtol_append q.counted l

theorem length_body_le : (q.body.length : Int) ≤ longMax := strtol_le q.counted

theorem header_ne_nil : q.header ≠ [] := by
  intro hnil
  have hpost := q.post
  rw [hnil] at hpost
  exact absurd (List.prefix_nil.mp hpost) (by decide)

/-- Behind a whole header the branch of the POST is taken, on any object. -/
theorem respond_append (l : List UInt8) (bytes : Int) (c : Connection) :
    respond junk (q.header ++ l) m bytes c =
      (readBody c q.body.length (bytes - q.header.length)).map fun more =>
        .separator :: (l.take (bytes - q.header.length).toNat ++ more).map .putchar ++
          [.separator, .wrote okResponse, .wrote badRequestResponse] := by
  have hpost : strstr updateService (q.header ++ l) = .found (q.header ++ l) :=
    strstr_append_found (strstr_whole q.post q.header_ne_nil) l
  have hbody : (headerEnd ++ l).drop headerEnd.length = l := List.drop_left
  have hsize : (q.header ++ l).length - l.length = q.header.length := by
    rw [List.length_append, Nat.add_sub_cancel]
  rw [respond, authenticateIn_append q.authorized]
  simp only [hpost]
  rw [update, q.contentLength_append, strstr_append_found q.ends]
  simp only [hbody, hsize]

/-- A part of the header does not show where the header ends. -/
theorem respond_cut {r l : List UInt8} {bytes : Int} {c : Connection} (hl : r ++ l = q.header)
    (hcut : r.length < q.header.length) : respond junk r m bytes c = none := by
  have hends : strstr headerEnd r = .overrun := by
    have hfound : strstr headerEnd (r ++ l) = .found headerEnd := hl ▸ q.ends
    refine (strstr_cut (by decide) hfound).resolve_right ?_
    rintro ⟨u, hu, happend⟩
    have hle := (strstr_found hu).1.length_le
    have hlen := congrArg List.length happend
    have hsize := congrArg List.length hl
    rw [List.length_append] at hlen hsize
    omega
  rw [respond]
  cases hauth : authenticateIn junk r m with
  | none => rfl
  | some d =>
      have hd := authenticateIn_append hauth l
      rw [hl, q.authorized] at hd
      cases hd
      have hfound : strstr updateService (r ++ l) = .found q.header := by
        rw [hl]
        exact strstr_whole q.post q.header_ne_nil
      rcases strstr_cut (by decide) hfound with hpost | ⟨u, hpost, -⟩
      · simp only [hpost]
      · simp only [hpost]
        rw [update, hends]
        cases contentLength r <;> rfl

section Stream
variable {q} {c : Connection} (hstream : c.stream = q.header ++ q.body)
include hstream

theorem first_append_after : c.first ++ (c.after (bufferSize - 1)).stream = q.header ++ q.body :=
  (c.taken_append_after _).trans hstream

/-- A first read that reaches behind the header divides the body. -/
theorem first_eq (hfirst : q.header.length ≤ c.first.length) :
    ∃ front, c.first = q.header ++ front ∧ front ++ (c.after (bufferSize - 1)).stream = q.body := by
  have hall := first_append_after hstream
  have hpre : q.header <+: c.first :=
    List.prefix_of_prefix_length_le (List.prefix_append _ q.body)
      (hall ▸ List.prefix_append _ _) hfirst
  obtain ⟨front, hfront⟩ := hpre
  refine ⟨front, hfront.symm, ?_⟩
  rw [← hfront, List.append_assoc] at hall
  exact List.append_cancel_left hall

/-- With the header in the first read the body comes out, whatever the buffer held. -/
theorem handleClientOn_first (hsplit : ∀ k, 0 < c.split k)
    (hfirst : q.header.length ≤ c.first.length) (l : List UInt8) :
    handleClientOn junk (c.first ++ l) c m = some (c.first.map .putchar ++
      (.separator :: q.body.map .putchar ++
        [.separator, .wrote okResponse, .wrote badRequestResponse])) := by
  obtain ⟨front, hfront, hbody⟩ := first_eq hstream hfirst
  have hne : c.first ≠ [] := by
    rw [hfront]
    exact fun hnil => q.header_ne_nil (List.append_eq_nil_iff.mp hnil).1
  have hbytes : c.bytes (bufferSize - 1) - q.header.length = front.length := by
    have hcount : c.bytes (bufferSize - 1) = c.first.length := if_neg hne
    rw [hcount, hfront, List.length_append]
    omega
  have hrest : readBody (c.after (bufferSize - 1)) q.body.length front.length =
      some (c.after (bufferSize - 1)).stream := by
    apply readBody_complete (fun k => hsplit (k + 1)) (Int.natCast_nonneg _) q.length_body_le
    rw [← hbody, List.length_append]
    exact (Int.natCast_add _ _).symm
  have hobject : c.first ++ l = q.header ++ (front ++ l) := by rw [hfront, List.append_assoc]
  have htake : (front ++ l).take (front.length : Int).toNat = front := List.take_left' rfl
  rw [handleClientOn, hobject, q.respond_append, hbytes, hrest, Option.map_some,
    Option.map_some, htake, hbody]

/-- A first read that ends in the header leaves the search for its end to the stack. -/
theorem header_of_received {t : List Event} (h : handleClientOn junk c.first c m = some t) :
    q.header.length ≤ c.first.length := by
  by_contra hshort
  have hall := first_append_after hstream
  have hpre : c.first <+: q.header :=
    List.prefix_of_prefix_length_le (hall ▸ List.prefix_append _ _)
      (List.prefix_append _ q.body) (by omega)
  obtain ⟨l, hl⟩ := hpre
  obtain ⟨t', ht', -⟩ := Option.map_eq_some_iff.mp h
  rw [q.respond_cut hl (by omega)] at ht'
  cases ht'

/-- Body and buffer are right exactly when the first read brings the whole header. -/
theorem bodyFramed_iff (hsplit : ∀ k, 0 < c.split k) :
    BodyFramed junk c m q.body ↔ q.header.length ≤ c.first.length := by
  constructor
  · intro h
    obtain ⟨t, ht⟩ := h.received
    exact header_of_received hstream ht
  · intro hfirst
    have hwhole := handleClientOn_first hstream hsplit hfirst
    refine ⟨⟨_,
      (congrArg (handleClientOn junk · c m) (List.append_nil c.first).symm).trans (hwhole [])⟩,
      ⟨_, hwhole (m.buffer.drop c.first.length), ?_, ?_⟩⟩
    · rw [List.count_append, List.cons_append, List.count_cons_self, List.count_append,
        count_putchar, count_putchar]
      rfl
    · exact between_separators c.first q.body _

end Stream

end PostRequest

/-- No connection is framed: after the 200 the code runs on into `BAD_REQUEST`. -/
theorem never_framed (junk : UInt8) (c : Connection) (m : Leftovers) (body : List UInt8) :
    ¬ Framed junk c m body := by
  intro h
  obtain ⟨t, ht, hone⟩ := Option.map_eq_some_iff.mp h.response
  exact handleClientOn_responses ht hone

/-- A request with two bytes of body. -/
def updateRequest : PostRequest 0 (fill 0) where
  header := updateService ++ literal " HTTP/1.1\r\n" ++ authHeader ++
    literal "cm9vdDp6ZXBoeXIwcGVuQm1j\r\n" ++ contentLengthHeader ++ literal "2" ++ headerEnd
  body := literal "hi"
  fits := by decide +kernel
  post := by decide +kernel
  authorized := by decide +kernel
  value := contentLengthHeader ++ literal "2" ++ headerEnd
  valued := by decide +kernel
  counted := by decide +kernel
  ends := by decide +kernel

/-- It comes in one piece. -/
def updateConnection : Connection where
  stream := updateRequest.header ++ updateRequest.body
  split := fun _ => bufferSize
  failure := 0
  failure_nonpos := Int.le_refl 0

theorem answered_twice :
    (handleClient 0 updateConnection (fill 0)).map responses =
      some [okResponse, badRequestResponse] ∧
      ¬ Framed 0 updateConnection (fill 0) updateRequest.body := by
  have hsplit : ∀ k, 0 < updateConnection.split k := fun _ => (by decide : 0 < bufferSize)
  have hrun :=
    PostRequest.handleClientOn_first (q := updateRequest) (c := updateConnection) rfl hsplit
      (by decide +kernel) ((fill 0).buffer.drop updateConnection.first.length)
  have hresponses : (handleClient 0 updateConnection (fill 0)).map responses =
      some [okResponse, badRequestResponse] := by
    rw [handleClient, overwrite, hrun, Option.map_some, responses_append, responses_putchar,
      List.nil_append, responses_separated]
    rfl
  refine ⟨hresponses, ?_⟩
  intro h
  exact ok_and_badRequest (Option.some.inj (hresponses.symm.trans h.response))

end LinkedsemiZephyr.Http
