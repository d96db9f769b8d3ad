import LinkedsemiZephyr.Lib.CounterChannel
import LinkedsemiZephyr.Spdm.SecuredSession
import Mathlib.Logic.Function.Basic

/-! The two ends of a session and everything that can happen between them. Each
direction is a channel numbered by implicit counters; the ideal AEAD is an assumption
about the run, that what decrypts under a key was sealed under it. -/
namespace LinkedsemiZephyr.Spdm
open Octets CounterChannel SecuredSession

/-- The arguments of one `AESGCM(key).encrypt`. -/
structure Seal where
  key : Bytes
  iv : Bytes
  plaintext : Bytes
  aad : Bytes
  deriving DecidableEq

/-- Both ends and what an observer has seen. A direction is named by the role that
sends in it; slot `i` of `spoken` is the message that got number `i`, if one did. -/
structure Channel where
  party : Role → SecuredSession
  spoken : Role → List (Option Bytes)
  air : Role → List Bytes
  heard : Role → List (Except PyErr Bytes)
  seals : List Seal

/-- `deliver` is the network doing its work, `inject` anything else it may do:
replayed, reordered, reflected, altered or forged bytes are all just bytes. -/
inductive Action where
  | encode (r : Role) (m : Bytes)
  | deliver (r : Role)
  | inject (r : Role) (record : Bytes)

/-- The message an action asks direction `r` to carry. -/
def Action.said (r : Role) : Action → List Bytes
  | .encode q m => if q = r then [m] else []
  | _ => []

/-- Messages of at most 65000 octets, and a network that only delivers. -/
def Action.Plain : Action → Prop
  | .encode _ m => m.length ≤ 65000
  | .deliver _ => True
  | .inject _ _ => False

namespace Channel

/-- The seal inside a successful `encode`. -/
def sealOf (s : SecuredSession) (m : Bytes) : List Seal :=
  match aeadIv (s.saltOf s.role) (s.seqOf s.role) with
  | .error _ => []
  | .ok iv => [⟨s.keyOf s.role, iv, innerPlaintext m, s.header (s.seqOf s.role) (m.length + 19)⟩]

def speak (C : Crypto) (c : Channel) (r : Role) (m : Bytes) : Channel :=
  match (c.party r).encode C m with
  | .ok record s =>
      { c with party := Function.update c.party r s
               spoken := Function.update c.spoken r (c.spoken r ++ [some m])
               air := Function.update c.air r (c.air r ++ [record])
               seals := c.seals ++ sealOf (c.party r) m }
  | .error _ s =>
      { c with party := Function.update c.party r s
               spoken := Function.update c.spoken r
                 (c.spoken r ++ if s.seqOf r = (c.party r).seqOf r then [] else [none]) }

/-- Bytes reach the end that receives in direction `r`. -/
def hear (C : Crypto) (c : Channel) (r : Role) (record : Bytes) : Channel :=
  match (c.party r.peer).decode C record with
  | .ok m s =>
      { c with party := Function.update c.party r.peer s
               heard := Function.update c.heard r (c.heard r ++ [.ok m]) }
  | .error e s =>
      { c with party := Function.update c.party r.peer s
               heard := Function.update c.heard r (c.heard r ++ [.error e]) }

def step (C : Crypto) (c : Channel) : Action → Channel
  | .encode r m => c.speak C r m
  | .deliver r =>
    match c.air r with
    | [] => c
    | record :: rest => hear C { c with air := Function.update c.air r rest } r record
  | .inject r record => c.hear C r record

def run (C : Crypto) (c : Channel) (actions : List Action) : Channel :=
  actions.foldl (step C) c

/-- The bytes an action hands to a `decode`, and their direction. -/
def arrival (c : Channel) : Action → Option (Role × Bytes)
  | .encode _ _ => none
  | .deliver r => (c.air r).head?.map fun record => (r, record)
  | .inject r record => some (r, record)

/-- Two fresh sessions with the keys, salts and id of `s`. -/
def start (s : SecuredSession) : Channel where
  party r := { s with reqSeq := 0, rspSeq := 0, role := r }
  spoken _ := []
  air _ := []
  heard _ := []
  seals := []

/-- The messages that `encode` returned a record for. -/
def sentMessages (c : Channel) (r : Role) : List Bytes := (c.spoken r).filterMap id

/-- The messages that `decode` returned. -/
def receivedMessages (c : Channel) (r : Role) : List Bytes := (c.heard r).filterMap Except.toOption

end Channel

/-- The seal that `decode` opens, if its decryption succeeds. -/
def SecuredSession.opened (C : Crypto) (s : SecuredSession) (b : Bytes) : Option Seal :=
  match aeadIv (s.saltOf s.role.peer) (s.seqOf s.role.peer) with
  | .error _ => none
  | .ok iv =>
    (C.decrypt (s.keyOf s.role.peer) iv (slice b 8 (8 + leNat (slice b 6 8))) (slice b 0 8)).map
      fun pt => ⟨s.keyOf s.role.peer, iv, pt, slice b 0 8⟩

/-- What `decode` decrypts was sealed before, under the same key, IV and header. -/
def SecuredSession.Authentic (C : Crypto) (seals : List Seal) (s : SecuredSession) (b : Bytes) :
    Prop :=
  ∀ x ∈ s.opened C b, x ∈ seals

/-- The ideal AEAD over a run: no step delivers a forgery. -/
def Channel.Ideal (C : Crypto) : Channel → List Action → Prop
  | _, [] => True
  | c, a :: actions =>
      (∀ p ∈ c.arrival a, (c.party p.1.peer).Authentic C c.seals p.2) ∧
        Channel.Ideal C (c.step C a) actions

instance (C : Crypto) (seals : List Seal) (s : SecuredSession) (b : Bytes) :
    Decidable (s.Authentic C seals b) :=
  inferInstanceAs (Decidable (∀ x ∈ s.opened C b, x ∈ seals))

instance Channel.decideIdeal (C : Crypto) : (c : Channel) → (actions : List Action) →
    Decidable (c.Ideal C actions)
  | _, [] => inferInstanceAs (Decidable True)
  | c, a :: actions =>
      have : Decidable ((c.step C a).Ideal C actions) := decideIdeal C _ actions
      inferInstanceAs (Decidable (_ ∧ _))

namespace Channel

/-- Both ends hold the role, id, keys and salts they started with. -/
structure Wired (s : SecuredSession) (c : Channel) : Prop where
  role : ∀ r, (c.party r).role = r
  sessionId : ∀ r, (c.party r).sessionId = s.sessionId
  key : ∀ r q, (c.party r).keyOf q = s.keyOf q
  salt : ∀ r q, (c.party r).saltOf q = s.saltOf q

theorem Wired.start (s : SecuredSession) : Wired s (Channel.start s) where
  role _ := rfl
  sessionId _ := rfl
  key r q := by cases q <;> rfl
  salt r q := by cases q <;> rfl

theorem Wired.bump {s : SecuredSession} {c c' : Channel} (h : Wired s c) {r q : Role}
    (hp : c'.party = Function.update c.party r ((c.party r).bump q)) : Wired s c' := by
  have hfield : ∀ p, c'.party p = c.party p ∨ c'.party p = (c.party p).bump q := by
    intro p
    rw [hp]
    by_cases hpr : p = r
    · subst hpr; exact .inr (Function.update_self _ _ _)
    · exact .inl (Function.update_of_ne hpr _ _)
  constructor
  · intro p; rcases hfield p with he | he <;> rw [he] <;> simp [h.role]
  · intro p; rcases hfield p with he | he <;> rw [he] <;> simp [h.sessionId]
  · intro p k; rcases hfield p with he | he <;> rw [he] <;> simp [h.key]
  · intro p k; rcases hfield p with he | he <;> rw [he] <;> simp [h.salt]

/-- What `speak` does, by `encode_cases`. -/
theorem speak_cases (C : Crypto) {c : Channel} {r : Role} (hr : (c.party r).role = r) (m : Bytes) :
    (c.speak C r m = c ∧ 65535 ≤ m.length) ∨
    (c.speak C r m = { c with party := Function.update c.party r ((c.party r).bump r)
                              spoken := Function.update c.spoken r (c.spoken r ++ [none]) } ∧
      (65517 ≤ m.length ∨ ∃ e, aeadIv ((c.party r).saltOf r) ((c.party r).seqOf r) = .error e)) ∨
    (∃ iv, aeadIv ((c.party r).saltOf r) ((c.party r).seqOf r) = .ok iv ∧ m.length < 65517 ∧
      c.speak C r m =
        { c with party := Function.update c.party r ((c.party r).bump r)
                 spoken := Function.update c.spoken r (c.spoken r ++ [some m])
                 air := Function.update c.air r
                   (c.air r ++ [(c.party r).sealRecord C r ((c.party r).seqOf r) iv m])
                 seals := c.seals ++ [⟨(c.party r).keyOf r, iv, innerPlaintext m,
                   (c.party r).header ((c.party r).seqOf r) (m.length + 19)⟩] }) := by
  have hbump : ((c.party r).bump r).seqOf r ≠ (c.party r).seqOf r := by
    rw [bump_seqOf, if_pos rfl]; omega
  rcases (c.party r).encode_cases C m with ⟨he, hlen⟩ | ⟨e, he, hwhy⟩ | ⟨iv, hiv, hlen, he⟩
  · refine .inl ⟨?_, hlen⟩
    simp only [speak, he, if_true, List.append_nil, Function.update_eq_self]
  · rw [hr] at he hwhy
    refine .inr (.inl ⟨?_, hwhy.imp_right fun h => ⟨e, h⟩⟩)
    simp only [speak, he, if_neg hbump]
  · rw [hr] at he hiv
    refine .inr (.inr ⟨iv, hiv, hlen, ?_⟩)
    simp only [speak, he, sealOf, hr, hiv]

/-- One direction, as the counter channel sees it. -/
def direction (c : Channel) (r : Role) : Direction Bytes where
  spent := c.spoken r
  next := (c.party r.peer).seqOf r
  accepted := c.receivedMessages r

/-- The seals made so far are the messages spoken, each under its own number. -/
structure Logged (s : SecuredSession) (c : Channel) : Prop where
  wired : Wired s c
  count : ∀ r, (c.spoken r).length = (c.party r).seqOf r
  sealed : ∀ x ∈ c.seals, ∃ r n m, x.key = s.keyOf r ∧ aeadIv (s.saltOf r) n = .ok x.iv ∧
    x.plaintext = innerPlaintext m ∧ m.length < 65517 ∧ (c.spoken r)[n]? = some (some m)

theorem Logged.start (s : SecuredSession) : Logged s (Channel.start s) where
  wired := Wired.start s
  count r := by cases r <;> rfl
  sealed x hx := by cases hx

/-- What `hear` does, by `decode_cases`. -/
theorem hear_cases (C : Crypto) {c : Channel} {r : Role} (hr : (c.party r.peer).role = r.peer)
    (b : Bytes) :
    (∃ e, c.hear C r b = { c with heard := Function.update c.heard r (c.heard r ++ [.error e]) }) ∨
    (∃ e, c.hear C r b = { c with party := Function.update c.party r.peer ((c.party r.peer).bump r)
                                  heard := Function.update c.heard r (c.heard r ++ [.error e]) }) ∨
    (∃ iv pt m, aeadIv ((c.party r.peer).saltOf r) ((c.party r.peer).seqOf r) = .ok iv ∧
      C.decrypt ((c.party r.peer).keyOf r) iv (slice b 8 (8 + leNat (slice b 6 8)))
        (slice b 0 8) = some pt ∧
      openInner pt = .ok m ∧
      c.hear C r b = { c with party := Function.update c.party r.peer ((c.party r.peer).bump r)
                              heard := Function.update c.heard r (c.heard r ++ [.ok m]) }) := by
  have hpeer : (c.party r.peer).role.peer = r := by rw [hr, Role.peer_peer]
  rcases (c.party r.peer).decode_cases C b
    with ⟨e, he⟩ | ⟨e, he⟩ | ⟨iv, ct, aad, pt, m, hiv, rfl, rfl, hd, ho, he⟩
  · refine .inl ⟨e, ?_⟩
    simp only [hear, he, Function.update_eq_self]
  · rw [hpeer] at he
    exact .inr (.inl ⟨e, by simp only [hear, he]⟩)
  · rw [hpeer] at he hiv hd
    exact .inr (.inr ⟨iv, pt, m, hiv, hd, ho, by simp only [hear, he]⟩)

section Steps
variable {c c' : Channel} {r : Role}

theorem party_bump_seqOf {p q : Role}
    (hp : c'.party = Function.update c.party p ((c.party p).bump r)) (k : Role) :
    (c'.party q).seqOf k = if q = p ∧
      k = r then (c.party q).seqOf k + 1 else (c.party q).seqOf k := by
  rw [hp]
  by_cases hq : q = p
  · subst hq
    rw [Function.update_self, bump_seqOf]
    simp only [true_and]
  · rw [Function.update_of_ne hq, if_neg (fun h => hq h.1)]

theorem direction_spend {x : Option Bytes}
    (hp : c'.party = Function.update c.party r ((c.party r).bump r))
    (hs : c'.spoken = Function.update c.spoken r (c.spoken r ++ [x])) (hh : c'.heard = c.heard)
    (q : Role) :
    (c.direction q).Run (c'.direction q) := by
  have hn : (c'.party q.peer).seqOf q = (c.party q.peer).seqOf q := by
    rw [party_bump_seqOf hp, if_neg]
    rintro ⟨h, rfl⟩
    exact q.peer_ne h
  by_cases hq : q = r
  · subst hq
    refine .single ?_
    simp only [direction, hn, hs, Function.update_self, receivedMessages, hh]
    exact .spend (c.direction q) x
  · have he : c'.direction q = c.direction q := by
      simp only [direction, hn, hs, Function.update_of_ne hq, receivedMessages, hh]
    rw [he]
    exact .refl

theorem direction_hear {x : Except PyErr Bytes}
    (hp : c'.party = Function.update c.party r.peer ((c.party r.peer).bump r))
    (hs : c'.spoken = c.spoken) (hh : c'.heard = Function.update c.heard r (c.heard r ++ [x]))
    (hx : ∀ m, x = .ok m → (c.spoken r)[(c.party r.peer).seqOf r]? = some (some m)) (q : Role) :
    (c.direction q).Run (c'.direction q) := by
  by_cases hq : q = r
  · subst hq
    have hn : (c'.party q.peer).seqOf q = (c.party q.peer).seqOf q + 1 := by
      rw [party_bump_seqOf hp, if_pos ⟨rfl, rfl⟩]
    refine .single ?_
    cases x with
    | error e =>
        simp only [direction, hn, hs, receivedMessages, hh, Function.update_self,
          List.filterMap_append, List.filterMap_cons, List.filterMap_nil, Except.toOption,
          List.append_nil]
        exact .skip (c.direction q)
    | ok m =>
        simp only [direction, hn, hs, receivedMessages, hh, Function.update_self,
          List.filterMap_append, List.filterMap_cons, List.filterMap_nil, Except.toOption]
        exact .accept (c.direction q) m (hx m rfl)
  · have hn : (c'.party q.peer).seqOf q = (c.party q.peer).seqOf q := by
      rw [party_bump_seqOf hp, if_neg]
      rintro ⟨-, h⟩
      exact hq h
    have he : c'.direction q = c.direction q := by
      simp only [direction, hn, hs, Function.update_of_ne hq, receivedMessages, hh]
    rw [he]
    exact .refl

theorem direction_reject {e : PyErr} (hp : c'.party = c.party) (hs : c'.spoken = c.spoken)
    (hh : c'.heard = Function.update c.heard r (c.heard r ++ [.error e])) (q : Role) :
    (c.direction q).Run (c'.direction q) := by
  have he : c'.direction q = c.direction q := by
    by_cases hq : q = r
    · subst hq
      simp only [direction, hp, hs, receivedMessages, hh, Function.update_self,
        List.filterMap_append, List.filterMap_cons, List.filterMap_nil, Except.toOption,
        List.append_nil]
    · simp only [direction, hp, hs, receivedMessages, hh, Function.update_of_ne hq]
  rw [he]
  exact .refl

end Steps

section Adversary
variable {C : Crypto} {s : SecuredSession} {c : Channel}

/-- Under distinct keys, what decrypts for direction `r` is the message numbered by the
receiver's counter. -/
theorem Logged.authentic (h : Logged s c) (hkeys : s.reqKey ≠ s.rspKey) {r : Role}
    {b iv pt m : Bytes} (ha : (c.party r.peer).Authentic C c.seals b)
    (hiv : aeadIv ((c.party r.peer).saltOf r) ((c.party r.peer).seqOf r) = .ok iv)
    (hd : C.decrypt ((c.party r.peer).keyOf r) iv (slice b 8 (8 + leNat (slice b 6 8)))
      (slice b 0 8) = some pt)
    (ho : openInner pt = .ok m) : (c.spoken r)[(c.party r.peer).seqOf r]? = some (some m) := by
  have hpeer : (c.party r.peer).role.peer = r := by rw [h.wired.role, Role.peer_peer]
  have hopened : (c.party r.peer).opened C b =
      some ⟨(c.party r.peer).keyOf r, iv, pt, slice b 0 8⟩ := by
    simp only [SecuredSession.opened, hpeer, hiv, hd, Option.map_some]
  have hmem := ha _ hopened
  obtain ⟨q, n, m', hk, hn, hpt, hlen, hspoken⟩ := h.sealed _ hmem
  rw [h.wired.salt] at hiv
  have hq : q = r := by
    rw [h.wired.key] at hk
    cases q <;> cases r
    · rfl
    · exact absurd hk.symm hkeys
    · exact absurd hk hkeys
    · rfl
  subst hq
  obtain rfl : n = (c.party q.peer).seqOf q := aeadIv_injective hn hiv
  replace hpt : pt = innerPlaintext m' := hpt
  rw [hpt, openInner_innerPlaintext (by omega)] at ho
  cases ho
  exact hspoken

theorem Logged.speak (h : Logged s c) (r : Role) (m : Bytes) : Logged s (c.speak C r m) := by
  have hcount : ∀ (c' : Channel) (x : Option Bytes),
      c'.party = Function.update c.party r ((c.party r).bump r) →
      c'.spoken = Function.update c.spoken r (c.spoken r ++ [x]) →
      ∀ q, (c'.spoken q).length = (c'.party q).seqOf q := by
    intro c' x hp hs q
    rw [party_bump_seqOf hp, hs]
    by_cases hq : q = r
    · subst hq
      rw [Function.update_self, if_pos ⟨rfl, rfl⟩, List.length_append, h.count]
      rfl
    · rw [Function.update_of_ne hq, if_neg (fun hh => hq hh.1), h.count]
  have hold : ∀ (x : Option Bytes) (q : Role) (n : Nat) (m' : Bytes), (c.spoken q)[n]? =
      some (some m') →
      (Function.update c.spoken r (c.spoken r ++ [x]) q)[n]? = some (some m') := by
    intro x q n m' hn
    by_cases hq : q = r
    · subst hq
      rw [Function.update_self, List.getElem?_append_left (List.getElem?_eq_some_iff.mp hn).1, hn]
    · rw [Function.update_of_ne hq, hn]
  rcases speak_cases C (h.wired.role r) m with ⟨he, -⟩ | ⟨he, -⟩ | ⟨iv, hiv, hlen, he⟩
  · rw [he]; exact h
  · rw [he]
    refine ⟨h.wired.bump rfl, hcount _ none rfl rfl, fun x hx => ?_⟩
    obtain ⟨q, n, m', hk, hn, hpt, hl, hsp⟩ := h.sealed x hx
    exact ⟨q, n, m', hk, hn, hpt, hl, hold none q n m' hsp⟩
  · rw [he]
    refine ⟨h.wired.bump rfl, hcount _ (some m) rfl rfl, fun x hx => ?_⟩
    rcases List.mem_append.mp hx with hx | hx
    · obtain ⟨q, n, m', hk, hn, hpt, hl, hsp⟩ := h.sealed x hx
      exact ⟨q, n, m', hk, hn, hpt, hl, hold (some m) q n m' hsp⟩
    · obtain rfl := List.mem_singleton.mp hx
      refine ⟨r, (c.party r).seqOf r, m, h.wired.key r r, by rw [← h.wired.salt r r]; exact hiv,
        rfl, hlen, ?_⟩
      change (Function.update c.spoken r (c.spoken r ++ [some m]) r)[(c.party r).seqOf r]? = _
      rw [Function.update_self, ← h.count r, List.getElem?_concat_length]

theorem Logged.hear (h : Logged s c) (r : Role) (b : Bytes) : Logged s (c.hear C r b) := by
  have hcount : ∀ (c' : Channel), c'.party =
      Function.update c.party r.peer ((c.party r.peer).bump r) →
      ∀ q, (c.spoken q).length = (c'.party q).seqOf q := by
    intro c' hp q
    rw [party_bump_seqOf hp, if_neg, h.count]
    rintro ⟨hq, rfl⟩
    exact q.peer_ne hq.symm
  rcases hear_cases C (h.wired.role r.peer) b with ⟨e, he⟩ | ⟨e, he⟩ | ⟨iv, pt, m, -, -, -, he⟩
  · rw [he]; exact ⟨⟨h.wired.role, h.wired.sessionId, h.wired.key, h.wired.salt⟩, h.count, h.sealed⟩
  · rw [he]; exact ⟨h.wired.bump rfl, hcount _ rfl, h.sealed⟩
  · rw [he]; exact ⟨h.wired.bump rfl, hcount _ rfl, h.sealed⟩

/-- Taking a record off the air changes neither the ends nor the logs. -/
theorem Logged.air (h : Logged s c) (air : Role → List Bytes) : Logged s { c with air := air } :=
  ⟨⟨h.wired.role, h.wired.sessionId, h.wired.key, h.wired.salt⟩, h.count, h.sealed⟩

theorem Logged.step (h : Logged s c) (a : Action) : Logged s (c.step C a) := by
  cases a with
  | encode r m => exact h.speak r m
  | inject r b => exact h.hear r b
  | deliver r =>
      simp only [Channel.step]
      split
      · exact h
      · exact (h.air _).hear r _

theorem Logged.hear_direction (h : Logged s c) (hkeys : s.reqKey ≠ s.rspKey) {r : Role} {b : Bytes}
    (ha : (c.party r.peer).Authentic C c.seals b) (q : Role) :
    (c.direction q).Run ((c.hear C r b).direction q) := by
  rcases hear_cases C (h.wired.role r.peer) b with ⟨e, he⟩ | ⟨e, he⟩ | ⟨iv, pt, m, hiv, hd, ho, he⟩
  · exact direction_reject (c := c) (r := r) (e := e) (by rw [he]) (by rw [he]) (by rw [he]) q
  · refine direction_hear (c := c) (r := r) (x := .error e) (by rw [he]) (by rw [he])
      (by rw [he]) ?_ q
    intro m hm
    cases hm
  · refine direction_hear (c := c) (r := r) (x := .ok m) (by rw [he]) (by rw [he]) (by rw [he]) ?_ q
    intro m' hm
    cases hm
    exact h.authentic hkeys ha hiv hd ho

/-- One action is at most one step of each counter channel. -/
theorem Logged.step_direction (h : Logged s c) (hkeys : s.reqKey ≠ s.rspKey) (a : Action)
    (ha : ∀ p ∈ c.arrival a, (c.party p.1.peer).Authentic C c.seals p.2) (q : Role) :
    (c.direction q).Run ((c.step C a).direction q) := by
  cases a with
  | encode r m =>
      change (c.direction q).Run ((c.speak C r m).direction q)
      rcases speak_cases C (h.wired.role r) m with ⟨he, -⟩ | ⟨he, -⟩ | ⟨iv, hiv, hlen, he⟩
      · rw [he]; exact .refl
      · exact direction_spend (c := c) (r := r) (x := none) (by rw [he]) (by rw [he]) (by rw [he]) q
      · exact direction_spend (c := c) (r := r) (x := some m) (by rw [he]) (by rw [he])
          (by rw [he]) q
  | inject r b => exact h.hear_direction hkeys (ha (r, b) rfl) q
  | deliver r =>
      simp only [Channel.step]
      split
      · exact .refl
      · next record rest hair =>
          have hrec := ha (r, record) (by rw [arrival, hair]; rfl)
          exact (h.air (Function.update c.air r rest)).hear_direction hkeys hrec q

theorem Logged.run (h : Logged s c) (hkeys : s.reqKey ≠ s.rspKey) {actions : List Action}
    (hi : c.Ideal C actions) (q : Role) : (c.direction q).Run ((c.run C actions).direction q) := by
  induction actions generalizing c with
  | nil => exact .refl
  | cons a actions ih => exact (h.step_direction hkeys a hi.1 q).trans (ih (h.step a) hi.2)

end Adversary

section Lossless
variable {C : Crypto} {s : SecuredSession} {c : Channel}

/-- The record of one message, as either end would make it. -/
def recordOf (C : Crypto) (s : SecuredSession) (r : Role) (n : Nat) (m : Bytes) : Bytes :=
  match aeadIv (s.saltOf r) n with
  | .error _ => []
  | .ok iv => s.sealRecord C r n iv m

def records (C : Crypto) (s : SecuredSession) (r : Role) : Nat → List Bytes → List Bytes
  | _, [] => []
  | n, m :: ms => recordOf C s r n m :: records C s r (n + 1) ms

theorem records_append (n : Nat) (ms : List Bytes) (r : Role) (m : Bytes) :
    records C s r n (ms ++ [m]) = records C s r n ms ++ [recordOf C s r (n + ms.length) m] := by
  induction ms generalizing n with
  | nil => rfl
  | cons k ms ih =>
      simp only [List.cons_append, records, ih, List.length_cons]
      rw [show n + 1 + ms.length = n + (ms.length + 1) by omega]

theorem length_records (n : Nat) (ms : List Bytes) (r : Role) :
    (records C s r n ms).length = ms.length := by
  induction ms generalizing n with
  | nil => rfl
  | cons m ms ih => simp only [records, List.length_cons, ih]

/-- Direction `r` after it was asked to carry `said`: some of it has been heard, and the
records of the rest are on the air. -/
structure InOrder (C : Crypto) (s : SecuredSession) (c : Channel) (r : Role) (said : List Bytes) :
    Prop where
  spent : (c.party r).seqOf r = said.length
  short : ∀ m ∈ said, m.length < 65517
  split : ∃ got rest, said = got ++ rest ∧ c.heard r = got.map .ok ∧
    c.air r = records C s r got.length rest ∧ (c.party r.peer).seqOf r = got.length

theorem InOrder.start (s : SecuredSession) (r : Role) : InOrder C s (Channel.start s) r [] where
  spent := by cases r <;> rfl
  short m hm := by cases hm
  split := ⟨[], [], rfl, rfl, rfl, by cases r <;> rfl⟩

theorem aeadIv_total {salt : Bytes} {n : Nat} (hs : 8 ≤ salt.length) (hn : n < 2 ^ 64) :
    ∃ iv, aeadIv salt n = .ok iv := by
  rw [aeadIv, if_neg (by omega), if_neg (by omega)]
  exact ⟨_, rfl⟩

/-- What the other direction has seen is untouched. -/
theorem InOrder.frame {r : Role} {said : List Bytes} (h : InOrder C s c r said) {c' : Channel}
    (hp : ∀ q, (c'.party q).seqOf r = (c.party q).seqOf r) (hh : c'.heard r = c.heard r)
    (ha : c'.air r = c.air r) : InOrder C s c' r said :=
  ⟨by rw [hp, h.spent], h.short, by rw [hh, ha, hp]; exact h.split⟩

theorem speak_sent (hw : Wired s c) {r : Role} {m : Bytes} (hm : m.length ≤ 65000)
    (hs : 8 ≤ (s.saltOf r).length) (hn : (c.party r).seqOf r < 2 ^ 64) :
    (c.speak C r m).party = Function.update c.party r ((c.party r).bump r) ∧
      (c.speak C r m).heard = c.heard ∧
      (c.speak C r m).air =
        Function.update c.air r (c.air r ++ [recordOf C s r ((c.party r).seqOf r) m]) := by
  obtain ⟨iv, hiv⟩ := aeadIv_total hs hn
  rw [← hw.salt r r] at hiv
  rcases speak_cases C (hw.role r) m with ⟨-, hlen⟩ | ⟨-, hlen | ⟨e, he⟩⟩ | ⟨iv', hiv', -, he⟩
  · omega
  · omega
  · rw [hiv] at he
    cases he
  · rw [he]
    refine ⟨rfl, rfl, ?_⟩
    simp only [recordOf, ← hw.salt r r, hiv', SecuredSession.sealRecord, SecuredSession.header,
      hw.sessionId, hw.key]

theorem InOrder.speak (hw : Wired s c) {r q : Role} {said : List Bytes} (h : InOrder C s c q said)
    {m : Bytes} (hm : m.length ≤ 65000) (hs : ∀ r, 8 ≤ (s.saltOf r).length)
    (hn : (c.party r).seqOf r < 2 ^ 64) :
    InOrder C s (c.speak C r m) q (said ++ (Action.encode r m).said q) := by
  obtain ⟨hp, hh, ha⟩ := speak_sent (C := C) hw hm (hs r) hn
  by_cases hq : r = q
  · subst hq
    obtain ⟨got, rest, rfl, hheard, hair, hseq⟩ := h.split
    simp only [Action.said, if_true]
    refine ⟨?_, ?_, got, rest ++ [m], List.append_assoc _ _ _, by rw [hh, hheard], ?_, ?_⟩
    · rw [party_bump_seqOf hp, if_pos ⟨rfl, rfl⟩, h.spent]
      simp only [List.length_append, List.length_singleton]
    · intro k hk
      rcases List.mem_append.mp hk with hk | hk
      · exact h.short k hk
      · rw [List.mem_singleton.mp hk]; omega
    · rw [ha, Function.update_self, hair, h.spent, records_append, List.length_append]
    · rw [party_bump_seqOf hp, if_neg (fun hh => r.peer_ne hh.1), hseq]
  · simp only [Action.said, if_neg hq, List.append_nil]
    refine h.frame (fun p => ?_) (by rw [hh]) (by rw [ha, Function.update_of_ne (Ne.symm hq)])
    rw [party_bump_seqOf hp, if_neg (fun hh => hq hh.2.symm)]

/-- The next record of the direction opens and returns its message. -/
theorem hear_next (hC : C.AeadCorrect) (hw : Wired s c) {r : Role} {m : Bytes}
    (hm : m.length < 65517) (hs : 8 ≤ (s.saltOf r).length) {n : Nat} (hn : n < 2 ^ 64)
    (hseq : (c.party r.peer).seqOf r = n) :
    c.hear C r (recordOf C s r n m) =
      { c with party := Function.update c.party r.peer ((c.party r.peer).bump r)
               heard := Function.update c.heard r (c.heard r ++ [.ok m]) } := by
  obtain ⟨iv, hiv⟩ := aeadIv_total hs hn
  have hpeer : (c.party r.peer).role.peer = r := by rw [hw.role, Role.peer_peer]
  have hpeerIv : aeadIv ((c.party r.peer).saltOf (c.party r.peer).role.peer)
      ((c.party r.peer).seqOf (c.party r.peer).role.peer) = .ok iv := by
    rw [hpeer, hw.salt, hseq, hiv]
  have hdec := decode_sealRecord hC (a := s) (m := m) (hw.sessionId _) (hw.key _ _) hpeerIv hm
  rw [hpeer, hseq] at hdec
  simp only [hear, recordOf, hiv, hdec]

theorem InOrder.deliver (hC : C.AeadCorrect) (hw : Wired s c) {said : Role → List Bytes}
    (h : ∀ q, InOrder C s c q (said q)) (hs : ∀ r, 8 ≤ (s.saltOf r).length) {r : Role}
    (hn : (said r).length ≤ 2 ^ 64) (q : Role) :
    InOrder C s (c.step C (.deliver r)) q (said q) := by
  obtain ⟨got, rest, hsaid, hheard, hair, hseq⟩ := (h r).split
  cases rest with
  | nil =>
      simp only [Channel.step, show c.air r = [] from hair]
      exact h q
  | cons m rest =>
      rw [hsaid, List.length_append, List.length_cons] at hn
      have hstep := hear_next
        (c := { c with air := Function.update c.air r (records C s r (got.length + 1) rest) })
        hC ⟨hw.role, hw.sessionId, hw.key, hw.salt⟩ ((h r).short m (by simp [hsaid])) (hs r)
        (show got.length < 2 ^ 64 by omega) hseq
      simp only [Channel.step, show c.air r = _ :: _ from hair, hstep]
      by_cases hq : q = r
      · subst hq
        refine ⟨?_, (h q).short, got ++ [m], rest,
          by rw [hsaid, List.append_assoc]; rfl, ?_, ?_, ?_⟩
        · rw [party_bump_seqOf (c := c) rfl, if_neg (fun hh => q.peer_ne hh.1.symm), (h q).spent]
        · change Function.update c.heard q (c.heard q ++ [.ok m]) q = _
          rw [Function.update_self, hheard, List.map_append]
          rfl
        · change Function.update c.air q (records C s q (got.length + 1) rest) q = _
          rw [Function.update_self, List.length_append]
          rfl
        · rw [party_bump_seqOf (c := c) rfl, if_pos ⟨rfl, rfl⟩, hseq, List.length_append]
          rfl
      · refine (h q).frame (fun p => ?_) (Function.update_of_ne hq _ _)
          (Function.update_of_ne hq _ _)
        rw [party_bump_seqOf (c := c) rfl, if_neg (fun hh => hq hh.2)]

theorem InOrder.step (hC : C.AeadCorrect) (hl : Logged s c) {said : Role → List Bytes}
    (h : ∀ q, InOrder C s c q (said q)) (hs : ∀ r, 8 ≤ (s.saltOf r).length) {a : Action}
    (ha : a.Plain) (hn : ∀ q, (said q ++ a.said q).length < 2 ^ 64) (q : Role) :
    InOrder C s (c.step C a) q (said q ++ a.said q) := by
  cases a with
  | encode r m =>
      have hr := hn r
      simp only [Action.said, if_true, List.length_append, List.length_singleton] at hr
      exact (h q).speak hl.wired ha hs (by rw [(h r).spent]; omega)
  | inject r b => exact ha.elim
  | deliver r =>
      have hr := hn r
      simp only [Action.said, List.append_nil] at hr ⊢
      exact InOrder.deliver hC hl.wired h hs (Nat.le_of_lt hr) q

theorem InOrder.run (hC : C.AeadCorrect) (hs : ∀ r, 8 ≤ (s.saltOf r).length) {actions : List Action}
    (ha : ∀ a ∈ actions, a.Plain) (hl : Logged s c) (said : Role → List Bytes)
    (h : ∀ q, InOrder C s c q (said q))
    (hn : ∀ q, (said q ++ actions.flatMap (Action.said q)).length < 2 ^ 64) (q : Role) :
    InOrder C s (c.run C actions) q (said q ++ actions.flatMap (Action.said q)) := by
  induction actions generalizing c said with
  | nil =>
      simp only [List.flatMap_nil, List.append_nil]
      exact h q
  | cons a actions ih =>
      have hn' : ∀ q, (said q ++ a.said q).length < 2 ^ 64 := by
        intro q
        have hq := hn q
        simp only [List.flatMap_cons, List.length_append] at hq ⊢
        omega
      have hrest := ih (fun b hb => ha b (List.mem_cons_of_mem _ hb)) (hl.step a) _
        (fun q => InOrder.step hC hl h hs (ha a List.mem_cons_self) hn' q)
        (fun q => by rw [List.append_assoc]; exact hn q)
      rw [List.append_assoc] at hrest
      exact hrest

end Lossless

end Channel

/-- A network that only delivers hands over every message as it was encoded, however the
directions interleave; any network at all hands over a subsequence of what was encoded. -/
theorem securedChannel_integrity {C : Crypto} (hC : C.AeadCorrect) {s : SecuredSession}
    (hsalt : ∀ r, 8 ≤ (s.saltOf r).length) (actions : List Action) :
    ((∀ a ∈ actions, a.Plain) → (∀ r, (actions.flatMap (Action.said r)).length < 2 ^ 64) →
      ∀ r, ∃ got rest, actions.flatMap (Action.said r) = got ++ rest ∧
        ((Channel.start s).run C actions).heard r = got.map .ok ∧
        (((Channel.start s).run C actions).air r).length = rest.length) ∧
    (s.reqKey ≠ s.rspKey → (Channel.start s).Ideal C actions →
      ∀ r, (((Channel.start s).run C actions).receivedMessages r).Sublist
        (((Channel.start s).run C actions).sentMessages r)) := by
  constructor
  · intro hplain hcount r
    have h := Channel.InOrder.run hC hsalt hplain (Channel.Logged.start s) (fun _ => [])
      (Channel.InOrder.start s) hcount r
    obtain ⟨got, rest, hsaid, hheard, hair, -⟩ := h.split
    exact ⟨got, rest, hsaid, hheard, by rw [hair, Channel.length_records]⟩
  · intro hkeys hideal r
    have hrun := (Channel.Logged.start s).run hkeys hideal r
    have hordered := hrun.ordered (d := (Channel.start s).direction r) (List.nil_sublist _)
    exact hordered.sublist

/-- An AEAD that sends the plaintext with the key and the IV in its tag. -/
def tagged (key iv : Bytes) : Bytes := (key ++ iv ++ zeros 16).take 16

def taggedCrypto : Crypto :=
  { constantCrypto with
    encrypt := fun key iv plaintext _ => plaintext ++ tagged key iv
    decrypt := fun key iv ciphertext _ =>
      if ciphertext.drop (ciphertext.length - 16) = tagged key iv then
        some (ciphertext.take (ciphertext.length - 16))
      else none }

theorem length_tagged (key iv : Bytes) : (tagged key iv).length = 16 := by
  simp only [tagged, zeros, List.length_take, List.length_append, List.length_replicate]
  omega

theorem taggedCrypto_correct : taggedCrypto.AeadCorrect where
  decrypt key iv plaintext aad := by
    simp [taggedCrypto, length_tagged]
  length key iv plaintext aad := by
    simp [taggedCrypto, length_tagged]

def sampleSession : SecuredSession where
  sessionId := 0xFF0000FF
  reqKey := [1]
  reqSalt := zeros 12
  rspKey := [2]
  rspSalt := zeros 12

/-- A record is delivered, then replayed. -/
def replayedActions : List Action :=
  [.encode .requester [0x13, 0xEC], .deliver .requester,
    .inject .requester
      ((sampleSession.sealRecord taggedCrypto .requester 0 (zeros 12) [0x13, 0xEC]))]

theorem replayedActions_ideal :
    (Channel.start sampleSession).Ideal taggedCrypto replayedActions := by
  decide

theorem securedChannel_integrity_replayed :
    (((Channel.start sampleSession).run taggedCrypto replayedActions).receivedMessages
      .requester).Sublist
      (((Channel.start sampleSession).run taggedCrypto replayedActions).sentMessages .requester) :=
  (securedChannel_integrity taggedCrypto_correct (fun r => by cases r <;> decide) replayedActions).2
    (by decide)
    replayedActions_ideal .requester

end LinkedsemiZephyr.Spdm
