import LinkedsemiZephyr.Lib.GuardedRun
import Mathlib.Data.Fintype.Pi
import Mathlib.Logic.Function.Basic

/-! The KCS polling loops of `ipmi_61` and `ipmi_openbic`. Both read into one global buffer
and forward what stands in it. -/
namespace LinkedsemiZephyr.Ipmi
open GuardedRun

abbrev kcsBuffSize : Nat := 256

abbrev Ibuf := Fin kcsBuffSize → UInt8

def zero : Ibuf := fun _ => 0

/-- What `ipmi_read` does: `-(code + 1)` and nothing written, or the bytes of a message. -/
inductive Read where
  | error (code : Nat)
  | bytes (b : List UInt8) (room : b.length ≤ kcsBuffSize)

namespace Read

def rc : Read → Int
  | .error code => -(code + 1)
  | .bytes b _ => b.length

def store (ibuf : Ibuf) : Read → Ibuf
  | .error _ => ibuf
  | .bytes b _ => fun i => b[i]?.getD (ibuf i)

end Read

def netfnChassisReq : UInt8 := 0x00
def netfnAppReq : UInt8 := 0x06
def cmdAppGetDeviceId : UInt8 := 0x01
def cmdAppSetBmcGlobalEnables : UInt8 := 0x2e
def cmdAppGetBmcGlobalEnables : UInt8 := 0x2f

def hostKcs1 : UInt8 := 0x50

/-- `pal_request_msg_to_BIC_from_HOST` of `ipmi_61`. -/
def palRequestMsg61 (netfn cmd : UInt8) : Bool := netfn == netfnAppReq && cmd == cmdAppGetDeviceId

/-- `pal_request_msg_to_BIC_from_HOST` of `ipmi_openbic`. -/
def palRequestMsgOpenbic (netfn cmd : UInt8) : Bool :=
  netfn == netfnChassisReq ||
    netfn == netfnAppReq &&
      (cmd == cmdAppGetDeviceId || cmd == cmdAppSetBmcGlobalEnables || cmd ==
        cmdAppGetBmcGlobalEnables)

/-- What the loops set of `current_msg.buffer`; `data` is what `memcpy` finds in the buffer. -/
structure IpmiMsg where
  inFSource : UInt8
  netfn : UInt8
  cmd : UInt8
  dataLen : Nat
  data : List UInt8
  deriving DecidableEq, Repr

def toU16 (x : Int) : Nat := (x % 65536).toNat

/-- One iteration: the calls of `notify_ipmi_client`, and how far `ibuf` was read. -/
structure Iteration where
  read : Read
  notified : List IpmiMsg
  extent : Nat

/-- From `req->netfn >> 2` to the end of the body. -/
def forward (accepts : UInt8 → UInt8 → Bool) (rc : Int) (ibuf : Ibuf) : Ibuf × List IpmiMsg × Nat :=
  let ibuf := Function.update ibuf 0 (ibuf 0 >>> 2)
  if accepts (ibuf 0) (ibuf 1) then
    let dataLen := toU16 (rc - 2)
    (ibuf, [⟨hostKcs1, ibuf 0, ibuf 1, dataLen, ((List.ofFn ibuf).drop 2).take dataLen⟩],
      2 + dataLen)
  else (ibuf, [], 2)

/-- `for (j = KCS_BUFF_SIZE - 1; ; j--) if (ibuf[j] != 0) break;`. -/
def lastNonzero (ibuf : Ibuf) : Option (Fin kcsBuffSize) :=
  (List.finRange kcsBuffSize).reverse.find? fun j => ibuf j ≠ 0

/-- `ibuf[0]` is printed up to the byte behind the last one set; with none set `j` would wrap
around. -/
def printExtent (ibuf : Ibuf) : Nat :=
  match lastNonzero ibuf with
  | some j => j + 2
  | none => 2 ^ 32

/-- The body of the loop of `ipmi_61`. -/
def body61 (r : Read) (ibuf : Ibuf) : Ibuf × List IpmiMsg × Nat :=
  let ibuf := r.store ibuf
  if ibuf ≠ zero then
    let (ibuf', notified, extent) := forward palRequestMsg61 r.rc ibuf
    (ibuf', notified, max (printExtent ibuf) extent)
  else (ibuf, [], kcsBuffSize)

def bodyOpenbic (r : Read) (ibuf : Ibuf) : Ibuf × List IpmiMsg × Nat :=
  if r.rc < 0 then (ibuf, [], 0) else forward palRequestMsgOpenbic r.rc (r.store ibuf)

structure Kcs where
  ibuf : Ibuf := zero
  log : List Iteration := []

namespace Kcs

def step (body : Read → Ibuf → Ibuf × List IpmiMsg × Nat) (s : Kcs) (r : Read) : Kcs :=
  let (ibuf, notified, extent) := body r s.ibuf
  ⟨ibuf, s.log ++ [⟨r, notified, extent⟩]⟩

/-- What an iteration has to forward: the message of its own read, if it has a header that is
accepted. -/
def expected (accepts : UInt8 → UInt8 → Bool) : Read → List IpmiMsg
  | .bytes (netfn :: cmd :: payload) _ =>
    if accepts (netfn >>> 2) cmd then [⟨hostKcs1, netfn >>> 2, cmd, payload.length, payload⟩]
    else []
  | _ => []

structure Right (accepts : UInt8 → UInt8 → Bool) (i : Iteration) : Prop where
  notified : i.notified = expected accepts i.read
  bound : ∀ m ∈ i.notified, m.dataLen ≤ 254
  extent : i.extent ≤ kcsBuffSize

def AllRight (accepts : UInt8 → UInt8 → Bool) (s : Kcs) : Prop := ∀ i ∈ s.log, Right accepts i

def NoStale (accepts : UInt8 → UInt8 → Bool) (s : Kcs) (r : Read) : Prop :=
  accepts (r.store s.ibuf 0 >>> 2) (r.store s.ibuf 1) = false

/-- `ipmi_61`: the last byte of the buffer stays clear, and a read of less than a header
finds no request left behind. -/
def Safe61 (s : Kcs) (r : Read) : Prop :=
  r.store s.ibuf 255 = 0 ∧ (r.rc < 2 → NoStale palRequestMsg61 s r)

/-- `ipmi_openbic`: a read of no or one byte finds no request left behind. -/
def SafeOpenbic (s : Kcs) (r : Read) : Prop :=
  0 ≤ r.rc → r.rc < 2 → NoStale palRequestMsgOpenbic s r

variable {accepts : UInt8 → UInt8 → Bool} {r : Read} {ibuf : Ibuf} {s : Kcs}

theorem store_bytes {b : List UInt8} {room : b.length ≤ kcsBuffSize} {i : Fin kcsBuffSize}
    (hi : i.val < b.length) :
    Read.store ibuf (.bytes b room) i = b[i.val] := by
  change b[i.val]?.getD (ibuf i) = b[i.val]
  rw [List.getElem?_eq_getElem hi, Option.getD_some]

/-- What `memcpy` finds behind the header is the payload just read. -/
theorem payload_eq {netfn cmd : UInt8} {payload : List UInt8}
    (room : (netfn :: cmd :: payload).length ≤ kcsBuffSize) (x : UInt8) :
    ((List.ofFn
      (Function.update (Read.store ibuf (.bytes (netfn :: cmd :: payload) room)) 0 x)).drop 2).take
      payload.length = payload := by
  have hroom : payload.length + 2 ≤ 256 := room
  apply List.ext_getElem
  · rw [List.length_take, List.length_drop, List.length_ofFn]
    change min _ (256 - 2) = _
    omega
  · intro i hi hi'
    have hin : 2 + i < kcsBuffSize := by
      change 2 + i < 256
      omega
    have hne : (⟨2 + i, hin⟩ : Fin kcsBuffSize) ≠ 0 := by
      rw [ne_eq, Fin.ext_iff]
      simp
    rw [List.getElem_take, List.getElem_drop, List.getElem_ofFn, Function.update_of_ne hne,
      store_bytes (by simp only [List.length_cons]; omega)]
    simp [Nat.add_comm 2 i]

theorem toU16_length {n : Nat} (hn : n ≤ 254) : toU16 ((n + 2 : Nat) - 2) = n := by
  unfold toU16
  omega

/-- A read with a header is forwarded as it came. -/
theorem forward_request {netfn cmd : UInt8} {payload : List UInt8}
    (room : (netfn :: cmd :: payload).length ≤ kcsBuffSize) :
    (forward accepts (Read.rc (.bytes (netfn :: cmd :: payload) room))
        (Read.store ibuf (.bytes (netfn :: cmd :: payload) room))).2.1 =
      expected accepts (.bytes (netfn :: cmd :: payload) room) ∧
    (forward accepts (Read.rc (.bytes (netfn :: cmd :: payload) room))
        (Read.store ibuf (.bytes (netfn :: cmd :: payload) room))).2.2 ≤ kcsBuffSize := by
  have hroom : payload.length + 2 ≤ 256 := room
  have hfirst : Read.store ibuf (.bytes (netfn :: cmd :: payload) room) 0 = netfn := rfl
  have hsecond (x : UInt8) :
      Function.update (Read.store ibuf (.bytes (netfn :: cmd :: payload) room)) 0 x 1 = cmd := rfl
  have hlen : toU16 (Read.rc (.bytes (netfn :: cmd :: payload) room) - 2) = payload.length := by
    exact toU16_length (by omega)
  simp only [forward, expected, Function.update_self, hfirst, hsecond, hlen, payload_eq room]
  split
  · refine ⟨rfl, ?_⟩
    change 2 + payload.length ≤ 256
    omega
  · exact ⟨rfl, Nat.le_of_ble_eq_true rfl⟩

theorem expected_le (accepts : UInt8 → UInt8 → Bool) (r : Read) :
    ∀ m ∈ expected accepts r, m.dataLen ≤ 254 := by
  intro m hm
  unfold expected at hm
  split at hm
  · next netfn cmd payload room =>
      have hroom : payload.length + 2 ≤ 256 := room
      split at hm
      · rw [List.mem_singleton.mp hm]
        change payload.length ≤ 254
        omega
      · exact absurd hm List.not_mem_nil
  · exact absurd hm List.not_mem_nil

theorem expected_short (hr : r.rc < 2) : expected accepts r = [] := by
  unfold expected
  split
  · next netfn cmd payload room =>
      simp only [Read.rc, List.length_cons] at hr
      omega
  · rfl

theorem forward_short (accepts : UInt8 → UInt8 → Bool) (rc : Int) (ibuf : Ibuf) :
    (accepts (ibuf 0 >>> 2) (ibuf 1) = false → (forward accepts rc ibuf).2 = ([], 2)) ∧
      (accepts (ibuf 0 >>> 2) (ibuf 1) = true → (forward accepts rc ibuf).2.1 ≠ []) := by
  have hsecond : Function.update ibuf 0 (ibuf 0 >>> 2) 1 = ibuf 1 := rfl
  simp only [forward, Function.update_self, hsecond]
  refine ⟨fun h => ?_, fun h => ?_⟩
  · rw [h]
    rfl
  · rw [h]
    exact List.cons_ne_nil _ _

/-- What is forwarded is right unless it is left over. -/
theorem forward_iff (r : Read) (ibuf : Ibuf) :
    ((forward accepts r.rc (r.store ibuf)).2.1 = expected accepts r ∧
        (forward accepts r.rc (r.store ibuf)).2.2 ≤ kcsBuffSize) ↔
      (r.rc < 2 → accepts (r.store ibuf 0 >>> 2) (r.store ibuf 1) = false) := by
  obtain ⟨hnone, hsome⟩ := forward_short accepts r.rc (r.store ibuf)
  by_cases hr : r.rc < 2
  · rw [expected_short hr]
    cases hstale : accepts (r.store ibuf 0 >>> 2) (r.store ibuf 1) with
    | false =>
        rw [hnone hstale]
        exact ⟨fun _ _ => rfl, fun _ => ⟨rfl, Nat.le_of_ble_eq_true rfl⟩⟩
    | true => exact ⟨fun h => absurd h.1 (hsome hstale), fun h => absurd (h hr) (by decide)⟩
  · refine iff_of_true ?_ fun h => absurd h hr
    match r, hr with
    | .error code, hr => exact absurd (by simp only [Read.rc]; omega) hr
    | .bytes [] _, hr => exact absurd (show ((0 : Nat) : Int) < 2 by decide) hr
    | .bytes [_] _, hr => exact absurd (show ((1 : Nat) : Int) < 2 by decide) hr
    | .bytes (netfn :: cmd :: payload) room, _ => exact forward_request room

/-- Printing stays in the buffer as long as its last byte is clear. -/
theorem printExtent_le_iff (h : ibuf ≠ zero) : printExtent ibuf ≤ kcsBuffSize ↔ ibuf 255 = 0 := by
  have hrev : (List.finRange kcsBuffSize).reverse =
      255 :: ((List.finRange 255).map Fin.castSucc).reverse := by
    have hlast : Fin.last 255 = 255 := rfl
    rw [List.finRange_succ_last, List.reverse_append, List.reverse_singleton,
      List.singleton_append, hlast]
  by_cases hlast : ibuf 255 = 0
  · refine iff_of_true ?_ hlast
    obtain ⟨i, hi⟩ := Function.ne_iff.mp h
    have hsome : (lastNonzero ibuf).isSome := by
      rw [lastNonzero, List.find?_isSome]
      exact ⟨i, List.mem_reverse.mpr (List.mem_finRange i), decide_eq_true hi⟩
    obtain ⟨j, hj⟩ := Option.isSome_iff_exists.mp hsome
    rw [lastNonzero] at hj
    have hset : ibuf j ≠ 0 := by simpa using List.find?_some hj
    have hne : j.val ≠ 255 := fun heq => hset (by rw [show j = 255 from Fin.ext heq, hlast])
    have hlt : j.val < 256 := j.isLt
    rw [printExtent, lastNonzero, hj]
    change j.val + 2 ≤ 256
    omega
  · refine iff_of_false ?_ hlast
    have hfound : lastNonzero ibuf = some 255 := by
      rw [lastNonzero, hrev, List.find?_cons, decide_eq_true hlast]
    rw [printExtent, hfound]
    decide

theorem body61_right (s : Kcs) (r : Read) :
    Right palRequestMsg61 ⟨r, (body61 r s.ibuf).2.1, (body61 r s.ibuf).2.2⟩ ↔ Safe61 s r := by
  by_cases hzero : r.store s.ibuf = zero
  · have hstale : palRequestMsg61 (r.store s.ibuf 0 >>> 2) (r.store s.ibuf 1) = false := by
      rw [hzero]
      decide
    have hbody : (body61 r s.ibuf).2 = ([], kcsBuffSize) := by
      rw [body61, if_neg (not_not.mpr hzero)]
    have hnone := (forward_iff r s.ibuf).mpr fun _ => hstale
    rw [((forward_short palRequestMsg61 r.rc (r.store s.ibuf)).1 hstale)] at hnone
    rw [hbody]
    refine iff_of_true ⟨hnone.1, nofun, Nat.le_refl _⟩ ⟨?_, fun _ => hstale⟩
    rw [hzero]
    rfl
  · have hbody : (body61 r s.ibuf).2 = ((forward palRequestMsg61 r.rc (r.store s.ibuf)).2.1,
        max (printExtent (r.store s.ibuf))
          (forward palRequestMsg61 r.rc (r.store s.ibuf)).2.2) := by
      rw [body61, if_pos hzero]
    rw [hbody, Safe61, NoStale, ← forward_iff, ← printExtent_le_iff hzero]
    constructor
    · intro h
      have hextent := max_le_iff.mp h.extent
      exact ⟨hextent.1, h.notified, hextent.2⟩
    · rintro ⟨hprint, hnotified, hextent⟩
      refine ⟨hnotified, ?_, max_le hprint hextent⟩
      rw [hnotified]
      exact expected_le palRequestMsg61 r

theorem bodyOpenbic_right (s : Kcs) (r : Read) :
    Right palRequestMsgOpenbic ⟨r, (bodyOpenbic r s.ibuf).2.1, (bodyOpenbic r s.ibuf).2.2⟩ ↔
      SafeOpenbic s r := by
  by_cases herr : r.rc < 0
  · have hbody : (bodyOpenbic r s.ibuf).2 = ([], 0) := by
      rw [bodyOpenbic, if_pos herr]
    rw [hbody]
    have hshort : r.rc < 2 := by omega
    exact iff_of_true ⟨(expected_short hshort).symm, nofun, Nat.zero_le _⟩ fun hpos =>
      absurd herr (by omega)
  · have hbody : bodyOpenbic r s.ibuf = forward palRequestMsgOpenbic r.rc (r.store s.ibuf) :=
      if_neg herr
    rw [hbody, SafeOpenbic, NoStale, ← forward_iff]
    constructor
    · intro h _
      exact ⟨h.notified, h.extent⟩
    · intro h
      obtain ⟨hnotified, hextent⟩ := h (by omega)
      refine ⟨hnotified, ?_, hextent⟩
      rw [hnotified]
      exact expected_le palRequestMsgOpenbic r

/-- A loop whose body is right under a condition on buffer and read, over a whole run. -/
theorem allRight_iff {body : Read → Ibuf → Ibuf × List IpmiMsg × Nat} {safe : Kcs → Read → Prop}
    (hbody : ∀ s r, Right accepts ⟨r, (body r s.ibuf).2.1, (body r s.ibuf).2.2⟩ ↔ safe s r)
    (reads : List Read) :
    Always (step body) (AllRight accepts) {} reads ↔ Follows (step body) safe {} reads := by
  have hnone : AllRight accepts {} := nofun
  refine always_iff_follows hnone ?_ (fun _ h => h) ?_
  · intro s r h hsafe i hi
    rcases List.mem_append.mp hi with hi | hi
    · exact h i hi
    · rw [List.mem_singleton.mp hi]
      exact (hbody s r).mpr hsafe
  · intro s r _ hunsafe h
    exact hunsafe ((hbody s r).mp (h _ (List.mem_append_right _ (List.mem_singleton_self _))))

/-- Over every sequence of reads each loop forwards each message once and nothing else, and
stays in the buffer, exactly when all its reads are safe. -/
theorem kcs_forwards_iff (reads : List Read) :
    (Always (step body61) (AllRight palRequestMsg61) {} reads ↔
      Follows (step body61) Safe61 {} reads) ∧
      (Always (step bodyOpenbic) (AllRight palRequestMsgOpenbic) {} reads ↔
        Follows (step bodyOpenbic) SafeOpenbic {} reads) :=
  ⟨allRight_iff body61_right reads, allRight_iff bodyOpenbic_right reads⟩

/-- A message that is not for the BIC, and a poll without data: what is left of it is taken
for a Get Device ID request, of 65473 bytes. -/
def idleAfterMessage : List Read := [.bytes [0x60, 0x01] (by decide), .error 60]

/-- Neither loop is right on all inputs: the first sends `idleAfterMessage` on, the second an
empty read into a fresh buffer, as a chassis request. -/
theorem kcs_forwards_stale :
    (¬ ∀ reads, Always (step body61) (AllRight palRequestMsg61) {} reads) ∧
      ¬ ∀ reads, Always (step bodyOpenbic) (AllRight palRequestMsgOpenbic) {} reads := by
  constructor
  · intro h
    have hidle := ((h idleAfterMessage).last _ (List.mem_of_getElem? (i := 1) rfl)).notified
    exact absurd (congrArg List.length hidle) (by decide +kernel)
  · intro h
    have hempty := ((h [.bytes [] (by decide)]).last _ (List.mem_of_getElem? (i := 0) rfl)).notified
    exact absurd (congrArg List.length hempty) (by decide +kernel)

end Kcs

end LinkedsemiZephyr.Ipmi
