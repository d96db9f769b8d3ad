import LinkedsemiZephyr.Ipmi.IpmbChannel

/-! One request over the bus and its response back: two controllers, each with its own
configuration for the other. -/
namespace LinkedsemiZephyr.Ipmb
open Octets Buffer SumCheck

/-- `IPMB_RXTask` up to the type of the message: what fails the checksums is ignored. -/
def arrives (heap wire : Bytes) (old : IpmiMsg) : Option IpmiMsg :=
  if accepts heap wire then some (ipmbDecode old (receive heap wire) (UInt8.ofNat wire.length))
  else none

/-- What `ipmi_cmd_handle` fills in of a request before it goes to `ipmb_send_response`. -/
def answer (request : IpmiMsg) (completionCode : UInt8) (data : Payload) : IpmiMsg :=
  { request with completionCode := completionCode, data := data }

variable {msg : IpmiMsg} {cfg : IpmbConfig}

theorem arrives_transmit (i2c : I2c) (cfg : IpmbConfig) (msg old : IpmiMsg) (stack heap : Bytes)
    (htarget : msg.destAddr = cfg.channelTargetAddress)
    (hfit : msg.headerLength + msg.dataLen ≤ 254) :
    arrives heap (transmit i2c cfg stack msg) old = some (decoded old (addressed msg)) := by
  rw [arrives, if_pos (accepts_transmit i2c stack heap htarget hfit),
    ipmbDecode_transmit i2c old stack heap htarget hfit]

theorem headerLength_of_request (h : msg.isResponse = false) : msg.headerLength = 6 := by
  rw [IpmiMsg.headerLength, h]
  rfl

theorem headerLength_of_response (h : msg.isResponse = true) : msg.headerLength = 7 := by
  rw [IpmiMsg.headerLength, h]
  rfl

theorem mask_of_lt {x : UInt8} (h : x.toNat < 64) : x &&& 0x3f = x := by
  apply UInt8.toNat_inj.mp
  rw [UInt8.toNat_and]
  exact (Nat.and_two_pow_sub_one_eq_mod _ 6).trans (Nat.mod_eq_of_lt h)

/-- The response to a request net function, cut to its six bits, has the request's beside it. -/
theorem netfn_of_response (h : msg.isResponse = false) (hnetfn : msg.netfn.toNat < 64) :
    ((msg.netfn + 1) &&& 0x3f) &&& ~~~0x01 = msg.netfn := by
  have hall : ∀ n : Fin 256, n.val < 64 → UInt8.ofFin n &&& 0x01 = 0 →
      ((UInt8.ofFin n + 1) &&& 0x3f) &&& ~~~0x01 = UInt8.ofFin n := by decide +kernel
  rw [IpmiMsg.isResponse, bne_eq_false_iff_eq] at h
  exact hall msg.netfn.toFin hnetfn h

/-- Under exact registration a response finds the record with its number, and no other. -/
theorem find_own_record {q : SeqQueue} {node response : IpmiMsg} (hexact : q.Exact)
    (hnode : node ∈ q.nodes) (hanswers : SeqQueue.answers response node = true) :
    ∃ q', q.findReqIpmiMsg response = some (SeqQueue.returnTo response node, q') ∧ q'.Exact ∧
      q.nodes.Perm (node :: q'.nodes) := by
  rcases q.takeReq_cases response with ⟨hnone, -⟩ | ⟨found, hsome, hu⟩
  · have hno := SeqQueue.unlink_none hnone node hnode
    rw [hanswers] at hno
    cases hno
  · have hfound := hu.found
    simp only [SeqQueue.answers, Bool.and_eq_true, beq_iff_eq] at hfound hanswers
    have hmem : found ∈ q.nodes := hu.perm.mem_iff.mpr List.mem_cons_self
    have hsame : found = node :=
      List.inj_on_of_nodup_map hexact.distinct hmem hnode (hfound.2.trans hanswers.2.symm)
    refine ⟨q.takeReq response, ?_, (hexact.unlink hu).1, ?_⟩
    · rw [SeqQueue.findReqIpmiMsg, hsome, hsame]
    · rw [← hsame]
      exact hu.perm

/-- A request that `ipmb_send_request` builds reaches the other controller as it was given, and
the answer given to it there comes back to the record it left, as long as that is outstanding:
with the code and the data of the answer, and with the interface and number the request came by. -/
theorem request_response_exchange (i2c : I2c) (a b : IpmbConfig) (q : SeqQueue)
    (req stack stackB oldA oldB : IpmiMsg) (txA txB heapA heapB : Bytes)
    (seq completionCode : UInt8) (data : Payload) (now : UInt32) (hrequest : req.isResponse = false)
    (hnetfn : req.netfn.toNat < 64) (hseq : seq.toNat < 64) (hreq : 6 + req.dataLen ≤ 254)
    (hresp : 7 + data.val.length ≤ 254) (hexact : q.Exact)
    (hrecord : { (Channel.toRecord (requestCfg a seq req stack)).buffer with timestamp := now } ∈
      q.nodes) :
    ∃ d r out q',
      arrives heapB (transmit i2c a txA (Channel.toRecord (requestCfg a seq req stack)).buffer)
        oldB = some d ∧
      (d.netfn = req.netfn ∧ d.cmd = req.cmd ∧ d.seq = seq ∧ d.data = req.data) ∧
      arrives heapA (transmit i2c b txB
        (responseCfg b (answer d completionCode data) stackB).buffer) oldA = some r ∧
      q.findReqIpmiMsg { r with seqTarget := r.seq } = some (out, q') ∧
      (out.completionCode = completionCode ∧ out.data = data ∧ out.cmd = req.cmd) ∧
      (out.seqSource = req.seqSource ∧ out.inFSource = req.inFSource ∧
        out.inFTarget = req.inFTarget ∧
        out.pldmInstId = req.pldmInstId) ∧
      q'.Exact ∧ seq ∉ q'.numbers := by
  let m := (Channel.toRecord (requestCfg a seq req stack)).buffer
  have hm : m.isResponse = false := hrequest
  have hwire := arrives_transmit i2c a m oldB txA heapB rfl
    (by rw [headerLength_of_request hm]; exact hreq)
  have hd : (decoded oldB (addressed m)).netfn = req.netfn := mask_of_lt hnetfn
  have hdseq : (decoded oldB (addressed m)).seq = seq := mask_of_lt hseq
  have hdresponse : (decoded oldB (addressed m)).isResponse = false := by
    rw [IpmiMsg.isResponse, hd]
    exact hrequest
  let d := decoded oldB (addressed m)
  let resp := (responseCfg b (answer d completionCode data) stackB).buffer
  have hresponse : resp.isResponse = true :=
    Channel.isResponse_responseCfg b ⟨answer d completionCode data, hdresponse⟩ stackB
  have hback := arrives_transmit i2c b resp oldA txB heapA rfl
    (by rw [headerLength_of_response hresponse]; exact hresp)
  let r := decoded oldA (addressed resp)
  have hrnetfn : r.netfn &&& ~~~0x01 = req.netfn := by
    change ((d.netfn + 1) &&& 0x3f) &&& ~~~0x01 = req.netfn
    rw [hd]
    exact netfn_of_response hrequest hnetfn
  have hrseq : r.seq = seq := by
    change d.seq &&& 0x3f = seq
    rw [hdseq]
    exact mask_of_lt hseq
  have hanswers : SeqQueue.answers { r with seqTarget := r.seq }
      { m with timestamp := now } = true := by
    simp only [SeqQueue.answers, Bool.and_eq_true, beq_iff_eq]
    exact ⟨⟨hrnetfn.symm, rfl⟩, hrseq.symm⟩
  obtain ⟨q', hfind, hexact', hperm⟩ := find_own_record hexact hrecord hanswers
  have hcode : r.completionCode = completionCode := if_pos hresponse
  refine ⟨d, r, _, q', hwire, ⟨hd, rfl, hdseq, rfl⟩, hback, hfind, ⟨hcode, rfl, rfl⟩,
    ⟨rfl, rfl, rfl, rfl⟩, hexact', ?_⟩
  have hnumbers := (hperm.map IpmiMsg.seqTarget).nodup_iff.mp hexact.distinct
  exact (List.nodup_cons.mp hnumbers).1

/-- The queue after one `GET_DEVICE_ID` with number 5 at tick 9. -/
def oneOutstanding : SeqQueue :=
  SeqQueue.insertReqIpmiMsg {}
    (Channel.toRecord (requestCfg ⟨0x02, 0x20, 0x10⟩ 5 getDeviceId .zero)).buffer 9 true

theorem request_response_exchange_get_device_id :
    ∃ d r out q',
      arrives [] (transmit busWrite ⟨0x02, 0x20, 0x10⟩ []
        (Channel.toRecord (requestCfg ⟨0x02, 0x20, 0x10⟩ 5 getDeviceId .zero)).buffer)
          .zero = some d ∧
      (d.netfn = 0x06 ∧ d.cmd = 0x01 ∧ d.seq = 5 ∧ d.data = getDeviceId.data) ∧
      arrives [] (transmit busWrite ⟨0x02, 0x10, 0x20⟩ []
        (responseCfg ⟨0x02, 0x10, 0x20⟩ (answer d 0 ⟨[0x51], by decide⟩) .zero).buffer)
          .zero = some r ∧
      oneOutstanding.findReqIpmiMsg { r with seqTarget := r.seq } = some (out, q') ∧
      (out.completionCode = 0 ∧ out.data = ⟨[0x51], by decide⟩ ∧ out.cmd = 0x01) ∧
      (out.seqSource = 0 ∧ out.inFSource = 0 ∧ out.inFTarget = 0 ∧ out.pldmInstId = 0) ∧
      q'.Exact ∧ 5 ∉ q'.numbers := by
  have hempty : SeqQueue.Exact {} :=
    ⟨List.nodup_nil, fun _ => iff_of_false Bool.false_ne_true List.not_mem_nil⟩
  have hexact : oneOutstanding.Exact :=
    hempty.append List.not_mem_nil
  exact request_response_exchange busWrite ⟨0x02, 0x20, 0x10⟩ ⟨0x02, 0x10, 0x20⟩ oneOutstanding
    getDeviceId .zero .zero .zero
    .zero [] [] [] [] 5 0 ⟨[0x51], by decide⟩ 9 (by decide) (by decide) (by decide) (by decide)
    (by decide) hexact
    (List.mem_singleton_self _)

end LinkedsemiZephyr.Ipmb
