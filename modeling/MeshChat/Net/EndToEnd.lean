import MeshChat.Net.Transport
import MeshChat.Server.Wire

/-!
# From the client's builders to the server's parsers, and back

The client's half of the connection (`client_net.c`), and the two directions of
the protocol over it: what a request says when the server has read it, and what
a group's address is when the client has parsed the reply.
-/
namespace MeshChat
open Server

/-- `send_all` of the first `len` bytes of `buf`. -/
def sendAll (s : Socket) (buf : List UInt8) (len : ℕ) : Int × Socket := s.writeLoop buf len

/-- `recv_all` of `len` bytes, with the bytes stored. -/
def recvAll (s : Socket) (len : ℕ) : Int × List UInt8 × Socket := s.readLoop len

/-- `net_send_recv` up to its first `recv_all`. -/
def sendRequest (s : Socket) (sendBuf : FrameBuf) (request : TLVMessage) : Int × Socket :=
  let r := serializeMsg request sendBuf.val
  if r.1 ≠ 0 then (-1, s)
  else
    let (ret, s) := sendAll s r.2.1 r.2.2.toNat
    if ret ≠ 0 then (-1, s) else (0, s)

/-- `net_send_recv` from its first `recv_all` on. -/
def recvResponse (s : Socket) (recvBuf : FrameBuf) (response : TLVMessage) :
    Int × TLVMessage × Socket :=
  let (ret, header, s) := recvAll s 2
  if ret ≠ 0 then (-1, response, s)
  else
    let tag := header.getD 0 0
    let length := header.getD 1 0
    let buf := memcpy (memcpy recvBuf.val 0 [tag]) 1 [length]
    let (ret, value, s) := if 0 < length then recvAll s length.toNat else (0, [], s)
    if ret ≠ 0 then (-1, response, s)
    else
      let (ret, response) :=
        deserializeMsg (memcpy buf 2 value) (UInt8.ofNat (2 + length.toNat)) response
      if ret ≠ 0 then (-1, response, s) else (0, response, s)

/-- `net_send_recv` on the socket of `server_fd`. -/
def netSendRecv (serverFd : Int) (s : Socket) (sendBuf recvBuf : FrameBuf)
    (request response : TLVMessage) : Int × TLVMessage × Socket :=
  if serverFd < 0 then (-1, response, s)
  else
    let (ret, s) := sendRequest s sendBuf request
    if ret ≠ 0 then (-1, response, s) else recvResponse s recvBuf response

/-- The two ends send in the same way. -/
theorem sendRequest_eq (s : Socket) (sendBuf : FrameBuf) (request : TLVMessage) :
    sendRequest s sendBuf request = netSendMsg s sendBuf request := by
  have hret : (serializeMsg request sendBuf.val).1 = 0 := rfl
  simp only [sendRequest, netSendMsg, hret, ne_eq, not_true_eq_false, if_false, sendAll,
    Socket.writeLoop]
  split <;> simp

/-- What `net_send_recv` makes of a frame that the calls deliver: it re-packs the
message and decodes that under the 8-bit total length. -/
theorem recvResponse_whole {s : Socket} {msg : TLVMessage} {rest : List UInt8}
    {mid later : Chunked.Schedule} (hs : s.unread = msg.frame ++ rest)
    (hheader : Chunked.Moves s.reads 2 mid)
    (hvalue : Chunked.Moves mid msg.length.toNat later) (recvBuf : FrameBuf)
    (response : TLVMessage) :
    recvResponse s recvBuf response =
      let decoded := deserializeMsg (serializeMsg msg recvBuf.val).2.1 msg.outLen response
      (if decoded.1 ≠ 0 then -1 else 0, decoded.2,
        { s with unread := rest, reads := later }) := by
  rw [TLVMessage.frame, List.append_assoc] at hs
  have hread := @Socket.readLoop_of_moves s [msg.tag, msg.length] _ _ hheader hs
  rw [show [msg.tag, msg.length].length = 2 from rfl] at hread
  have hrest : (if 0 < msg.length then
        recvAll { s with unread := msg.payload ++ rest, reads := mid } msg.length.toNat
      else (0, [], { s with unread := msg.payload ++ rest, reads := mid })) =
        (0, msg.payload, { s with unread := rest, reads := later }) := by
    have hpay := msg.payload_length
    split
    · rw [← hpay] at hvalue
      have hloop := Socket.readLoop_of_moves
        (s := { s with unread := msg.payload ++ rest, reads := mid }) hvalue rfl
      rwa [hpay] at hloop
    · rename_i hpos
      have hzero : msg.length.toNat = 0 := by
        rw [UInt8.lt_iff_toNat_lt] at hpos
        exact Nat.eq_zero_of_not_pos hpos
      rw [hzero] at hvalue
      cases hvalue with
      | call _ hpos' _ => exact absurd hpos' (lt_irrefl 0)
      | done =>
        rw [hzero, List.length_eq_zero_iff] at hpay
        rw [hpay]
        rfl
  change recvAll s 2 = _ at hread
  simp only [recvResponse, hread, ne_eq, not_true_eq_false, if_false, List.getD_cons_zero,
    List.getD_cons_succ, hrest]
  change (if ¬ (deserializeMsg (serializeMsg msg recvBuf.val).2.1 msg.outLen response).1 = 0
    then _ else _) = _
  split <;> rfl

/-- A delivered frame of at most 253 value bytes is received as its message. -/
theorem recvResponse_short {s : Socket} {msg : TLVMessage} {rest : List UInt8}
    {mid later : Chunked.Schedule} (hs : s.unread = msg.frame ++ rest)
    (hheader : Chunked.Moves s.reads 2 mid)
    (hvalue : Chunked.Moves mid msg.length.toNat later) (hlen : msg.length.toNat ≤ 253)
    (recvBuf : FrameBuf) (response : TLVMessage) :
    ∃ got, msg.Agrees got ∧
      recvResponse s recvBuf response = (0, got, { s with unread := rest, reads := later }) := by
  have hback := deserializeMsg_frame msg
    ((serializeMsg msg recvBuf.val).2.1.drop (2 + msg.length.toNat))
    (msg.outLen_eq_iff.mpr hlen) response
  rw [← serializeMsg_take msg recvBuf, List.take_append_drop] at hback
  obtain ⟨hret, hagrees⟩ := hback
  refine ⟨_, hagrees, ?_⟩
  simp only [recvResponse_whole hs hheader hvalue, hret, ne_eq, not_true_eq_false, if_false]

/-- A short frame at the front of the stream is received as its message. -/
theorem recvResponse_frame {s : Socket} (hf : Chunked.Flows s.reads) {msg : TLVMessage}
    (hlen : msg.length.toNat ≤ 253) {rest : List UInt8} (hs : s.unread = msg.frame ++ rest)
    (recvBuf : FrameBuf) (response : TLVMessage) :
    ∃ later got, Chunked.Flows later ∧ msg.Agrees got ∧
      recvResponse s recvBuf response = (0, got, { s with unread := rest, reads := later }) := by
  obtain ⟨mid, hmid, hheader⟩ := hf.moves 2
  obtain ⟨later, hlater, hvalue⟩ := hmid.moves msg.length.toNat
  obtain ⟨got, hgot, hread⟩ := recvResponse_short hs hheader hvalue hlen recvBuf response
  exact ⟨later, got, hlater, hgot, hread⟩

/-- A reply that agrees with a group's address is parsed to that address. -/
theorem parseGroupInfo_of_agrees {msg got : TLVMessage} (ip : CharArray mcastIpLen) {port : UInt16}
    (htag : msg.tag = MessageTag.groupInfo.code) (hpay : msg.payload = groupInfoPayload ip.toCStr port)
    (h : msg.Agrees got) : parseGroupInfo got = some (ip, port) :=
  parseGroupInfo_of_payload (h.1.symm.trans htag) (h.2.2.symm.trans hpay)

/-- A call of one of the client's message builders. -/
inductive ClientRequest where
  | auth (tag : MessageTag) (username password : CStr)
  | group (tag : MessageTag) (groupName : CStr)
  | simple (tag : MessageTag)

namespace ClientRequest

def tag : ClientRequest → MessageTag
  | auth tag _ _ => tag
  | group tag _ => tag
  | simple tag => tag

/-- The builder's call, over the old contents of the message. -/
def build (msg : TLVMessage) : ClientRequest → Option TLVMessage
  | auth tag username password => buildAuthMsg msg tag username password
  | group tag groupName => buildGroupMsg msg tag groupName
  | simple tag => buildSimpleMsg msg tag

/-- The value bytes that stand for the request. -/
def payload : ClientRequest → List UInt8
  | auth _ username password => authPayload username password
  | group _ groupName => groupPayload groupName
  | simple _ => []

/-- The lengths and offsets that the builder keeps in a `uint8_t`, without
wrapping, and the total length that `serialize_msg` keeps in one. -/
def narrowed : ClientRequest → List ℕ
  | auth _ username password =>
      let ulen := strlen username
      let plen := strlen password
      [ulen, plen, 1 + ulen, 1 + ulen + 1, 1 + ulen + 1 + plen, 2 + (1 + ulen + 1 + plen)]
  | group _ groupName =>
      [strlen groupName, 1 + strlen groupName, 2 + (1 + strlen groupName)]
  | simple _ => [0, 2]

/-- What the server reads out of the message is what the client put into it. -/
def ReadAs (req : ClientRequest) (msg : TLVMessage) : Prop :=
  msg.tag = req.tag.code ∧
  match req with
  | auth _ username password => ∃ uname pass, parseAuthValue msg = some (uname, pass) ∧
      uname.toCStr = username ∧ pass.toCStr = password
  | group _ groupName => ∃ gname, parseGroupValue msg = some gname ∧ gname.toCStr = groupName
  | simple _ => msg.length = 0

variable {req : ClientRequest} {msg m got : TLVMessage}

theorem build_spec (h : req.build msg = some m) :
    m.tag = req.tag.code ∧ m.payload = req.payload ∧ ∀ n ∈ req.narrowed, n < 256 := by
  cases req with
  | auth tag username password =>
    obtain ⟨-, htag, hpay, ⟨-, hu⟩, -, hp⟩ := buildAuthMsg_spec h
    have hu32 : strlen username < 32 := hu
    have hp64 : strlen password < 64 := hp
    refine ⟨htag, hpay, ?_⟩
    simp only [narrowed, List.mem_cons, List.not_mem_nil, or_false]
    omega
  | group tag groupName =>
    obtain ⟨-, htag, hpay, -, hg⟩ := buildGroupMsg_spec h
    have hg32 : strlen groupName < 32 := hg
    refine ⟨htag, hpay, ?_⟩
    simp only [narrowed, List.mem_cons, List.not_mem_nil, or_false]
    omega
  | simple tag =>
    obtain ⟨-, htag, hpay⟩ := buildSimpleMsg_spec h
    exact ⟨htag, hpay, by simp [narrowed]⟩

/-- A request never comes near the lengths at which the total wraps. -/
theorem build_length (h : req.build msg = some m) : m.length.toNat ≤ 253 := by
  obtain ⟨-, hpay, hnarrow⟩ := build_spec h
  rw [← m.payload_length, hpay]
  cases req with
  | auth tag username password =>
    have := hnarrow (2 + (1 + strlen username + 1 + strlen password)) (by simp [narrowed])
    simp only [payload, authPayload, List.length_append, List.length_cons, strlen] at this ⊢
    omega
  | group tag groupName =>
    have := hnarrow (2 + (1 + strlen groupName)) (by simp [narrowed])
    simp only [payload, groupPayload, List.length_cons, strlen] at this ⊢
    omega
  | simple tag => simp [payload]

/-- Any message that agrees with the built one is read as the request. -/
theorem readAs_of_agrees (h : req.build msg = some m) (hgot : m.Agrees got) : req.ReadAs got := by
  obtain ⟨htag, hpay, -⟩ := build_spec h
  have htag' : got.tag = req.tag.code := hgot.1.symm.trans htag
  have hpay' : got.payload = req.payload := hgot.2.2.symm.trans hpay
  refine ⟨htag', ?_⟩
  cases req with
  | auth tag username password =>
    obtain ⟨-, -, -, ⟨hu, hu'⟩, hp, hp'⟩ := buildAuthMsg_spec h
    exact ⟨⟨username, hu'⟩, ⟨password, hp'⟩, parseAuthValue_of_payload hu hp hpay', rfl, rfl⟩
  | group tag groupName =>
    obtain ⟨-, -, -, hg, hg'⟩ := buildGroupMsg_spec h
    exact ⟨⟨groupName, hg'⟩, parseGroupValue_of_payload hg hpay', rfl⟩
  | simple tag =>
    have hlen := congrArg List.length hpay'
    rw [got.payload_length] at hlen
    exact UInt8.toNat_inj.mp hlen

/-- A message that one of the builders made for the request. -/
def BuiltAs (req : ClientRequest) (m : TLVMessage) : Prop := ∃ msg, req.build msg = some m

theorem forall₂_readAs {reqs : List ClientRequest} {built read : List TLVMessage}
    (hbuilt : List.Forall₂ BuiltAs reqs built) (hread : List.Forall₂ TLVMessage.Agrees built read) :
    List.Forall₂ ReadAs reqs read := by
  induction hbuilt generalizing read with
  | nil =>
    cases hread
    exact .nil
  | cons hb hbs ih =>
    cases hread with
    | cons hr hrs =>
      obtain ⟨msg, hm⟩ := hb
      exact .cons (readAs_of_agrees hm hr) (ih hrs)

/-- No 8-bit value of the requests wraps, and none of them is too long. -/
theorem forall₂_builtAs_narrow {reqs : List ClientRequest} {built : List TLVMessage}
    (h : List.Forall₂ BuiltAs reqs built) :
    (∀ req ∈ reqs, ∀ n ∈ req.narrowed, n < 256) ∧ ∀ m ∈ built, m.length.toNat ≤ 253 := by
  induction h with
  | nil => exact ⟨nofun, nofun⟩
  | cons hb hbs ih =>
    obtain ⟨msg, hm⟩ := hb
    exact ⟨List.forall_mem_cons.mpr ⟨(build_spec hm).2.2, ih.1⟩,
      List.forall_mem_cons.mpr ⟨build_length hm, ih.2⟩⟩

end ClientRequest

/-- Requests sent one after another, without waiting for replies. -/
def sendRequests (s : Socket) : List (FrameBuf × TLVMessage) → Int × Socket
  | [] => (0, s)
  | (sendBuf, request) :: rest =>
      let (ret, s) := sendRequest s sendBuf request
      if ret ≠ 0 then (-1, s) else sendRequests s rest

theorem sendRequests_eq (s : Socket) (sends : List (FrameBuf × TLVMessage)) :
    sendRequests s sends = netSendMsgs s sends := by
  induction sends generalizing s with
  | nil => rfl
  | cons x rest ih => simp only [sendRequests, netSendMsgs, sendRequest_eq, ih]

/-- The server reads the requests that were sent, however the bytes are cut. -/
def RequestsArrive (reqs : List ClientRequest) (sends : List (FrameBuf × TLVMessage)) : Prop :=
  ∀ s : Socket, (Chunked.Flows s.writes → (sendRequests s sends).1 = 0) ∧
    ((sendRequests s sends).1 = 0 →
      ∀ (peer : Socket) (later : List UInt8) (into : List TLVMessage), Chunked.Flows peer.reads →
        peer.unread = (sendRequests s sends).2.written.drop s.written.length ++ later →
        into.length = reqs.length →
          (netReadMsgs peer into).1 = 0 ∧
          List.Forall₂ ClientRequest.ReadAs reqs (netReadMsgs peer into).2.1 ∧
          (netReadMsgs peer into).2.2.unread = later)

/-- The client that waits for the reply gets the address that was sent. -/
def AddressArrives (ip : CStr) (port : UInt16) (reply : TLVMessage) : Prop :=
  ∀ (s : Socket) (buf : FrameBuf), (Chunked.Flows s.writes → (netSendMsg s buf reply).1 = 0) ∧
    ((netSendMsg s buf reply).1 = 0 →
      ∀ (serverFd : Int) (c : Socket) (sendBuf recvBuf : FrameBuf) (request response : TLVMessage)
        (later : List UInt8), 0 ≤ serverFd → (sendRequest c sendBuf request).1 = 0 →
        Chunked.Flows c.reads →
        c.unread = (netSendMsg s buf reply).2.written.drop s.written.length ++ later →
          let r := netSendRecv serverFd c sendBuf recvBuf request response
          r.1 = 0 ∧ (∃ addr, parseGroupInfo r.2.1 = some (addr, port) ∧ addr.toCStr = ip) ∧
            r.2.2.unread = later)

theorem requestsArrive {reqs : List ClientRequest} {sends : List (FrameBuf × TLVMessage)}
    (hbuilt : List.Forall₂ ClientRequest.BuiltAs reqs (sends.map Prod.snd)) :
    RequestsArrive reqs sends := by
  intro s
  simp only [sendRequests_eq]
  refine ⟨fun hf => netSendMsgs_flows hf sends, fun hret peer later into hf hpeer hinto => ?_⟩
  have hback := (streamsBack_iff _).mpr (ClientRequest.forall₂_builtAs_narrow hbuilt).2
  obtain ⟨-, hread⟩ := hback s sends rfl hret
  obtain ⟨hok, hagrees, hrest⟩ := hread peer later into hf hpeer (hinto.trans hbuilt.length_eq)
  exact ⟨hok, ClientRequest.forall₂_readAs hbuilt hagrees, hrest⟩

/-- The 8-bit values of a reply with an address: the string's length, the offset
behind it, the length byte, which the parser computes again, and the total length. -/
def replyNarrowed (ip : CStr) : List ℕ :=
  [strlen ip, 1 + strlen ip, 1 + strlen ip + 2, 2 + (1 + strlen ip + 2)]

theorem replyNarrowed_lt {ip : CStr} (h : strlen ip < mcastIpLen) :
    ∀ n ∈ replyNarrowed ip, n < 256 := by
  have h16 : strlen ip < 16 := h
  simp only [replyNarrowed, List.mem_cons, List.not_mem_nil, or_false]
  omega

theorem buildGroupInfoMsg_length {msg reply : TLVMessage} {ip : CStr} {port : UInt16}
    (h : buildGroupInfoMsg msg ip port = some reply) : reply.length.toNat ≤ 253 := by
  obtain ⟨-, hpay, -, hip⟩ := buildGroupInfoMsg_spec h
  have hlt := replyNarrowed_lt hip (2 + (1 + strlen ip + 2)) (by simp [replyNarrowed])
  rw [← reply.payload_length, hpay]
  simp only [groupInfoPayload, portBytes, List.length_append, List.length_cons, List.length_nil]
  change strlen ip + 1 + _ ≤ _
  omega

theorem addressArrives {msg reply : TLVMessage} {ip : CStr} {port : UInt16}
    (h : buildGroupInfoMsg msg ip port = some reply) : AddressArrives ip port reply := by
  obtain ⟨htag, hpay, -, hip⟩ := buildGroupInfoMsg_spec h
  have hlen := buildGroupInfoMsg_length h
  intro s buf
  refine ⟨fun hf => (netSendMsg_flows hf buf reply).1, ?_⟩
  intro hret serverFd c sendBuf recvBuf request response later hfd hreq hf hc
  rw [netSendMsg_written hret, reply.outLen_eq_iff.mpr hlen, ← reply.frame_length,
    List.take_length, List.drop_left] at hc
  have hunread : (sendRequest c sendBuf request).2.unread = reply.frame ++ later := by
    rw [sendRequest_eq, ← hc]
    rfl
  have hreads : Chunked.Flows (sendRequest c sendBuf request).2.reads := by
    rw [sendRequest_eq]
    exact hf
  obtain ⟨sched, got, -, hgot, hrecv⟩ := recvResponse_frame hreads hlen hunread recvBuf response
  have hr : netSendRecv serverFd c sendBuf recvBuf request response =
      (0, got, { (sendRequest c sendBuf request).2 with unread := later, reads := sched }) := by
    simp only [netSendRecv, if_neg (not_lt.mpr hfd), hreq, ne_eq, not_true_eq_false, if_false, hrecv]
  rw [hr]
  exact ⟨rfl, ⟨⟨ip, hip⟩, parseGroupInfo_of_agrees ⟨ip, hip⟩ htag hpay hgot, rfl⟩, rfl⟩

/-- What the client builds is what the server parses, and the address the server
sends is the address the client parses; no 8-bit value on the way wraps. -/
theorem payload_round_trip :
    (∀ (reqs : List ClientRequest) (sends : List (FrameBuf × TLVMessage)),
      List.Forall₂ ClientRequest.BuiltAs reqs (sends.map Prod.snd) →
        RequestsArrive reqs sends ∧ (∀ req ∈ reqs, ∀ n ∈ req.narrowed, n < 256) ∧
          ∀ send ∈ sends, send.2.outLen.toNat = 2 + send.2.length.toNat) ∧
    ∀ (msg reply : TLVMessage) (ip : CStr) (port : UInt16),
      buildGroupInfoMsg msg ip port = some reply →
        AddressArrives ip port reply ∧ (∀ n ∈ replyNarrowed ip, n < 256) ∧
          reply.outLen.toNat = 2 + reply.length.toNat := by
  constructor
  · intro reqs sends hbuilt
    obtain ⟨hnarrow, hlen⟩ := ClientRequest.forall₂_builtAs_narrow hbuilt
    exact ⟨requestsArrive hbuilt, hnarrow, fun send hsend =>
      send.2.outLen_eq_iff.mpr (hlen _ (List.mem_map_of_mem hsend))⟩
  · intro msg reply ip port h
    exact ⟨addressArrives h, replyNarrowed_lt (buildGroupInfoMsg_spec h).2.2.2,
      reply.outLen_eq_iff.mpr (buildGroupInfoMsg_length h)⟩

/-! A registration, a new group and a logout behind each other, and one address. -/

def shortRequests : List ClientRequest :=
  [.auth .register ⟨[97], by decide⟩ ⟨[98], by decide⟩, .group .createGroup ⟨[99], by decide⟩,
    .simple .logout]

def zeroBuf : FrameBuf := ⟨List.replicate (2 + tlvMaxValueLen) 0, List.length_replicate⟩

def shortSends : List (FrameBuf × TLVMessage) :=
  shortRequests.map fun req => (zeroBuf, (req.build .blank).getD .blank)

def shortAddress : CStr := ⟨[50, 50, 52, 46, 48, 46, 48, 46, 49], by decide⟩

def shortReply : TLVMessage := (buildGroupInfoMsg .blank shortAddress 5000).getD .blank

/-- An end with these bytes to read, whose calls move a single byte each. -/
def bytewise (unread : List UInt8) : Socket := ⟨unread, [], Stream'.const 1, Stream'.const 1⟩

theorem shortRequests_built :
    List.Forall₂ ClientRequest.BuiltAs shortRequests (shortSends.map Prod.snd) :=
  .cons ⟨.blank, rfl⟩ (.cons ⟨.blank, rfl⟩ (.cons ⟨.blank, rfl⟩ .nil))

theorem payload_round_trip_short :
    (let server := bytewise (sendRequests (bytewise []) shortSends).2.written
      let r := netReadMsgs server [.blank, .blank, .blank]
      r.1 = 0 ∧ List.Forall₂ ClientRequest.ReadAs shortRequests r.2.1) ∧
    (let client := bytewise (netSendMsg (bytewise []) zeroBuf shortReply).2.written
      let r := netSendRecv 3 client zeroBuf zeroBuf .blank .blank
      r.1 = 0 ∧ ∃ addr, parseGroupInfo r.2.1 = some (addr, 5000) ∧ addr.toCStr = shortAddress) := by
  have hflows : Chunked.Flows (Stream'.const 1) := Chunked.flows_const one_pos
  constructor
  · obtain ⟨hsent, hread⟩ := (payload_round_trip.1 _ _ shortRequests_built).1 (bytewise [])
    obtain ⟨hret, hreqs, -⟩ := hread (hsent hflows) (bytewise _) [] [.blank, .blank, .blank] hflows
      (List.append_nil _).symm rfl
    exact ⟨hret, hreqs⟩
  · obtain ⟨hsent, hrecv⟩ :=
      (payload_round_trip.2 .blank shortReply shortAddress 5000 rfl).1 (bytewise []) zeroBuf
    obtain ⟨hret, haddr, -⟩ := hrecv (hsent hflows) 3 (bytewise _) zeroBuf zeroBuf .blank .blank []
      (by decide) (sendRequest_eq _ _ _ ▸ (netSendMsg_flows hflows _ _).1) hflows
      (List.append_nil _).symm
    exact ⟨hret, haddr⟩

end MeshChat
