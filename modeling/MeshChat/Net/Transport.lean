import MeshChat.Lib.Chunked
import MeshChat.Protocol

/-!
# Messages on a TCP connection

`net_send_msg` and `net_read_msg` of `server_net.c` over one end of a
connection, whose calls may move fewer bytes than asked for. The frame of a
message is its tag, its length byte and its announced value bytes; what a send
puts on the stream is the part of it that the 8-bit `out_len` counts.
-/
namespace MeshChat

namespace TLVMessage

/-- The bytes that stand for a message on the wire. -/
def frame (m : TLVMessage) : List UInt8 := [m.tag, m.length] ++ m.payload

@[simp] theorem frame_length (m : TLVMessage) : m.frame.length = 2 + m.length.toNat := by
  simp [frame]
  omega

/-- The same tag, the same length and the same announced bytes. -/
def Agrees (a b : TLVMessage) : Prop :=
  a.tag = b.tag ∧ a.length = b.length ∧ a.payload = b.payload

instance (a b : TLVMessage) : Decidable (a.Agrees b) :=
  inferInstanceAs (Decidable (_ ∧ _ ∧ _))

/-- The number of bytes that `serialize_msg` reports for a message. -/
def outLen (m : TLVMessage) : UInt8 := UInt8.ofNat (2 + m.length.toNat)

theorem outLen_toNat (m : TLVMessage) : m.outLen.toNat = (2 + m.length.toNat) % 256 := by
  simp [outLen]

theorem outLen_eq_iff (m : TLVMessage) :
    m.outLen.toNat = 2 + m.length.toNat ↔ m.length.toNat ≤ 253 := by
  have := m.length.toNat_lt
  rw [outLen_toNat]
  omega

theorem outLen_le (m : TLVMessage) : m.outLen.toNat ≤ m.frame.length := by
  rw [outLen_toNat, frame_length]
  omega

end TLVMessage

/-- A local `uint8_t buf[2 + TLV_MAX_VALUE_LEN]`, with what the stack left in it. -/
abbrev FrameBuf := { bytes : List UInt8 // bytes.length = 2 + tlvMaxValueLen }

theorem serializeMsg_take (m : TLVMessage) (buf : FrameBuf) :
    (serializeMsg m buf.val).2.1.take (2 + m.length.toNat) = m.frame := by
  have hbuf : buf.val.length = 2 + 256 := buf.property
  have hlen := m.length.toNat_lt
  have htag : (memcpy buf.val 0 [m.tag]).take 1 = [m.tag] :=
    memcpy_take buf.val 0 [m.tag]
      (by rw [hbuf, List.length_singleton]; omega)
  have hhead : (memcpy (memcpy buf.val 0 [m.tag]) 1 [m.length]).take 2 = [m.tag, m.length] := by
    have h := memcpy_take (memcpy buf.val 0 [m.tag]) 1 [m.length]
      (by rw [memcpy_length, hbuf, List.length_singleton]; omega)
    rwa [htag] at h
  have hall := memcpy_take (memcpy (memcpy buf.val 0 [m.tag]) 1 [m.length]) 2 m.payload
    (by simp only [memcpy_length, m.payload_length, hbuf]; omega)
  rwa [hhead, m.payload_length] at hall

/-- What a send takes from the buffer is the front of the frame. -/
theorem serializeMsg_sent (m : TLVMessage) (buf : FrameBuf) :
    (serializeMsg m buf.val).2.1.take m.outLen.toNat = m.frame.take m.outLen.toNat := by
  rw [← serializeMsg_take m buf, List.take_take, min_eq_left]
  exact le_of_le_of_eq m.outLen_le m.frame_length

/-- A buffer that starts with a whole frame is decoded to its message. -/
theorem deserializeMsg_frame (m : TLVMessage) (rest : List UInt8) {len : UInt8}
    (hlen : len.toNat = 2 + m.length.toNat) (out : TLVMessage) :
    (deserializeMsg (m.frame ++ rest) len out).1 = 0 ∧
      m.Agrees (deserializeMsg (m.frame ++ rest) len out).2 := by
  have htag : (m.frame ++ rest).getD 0 0 = m.tag := rfl
  have hlength : (m.frame ++ rest).getD 1 0 = m.length := rfl
  have hvalue : ((m.frame ++ rest).drop 2).take m.length.toNat = m.payload :=
    List.take_left' m.payload_length
  simp only [deserializeMsg, htag, hlength, hvalue]
  rw [if_neg (by omega), if_neg (by omega)]
  refine ⟨rfl, rfl, rfl, ?_⟩
  have hwrite := TLVMessage.write_after (m := { out with tag := m.tag, length := m.length })
    (n := m.length.toNat) 0 m.payload rfl (by simp) m.length_lt.le
  exact hwrite.symm

/-- Encoding a message and decoding the bytes it announces gives it back,
whatever both buffers held before. -/
def SerializesBack (m : TLVMessage) : Prop :=
  ∀ (buf : FrameBuf) (out : TLVMessage),
    let r := serializeMsg m buf.val
    r.1 = 0 ∧ (deserializeMsg r.2.1 r.2.2 out).1 = 0 ∧
      m.Agrees (deserializeMsg r.2.1 r.2.2 out).2

theorem serializesBack_iff (m : TLVMessage) : SerializesBack m ↔ m.length.toNat ≤ 253 := by
  have hlt := m.length.toNat_lt
  constructor
  · intro h
    by_contra hlen
    obtain ⟨-, hret, -⟩ := h ⟨List.replicate (2 + tlvMaxValueLen) 0, List.length_replicate⟩ m
    have hout : m.outLen.toNat < 2 := by
      rw [TLVMessage.outLen_toNat]
      omega
    change (deserializeMsg _ m.outLen m).1 = 0 at hret
    rw [deserializeMsg, if_pos hout] at hret
    contradiction
  · intro hlen buf out
    have hback := deserializeMsg_frame m
      ((serializeMsg m buf.val).2.1.drop (2 + m.length.toNat)) (m.outLen_eq_iff.mpr hlen) out
    rw [← serializeMsg_take m buf, List.take_append_drop] at hback
    exact ⟨rfl, hback⟩

/-- One end of a connection. `unread` is what the peer puts on it before it
closes, of which this end has not read anything yet; `written` is what this end
has put on it. The schedules are the results of its calls to come. -/
structure Socket where
  unread : List UInt8
  written : List UInt8
  reads : Chunked.Schedule
  writes : Chunked.Schedule

namespace Socket

/-- The loop around `write` (or `send`): all of the first `len` bytes of `buf`. -/
def writeLoop (s : Socket) (buf : List UInt8) (len : ℕ) : Int × Socket :=
  let r := Chunked.send s.writes (buf.take len) 0 s.written
  (if r.ok then 0 else -1, { s with written := r.stream, writes := r.sched })

/-- The loop around `read` (or `recv`) for `len` bytes, with the bytes that it
stored at its destination. -/
def readLoop (s : Socket) (len : ℕ) : Int × List UInt8 × Socket :=
  let r := Chunked.recv s.reads len [] s.unread
  (if r.ok then 0 else -1, r.block, { s with unread := r.stream, reads := r.sched })

/-- Every byte that was written is in order, and none is missing. -/
theorem writeLoop_written {s : Socket} {buf : List UInt8} {len : ℕ}
    (h : (s.writeLoop buf len).1 = 0) :
    (s.writeLoop buf len).2.written = s.written ++ buf.take len := by
  have hok : (Chunked.send s.writes (buf.take len) 0 s.written).ok = true := by
    by_contra hok
    simp [writeLoop, hok] at h
  exact Chunked.send_stream hok

theorem writeLoop_flows {s : Socket} (hf : Chunked.Flows s.writes) (buf : List UInt8) (len : ℕ) :
    (s.writeLoop buf len).1 = 0 ∧ Chunked.Flows (s.writeLoop buf len).2.writes := by
  obtain ⟨hok, hlater⟩ := Chunked.send_flows hf (buf.take len) s.written 0
  exact ⟨if_pos hok, hlater⟩

/-- A read whose calls move the bytes takes them from the front of the stream. -/
theorem readLoop_of_moves {s : Socket} {front rest : List UInt8} {later : Chunked.Schedule}
    (h : Chunked.Moves s.reads front.length later) (hs : s.unread = front ++ rest) :
    s.readLoop front.length = (0, front, { s with unread := rest, reads := later }) := by
  have hread := @Chunked.recv_of_moves _ _ _ _ h [] s.unread (by simp [hs])
  simp only [List.length_nil, Nat.zero_add, List.nil_append, hs, List.take_left',
    List.drop_left'] at hread
  rw [readLoop, hs, hread]
  rfl

/-- A read fails unless the bytes are there and calls move them. -/
theorem readLoop_ok {s : Socket} {len : ℕ} (h : (s.readLoop len).1 = 0) :
    len ≤ s.unread.length ∧ ∃ later, Chunked.Moves s.reads len later := by
  have hok : (Chunked.recv s.reads len [] s.unread).ok = true := by
    by_contra hok
    simp [readLoop, hok] at h
  obtain ⟨hle, hmoves⟩ := Chunked.moves_of_recv hok
  exact ⟨hle, _, hmoves⟩

/-- A read that succeeds takes its bytes from the front of the stream. -/
theorem readLoop_block {s : Socket} {len : ℕ} (h : (s.readLoop len).1 = 0) :
    (s.readLoop len).2.1.length = len ∧
      s.unread = (s.readLoop len).2.1 ++ (s.readLoop len).2.2.unread := by
  have hok : (Chunked.recv s.reads len [] s.unread).ok = true := by
    by_contra hok
    simp [readLoop, hok] at h
  obtain ⟨hlen, happ⟩ := Chunked.recv_block hok (Nat.zero_le _)
  exact ⟨hlen, happ.symm⟩

end Socket

/-- `net_send_msg`, with `buf` the contents of its local buffer. -/
def netSendMsg (s : Socket) (buf : FrameBuf) (msg : TLVMessage) : Int × Socket :=
  let r := serializeMsg msg buf.val
  if r.1 ≠ 0 then (-1, s) else s.writeLoop r.2.1 r.2.2.toNat

/-- `net_read_msg` into `msg`: the return code and the message afterwards. -/
def netReadMsg (s : Socket) (msg : TLVMessage) : Int × TLVMessage × Socket :=
  let (ret, header, s) := s.readLoop 2
  if ret ≠ 0 then (-1, msg, s)
  else
    let msg := { msg with tag := header.getD 0 0, length := header.getD 1 0 }
    if msg.length = 0 then (0, msg, s)
    else
      let (ret, value, s) := s.readLoop msg.length.toNat
      let msg := msg.write 0 value
      if ret ≠ 0 then (-1, msg, s) else (0, msg, s)

theorem netSendMsg_written {s : Socket} {buf : FrameBuf} {msg : TLVMessage}
    (h : (netSendMsg s buf msg).1 = 0) :
    (netSendMsg s buf msg).2.written = s.written ++ msg.frame.take msg.outLen.toNat := by
  rw [← serializeMsg_sent msg buf]
  exact Socket.writeLoop_written h

theorem netSendMsg_flows {s : Socket} (hf : Chunked.Flows s.writes) (buf : FrameBuf)
    (msg : TLVMessage) :
    (netSendMsg s buf msg).1 = 0 ∧ Chunked.Flows (netSendMsg s buf msg).2.writes :=
  Socket.writeLoop_flows hf _ _

/-- A frame that the calls deliver is read as its message, and reading stops where
the frame ends. -/
theorem netReadMsg_whole {s : Socket} {msg : TLVMessage} {rest : List UInt8}
    {mid later : Chunked.Schedule} (hs : s.unread = msg.frame ++ rest)
    (hheader : Chunked.Moves s.reads 2 mid)
    (hvalue : Chunked.Moves mid msg.length.toNat later) (into : TLVMessage) :
    ∃ got, msg.Agrees got ∧
      netReadMsg s into = (0, got, { s with unread := rest, reads := later }) := by
  rw [TLVMessage.frame, List.append_assoc] at hs
  have hread := @Socket.readLoop_of_moves s [msg.tag, msg.length] _ _ hheader hs
  rw [show [msg.tag, msg.length].length = 2 from rfl] at hread
  simp only [netReadMsg, hread, ne_eq, not_true_eq_false, if_false, List.getD_cons_zero,
    List.getD_cons_succ]
  have hpay := msg.payload_length
  by_cases hlen : msg.length = 0
  · rw [hlen] at hvalue
    cases hvalue with
    | call _ hpos _ => exact absurd hpos (by decide)
    | done =>
      rw [hlen, UInt8.toNat_zero, List.length_eq_zero_iff] at hpay
      rw [if_pos hlen, hpay, List.nil_append]
      refine ⟨{ into with tag := msg.tag, length := msg.length }, ⟨rfl, rfl, ?_⟩, rfl⟩
      rw [hpay, TLVMessage.payload, hlen]
      rfl
  · rw [← hpay] at hvalue
    have hrest := Socket.readLoop_of_moves
      (s := { s with unread := msg.payload ++ rest, reads := mid }) hvalue rfl
    rw [hpay] at hrest
    rw [if_neg hlen, hrest]
    refine ⟨{ into with tag := msg.tag, length := msg.length }.write 0 msg.payload,
      ⟨rfl, rfl, ?_⟩, by simp⟩
    have hwrite := TLVMessage.write_after (m := { into with tag := msg.tag, length := msg.length })
      (n := msg.length.toNat) 0 msg.payload rfl (by simp) msg.length_lt.le
    exact hwrite.symm

/-- Without failing calls a frame at the front of the stream is delivered. -/
theorem netReadMsg_frame {s : Socket} (hf : Chunked.Flows s.reads) {msg : TLVMessage}
    {rest : List UInt8} (hs : s.unread = msg.frame ++ rest) (into : TLVMessage) :
    ∃ later got, Chunked.Flows later ∧ msg.Agrees got ∧
      netReadMsg s into = (0, got, { s with unread := rest, reads := later }) := by
  obtain ⟨mid, hmid, hheader⟩ := hf.moves 2
  obtain ⟨later, hlater, hvalue⟩ := hmid.moves msg.length.toNat
  obtain ⟨got, hgot, hread⟩ := netReadMsg_whole hs hheader hvalue into
  exact ⟨later, got, hlater, hgot, hread⟩

/-- Messages sent one after another, each with the buffer contents its call
finds; the first failure ends the sequence. -/
def netSendMsgs (s : Socket) : List (FrameBuf × TLVMessage) → Int × Socket
  | [] => (0, s)
  | (buf, msg) :: rest =>
      let (ret, s) := netSendMsg s buf msg
      if ret ≠ 0 then (-1, s) else netSendMsgs s rest

/-- Messages read one after another, each over the given old contents; the first
failure ends the sequence. -/
def netReadMsgs (s : Socket) : List TLVMessage → Int × List TLVMessage × Socket
  | [] => (0, [], s)
  | into :: rest =>
      let (ret, msg, s) := netReadMsg s into
      if ret ≠ 0 then (-1, [], s)
      else
        let (ret, msgs, s) := netReadMsgs s rest
        (ret, msg :: msgs, s)

/-- The stream after sends that all returned 0. -/
theorem netSendMsgs_written {s : Socket} {sends : List (FrameBuf × TLVMessage)}
    (h : (netSendMsgs s sends).1 = 0) : (netSendMsgs s sends).2.written =
      s.written ++ (sends.map Prod.snd).flatMap fun m => m.frame.take m.outLen.toNat := by
  induction sends generalizing s with
  | nil => simp [netSendMsgs]
  | cons x rest ih =>
    obtain ⟨buf, msg⟩ := x
    simp only [netSendMsgs] at h ⊢
    by_cases hret : (netSendMsg s buf msg).1 = 0
    · simp only [hret, ne_eq, not_true_eq_false, if_false] at h ⊢
      rw [ih h, netSendMsg_written hret, List.append_assoc]
      rfl
    · simp [hret] at h

theorem netSendMsgs_flows {s : Socket} (hf : Chunked.Flows s.writes)
    (sends : List (FrameBuf × TLVMessage)) : (netSendMsgs s sends).1 = 0 := by
  induction sends generalizing s with
  | nil => rfl
  | cons x rest ih =>
    obtain ⟨hret, hlater⟩ := netSendMsg_flows hf x.1 x.2
    simp only [netSendMsgs, hret, ne_eq, not_true_eq_false, if_false]
    exact ih hlater

/-- Frames at the front of the stream are read as their messages, in order, and
reading stops where the last frame ends. -/
theorem netReadMsgs_frames {s : Socket} (hf : Chunked.Flows s.reads) {msgs : List TLVMessage}
    {rest : List UInt8} (hs : s.unread = msgs.flatMap TLVMessage.frame ++ rest)
    {into : List TLVMessage} (hinto : into.length = msgs.length) :
    (netReadMsgs s into).1 = 0 ∧ List.Forall₂ TLVMessage.Agrees msgs (netReadMsgs s into).2.1 ∧
      (netReadMsgs s into).2.2.unread = rest := by
  induction msgs generalizing s into with
  | nil =>
    obtain rfl := List.length_eq_zero_iff.mp hinto
    exact ⟨rfl, .nil, by simpa [netReadMsgs] using hs⟩
  | cons msg msgs ih =>
    obtain ⟨o, into, rfl⟩ := List.exists_cons_of_length_eq_add_one hinto
    rw [List.flatMap_cons, List.append_assoc] at hs
    obtain ⟨later, got, hlater, hgot, hread⟩ := netReadMsg_frame hf hs o
    obtain ⟨hret, hmsgs, hrest⟩ := ih (s := { s with
      unread := msgs.flatMap TLVMessage.frame ++ rest, reads := later }) hlater rfl
      (show into.length = msgs.length by simpa using hinto)
    simp only [netReadMsgs, hread, ne_eq, not_true_eq_false, if_false]
    exact ⟨hret, .cons hgot hmsgs, hrest⟩

/-- Sends that return 0 put exactly the frames on the stream, and reads of those
bytes return the messages and stop behind them. -/
def StreamsBack (msgs : List TLVMessage) : Prop :=
  ∀ (s : Socket) (sends : List (FrameBuf × TLVMessage)), sends.map Prod.snd = msgs →
    (netSendMsgs s sends).1 = 0 →
      (netSendMsgs s sends).2.written = s.written ++ msgs.flatMap TLVMessage.frame ∧
      ∀ (peer : Socket) (later : List UInt8) (into : List TLVMessage), Chunked.Flows peer.reads →
        peer.unread = (netSendMsgs s sends).2.written.drop s.written.length ++ later →
        into.length = msgs.length →
          (netReadMsgs peer into).1 = 0 ∧
          List.Forall₂ TLVMessage.Agrees msgs (netReadMsgs peer into).2.1 ∧
          (netReadMsgs peer into).2.2.unread = later

theorem flatMap_take_frame_length_le (msgs : List TLVMessage) :
    (msgs.flatMap fun m => m.frame.take m.outLen.toNat).length ≤
      (msgs.flatMap TLVMessage.frame).length := by
  induction msgs with
  | nil => exact le_rfl
  | cons m msgs ih =>
    simp only [List.flatMap_cons, List.length_append, List.length_take]
    omega

/-- Nothing is cut off a list of frames only if nothing is cut off any of them. -/
theorem flatMap_take_frame_eq_iff (msgs : List TLVMessage) :
    (msgs.flatMap fun m => m.frame.take m.outLen.toNat) = msgs.flatMap TLVMessage.frame ↔
      ∀ m ∈ msgs, m.length.toNat ≤ 253 := by
  induction msgs with
  | nil => simp
  | cons m msgs ih =>
    rw [List.forall_mem_cons, ← m.outLen_eq_iff, ← m.frame_length, List.flatMap_cons,
      List.flatMap_cons]
    have hle := m.outLen_le
    constructor
    · intro h
      have hlen := congrArg List.length h
      have hrest := flatMap_take_frame_length_le msgs
      simp only [List.length_append, List.length_take] at hlen
      exact ⟨by omega, ih.mp (List.append_inj' h (by omega)).2⟩
    · rintro ⟨hm, hrest⟩
      rw [hm, List.take_length, ih.mpr hrest]

theorem streamsBack_iff (msgs : List TLVMessage) :
    StreamsBack msgs ↔ ∀ m ∈ msgs, m.length.toNat ≤ 253 := by
  constructor
  · intro h
    let s : Socket := ⟨[], [], Stream'.const 1, Stream'.const 1⟩
    let sends : List (FrameBuf × TLVMessage) :=
      msgs.map fun m => (⟨List.replicate (2 + tlvMaxValueLen) 0, List.length_replicate⟩, m)
    have hsends : sends.map Prod.snd = msgs := by simp [sends]
    have hret := netSendMsgs_flows (s := s) (Chunked.flows_const one_pos) sends
    have hwritten := netSendMsgs_written hret
    rw [(h s sends hsends hret).1, hsends, List.append_cancel_left_eq] at hwritten
    exact (flatMap_take_frame_eq_iff msgs).mp hwritten.symm
  · intro hlen s sends hsends hret
    have hwritten := netSendMsgs_written hret
    rw [hsends, (flatMap_take_frame_eq_iff msgs).mpr hlen] at hwritten
    refine ⟨hwritten, fun peer later into hf hpeer hinto => ?_⟩
    rw [hwritten, List.drop_left] at hpeer
    exact netReadMsgs_frames hf hpeer hinto

/-- The format carries exactly the messages whose length is at most 253. -/
theorem transport_round_trip_iff (msgs : List TLVMessage) :
    ((∀ m ∈ msgs, SerializesBack m) ∧ StreamsBack msgs) ↔ ∀ m ∈ msgs, m.length.toNat ≤ 253 := by
  simp only [serializesBack_iff, streamsBack_iff, and_self]

/-- Of a message of length 254 neither the header nor any value byte is sent. -/
theorem transport_drops_254 :
    ¬ ∀ msgs : List TLVMessage, (∀ m ∈ msgs, SerializesBack m) ∧ StreamsBack msgs := by
  intro h
  have hm := (h [{ TLVMessage.blank with length := 254 }]).1 _ (List.mem_singleton_self _)
  exact absurd ((serializesBack_iff _).mp hm) (by decide)

end MeshChat
