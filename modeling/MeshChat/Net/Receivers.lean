import MeshChat.Net.EndToEnd

/-!
# The two receive paths

The client reads a reply with `net_send_recv`, the server a request with
`net_read_msg`. Both are compared on every stream and every schedule of reads,
failing reads included.
-/
namespace MeshChat

/-- On the same stream and schedule both receivers consume the same bytes, both
return 0 or both -1, and when they return 0 they deliver the same message. -/
def ReceiversAgree (s : Socket) : Prop :=
  ∀ (recvBuf : FrameBuf) (response into : TLVMessage),
    let client := recvResponse s recvBuf response
    let server := netReadMsg s into
    client.2.2.unread = server.2.2.unread ∧
      (client.1 = 0 ∧ server.1 = 0 ∨ client.1 = -1 ∧ server.1 = -1) ∧
      (client.1 = 0 → client.2.1.Agrees server.2.1)

/-- A whole message that announces 254 or 255 value bytes is at the front of the
stream, and the calls deliver all of it. -/
def LongArrives (s : Socket) : Prop :=
  ∃ (msg : TLVMessage) (rest : List UInt8) (mid later : Chunked.Schedule),
    s.unread = msg.frame ++ rest ∧ 254 ≤ msg.length.toNat ∧
      Chunked.Moves s.reads 2 mid ∧ Chunked.Moves mid msg.length.toNat later

theorem TLVMessage.Agrees.symm_trans {a b c : TLVMessage} (hb : a.Agrees b) (hc : a.Agrees c) :
    b.Agrees c :=
  ⟨hb.1.symm.trans hc.1, hb.2.1.symm.trans hc.2.1, hb.2.2.symm.trans hc.2.2⟩

/-- A delivered message of at most 253 value bytes reaches both. -/
theorem receiversAgree_of_short {s : Socket} {msg : TLVMessage} {rest : List UInt8}
    {mid later : Chunked.Schedule} (hs : s.unread = msg.frame ++ rest)
    (hheader : Chunked.Moves s.reads 2 mid)
    (hvalue : Chunked.Moves mid msg.length.toNat later) (hlen : msg.length.toNat ≤ 253) :
    ReceiversAgree s := by
  intro recvBuf response into
  obtain ⟨got, hgot, hclient⟩ := recvResponse_short hs hheader hvalue hlen recvBuf response
  obtain ⟨got', hgot', hserver⟩ := netReadMsg_whole hs hheader hvalue into
  rw [hclient, hserver]
  exact ⟨rfl, Or.inl ⟨rfl, rfl⟩, fun _ => hgot.symm_trans hgot'⟩

/-- The wrapped total length of a longer one does not cover its header. -/
theorem recvResponse_long {s : Socket} (h : LongArrives s) (recvBuf : FrameBuf)
    (response into : TLVMessage) :
    (recvResponse s recvBuf response).1 = -1 ∧ (netReadMsg s into).1 = 0 ∧
      (recvResponse s recvBuf response).2.2.unread = (netReadMsg s into).2.2.unread := by
  obtain ⟨msg, rest, mid, later, hs, hlong, hheader, hvalue⟩ := h
  obtain ⟨got, -, hserver⟩ := netReadMsg_whole hs hheader hvalue into
  have hlt := msg.length.toNat_lt
  have hout : msg.outLen.toNat < 2 := by
    rw [msg.outLen_toNat]
    omega
  have hfails : (deserializeMsg (serializeMsg msg recvBuf.val).2.1 msg.outLen response).1 = -1 := by
    rw [deserializeMsg, if_pos hout]
  simp [recvResponse_whole hs hheader hvalue, hserver, hfails]

theorem LongArrives.not_agree {s : Socket} (h : LongArrives s) : ¬ ReceiversAgree s := by
  intro hagree
  let buf : FrameBuf := ⟨List.replicate (2 + tlvMaxValueLen) 0, List.length_replicate⟩
  obtain ⟨hclient, hserver, -⟩ := recvResponse_long h buf TLVMessage.blank TLVMessage.blank
  obtain ⟨-, hreturn, -⟩ := hagree buf TLVMessage.blank TLVMessage.blank
  simp [hclient, hserver] at hreturn

/-- Where a read of the header or of the value fails, both receivers fail there. -/
theorem receiversAgree_of_cut {s s' : Socket} {ret : Int} {header : List UInt8}
    (hread : s.readLoop 2 = (ret, header, s'))
    (h : ret ≠ 0 ∨ header.getD 1 0 ≠ 0 ∧ (s'.readLoop (header.getD 1 0).toNat).1 ≠ 0) :
    ReceiversAgree s := by
  intro recvBuf response into
  simp only [recvResponse, netReadMsg, recvAll, hread]
  generalize header.getD 1 0 = length at h
  by_cases hheader : ret = 0
  · obtain ⟨hne, hvalue⟩ := h.resolve_left (not_not.mpr hheader)
    have hpos : 0 < length := by
      rw [UInt8.lt_iff_toNat_lt]
      exact Nat.pos_of_ne_zero fun hc => hne (UInt8.toNat_inj.mp hc)
    simp only [hheader, ne_eq, not_true_eq_false, if_false, hpos, if_true, hne, hvalue,
      not_false_eq_true]
    exact ⟨trivial, Or.inr ⟨trivial, trivial⟩, fun hc => absurd hc (by decide)⟩
  · simp only [ne_eq, hheader, not_false_eq_true, if_true]
    exact ⟨trivial, Or.inr ⟨trivial, trivial⟩, fun hc => absurd hc (by decide)⟩

/-- A message with the given tag and value bytes. -/
theorem TLVMessage.exists_of_payload (tag length : UInt8) {value : List UInt8}
    (h : value.length = length.toNat) :
    ∃ msg : TLVMessage, msg.length = length ∧ msg.frame = [tag, length] ++ value := by
  refine ⟨{ blank with tag := tag, length := length }.write 0 value, rfl, ?_⟩
  have hwrite := write_after (m := { blank with tag := tag, length := length })
    (n := length.toNat) 0 value rfl (by omega) length.toNat_lt.le
  exact congrArg ([tag, length] ++ ·) hwrite

/-- Reads of the header and of the value that both succeed deliver a whole message. -/
theorem exists_message_of_reads {s s' : Socket} {header : List UInt8}
    (hread : s.readLoop 2 = (0, header, s'))
    (hvalue : header.getD 1 0 ≠ 0 → (s'.readLoop (header.getD 1 0).toNat).1 = 0) :
    ∃ (msg : TLVMessage) (rest : List UInt8) (mid later : Chunked.Schedule),
      s.unread = msg.frame ++ rest ∧ Chunked.Moves s.reads 2 mid ∧
        Chunked.Moves mid msg.length.toNat later := by
  have hret : (s.readLoop 2).1 = 0 := by rw [hread]
  obtain ⟨hlen, hunread⟩ := Socket.readLoop_block hret
  obtain ⟨-, mid, hmid⟩ := Socket.readLoop_ok hret
  rw [hread] at hlen hunread
  obtain ⟨tag, length, rfl⟩ := List.length_eq_two.mp hlen
  have hloop := @Socket.readLoop_of_moves s [tag, length] _ _ hmid hunread
  rw [show [tag, length].length = 2 from rfl, hread] at hloop
  have hmid' : s'.reads = mid := congrArg (fun r => r.2.2.reads) hloop
  have hret' : (s'.readLoop length.toNat).1 = 0 := by
    by_cases hzero : length = 0
    · rw [hzero]
      exact congrArg Prod.fst
        (@Socket.readLoop_of_moves s' [] _ _ (.done s'.reads) (List.nil_append _).symm)
    · exact hvalue hzero
  obtain ⟨hlen', hunread'⟩ := Socket.readLoop_block hret'
  obtain ⟨-, later, hlater⟩ := Socket.readLoop_ok hret'
  obtain ⟨msg, hlength, hframe⟩ := TLVMessage.exists_of_payload tag length hlen'
  refine ⟨msg, (s'.readLoop length.toNat).2.2.unread, mid, later, ?_, hmid, ?_⟩
  · rw [hframe, List.append_assoc, ← hunread', hunread]
  · rwa [hlength, ← hmid']

/-- The receivers agree on every stream and schedule, except where a message of
254 or 255 value bytes is received whole. -/
theorem receiversAgree_iff (s : Socket) : ReceiversAgree s ↔ ¬ LongArrives s := by
  constructor
  · exact fun hagree hlong => hlong.not_agree hagree
  · intro hlong
    by_contra hdiffer
    obtain ⟨ret, header, s', hread⟩ : ∃ ret header s', s.readLoop 2 = (ret, header, s') :=
      ⟨_, _, _, rfl⟩
    have hcut := mt (receiversAgree_of_cut hread) hdiffer
    rw [not_or, not_and, not_not] at hcut
    obtain ⟨rfl, hvalue⟩ := hcut
    obtain ⟨msg, rest, mid, later, hs, hheader, hmoves⟩ :=
      exists_message_of_reads hread fun hne => not_not.mp (hvalue hne)
    refine hdiffer (receiversAgree_of_short hs hheader hmoves ?_)
    by_contra hlen
    exact hlong ⟨msg, rest, mid, later, hs, by omega, hheader, hmoves⟩

/-- A reply of 254 value bytes, delivered at once. -/
theorem receivers_differ_at_254 :
    ¬ ReceiversAgree ⟨7 :: 254 :: List.replicate 254 0, [], Stream'.const 256, Stream'.const 256⟩ := by
  obtain ⟨msg, hlength, hframe⟩ :=
    TLVMessage.exists_of_payload 7 254 (List.length_replicate (n := 254) (a := (0 : UInt8)))
  obtain ⟨mid, hmid, hheader⟩ := (Chunked.flows_const (n := 256) (by decide)).moves 2
  obtain ⟨later, -, hvalue⟩ := hmid.moves msg.length.toNat
  have hlong : LongArrives
      ⟨7 :: 254 :: List.replicate 254 0, [], Stream'.const 256, Stream'.const 256⟩ :=
    ⟨msg, [], mid, later, by rw [hframe, List.append_nil]; rfl, by rw [hlength]; decide,
      hheader, hvalue⟩
  exact hlong.not_agree

end MeshChat
