import MeshChat.Net.Transport
import MeshChat.Server.Wire

/-!
# Decoders against encoders

What a decoder accepts, the encoder writes again, if no string in it contains a
NUL byte: the decoders copy the announced bytes and what they read ends at the
first NUL. The address decoder also accepts an empty string and bytes behind the
port.
-/
namespace MeshChat
open Server

/-- A string that is read whole is the one that was announced. -/
theorem ofBytes_length_eq_iff {bytes : List UInt8} :
    (CStr.ofBytes bytes).bytes.length = bytes.length ↔ 0 ∉ bytes := by
  constructor
  · intro h
    have hpre : (CStr.ofBytes bytes).bytes <+: bytes := List.takeWhile_prefix _
    rw [← hpre.eq_of_length h]
    exact (CStr.ofBytes bytes).nul_free
  · intro h
    rw [ofBytes_bytes_of_nul_free h]

theorem ofBytes_length_le (bytes : List UInt8) :
    (CStr.ofBytes bytes).bytes.length ≤ bytes.length :=
  (List.takeWhile_prefix _).length_le

/-- Accepted credentials are encoded to the bytes they were read from. -/
def AuthReencodes (msg : TLVMessage) : Prop :=
  ∀ u p, parseAuthValue msg = some (u, p) → ∀ stale tag, tag = .register ∨ tag = .login →
    ∃ m, buildAuthMsg stale tag u.toCStr p.toCStr = some m ∧
      m.length = msg.length ∧ m.payload = msg.payload

/-- An accepted group name is encoded to the bytes it was read from. -/
def GroupReencodes (msg : TLVMessage) : Prop :=
  ∀ g, parseGroupValue msg = some g →
    ∀ stale tag, tag = .joinGroup ∨ tag = .leaveGroup ∨ tag = .createGroup →
      ∃ m, buildGroupMsg stale tag g.toCStr = some m ∧
        m.length = msg.length ∧ m.payload = msg.payload

/-- No string that the value bytes announce contains a NUL byte. -/
structure NulFree (msg : TLVMessage) : Prop where
  auth : ∀ name pass, AuthShape msg name pass → 0 ∉ name ∧ 0 ∉ pass
  group : ∀ name, GroupShape msg name → 0 ∉ name

theorem length_eq_of_payload {a b : TLVMessage} (h : a.payload = b.payload) :
    a.length = b.length := by
  have hlen := congrArg List.length h
  rw [a.payload_length, b.payload_length] at hlen
  exact UInt8.toNat_inj.mp hlen

theorem authReencodes_iff (msg : TLVMessage) :
    AuthReencodes msg ↔ ∀ name pass, AuthShape msg name pass → 0 ∉ name ∧ 0 ∉ pass := by
  constructor
  · intro h name pass hshape
    obtain ⟨m, hm, -, hpay⟩ := h _ _ hshape.parse .blank .login (Or.inr rfl)
    obtain ⟨-, -, hpay', -⟩ := buildAuthMsg_spec hm
    have hlen := congrArg List.length (hpay'.symm.trans (hpay.trans hshape.payload))
    rw [authPayload_eq] at hlen
    simp only [List.length_append, prefixed_length, CharArray.ofBytes] at hlen
    have hname := ofBytes_length_le name
    have hpass := ofBytes_length_le pass
    exact ⟨ofBytes_length_eq_iff.mp (by omega), ofBytes_length_eq_iff.mp (by omega)⟩
  · intro h u p hparse stale tag htag
    obtain ⟨name, pass, hshape, rfl, rfl⟩ := authShape_of_parse hparse
    obtain ⟨hname, hpass⟩ := h name pass hshape
    have hu : (CStr.ofBytes name).bytes = name := ofBytes_bytes_of_nul_free hname
    have hp : (CStr.ofBytes pass).bytes = pass := ofBytes_bytes_of_nul_free hpass
    have hulen : 0 < strlen (CStr.ofBytes name) ∧ strlen (CStr.ofBytes name) < maxUsernameLen := by
      rw [strlen, hu]
      exact ⟨hshape.name_pos, hshape.name_lt⟩
    have hplen : 0 < strlen (CStr.ofBytes pass) ∧ strlen (CStr.ofBytes pass) < maxPasswordLen := by
      rw [strlen, hp]
      exact ⟨hshape.pass_pos, hshape.pass_lt⟩
    obtain ⟨m, hm⟩ := buildAuthMsg_isSome stale htag hulen hplen
    have hpay : m.payload = msg.payload := by
      rw [(buildAuthMsg_spec hm).2.2.1, hshape.payload, authPayload_eq, hu, hp]
    exact ⟨m, hm, length_eq_of_payload hpay, hpay⟩

theorem groupReencodes_iff (msg : TLVMessage) :
    GroupReencodes msg ↔ ∀ name, GroupShape msg name → 0 ∉ name := by
  constructor
  · intro h name hshape
    obtain ⟨m, hm, -, hpay⟩ := h _ hshape.parse .blank .joinGroup (Or.inl rfl)
    obtain ⟨-, -, hpay', -⟩ := buildGroupMsg_spec hm
    have hlen := congrArg List.length (hpay'.symm.trans (hpay.trans hshape.payload))
    rw [groupPayload_eq] at hlen
    simp only [prefixed_length, CharArray.ofBytes] at hlen
    exact ofBytes_length_eq_iff.mp (by omega)
  · intro h g hparse stale tag htag
    obtain ⟨name, hshape, rfl⟩ := groupShape_of_parse hparse
    have hg : (CStr.ofBytes name).bytes = name := ofBytes_bytes_of_nul_free (h name hshape)
    have hglen : 0 < strlen (CStr.ofBytes name) ∧ strlen (CStr.ofBytes name) < maxGroupNameLen := by
      rw [strlen, hg]
      exact ⟨hshape.pos, hshape.lt⟩
    obtain ⟨m, hm⟩ := buildGroupMsg_isSome stale htag hglen
    have hpay : m.payload = msg.payload := by
      rw [(buildGroupMsg_spec hm).2.2.1, hshape.payload, groupPayload_eq, hg]
    exact ⟨m, hm, length_eq_of_payload hpay, hpay⟩

/-- Credentials are read from one payload only, and neither string is empty. -/
theorem AuthReencodes.unique {msg msg' : TLVMessage} (h : AuthReencodes msg)
    (h' : AuthReencodes msg') {u : Username} {p : Password} (hparse : parseAuthValue msg = some (u, p))
    (hparse' : parseAuthValue msg' = some (u, p)) : msg.payload = msg'.payload := by
  obtain ⟨m, hm, -, hpay⟩ := h u p hparse .blank .login (Or.inr rfl)
  obtain ⟨m', hm', -, hpay'⟩ := h' u p hparse' .blank .login (Or.inr rfl)
  obtain rfl := Option.some.inj (hm.symm.trans hm')
  exact hpay.symm.trans hpay'

theorem GroupReencodes.unique {msg msg' : TLVMessage} (h : GroupReencodes msg)
    (h' : GroupReencodes msg') {g : GroupName} (hparse : parseGroupValue msg = some g)
    (hparse' : parseGroupValue msg' = some g) : msg.payload = msg'.payload := by
  obtain ⟨m, hm, -, hpay⟩ := h g hparse .blank .joinGroup (Or.inl rfl)
  obtain ⟨m', hm', -, hpay'⟩ := h' g hparse' .blank .joinGroup (Or.inl rfl)
  obtain rfl := Option.some.inj (hm.symm.trans hm')
  exact hpay.symm.trans hpay'

/-- The request parsers accept only what the builders produce exactly on messages
that announce no NUL byte in a string. Among these, no two payloads are taken for
the same strings, and none of the strings is empty. -/
theorem request_reencodes_iff (msg : TLVMessage) :
    (AuthReencodes msg ∧ GroupReencodes msg ↔ NulFree msg) ∧
      (NulFree msg → ∀ u p, parseAuthValue msg = some (u, p) →
        0 < strlen u.toCStr ∧ 0 < strlen p.toCStr ∧
          ∀ msg', NulFree msg' → parseAuthValue msg' = some (u, p) → msg.payload = msg'.payload) ∧
      (NulFree msg → ∀ g, parseGroupValue msg = some g →
        0 < strlen g.toCStr ∧
          ∀ msg', NulFree msg' → parseGroupValue msg' = some g → msg.payload = msg'.payload) := by
  refine ⟨?_, fun hmsg u p hparse => ?_, fun hmsg g hparse => ?_⟩
  · rw [authReencodes_iff, groupReencodes_iff]
    exact ⟨fun h => ⟨h.1, h.2⟩, fun h => ⟨h.auth, h.group⟩⟩
  · have h := (authReencodes_iff msg).mpr hmsg.auth
    obtain ⟨m, hm, -⟩ := h u p hparse .blank .login (Or.inr rfl)
    obtain ⟨-, -, -, ⟨hu, -⟩, hp, -⟩ := buildAuthMsg_spec hm
    exact ⟨hu, hp, fun msg' hmsg' => h.unique ((authReencodes_iff msg').mpr hmsg'.auth) hparse⟩
  · have h := (groupReencodes_iff msg).mpr hmsg.group
    obtain ⟨m, hm, -⟩ := h g hparse .blank .joinGroup (Or.inl rfl)
    exact ⟨(buildGroupMsg_spec hm).2.2.2.1, fun msg' hmsg' =>
      h.unique ((groupReencodes_iff msg').mpr hmsg'.group) hparse⟩

/-- A message with these value bytes, and zeros behind them. -/
def TLVMessage.ofPayload (tag : UInt8) (payload : List UInt8) : TLVMessage :=
  { TLVMessage.blank with tag, length := UInt8.ofNat payload.length }.write 0 payload

/-- A user name that is a NUL byte is read as the empty name, which the encoder
refuses. -/
theorem request_reencodes_fails :
    ¬ ∀ msg, AuthReencodes msg ∧ GroupReencodes msg := by
  intro h
  have hbuild : ∀ u p, parseAuthValue (.ofPayload MessageTag.login.code [1, 0, 1, 112]) =
      some (u, p) → ∃ m, buildAuthMsg .blank .login u.toCStr p.toCStr = some m := by
    intro u p hparse
    obtain ⟨m, hm, -⟩ := (h _).1 u p hparse .blank .login (Or.inr rfl)
    exact ⟨m, hm⟩
  obtain ⟨m, hm⟩ := hbuild (.ofBytes [] (by decide)) (.ofBytes [112] (by decide)) (by decide +kernel)
  obtain ⟨-, -, -, ⟨hpos, -⟩, -⟩ := buildAuthMsg_spec hm
  exact absurd hpos (by decide)

theorem ofBytes_terminated {bytes s : List UInt8}
    (h : bytes.take (s.length + 1) = s ++ [0]) : CStr.ofBytes bytes = CStr.ofBytes s := by
  apply CStr.ext
  have hsplit : bytes = s ++ 0 :: bytes.drop (s.length + 1) := by
    have htake := List.take_append_drop (s.length + 1) bytes
    rw [h, List.append_assoc] at htake
    exact htake.symm
  change bytes.takeWhile (· != 0) = s.takeWhile (· != 0)
  rw [hsplit, List.takeWhile_append, List.takeWhile_cons_of_neg (by decide), List.append_nil]
  split
  · exact (List.takeWhile_prefix _).eq_of_length ‹_› |>.symm
  · rfl

/-- A string copied to the front of a buffer and ended there is the string. -/
theorem ofBytes_memcpy_terminated {buf s : List UInt8} {n : Nat} (hlen : s.length = n)
    (hfit : n < buf.length) :
    CStr.ofBytes (memcpy (memcpy buf 0 s) n [0]) = CStr.ofBytes s := by
  subst hlen
  have hcopy : (memcpy buf 0 s).take s.length = s := by
    have h := memcpy_take buf 0 s (by omega)
    rwa [Nat.zero_add, List.take_zero, List.nil_append] at h
  have hend := memcpy_take (memcpy buf 0 s) s.length [0]
    (by rw [memcpy_length, List.length_singleton]; omega)
  rw [hcopy] at hend
  exact ofBytes_terminated hend

/-- An accepted address is encoded to the message it was read from, and a message
that is not accepted leaves both outputs alone. -/
def GroupInfoReencodes (msg : TLVMessage) : Prop :=
  ∀ (buf : List UInt8) (port : UInt16), mcastIpLen ≤ buf.length →
    let r := parseGroupInfoInto msg buf port
    (r.1 = 0 → ∀ stale, ∃ m, buildGroupInfoMsg stale (.ofBytes r.2.1) r.2.2 = some m ∧
        msg.Agrees m) ∧
      (r.1 ≠ 0 → r = (-1, buf, port))

/-- `parse_group_info` accepts only what `build_group_info_msg` produces exactly on
the messages that, where they have an address in front, have a non-empty one without
a NUL byte and nothing behind the port. -/
theorem group_info_reencodes_iff (msg : TLVMessage) :
    GroupInfoReencodes msg ↔
      ∀ ip port rest, GroupInfoShape msg ip port rest → ip ≠ [] ∧ 0 ∉ ip ∧ rest = [] := by
  constructor
  · intro h ip two rest hshape
    have hbuf : mcastIpLen ≤ (List.replicate mcastIpLen (0 : UInt8)).length :=
      List.length_replicate.ge
    have hinto := hshape.parseInto (List.replicate mcastIpLen (0 : UInt8)) 0
    obtain ⟨m, hm, -, -, hpay⟩ := (h _ 0 hbuf).1 (by rw [hinto]) .blank
    rw [hinto, ofBytes_memcpy_terminated rfl (lt_of_lt_of_le hshape.lt hbuf)] at hm
    obtain ⟨-, hpay', hpos, -⟩ := buildGroupInfoMsg_spec hm
    have hlen := congrArg List.length (hpay.symm.trans hshape.payload)
    rw [hpay', groupInfoPayload_eq] at hlen
    have hip := ofBytes_length_le ip
    have hport : (portBytes (portOfBytes two)).length = two.length := by
      rw [portBytes_portOfBytes hshape.port_size]
    simp only [List.length_append, prefixed_length, hport] at hlen
    have hwhole : (CStr.ofBytes ip).bytes.length = ip.length := by omega
    have hpos' : 0 < (CStr.ofBytes ip).bytes.length := hpos
    exact ⟨List.ne_nil_of_length_pos (by omega), ofBytes_length_eq_iff.mp hwhole,
      List.length_eq_zero_iff.mp (by omega)⟩
  · intro h buf port hbuf
    cases hparse : parseGroupInfo msg with
    | none =>
      rw [parseGroupInfoInto_of_none hparse]
      exact ⟨nofun, fun _ => rfl⟩
    | some r =>
      obtain ⟨ip, two, rest, hshape, -⟩ := groupInfoShape_of_parse hparse
      rw [hshape.parseInto]
      refine ⟨fun _ stale => ?_, fun hne => absurd rfl hne⟩
      obtain ⟨hne, hnul, rfl⟩ := h ip two rest hshape
      have hip : (CStr.ofBytes ip).bytes = ip := ofBytes_bytes_of_nul_free hnul
      have hlen : strlen (CStr.ofBytes ip) = ip.length := by rw [strlen, hip]
      have hpos : 0 < strlen (CStr.ofBytes ip) := hlen ▸ List.length_pos_iff.mpr hne
      have hlt : strlen (CStr.ofBytes ip) < mcastIpLen := hlen ▸ hshape.lt
      obtain ⟨m, hm⟩ := buildGroupInfoMsg_isSome stale (portOfBytes two) hpos hlt
      obtain ⟨htag, hpay, -⟩ := buildGroupInfoMsg_spec hm
      have hsame : msg.payload = m.payload := by
        rw [hpay, hshape.payload, groupInfoPayload_eq, hip, portBytes_portOfBytes hshape.port_size,
          List.append_nil]
      rw [ofBytes_memcpy_terminated rfl (lt_of_lt_of_le hshape.lt hbuf)]
      exact ⟨m, hm, hshape.tag.trans htag.symm, length_eq_of_payload hsame, hsame⟩

/-- A message with an empty address is accepted. -/
theorem group_info_reencodes_fails : ¬ ∀ msg, GroupInfoReencodes msg := by
  intro h
  have hshape : GroupInfoShape (.ofPayload MessageTag.groupInfo.code [0, 19, 136]) [] [19, 136] [] :=
    ⟨by decide, by decide +kernel, by decide, rfl⟩
  exact ((group_info_reencodes_iff _).mp (h _) _ _ _ hshape).1 rfl

end MeshChat
