import MeshChat.CString

/-!
# The TLV protocol

Message tags, error codes and the encoders and decoders of `protocol.c`, with
the limits they check. A message keeps all 256 value bytes, initialised or not;
its payload is the part the length byte announces. Lengths and offsets that the
source keeps in a `uint8_t` are `UInt8` here and wrap as they do there.
-/
namespace MeshChat

abbrev maxUsernameLen : ℕ := 32
abbrev maxPasswordLen : ℕ := 64
abbrev maxGroupNameLen : ℕ := 32
abbrev mcastIpLen : ℕ := 16
abbrev tlvMaxValueLen : ℕ := 256

instance : NeZero maxPasswordLen := ⟨by decide⟩
instance : NeZero maxGroupNameLen := ⟨by decide⟩
instance : NeZero mcastIpLen := ⟨by decide⟩

inductive MessageTag where
  | register | login | logout | exit | joinGroup | leaveGroup | createGroup
  | success | error | groupInfo
  deriving DecidableEq, Repr

namespace MessageTag

def code : MessageTag → UInt8
  | register => 1
  | login => 2
  | logout => 3
  | exit => 4
  | joinGroup => 5
  | leaveGroup => 6
  | createGroup => 7
  | success => 100
  | error => 101
  | groupInfo => 102

def all : List MessageTag :=
  [register, login, logout, exit, joinGroup, leaveGroup, createGroup, success, error, groupInfo]

/-- The tag a `switch` on the byte selects, if any. -/
def ofCode (b : UInt8) : Option MessageTag := all.find? fun t => t.code == b

@[simp] theorem ofCode_code (t : MessageTag) : ofCode t.code = some t := by
  cases t <;> decide

theorem ofCode_eq_some {b : UInt8} {t : MessageTag} : ofCode b = some t ↔ b = t.code := by
  constructor
  · intro h
    have hc : t.code = b := by simpa using List.find?_some h
    exact hc.symm
  · rintro rfl
    exact ofCode_code t

theorem code_injective : Function.Injective code := by
  intro a b h
  have hb := ofCode_eq_some.mpr h
  rw [ofCode_code] at hb
  exact Option.some.inj hb

end MessageTag

inductive ErrorCode where
  | none | userExists | userNotFound | wrongPassword | alreadyLoggedIn | groupNotFound
  | groupFull | notInGroup | serverFull
  deriving DecidableEq, Repr

def ErrorCode.code : ErrorCode → UInt8
  | .none => 0
  | .userExists => 1
  | .userNotFound => 2
  | .wrongPassword => 3
  | .alreadyLoggedIn => 4
  | .groupNotFound => 5
  | .groupFull => 6
  | .notInGroup => 7
  | .serverFull => 8

/-- A `TLVMessage` in memory: every value byte is there, announced or stale. -/
structure TLVMessage where
  tag : UInt8
  length : UInt8
  value : List UInt8
  value_size : value.length = tlvMaxValueLen
  deriving DecidableEq

namespace TLVMessage

/-- A zeroed message. -/
def blank : TLVMessage := ⟨0, 0, List.replicate tlvMaxValueLen 0, List.length_replicate⟩

/-- The announced value bytes. -/
def payload (m : TLVMessage) : List UInt8 := m.value.take m.length.toNat

theorem length_lt (m : TLVMessage) : m.length.toNat < tlvMaxValueLen := m.length.toNat_lt

@[simp] theorem payload_length (m : TLVMessage) : m.payload.length = m.length.toNat := by
  have := m.length_lt
  simp only [payload, List.length_take, m.value_size]
  omega

/-- `memcpy(&_msg->value[off], src, n)`. -/
def write (m : TLVMessage) (off : ℕ) (src : List UInt8) : TLVMessage :=
  { m with value := memcpy m.value off src, value_size := by simp [m.value_size] }

@[simp] theorem write_length (m : TLVMessage) (off : ℕ) (src : List UInt8) :
    (m.write off src).length = m.length := rfl

theorem write_nil (m : TLVMessage) : m.write 0 [] = m := by
  simp [write, memcpy]

/-- Sequential writes: the bytes up to the end of a copy are those before it
and the copied ones. -/
theorem write_take (m : TLVMessage) {off : ℕ} {src : List UInt8}
    (h : off + src.length ≤ tlvMaxValueLen) :
    (m.write off src).value.take (off + src.length) = m.value.take off ++ src :=
  memcpy_take _ _ _ (by rw [m.value_size]; exact h)

/-- Writing behind the bytes filled so far extends them. -/
theorem write_after {m : TLVMessage} (off : ℕ) (src : List UInt8) {n : ℕ} {bytes : List UInt8}
    (h : m.value.take off = bytes) (hn : n = off + src.length) (hb : n ≤ tlvMaxValueLen) :
    (m.write off src).value.take n = bytes ++ src := by
  subst hn
  rw [write_take m hb, h]

/-- An announced byte is a payload byte. -/
theorem value_getD (m : TLVMessage) {i : ℕ} (h : i < m.length.toNat) :
    m.value.getD i 0 = m.payload.getD i 0 := by
  simp [payload, List.getD_eq_getElem?_getD, h]

/-- A slice below the announced length is a slice of the payload. -/
theorem value_slice (m : TLVMessage) {off n : ℕ} (h : off + n ≤ m.length.toNat) :
    (m.value.drop off).take n = (m.payload.drop off).take n := by
  rw [payload, List.drop_take, List.take_take, min_eq_left (by omega)]

end TLVMessage

/-- `serialize_msg` into `buf`: the return code, the buffer afterwards and
`*_out_len`. -/
def serializeMsg (msg : TLVMessage) (buf : List UInt8) : Int × List UInt8 × UInt8 :=
  let buf := memcpy buf 0 [msg.tag]
  let buf := memcpy buf 1 [msg.length]
  let buf := memcpy buf 2 msg.payload
  (0, buf, UInt8.ofNat (2 + msg.length.toNat))

/-- `deserialize_msg` into `msg`: the return code and the message afterwards.
The header is stored before the length is checked. -/
def deserializeMsg (buf : List UInt8) (len : UInt8) (msg : TLVMessage) : Int × TLVMessage :=
  if len.toNat < 2 then (-1, msg)
  else
    let msg := { msg with tag := buf.getD 0 0, length := buf.getD 1 0 }
    if msg.length.toNat > len.toNat - 2 then (-1, msg)
    else (0, msg.write 0 ((buf.drop 2).take msg.length.toNat))

def isValidStr (str : CStr) (maxLen : ℕ) : Bool :=
  decide (0 < strlen str ∧ strlen str < maxLen)

/-- `build_auth_msg` over the old contents of `msg`; `none` is the return
value -1, before which nothing is written. -/
def buildAuthMsg (msg : TLVMessage) (tag : MessageTag) (username password : CStr) :
    Option TLVMessage :=
  if tag ≠ .register ∧ tag ≠ .login then none
  else if !isValidStr username maxUsernameLen then none
  else if !isValidStr password maxPasswordLen then none
  else
    let ulen := strlen username
    let plen := strlen password
    if 1 + ulen + 1 + plen > tlvMaxValueLen then none
    else
      let msg := { msg with tag := tag.code, length := UInt8.ofNat (1 + ulen + 1 + plen) }
      let offset : UInt8 := 0
      let msg := msg.write offset.toNat [UInt8.ofNat ulen]
      let offset := offset + 1
      let msg := msg.write offset.toNat username.bytes
      let offset := offset + UInt8.ofNat ulen
      let msg := msg.write offset.toNat [UInt8.ofNat plen]
      let offset := offset + 1
      some (msg.write offset.toNat password.bytes)

def buildGroupMsg (msg : TLVMessage) (tag : MessageTag) (groupName : CStr) :
    Option TLVMessage :=
  if tag ≠ .joinGroup ∧ tag ≠ .leaveGroup ∧ tag ≠ .createGroup then none
  else if !isValidStr groupName maxGroupNameLen then none
  else
    let glen := strlen groupName
    if 1 + glen > tlvMaxValueLen then none
    else
      let msg := { msg with tag := tag.code, length := UInt8.ofNat (1 + glen) }
      let msg := msg.write 0 [UInt8.ofNat glen]
      some (msg.write 1 groupName.bytes)

def buildSimpleMsg (msg : TLVMessage) (tag : MessageTag) : Option TLVMessage :=
  if tag ≠ .logout ∧ tag ≠ .exit then none
  else some { msg with tag := tag.code, length := 0 }

def buildSuccessMsg (msg : TLVMessage) : TLVMessage :=
  { msg with tag := MessageTag.success.code, length := 1 }.write 0 [0]

def buildErrorMsg (msg : TLVMessage) (code : ErrorCode) : TLVMessage :=
  { msg with tag := MessageTag.error.code, length := 1 }.write 0 [code.code]

/-- `htons` followed by a copy of the two bytes. -/
def portBytes (port : UInt16) : List UInt8 :=
  [UInt8.ofNat (port.toNat / 256), UInt8.ofNat (port.toNat % 256)]

/-- A copy of two bytes followed by `ntohs`. -/
def portOfBytes (bytes : List UInt8) : UInt16 :=
  UInt16.ofNat ((bytes.getD 0 0).toNat * 256 + (bytes.getD 1 0).toNat)

@[simp] theorem portOfBytes_portBytes (port : UInt16) : portOfBytes (portBytes port) = port := by
  apply UInt16.toNat_inj.mp
  have := port.toNat_lt
  simp only [portOfBytes, portBytes, List.getD_cons_zero, List.getD_cons_succ,
    UInt8.toNat_ofNat', UInt16.toNat_ofNat']
  omega

def buildGroupInfoMsg (msg : TLVMessage) (ip : CStr) (port : UInt16) : Option TLVMessage :=
  if !isValidStr ip 16 then none
  else
    let ipLen := strlen ip
    if 1 + ipLen + 2 > tlvMaxValueLen then none
    else
      let msg := { msg with tag := MessageTag.groupInfo.code, length := UInt8.ofNat (1 + ipLen + 2) }
      let offset : UInt8 := 0
      let msg := msg.write offset.toNat [UInt8.ofNat ipLen]
      let offset := offset + 1
      let msg := msg.write offset.toNat ip.bytes
      let offset := offset + UInt8.ofNat ipLen
      some (msg.write offset.toNat (portBytes port))

/-- `parse_group_info`; `none` is the return value -1, before which neither
output is written. The announced length is compared with an 8-bit sum. -/
def parseGroupInfo (msg : TLVMessage) : Option (CharArray mcastIpLen × UInt16) :=
  if msg.tag ≠ MessageTag.groupInfo.code ∨ msg.length < 3 then none
  else
    let ipLen := msg.value.getD 0 0
    if h : UInt8.ofNat (1 + ipLen.toNat + 2) > msg.length ∨ ipLen.toNat ≥ 16 then none
    else
      let ip := CharArray.ofBytes ((msg.value.drop 1).take ipLen.toNat)
        (lt_of_le_of_lt (List.length_take_le _ _) (not_le.mp (not_or.mp h).2))
      some (ip, portOfBytes ((msg.value.drop (1 + ipLen.toNat)).take 2))

/-- `parse_group_info` with its outputs: the return code, and the bytes behind
`_ip` and the port behind `_port` afterwards. -/
def parseGroupInfoInto (msg : TLVMessage) (ip : List UInt8) (port : UInt16) :
    Int × List UInt8 × UInt16 :=
  if msg.tag ≠ MessageTag.groupInfo.code ∨ msg.length < 3 then (-1, ip, port)
  else
    let ipLen := msg.value.getD 0 0
    if UInt8.ofNat (1 + ipLen.toNat + 2) > msg.length ∨ ipLen.toNat ≥ 16 then (-1, ip, port)
    else
      let ip := memcpy ip 0 ((msg.value.drop 1).take ipLen.toNat)
      let ip := memcpy ip ipLen.toNat [0]
      (0, ip, portOfBytes ((msg.value.drop (1 + ipLen.toNat)).take 2))

/-- The wire form `[ulen | username | plen | password]`. -/
def authPayload (username password : CStr) : List UInt8 :=
  UInt8.ofNat (strlen username) :: username.bytes ++
    UInt8.ofNat (strlen password) :: password.bytes

/-- The wire form `[glen | group_name]`. -/
def groupPayload (groupName : CStr) : List UInt8 :=
  UInt8.ofNat (strlen groupName) :: groupName.bytes

/-- The wire form `[ip_len | ip_string | port]`. -/
def groupInfoPayload (ip : CStr) (port : UInt16) : List UInt8 :=
  UInt8.ofNat (strlen ip) :: ip.bytes ++ portBytes port

/-- A string behind a byte that holds its length. -/
def prefixed (bytes : List UInt8) : List UInt8 := UInt8.ofNat bytes.length :: bytes

@[simp] theorem prefixed_length (bytes : List UInt8) :
    (prefixed bytes).length = bytes.length + 1 := rfl

theorem authPayload_eq (username password : CStr) :
    authPayload username password = prefixed username.bytes ++ prefixed password.bytes := rfl

theorem groupPayload_eq (groupName : CStr) : groupPayload groupName = prefixed groupName.bytes :=
  rfl

theorem groupInfoPayload_eq (ip : CStr) (port : UInt16) :
    groupInfoPayload ip port = prefixed ip.bytes ++ portBytes port := rfl

@[simp] theorem isValidStr_iff {str : CStr} {maxLen : ℕ} :
    isValidStr str maxLen = true ↔ 0 < strlen str ∧ strlen str < maxLen := by
  simp [isValidStr]

/-- A length below 256 survives the cast to `uint8_t`. -/
theorem toNat_ofNat_lt {n : ℕ} (h : n < 256) : (UInt8.ofNat n).toNat = n := by
  simp only [UInt8.toNat_ofNat']
  omega

/-- An 8-bit sum below 256 does not wrap. -/
theorem toNat_add_lt {a b : UInt8} (h : a.toNat + b.toNat < 256) :
    (a + b).toNat = a.toNat + b.toNat := by
  rw [UInt8.toNat_add]
  exact Nat.mod_eq_of_lt h

namespace TLVMessage

/-- What a reader finds where the payload has a string behind its length. -/
theorem read_prefixed (m : TLVMessage) {front s back : List UInt8}
    (hpay : m.payload = front ++ prefixed s ++ back) (hs : s.length < 256) :
    (m.value.getD front.length 0).toNat = s.length ∧
      (m.value.drop (front.length + 1)).take s.length = s := by
  have hlen := congrArg List.length hpay
  simp only [m.payload_length, prefixed_length, List.length_append] at hlen
  constructor
  · rw [m.value_getD (by omega), hpay, List.append_assoc]
    simp [prefixed, toNat_ofNat_lt hs]
  · rw [m.value_slice (by omega), hpay, List.append_assoc, ← List.drop_drop, List.drop_left]
    simp [prefixed]

/-- Bytes that a reader takes for a string behind its length are one. -/
theorem take_prefixed (m : TLVMessage) (off : ℕ) {n : ℕ} (hn : (m.value.getD off 0).toNat = n)
    (h : off + 1 + n ≤ tlvMaxValueLen) :
    ((m.value.drop (off + 1)).take n).length = n ∧
      m.value.take (off + 1 + n) =
        m.value.take off ++ prefixed ((m.value.drop (off + 1)).take n) := by
  have hsize := m.value_size
  have hoff : off < m.value.length := by omega
  have hlen : ((m.value.drop (off + 1)).take n).length = n := by
    simp only [List.length_take, List.length_drop]
    omega
  have hbyte : m.value[off]? = some (UInt8.ofNat n) := by
    rw [List.getD_eq_getElem _ _ hoff] at hn
    rw [List.getElem?_eq_getElem hoff, Option.some.injEq]
    simp [← hn]
  refine ⟨hlen, ?_⟩
  rw [List.take_add, List.take_add_one, hbyte, prefixed, hlen, List.append_assoc]
  rfl

end TLVMessage

theorem buildAuthMsg_spec {msg m : TLVMessage} {tag : MessageTag} {username password : CStr}
    (h : buildAuthMsg msg tag username password = some m) :
    (tag = .register ∨ tag = .login) ∧ m.tag = tag.code ∧
      m.payload = authPayload username password ∧
      (0 < strlen username ∧ strlen username < maxUsernameLen) ∧
      0 < strlen password ∧ strlen password < maxPasswordLen := by
  unfold buildAuthMsg at h
  split at h
  · contradiction
  rename_i htag
  split at h
  · contradiction
  rename_i hu
  split at h
  · contradiction
  rename_i hp
  simp only [Bool.not_eq_eq_eq_not, Bool.not_true, Bool.not_eq_false, isValidStr_iff] at hu hp
  have hu32 : strlen username < 32 := hu.2
  have hp64 : strlen password < 64 := hp.2
  simp only [gt_iff_lt, show ¬ tlvMaxValueLen < 1 + strlen username + 1 + strlen password by
    change ¬ 256 < _; omega, if_false, Option.some.injEq] at h
  have hlen : (UInt8.ofNat (1 + strlen username + 1 + strlen password)).toNat =
      1 + strlen username + 1 + strlen password := toNat_ofNat_lt (by omega)
  have hul : (UInt8.ofNat (strlen username)).toNat = strlen username := toNat_ofNat_lt (by omega)
  have hoff : ((0 : UInt8) + 1 + UInt8.ofNat (strlen username)).toNat = 1 + strlen username := by
    rw [toNat_add_lt (by rw [hul]; change 1 + _ < 256; omega), hul]
    rfl
  have hoff' : ((0 : UInt8) + 1 + UInt8.ofNat (strlen username) + 1).toNat =
      1 + strlen username + 1 := by
    rw [toNat_add_lt (by rw [hoff]; change _ + 1 < 256; omega), hoff]
    rfl
  subst h
  refine ⟨by simpa only [not_and_or, not_not] using htag, rfl, ?_, hu, hp⟩
  simp only [TLVMessage.payload, TLVMessage.write_length, hlen, hoff, hoff']
  have hulen := TLVMessage.write_after (m := { msg with
      tag := tag.code, length := UInt8.ofNat (1 + strlen username + 1 + strlen password) })
    (n := 1) 0 [UInt8.ofNat (strlen username)] rfl rfl (by decide)
  have huname := TLVMessage.write_after _ username.bytes hulen rfl
    (by change 1 + strlen username ≤ 256; omega)
  have hplen := TLVMessage.write_after _ [UInt8.ofNat (strlen password)] huname rfl
    (by change 1 + strlen username + 1 ≤ 256; omega)
  have hpass := TLVMessage.write_after _ password.bytes hplen rfl
    (by change 1 + strlen username + 1 + strlen password ≤ 256; omega)
  exact hpass.trans (by simp [authPayload])

theorem buildGroupMsg_spec {msg m : TLVMessage} {tag : MessageTag} {groupName : CStr}
    (h : buildGroupMsg msg tag groupName = some m) :
    (tag = .joinGroup ∨ tag = .leaveGroup ∨ tag = .createGroup) ∧ m.tag = tag.code ∧
      m.payload = groupPayload groupName ∧
      0 < strlen groupName ∧ strlen groupName < maxGroupNameLen := by
  unfold buildGroupMsg at h
  split at h
  · contradiction
  rename_i htag
  split at h
  · contradiction
  rename_i hg
  simp only [Bool.not_eq_eq_eq_not, Bool.not_true, Bool.not_eq_false, isValidStr_iff] at hg
  have hg32 : strlen groupName < 32 := hg.2
  simp only [gt_iff_lt, show ¬ tlvMaxValueLen < 1 + strlen groupName by change ¬ 256 < _; omega,
    if_false, Option.some.injEq] at h
  have hlen : (UInt8.ofNat (1 + strlen groupName)).toNat = 1 + strlen groupName :=
    toNat_ofNat_lt (by omega)
  subst h
  refine ⟨by simpa only [not_and_or, not_not] using htag, rfl, ?_, hg⟩
  simp only [TLVMessage.payload, TLVMessage.write_length, hlen]
  have hglen := TLVMessage.write_after (m := { msg with
      tag := tag.code, length := UInt8.ofNat (1 + strlen groupName) })
    (n := 1) 0 [UInt8.ofNat (strlen groupName)] rfl rfl (by decide)
  exact TLVMessage.write_after _ groupName.bytes hglen rfl
    (by change 1 + strlen groupName ≤ 256; omega)

theorem buildSimpleMsg_spec {msg m : TLVMessage} {tag : MessageTag}
    (h : buildSimpleMsg msg tag = some m) :
    (tag = .logout ∨ tag = .exit) ∧ m.tag = tag.code ∧ m.payload = [] := by
  unfold buildSimpleMsg at h
  split at h
  · contradiction
  rename_i htag
  obtain rfl := Option.some.inj h
  exact ⟨by simpa only [not_and_or, not_not] using htag, rfl, rfl⟩

theorem buildGroupInfoMsg_spec {msg m : TLVMessage} {ip : CStr} {port : UInt16}
    (h : buildGroupInfoMsg msg ip port = some m) :
    m.tag = MessageTag.groupInfo.code ∧ m.payload = groupInfoPayload ip port ∧
      0 < strlen ip ∧ strlen ip < mcastIpLen := by
  unfold buildGroupInfoMsg at h
  split at h
  · contradiction
  rename_i hip
  simp only [Bool.not_eq_eq_eq_not, Bool.not_true, Bool.not_eq_false, isValidStr_iff] at hip
  have hip16 : strlen ip < 16 := hip.2
  simp only [gt_iff_lt, show ¬ tlvMaxValueLen < 1 + strlen ip + 2 by change ¬ 256 < _; omega,
    if_false, Option.some.injEq] at h
  have hlen : (UInt8.ofNat (1 + strlen ip + 2)).toNat = 1 + strlen ip + 2 :=
    toNat_ofNat_lt (by omega)
  have hil : (UInt8.ofNat (strlen ip)).toNat = strlen ip := toNat_ofNat_lt (by omega)
  have hoff : ((0 : UInt8) + 1 + UInt8.ofNat (strlen ip)).toNat = 1 + strlen ip := by
    rw [toNat_add_lt (by rw [hil]; change 1 + _ < 256; omega), hil]
    rfl
  subst h
  refine ⟨rfl, ?_, hip⟩
  simp only [TLVMessage.payload, TLVMessage.write_length, hlen, hoff]
  have hiplen := TLVMessage.write_after (m := { msg with
      tag := MessageTag.groupInfo.code, length := UInt8.ofNat (1 + strlen ip + 2) })
    (n := 1) 0 [UInt8.ofNat (strlen ip)] rfl rfl (by decide)
  have haddr := TLVMessage.write_after _ ip.bytes hiplen rfl
    (by change 1 + strlen ip ≤ 256; omega)
  exact TLVMessage.write_after _ (portBytes port) haddr rfl
    (by change 1 + strlen ip + 2 ≤ 256; omega)

/-- Every address string of valid length is encoded. -/
theorem buildGroupInfoMsg_isSome (msg : TLVMessage) {ip : CStr} (port : UInt16)
    (hpos : 0 < strlen ip) (hlt : strlen ip < mcastIpLen) :
    ∃ m, buildGroupInfoMsg msg ip port = some m := by
  have h16 : strlen ip < 16 := hlt
  have hv : isValidStr ip 16 = true := isValidStr_iff.mpr ⟨hpos, h16⟩
  simp only [buildGroupInfoMsg, hv, Bool.not_true, Bool.false_eq_true, if_false,
    if_neg (show ¬ 1 + strlen ip + 2 > tlvMaxValueLen by change ¬ _ > 256; omega)]
  exact ⟨_, rfl⟩

theorem buildSuccessMsg_spec (msg : TLVMessage) :
    (buildSuccessMsg msg).tag = MessageTag.success.code ∧ (buildSuccessMsg msg).payload = [0] :=
  ⟨rfl, TLVMessage.write_after (n := 1) 0 _ rfl rfl (by decide)⟩

theorem buildErrorMsg_spec (msg : TLVMessage) (code : ErrorCode) :
    (buildErrorMsg msg code).tag = MessageTag.error.code ∧
      (buildErrorMsg msg code).payload = [code.code] :=
  ⟨rfl, TLVMessage.write_after (n := 1) 0 _ rfl rfl (by decide)⟩

/-- Every pair of valid credentials is encoded. -/
theorem buildAuthMsg_isSome (msg : TLVMessage) {tag : MessageTag} {username password : CStr}
    (htag : tag = .register ∨ tag = .login)
    (hu : 0 < strlen username ∧ strlen username < maxUsernameLen)
    (hp : 0 < strlen password ∧ strlen password < maxPasswordLen) :
    ∃ m, buildAuthMsg msg tag username password = some m := by
  have hu32 : strlen username < 32 := hu.2
  have hp64 : strlen password < 64 := hp.2
  simp only [buildAuthMsg, if_neg (show ¬ (tag ≠ .register ∧ tag ≠ .login) by tauto),
    isValidStr_iff.mpr hu, isValidStr_iff.mpr hp, Bool.not_true, Bool.false_eq_true, if_false,
    if_neg (show ¬ 1 + strlen username + 1 + strlen password > tlvMaxValueLen by
      change ¬ _ > 256; omega)]
  exact ⟨_, rfl⟩

/-- Every valid group name is encoded. -/
theorem buildGroupMsg_isSome (msg : TLVMessage) {tag : MessageTag} {groupName : CStr}
    (htag : tag = .joinGroup ∨ tag = .leaveGroup ∨ tag = .createGroup)
    (hg : 0 < strlen groupName ∧ strlen groupName < maxGroupNameLen) :
    ∃ m, buildGroupMsg msg tag groupName = some m := by
  have hg32 : strlen groupName < 32 := hg.2
  simp only [buildGroupMsg,
    if_neg (show ¬ (tag ≠ .joinGroup ∧ tag ≠ .leaveGroup ∧ tag ≠ .createGroup) by tauto),
    isValidStr_iff.mpr hg, Bool.not_true, Bool.false_eq_true, if_false,
    if_neg (show ¬ 1 + strlen groupName > tlvMaxValueLen by change ¬ _ > 256; omega)]
  exact ⟨_, rfl⟩

theorem portBytes_portOfBytes {bytes : List UInt8} (h : bytes.length = 2) :
    portBytes (portOfBytes bytes) = bytes := by
  obtain ⟨a, b, rfl⟩ := List.length_eq_two.mp h
  have ha := a.toNat_lt
  have hb := b.toNat_lt
  simp only [portBytes, portOfBytes, List.getD_cons_zero, List.getD_cons_succ, UInt16.toNat_ofNat']
  rw [Nat.mod_eq_of_lt (by omega), Nat.add_comm, Nat.add_mul_div_right _ _ (by decide),
    Nat.div_eq_of_lt hb, Nat.zero_add, Nat.add_mul_mod_self_right, Nat.mod_eq_of_lt hb,
    UInt8.ofNat_toNat, UInt8.ofNat_toNat]

/-- An address message: a string of at most 15 bytes behind its length, two bytes
of port, and perhaps more. -/
structure GroupInfoShape (msg : TLVMessage) (ip port rest : List UInt8) : Prop where
  tag : msg.tag = MessageTag.groupInfo.code
  payload : msg.payload = prefixed ip ++ port ++ rest
  lt : ip.length < mcastIpLen
  port_size : port.length = 2

/-- What the decoder reads in a message of this shape passes its checks. -/
theorem GroupInfoShape.reads {msg : TLVMessage} {ip port rest : List UInt8}
    (h : GroupInfoShape msg ip port rest) :
    ¬ (msg.tag ≠ MessageTag.groupInfo.code ∨ msg.length < 3) ∧
      (msg.value.getD 0 0).toNat = ip.length ∧
      ¬ (UInt8.ofNat (1 + ip.length + 2) > msg.length ∨ ip.length ≥ 16) ∧
      (msg.value.drop 1).take ip.length = ip ∧ (msg.value.drop (1 + ip.length)).take 2 = port := by
  have hip : ip.length < 16 := h.lt
  have hlen : msg.length.toNat = 1 + ip.length + 2 + rest.length := by
    rw [← msg.payload_length, h.payload, List.length_append, List.length_append, prefixed_length,
      h.port_size]
    omega
  have hpay : msg.payload = [] ++ prefixed ip ++ (port ++ rest) := by
    rw [h.payload, List.nil_append, List.append_assoc]
  obtain ⟨hipLen, haddr⟩ := msg.read_prefixed hpay (by omega)
  rw [List.length_nil] at hipLen haddr
  have hport : (msg.value.drop (1 + ip.length)).take 2 = port := by
    rw [msg.value_slice (by omega), h.payload, List.append_assoc, Nat.add_comm 1,
      ← prefixed_length, List.drop_left, ← h.port_size, List.take_left]
  have hhead : ¬ (msg.tag ≠ MessageTag.groupInfo.code ∨ msg.length < 3) := by
    rw [not_or, UInt8.lt_iff_toNat_lt, hlen]
    exact ⟨by simp [h.tag], by change ¬ _ < 3; omega⟩
  have hfit : ¬ (UInt8.ofNat (1 + ip.length + 2) > msg.length ∨ ip.length ≥ 16) := by
    rw [not_or, gt_iff_lt, UInt8.lt_iff_toNat_lt, hlen, toNat_ofNat_lt (by omega)]
    omega
  exact ⟨hhead, hipLen, hfit, haddr, hport⟩

/-- Values of this shape are accepted, whatever the stale bytes are; what is read
ends at a NUL byte. -/
theorem GroupInfoShape.parse {msg : TLVMessage} {ip port rest : List UInt8}
    (h : GroupInfoShape msg ip port rest) :
    parseGroupInfo msg = some (.ofBytes ip h.lt, portOfBytes port) := by
  obtain ⟨hhead, hipLen, hfit, haddr, hport⟩ := h.reads
  simp only [parseGroupInfo, if_neg hhead, hipLen, hport, haddr]
  exact dif_neg hfit

/-- The outputs for an accepted message. -/
theorem GroupInfoShape.parseInto {msg : TLVMessage} {ip port rest : List UInt8}
    (h : GroupInfoShape msg ip port rest) (buf : List UInt8) (old : UInt16) :
    parseGroupInfoInto msg buf old =
      (0, memcpy (memcpy buf 0 ip) ip.length [0], portOfBytes port) := by
  obtain ⟨hhead, hipLen, hfit, haddr, hport⟩ := h.reads
  simp only [parseGroupInfoInto, if_neg hhead, hipLen, if_neg hfit, haddr, hport]

/-- A message that is not accepted leaves both outputs alone. -/
theorem parseGroupInfoInto_of_none {msg : TLVMessage} (h : parseGroupInfo msg = none)
    (buf : List UInt8) (old : UInt16) : parseGroupInfoInto msg buf old = (-1, buf, old) := by
  unfold parseGroupInfo at h
  unfold parseGroupInfoInto
  split at h
  · rename_i hhead
    rw [if_pos hhead]
  · rename_i hhead
    rw [if_neg hhead]
    dsimp only at h ⊢
    split at h
    · rename_i hfit
      rw [if_pos hfit]
    · cases h

/-- Only values of this shape are accepted. -/
theorem groupInfoShape_of_parse {msg : TLVMessage} {addr : CharArray mcastIpLen} {p : UInt16}
    (h : parseGroupInfo msg = some (addr, p)) :
    ∃ ip port rest, ∃ hshape : GroupInfoShape msg ip port rest,
      addr = .ofBytes ip hshape.lt ∧ p = portOfBytes port := by
  unfold parseGroupInfo at h
  split at h
  · contradiction
  rename_i hhead
  dsimp only at h
  split at h
  · contradiction
  rename_i hfit
  obtain ⟨rfl, rfl⟩ := Prod.mk.inj (Option.some.inj h)
  rw [not_or, not_not] at hhead
  rw [not_or, gt_iff_lt, UInt8.lt_iff_toNat_lt, not_lt, not_le] at hfit
  rw [toNat_ofNat_lt (by omega)] at hfit
  have hmax := msg.length_lt
  obtain ⟨hlen, hip⟩ := msg.take_prefixed 0 rfl (by omega)
  simp only [Nat.zero_add, List.take_zero, List.nil_append] at hlen hip
  have hpay : msg.payload = prefixed ((msg.value.drop 1).take (msg.value.getD 0 0).toNat) ++
      (msg.value.drop (1 + (msg.value.getD 0 0).toNat)).take 2 ++
      (msg.value.drop (1 + (msg.value.getD 0 0).toNat + 2)).take
        (msg.length.toNat - (1 + (msg.value.getD 0 0).toNat + 2)) := by
    rw [← hip, ← List.take_add, ← List.take_add, Nat.add_sub_cancel' hfit.1, TLVMessage.payload]
  refine ⟨_, _, _, ⟨hhead.1, hpay, ?_, ?_⟩, rfl, rfl⟩
  · rw [hlen]
    exact hfit.2
  · rw [List.length_take, List.length_drop, msg.value_size]
    omega

/-- The client reads back what the encoder wrote, whatever the stale bytes are. -/
theorem parseGroupInfo_of_payload {m : TLVMessage} {ip : CharArray mcastIpLen} {port : UInt16}
    (htag : m.tag = MessageTag.groupInfo.code) (hpay : m.payload = groupInfoPayload ip.toCStr port) :
    parseGroupInfo m = some (ip, port) := by
  have hshape : GroupInfoShape m ip.bytes (portBytes port) [] :=
    ⟨htag, by rw [hpay, List.append_nil]; rfl, ip.fits, rfl⟩
  rw [hshape.parse, charArray_ofBytes_eq ip _ rfl, portOfBytes_portBytes]

end MeshChat
