import MeshChat.Server.Mng

/-!
# Requests and replies on the wire

What the server reads out of a message, and what its replies say. The parsers
look at announced bytes only, and a reply is determined by its tag and its
announced bytes whatever the rest of the reply buffer holds.
-/
namespace MeshChat.Server

abbrev Username := CharArray maxUsernameLen
abbrev Password := CharArray maxPasswordLen
abbrev GroupName := CharArray maxGroupNameLen

/-- The value bytes are two strings behind their lengths, within the limits. -/
structure AuthShape (msg : TLVMessage) (name pass : List UInt8) : Prop where
  payload : msg.payload = prefixed name ++ prefixed pass
  name_pos : 0 < name.length
  name_lt : name.length < maxUsernameLen
  pass_pos : 0 < pass.length
  pass_lt : pass.length < maxPasswordLen

/-- The value bytes are one string behind its length, within the limits. -/
structure GroupShape (msg : TLVMessage) (name : List UInt8) : Prop where
  payload : msg.payload = prefixed name
  pos : 0 < name.length
  lt : name.length < maxGroupNameLen

/-- Values of this shape are accepted; what is read ends at a NUL byte. -/
theorem AuthShape.parse {msg : TLVMessage} {name pass : List UInt8} (h : AuthShape msg name pass) :
    parseAuthValue msg = some (.ofBytes name h.name_lt, .ofBytes pass h.pass_lt) := by
  have hul : name.length < 32 := h.name_lt
  have hpl : pass.length < 64 := h.pass_lt
  have hupos := h.name_pos
  have hppos := h.pass_pos
  have hlen : msg.length.toNat = 1 + name.length + 1 + pass.length := by
    rw [← msg.payload_length, h.payload, List.length_append, prefixed_length, prefixed_length]
    omega
  have hpay : msg.payload = [] ++ prefixed name ++ prefixed pass := h.payload
  have hpay' : msg.payload = prefixed name ++ prefixed pass ++ [] := by
    rw [h.payload, List.append_nil]
  obtain ⟨hulen, huname⟩ := msg.read_prefixed hpay (by omega)
  obtain ⟨hplen, hpass⟩ := msg.read_prefixed hpay' (by omega)
  rw [prefixed_length, Nat.add_comm name.length] at hplen hpass
  rw [List.length_nil] at hulen huname
  simp only [parseAuthValue, hulen, hplen, hlen]
  rw [if_neg (by omega), if_neg (by omega), if_neg (by omega),
    dif_neg (by change ¬ (_ ∨ _ ≥ 32); omega), dif_neg (by change ¬ (_ ∨ _ ≥ 64); omega)]
  simp only [huname, hpass]

/-- Only values of this shape are accepted. -/
theorem authShape_of_parse {msg : TLVMessage} {u : Username} {p : Password}
    (h : parseAuthValue msg = some (u, p)) : ∃ name pass, ∃ hshape : AuthShape msg name pass,
      u = .ofBytes name hshape.name_lt ∧ p = .ofBytes pass hshape.pass_lt := by
  unfold parseAuthValue at h
  dsimp only at h
  split at h
  · contradiction
  split at h
  · contradiction
  split at h
  · contradiction
  rename_i hlen
  split at h
  · contradiction
  rename_i hu
  split at h
  · contradiction
  rename_i hp
  rw [not_not] at hlen
  obtain ⟨rfl, rfl⟩ := Prod.mk.inj (Option.some.inj h)
  have hmax := msg.length_lt
  obtain ⟨hulen, huname⟩ := msg.take_prefixed 0 rfl (by omega)
  simp only [Nat.zero_add, List.take_zero, List.nil_append] at hulen huname
  obtain ⟨hplen, hpass⟩ := msg.take_prefixed (1 + (msg.value.getD 0 0).toNat) rfl (by omega)
  rw [huname, hlen] at hpass
  exact ⟨_, _, ⟨hpass, by omega, by omega, by omega, by omega⟩, rfl, rfl⟩

/-- Values of this shape are accepted as a group name. -/
theorem GroupShape.parse {msg : TLVMessage} {name : List UInt8} (h : GroupShape msg name) :
    parseGroupValue msg = some (.ofBytes name h.lt) := by
  have hnl : name.length < 32 := h.lt
  have hpos := h.pos
  have hlen : msg.length.toNat = 1 + name.length := by
    rw [← msg.payload_length, h.payload, prefixed_length]
    omega
  have hpay : msg.payload = [] ++ prefixed name ++ [] := by
    rw [h.payload, List.append_nil, List.nil_append]
  obtain ⟨hglen, hgname⟩ := msg.read_prefixed hpay (by omega)
  rw [List.length_nil] at hglen hgname
  simp only [parseGroupValue, hglen, hlen]
  rw [if_neg (by omega), if_neg (by omega), dif_neg (by change ¬ (_ ∨ _ ≥ 32); omega)]
  simp only [hgname]

/-- Only values of this shape are accepted as a group name. -/
theorem groupShape_of_parse {msg : TLVMessage} {g : GroupName}
    (h : parseGroupValue msg = some g) :
    ∃ name, ∃ hshape : GroupShape msg name, g = .ofBytes name hshape.lt := by
  unfold parseGroupValue at h
  dsimp only at h
  split at h
  · contradiction
  split at h
  · contradiction
  rename_i hlen
  split at h
  · contradiction
  rename_i hg
  rw [not_not] at hlen
  obtain rfl := Option.some.inj h
  have hmax := msg.length_lt
  obtain ⟨hglen, hgname⟩ := msg.take_prefixed 0 rfl (by omega)
  simp only [Nat.zero_add, List.take_zero, List.nil_append, hlen] at hglen hgname
  exact ⟨_, ⟨hgname, by omega, by omega⟩, rfl⟩

/-- The server reads back exactly the credentials the encoder wrote. -/
theorem parseAuthValue_of_payload {msg : TLVMessage} {username : Username} {password : Password}
    (hu : 0 < strlen username.toCStr) (hp : 0 < strlen password.toCStr)
    (hpay : msg.payload = authPayload username.toCStr password.toCStr) :
    parseAuthValue msg = some (username, password) := by
  have hshape : AuthShape msg username.bytes password.bytes :=
    ⟨hpay, hu, username.fits, hp, password.fits⟩
  rw [hshape.parse, charArray_ofBytes_eq username _ rfl, charArray_ofBytes_eq password _ rfl]

/-- The server reads back exactly the group name the encoder wrote. -/
theorem parseGroupValue_of_payload {msg : TLVMessage} {name : GroupName}
    (hn : 0 < strlen name.toCStr) (hpay : msg.payload = groupPayload name.toCStr) :
    parseGroupValue msg = some name := by
  have hshape : GroupShape msg name.bytes := ⟨hpay, hn, name.fits⟩
  rw [hshape.parse, charArray_ofBytes_eq name _ rfl]

/-- What a message asks for. A payload that the handler's parser rejects is
`none`; a tag no handler takes is `unknown`. -/
inductive Request where
  | register (auth : Option (Username × Password))
  | login (auth : Option (Username × Password))
  | logout
  | exit
  | createGroup (name : Option GroupName)
  | joinGroup (name : Option GroupName)
  | leaveGroup (name : Option GroupName)
  | unknown
  deriving DecidableEq

namespace Request

def ofMsg (msg : TLVMessage) : Request :=
  match MessageTag.ofCode msg.tag with
  | some .register => .register (parseAuthValue msg)
  | some .login => .login (parseAuthValue msg)
  | some .logout => .logout
  | some .exit => .exit
  | some .createGroup => .createGroup (parseGroupValue msg)
  | some .joinGroup => .joinGroup (parseGroupValue msg)
  | some .leaveGroup => .leaveGroup (parseGroupValue msg)
  | _ => .unknown

/-- The requests that `cleanup_client` serves. -/
def endsSession : Request → Prop
  | logout | exit => True
  | _ => False

instance : DecidablePred endsSession
  | logout | exit => isTrue trivial
  | register _ | login _ | createGroup _ | joinGroup _ | leaveGroup _ | unknown => isFalse id

/-- The requests that neither log in or out nor register. -/
def leavesSessions : Request → Prop
  | createGroup _ | joinGroup _ | leaveGroup _ | unknown => True
  | _ => False

theorem leavesSessions.not_endsSession {req : Request} (h : req.leavesSessions) :
    ¬ req.endsSession := by
  cases req <;> simp_all [leavesSessions, endsSession]

/-- The requests that do not touch any group. -/
def leavesGroups : Request → Prop
  | register _ | login _ => True
  | _ => False

theorem leavesGroups.not_leavesSessions {req : Request} (h : req.leavesGroups) :
    ¬ req.leavesSessions := by
  cases req <;> simp_all [leavesGroups, leavesSessions]

/-- The requests that may be answered with a group's address. -/
def asksGroup : Request → Prop
  | createGroup _ | joinGroup _ => True
  | _ => False

theorem ofMsg_endsSession {msg : TLVMessage} : (ofMsg msg).endsSession ↔
    msg.tag = MessageTag.logout.code ∨ msg.tag = MessageTag.exit.code := by
  rw [← MessageTag.ofCode_eq_some, ← MessageTag.ofCode_eq_some, ofMsg]
  cases MessageTag.ofCode msg.tag with
  | none => simp [endsSession]
  | some tag => cases tag <;> simp [endsSession]

theorem tag_of_ofMsg_login {msg : TLVMessage} {auth : Option (Username × Password)}
    (h : ofMsg msg = .login auth) : msg.tag = MessageTag.login.code := by
  rw [← MessageTag.ofCode_eq_some]
  unfold ofMsg at h
  cases htag : MessageTag.ofCode msg.tag with
  | none => simp [htag] at h
  | some tag => cases tag <;> simp_all

theorem tag_of_ofMsg_exit {msg : TLVMessage} (h : ofMsg msg = .exit) :
    msg.tag = MessageTag.exit.code := by
  rw [← MessageTag.ofCode_eq_some]
  unfold ofMsg at h
  cases htag : MessageTag.ofCode msg.tag with
  | none => simp [htag] at h
  | some tag => cases tag <;> simp_all

end Request

inductive Reply where
  | success
  | error (code : ErrorCode)
  | groupInfo (addr : McastEntry)
  deriving DecidableEq

namespace Reply

def tag : Reply → MessageTag
  | success => .success
  | error _ => .error
  | groupInfo _ => .groupInfo

def payload : Reply → List UInt8
  | success => [0]
  | error code => [code.code]
  | groupInfo addr => groupInfoPayload addr.ip.toCStr addr.port

/-- The message says what the reply says; its tag, its length and every
announced byte are determined. -/
def Describes (reply : Reply) (msg : TLVMessage) : Prop :=
  msg.tag = reply.tag.code ∧ msg.payload = reply.payload

theorem describes_success (stack : TLVMessage) : success.Describes (buildSuccessMsg stack) :=
  buildSuccessMsg_spec stack

theorem describes_error (stack : TLVMessage) (code : ErrorCode) :
    (error code).Describes (buildErrorMsg stack code) :=
  buildErrorMsg_spec stack code

theorem describes_groupInfo (stack : TLVMessage) {addr : McastEntry}
    (hip : 0 < strlen addr.ip.toCStr) :
    (groupInfo addr).Describes
      ((buildGroupInfoMsg stack addr.ip.toCStr addr.port).getD stack) := by
  obtain ⟨m, hm⟩ := buildGroupInfoMsg_isSome stack addr.port hip addr.ip.fits
  rw [hm]
  exact ⟨(buildGroupInfoMsg_spec hm).1, (buildGroupInfoMsg_spec hm).2.1⟩

/-- Every reply fits the 8-bit total length. -/
theorem Describes.length_le {reply : Reply} {msg : TLVMessage} (h : reply.Describes msg) :
    msg.length.toNat ≤ 253 := by
  rw [← msg.payload_length, h.2]
  cases reply with
  | success => decide
  | error code => exact (by decide : 1 ≤ 253)
  | groupInfo addr =>
    have hip : strlen addr.ip.toCStr < 16 := addr.ip.fits
    simp only [payload, groupInfoPayload, portBytes, List.length_append, List.length_cons,
      List.length_nil]
    change strlen addr.ip.toCStr + 1 + _ ≤ _
    omega

/-- The client's parser reads the address out of the reply. -/
theorem Describes.parseGroupInfo {addr : McastEntry} {msg : TLVMessage}
    (h : (groupInfo addr).Describes msg) : MeshChat.parseGroupInfo msg = some (addr.ip, addr.port) :=
  parseGroupInfo_of_payload h.1 h.2

theorem errorCode_injective : Function.Injective ErrorCode.code := by
  intro a b h
  cases a <;> cases b <;> first | rfl | exact absurd h (by decide)

/-- One message describes at most one reply. -/
theorem Describes.unique {a b : Reply} {msg : TLVMessage} (ha : a.Describes msg)
    (hb : b.Describes msg) : a = b := by
  have htag : a.tag = b.tag := MessageTag.code_injective (ha.1.symm.trans hb.1)
  cases a <;> cases b <;> try contradiction
  · rfl
  · have hcode := ha.2.symm.trans hb.2
    rw [payload, payload, List.cons.injEq] at hcode
    rw [errorCode_injective hcode.1]
  · have hparse := ha.parseGroupInfo.symm.trans hb.parseGroupInfo
    rw [Option.some.injEq, Prod.mk.injEq] at hparse
    exact congrArg groupInfo (by rename_i x y; cases x; cases y; simp_all)

end Reply

/-- Exactly one message went out, to `fd`, and it is a complete `reply`. -/
def Sends (fd : Int) (reply : Reply) (sent : List Sent) : Prop :=
  ∃ msg, sent = [⟨fd, msg⟩] ∧ reply.Describes msg

theorem sends_error (env : Env) (fd : Int) (code : ErrorCode) :
    Sends fd (.error code) (sendError env fd code) :=
  ⟨_, rfl, Reply.describes_error _ _⟩

theorem sends_success (env : Env) (fd : Int) : Sends fd .success (sendSuccess env fd) :=
  ⟨_, rfl, Reply.describes_success _⟩

theorem sends_groupInfo (env : Env) (fd : Int) (grp : GroupRecord)
    (hip : 0 < strlen grp.mcastIp.toCStr) :
    Sends fd (.groupInfo grp.addr) (sendGroupInfo env fd grp) :=
  ⟨_, rfl, Reply.describes_groupInfo _ hip⟩

/-- One list of messages is at most one reply. -/
theorem Sends.unique {fd : Int} {a b : Reply} {sent : List Sent} (ha : Sends fd a sent)
    (hb : Sends fd b sent) : a = b := by
  obtain ⟨m, rfl, hm⟩ := ha
  obtain ⟨m', he, hm'⟩ := hb
  obtain rfl : m = m' := by simpa using he
  exact hm.unique hm'

/-- Without failing allocations an error reply means that nothing changed. -/
def ErrorKeeps (env : Env) (reply : Reply) (ctx ctx' : ServerContext) : Prop :=
  ∀ code, reply = .error code → env.AllocOk → ctx' = ctx

namespace ErrorKeeps
variable {env : Env} {reply : Reply} {ctx ctx' : ServerContext}

theorem refl : ErrorKeeps env reply ctx ctx := fun _ _ _ => rfl

theorem of_ne_error (h : ∀ code, reply ≠ .error code) : ErrorKeeps env reply ctx ctx' :=
  fun code hc => absurd hc (h code)

theorem of_fault (h : ¬ env.AllocOk) : ErrorKeeps env reply ctx ctx' :=
  fun _ _ hok => absurd hok h

theorem success : ErrorKeeps env .success ctx ctx' := of_ne_error fun _ => nofun

theorem groupInfo {addr : McastEntry} : ErrorKeeps env (.groupInfo addr) ctx ctx' :=
  of_ne_error fun _ => nofun

end ErrorKeeps

end MeshChat.Server
