import MeshChat.Lib.Multicast
import MeshChat.Client.Spawn
import MeshChat.Server.Addresses

/-!
# Chat windows on the network

The `sender` and `receiver` programs: how they set up their sockets, what a typed
line becomes, and what is printed when a datagram arrives. The network delivers
a datagram to any hosts, at any time and in any order.
-/
namespace MeshChat.Chat
open Server Client Runs Multicast

abbrev bufferSize : ℕ := 256

/-- `INADDR_NONE`. -/
abbrev inaddrNone : UInt32 := 0xffffffff

/-- A window: its process, the host it runs on, and the group of the session that
it was spawned for. -/
structure ChatWindow where
  host : ℕ
  proc : ChatProcess
  group : GroupName
  deriving DecidableEq

/-- `dest_addr` of a sender. -/
def destAddr (multicastIp : CharArray mcastIpLen) : Option (UInt32 × UInt16) :=
  if inetAddr multicastIp.bytes = inaddrNone then none
  else some (inetAddr multicastIp.bytes, multicastBasePort)

/-- A line from `fgets` without its newline. -/
def stripNewline (input : CharArray bufferSize) : List UInt8 :=
  if input.bytes.getLast? = some 10 then input.bytes.dropLast else input.bytes

/-- The text `[username]: line`. -/
def formatLine (username : Username) (line : List UInt8) : List UInt8 :=
  91 :: username.bytes ++ [93, 58, 32] ++ line

/-- What `sendto` takes: `message` holds as much of the text as fits, but `msg_len`
is the length of the whole text, so bytes behind the buffer may follow. -/
def datagramData (text behind : List UInt8) : List UInt8 :=
  (text.take (bufferSize - 1) ++ 0 :: behind).take text.length

/-- A datagram, with the window that sent it. -/
structure Datagram where
  sender : ChatWindow
  group : UInt32
  port : UInt16
  data : List UInt8
  deriving DecidableEq

/-- One turn of the sender's loop: the datagram that a typed line becomes. -/
def sendLine (w : ChatWindow) (input : CharArray bufferSize) (behind : List UInt8) :
    Option Datagram :=
  let line := stripNewline input
  if line = [] then none
  else (destAddr w.proc.multicastIp).map fun dest =>
    ⟨w, dest.1, dest.2, datagramData (formatLine w.proc.username line) behind⟩

/-- The socket of a receiver when its loop starts: bound to the common port on any
address, in its group, and with no option set but `SO_REUSEADDR`. -/
def receiverSocket (multicastIp : CharArray mcastIpLen) : Option (UdpSocket UInt32 UInt16) :=
  if inetAddr multicastIp.bytes = inaddrNone then none
  else some {
    port := multicastBasePort
    addr := none
    joined := [inetAddr multicastIp.bytes]
    multicastAll := true }

/-- What `recvfrom` and `printf` make of a datagram. -/
def printedText (data : List UInt8) : List UInt8 :=
  (CStr.ofBytes (data.take (bufferSize - 1))).bytes

/-- A line that a receiver printed, with the datagram it came from. -/
structure PrintedLine where
  receiver : ChatWindow
  datagram : Datagram
  text : List UInt8
  deriving DecidableEq

/-- The windows that run, on any hosts. -/
structure Windows where
  senders : List ChatWindow
  receivers : List ChatWindow

namespace Windows

/-- The receivers' sockets on a host. -/
def socketsOn (ws : Windows) (host : ℕ) : List (UdpSocket UInt32 UInt16) :=
  (ws.receivers.filter fun w => decide (w.host = host)).filterMap
    fun w => receiverSocket w.proc.multicastIp

/-- Whether a datagram that reached a window's host is delivered to the window. -/
def gets (ws : Windows) (w : ChatWindow) (d : Datagram) : Bool :=
  match receiverSocket w.proc.multicastIp with
  | none => false
  | some s => decide (Delivers (ws.socketsOn w.host) d.group d.port s)

/-- The lines that a host's receivers print when a datagram reaches it. -/
def printsOn (ws : Windows) (host : ℕ) (d : Datagram) : List PrintedLine :=
  (ws.receivers.filter fun w => decide (w.host = host) && ws.gets w d).map
    fun w => ⟨w, d, printedText d.data⟩

end Windows

/-- The datagrams sent so far and the lines printed so far. -/
structure Network where
  sent : List Datagram
  printed : List PrintedLine

inductive ChatEvent where
  /-- A line typed into a sender; `behind` is what follows its message buffer. -/
  | type (w : ChatWindow) (input : CharArray bufferSize) (behind : List UInt8)
  /-- A datagram that was sent reaches a host. -/
  | arrive (d : Datagram) (host : ℕ)

def chatStep (ws : Windows) (s : Network) : ChatEvent → Option Network
  | .type w input behind =>
      if w ∈ ws.senders then some { s with sent := s.sent ++ (sendLine w input behind).toList }
      else none
  | .arrive d host =>
      if d ∈ s.sent then some { s with printed := s.printed ++ ws.printsOn host d } else none

def ChatStep (ws : Windows) (s : Network) (e : ChatEvent) (t : Network) : Prop :=
  chatStep ws s e = some t

/-- In every run of the windows, a receiver prints only what was sent for its own
group. -/
def Isolated (ws : Windows) : Prop :=
  ∀ (moves : List (Move Network ChatEvent)) (s : Network), Run (ChatStep ws) ⟨[], []⟩ moves s →
    ∀ line ∈ s.printed, line.datagram.sender.group = line.receiver.group

/-- Every window was spawned for a live group, with that group's address. -/
def SpawnedFor (ctx : ServerContext) (ws : Windows) : Prop :=
  ∀ w ∈ ws.senders ++ ws.receivers, ∃ grp ∈ ctx.groups,
    grp.name = w.group ∧ grp.mcastIp = w.proc.multicastIp

/-- No host has receivers of two groups one of which has a sender. -/
def SeparateHosts (ws : Windows) : Prop :=
  ∀ r ∈ ws.receivers, ∀ r' ∈ ws.receivers, r'.host = r.host → r'.group ≠ r.group →
    ∀ w ∈ ws.senders, w.group ≠ r'.group

instance (ws : Windows) : Decidable (SeparateHosts ws) := by
  unfold SeparateHosts
  infer_instance

/-- The preloaded addresses are distinct as numbers too. -/
theorem poolEntries_inetAddr : ∀ a ∈ poolEntries, inetAddr a.ip.bytes ≠ inaddrNone ∧
    ∀ b ∈ poolEntries, inetAddr a.ip.bytes = inetAddr b.ip.bytes → a = b := by
  decide

section Delivery
variable {ctx : ServerContext} {ws : Windows} {w w' : ChatWindow}

/-- The number that a window's process makes of its address argument. -/
def ChatWindow.addr (w : ChatWindow) : UInt32 := inetAddr w.proc.multicastIp.bytes

theorem addr_eq_iff (hok : AddressesOk ctx) (hws : SpawnedFor ctx ws)
    (hw : w ∈ ws.senders ++ ws.receivers) (hw' : w' ∈ ws.senders ++ ws.receivers) :
    w.addr = w'.addr ↔ w.group = w'.group := by
  obtain ⟨grp, hg, hname, hip⟩ := hws w hw
  obtain ⟨grp', hg', hname', hip'⟩ := hws w' hw'
  rw [ChatWindow.addr, ChatWindow.addr, ← hip, ← hip', ← hname, ← hname']
  constructor
  · intro h
    have haddr : grp.addr = grp'.addr := (poolEntries_inetAddr _ (hok.addressed.mem_poolEntries hg)).2
      _ (hok.addressed.mem_poolEntries hg') h
    have hnd := (List.nodup_append.mp hok.addressed.nodup).1
    rw [List.inj_on_of_nodup_map hnd hg hg' haddr]
  · intro h
    rw [List.inj_on_of_nodup_map hok.groups.names hg hg' h]

theorem addr_ne_none (hok : AddressesOk ctx) (hws : SpawnedFor ctx ws)
    (hw : w ∈ ws.senders ++ ws.receivers) : w.addr ≠ inaddrNone := by
  obtain ⟨grp, hg, hname, hip⟩ := hws w hw
  rw [ChatWindow.addr, ← hip]
  exact (poolEntries_inetAddr _ (hok.addressed.mem_poolEntries hg)).1

theorem receiverSocket_eq (hok : AddressesOk ctx) (hws : SpawnedFor ctx ws)
    (hw : w ∈ ws.receivers) : receiverSocket w.proc.multicastIp =
      some ⟨multicastBasePort, none, [w.addr], true⟩ :=
  if_neg (addr_ne_none hok hws (List.mem_append_right _ hw))

/-- A receiver gets what is sent to any group that has a receiver on its host. -/
theorem gets_iff (hok : AddressesOk ctx) (hws : SpawnedFor ctx ws) (hw : w ∈ ws.receivers)
    {d : Datagram} (hport : d.port = multicastBasePort) :
    ws.gets w d = true ↔ ∃ r ∈ ws.receivers, r.host = w.host ∧ d.group = r.addr := by
  have hsock := receiverSocket_eq hok hws hw
  have hmem : (⟨multicastBasePort, none, [w.addr], true⟩ : UdpSocket UInt32 UInt16) ∈
      ws.socketsOn w.host :=
    List.mem_filterMap.mpr ⟨w, List.mem_filter.mpr ⟨hw, by simp⟩, hsock⟩
  rw [Windows.gets, hsock]
  dsimp only
  rw [decide_eq_true_eq, delivers_iff_joined_on_host hmem hport.symm rfl rfl]
  constructor
  · rintro ⟨t, ht, hjoined⟩
    obtain ⟨r, hr, hsock'⟩ := List.mem_filterMap.mp ht
    obtain ⟨hr, hhost⟩ := List.mem_filter.mp hr
    rw [receiverSocket_eq hok hws hr, Option.some.injEq] at hsock'
    subst hsock'
    exact ⟨r, hr, of_decide_eq_true hhost, List.mem_singleton.mp hjoined⟩
  · rintro ⟨r, hr, hhost, hgroup⟩
    exact ⟨_, List.mem_filterMap.mpr ⟨r, List.mem_filter.mpr ⟨hr, decide_eq_true hhost⟩,
      receiverSocket_eq hok hws hr⟩, hgroup ▸ List.mem_singleton_self _⟩

theorem sendLine_spec {input : CharArray bufferSize} {behind : List UInt8} {d : Datagram}
    (h : sendLine w input behind = some d) :
    d.sender = w ∧ d.group = w.addr ∧ d.port = multicastBasePort := by
  unfold sendLine at h
  dsimp only at h
  split at h
  · cases h
  · obtain ⟨dest, hdest, rfl⟩ := Option.map_eq_some_iff.mp h
    obtain ⟨-, hdest⟩ := Option.ite_none_left_eq_some.mp hdest
    obtain rfl := Option.some.inj hdest
    exact ⟨rfl, rfl, rfl⟩

end Delivery

/-- Where the datagrams and the printed lines come from. -/
structure Traced (ws : Windows) (s : Network) : Prop where
  sent : ∀ d ∈ s.sent, d.sender ∈ ws.senders ∧ d.group = d.sender.addr ∧
    d.port = multicastBasePort
  printed : ∀ line ∈ s.printed, line.datagram ∈ s.sent ∧ line.receiver ∈ ws.receivers ∧
    ws.gets line.receiver line.datagram = true

theorem Traced.step {ws : Windows} {s t : Network} {e : ChatEvent} (h : Traced ws s)
    (hs : ChatStep ws s e t) : Traced ws t := by
  cases e with
  | type w input behind =>
    obtain ⟨hw, hs⟩ := Option.ite_none_right_eq_some.mp hs
    obtain rfl := Option.some.inj hs
    refine ⟨fun d hd => ?_, fun line hline => ?_⟩
    · rcases List.mem_append.mp hd with hd | hd
      · exact h.sent d hd
      · obtain ⟨hsender, hgroup, hport⟩ := sendLine_spec (Option.mem_toList.mp hd)
        rw [hsender]
        exact ⟨hw, hgroup, hport⟩
    · obtain ⟨hd, hrest⟩ := h.printed line hline
      exact ⟨List.mem_append_left _ hd, hrest⟩
  | arrive d host =>
    obtain ⟨hd, hs⟩ := Option.ite_none_right_eq_some.mp hs
    obtain rfl := Option.some.inj hs
    refine ⟨h.sent, fun line hline => ?_⟩
    rcases List.mem_append.mp hline with hline | hline
    · exact h.printed line hline
    · obtain ⟨w, hw, rfl⟩ := List.mem_map.mp hline
      obtain ⟨hw, hgets⟩ := List.mem_filter.mp hw
      exact ⟨hd, hw, (Bool.and_eq_true_iff.mp hgets).2⟩

theorem traced_of_run {ws : Windows} {moves : List (Move Network ChatEvent)} {s : Network}
    (hr : Run (ChatStep ws) ⟨[], []⟩ moves s) : Traced ws s :=
  hr.invariant (I := Traced ws) (G := fun _ _ => True)
    ⟨List.forall_mem_nil _, List.forall_mem_nil _⟩ (fun _ _ _ hi _ hs => hi.step hs) fun _ _ => trivial

/-- The line `x`. -/
def shortLine : CharArray bufferSize := .ofBytes [120, 10] (by decide)

/-- A line typed into a sender, and its datagram reaching a host. -/
theorem run_typed {ws : Windows} {w : ChatWindow} (hw : w ∈ ws.senders)
    (haddr : w.addr ≠ inaddrNone) (host : ℕ) :
    ∃ d, d.sender = w ∧ d.group = w.addr ∧ d.port = multicastBasePort ∧
      ∃ moves, Run (ChatStep ws) ⟨[], []⟩ moves ⟨[d], ws.printsOn host d⟩ := by
  obtain ⟨d, hd⟩ : ∃ d, sendLine w shortLine [] = some d := by
    have hdest : destAddr w.proc.multicastIp = some (w.addr, multicastBasePort) := if_neg haddr
    have hline : ¬ stripNewline shortLine = [] := by decide
    rw [sendLine, hdest]
    exact ⟨_, if_neg hline⟩
  obtain ⟨hsender, hgroup, hport⟩ := sendLine_spec hd
  have htype : ChatStep ws ⟨[], []⟩ (.type w shortLine []) ⟨[d], []⟩ := by
    rw [ChatStep, chatStep, if_pos hw, hd]
    rfl
  have harrive : ChatStep ws ⟨[d], []⟩ (.arrive d host) ⟨[d], ws.printsOn host d⟩ :=
    if_pos (List.mem_singleton_self d)
  exact ⟨d, hsender, hgroup, hport, _, (Run.start.snoc htype).snoc harrive⟩

theorem isolated_iff {ctx : ServerContext} (hok : AddressesOk ctx) {ws : Windows}
    (hws : SpawnedFor ctx ws) : Isolated ws ↔ SeparateHosts ws := by
  constructor
  · intro h r hr r' hr' hhost hne w hw heq
    obtain ⟨d, hsender, hgroup, hport, moves, hrun⟩ :=
      run_typed hw (addr_ne_none hok hws (List.mem_append_left _ hw)) r.host
    have haddr : w.addr = r'.addr := (addr_eq_iff hok hws (List.mem_append_left _ hw)
      (List.mem_append_right _ hr')).mpr heq
    have hgets : ws.gets r d = true :=
      (gets_iff hok hws hr hport).mpr ⟨r', hr', hhost, hgroup.trans haddr⟩
    have hprinted : (⟨r, d, printedText d.data⟩ : PrintedLine) ∈ ws.printsOn r.host d :=
      List.mem_map.mpr ⟨r, List.mem_filter.mpr ⟨hr, by simp [hgets]⟩, rfl⟩
    have hsame := h _ _ hrun _ hprinted
    rw [hsender] at hsame
    exact hne (heq.symm.trans hsame)
  · intro h moves s hrun line hline
    have htraced := traced_of_run hrun
    obtain ⟨hd, hr, hgets⟩ := htraced.printed line hline
    obtain ⟨hw, hgroup, hport⟩ := htraced.sent _ hd
    obtain ⟨r', hr', hhost, haddr⟩ := (gets_iff hok hws hr hport).mp hgets
    have heq := (addr_eq_iff hok hws (List.mem_append_left _ hw)
      (List.mem_append_right _ hr')).mp (hgroup.symm.trans haddr)
    by_contra hne
    exact h _ hr r' hr' hhost (fun he => hne (heq.trans he)) _ hw heq

/-- Windows spawned for live groups, on any hosts: receivers print only what was
sent for their own group, whatever is typed and whenever it arrives, exactly if no
host has receivers of two groups one of which has a sender. -/
theorem multicast_isolation_iff {alloc : ℕ → Bool} {ctx₀ ctx : ServerContext}
    {moves : List (Move ServerContext CallLabel)} (h0 : serverCreate alloc = some ctx₀)
    (hr : Run CallStep ctx₀ moves ctx) {ws : Windows} (hws : SpawnedFor ctx ws) :
    Isolated ws ↔ SeparateHosts ws :=
  isolated_iff (addressesOk_of_run h0 hr) hws

/-- Two users with a group each. -/
def twoGroups : List Call :=
  (List.range 2).flatMap fun i : ℕ =>
    [.dispatch i (authMsg .register i), .dispatch i (authMsg .login i),
      .dispatch i (groupMsg .createGroup i)]

/-- A window on a host for the `i`-th group of `twoGroups`. -/
def windowFor (host pid i : ℕ) : ChatWindow :=
  ⟨host, ⟨pid, (poolEntry i).ip, nameOf i, true⟩, nameOf i⟩

theorem spawnedFor_twoGroups (hosts : Fin 2 → ℕ) :
    SpawnedFor (afterQuietCalls started twoGroups)
      ⟨[windowFor (hosts 1) 3 1], [windowFor (hosts 0) 1 0, windowFor (hosts 1) 2 1]⟩ := by
  have hgroups : ∀ i < 2, ∃ grp ∈ (afterQuietCalls started twoGroups).groups,
      grp.name = nameOf i ∧ grp.mcastIp = (poolEntry i).ip := by decide +kernel
  intro w hw
  simp only [List.cons_append, List.nil_append, List.mem_cons, List.not_mem_nil, or_false] at hw
  rcases hw with rfl | rfl | rfl
  · exact hgroups 1 (by decide)
  · exact hgroups 0 (by decide)
  · exact hgroups 1 (by decide)

/-- The members of two groups on two hosts. -/
theorem multicast_isolation_two_hosts :
    Isolated ⟨[windowFor 1 3 1], [windowFor 0 1 0, windowFor 1 2 1]⟩ :=
  (multicast_isolation_iff serverCreate_started (run_quietCalls started twoGroups)
    (spawnedFor_twoGroups ![0, 1])).mpr (by decide)

/-- On one host, the receiver of the first group prints what is sent to the
second. -/
theorem multicast_isolation_fails :
    ¬ ∀ (alloc : ℕ → Bool) (ctx₀ ctx : ServerContext) (moves : List (Move ServerContext CallLabel))
      (ws : Windows), serverCreate alloc = some ctx₀ → Run CallStep ctx₀ moves ctx →
      SpawnedFor ctx ws → Isolated ws := by
  intro h
  have hws := spawnedFor_twoGroups ![0, 0]
  have hrun := run_quietCalls started twoGroups
  have hiso := h _ _ _ _ _ serverCreate_started hrun hws
  have hsep := (isolated_iff (addressesOk_of_run serverCreate_started hrun) hws).mp hiso
  exact absurd hsep (by decide)

end MeshChat.Chat
