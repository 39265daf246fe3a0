import MeshChat.Client.CommandLine
import MeshChat.Client.Layout

/-!
# The address of a group on its way to the windows

The server writes an address as text, and the windows of the members read it back: in
between it goes through the reply, the session, the command line and the shell. Writing
and reading are inverse for all addresses.
-/
namespace MeshChat.Client
open Server Runs

/-- The loop of `inet_addr` over the characters. -/
def readOctets (acc : UInt32 × UInt32) (s : List UInt8) : UInt32 × UInt32 :=
  s.foldl (fun (acc : UInt32 × UInt32) c =>
    if c = 46 then (acc.1 * 256 + acc.2, 0) else (acc.1, acc.2 * 10 + (c.toUInt32 - 48))) acc

theorem inetAddr_eq (s : List UInt8) :
    inetAddr s = (readOctets (0, 0) s).1 * 256 + (readOctets (0, 0) s).2 := rfl

theorem readOctets_append (acc : UInt32 × UInt32) (s t : List UInt8) :
    readOctets acc (s ++ t) = readOctets (readOctets acc s) t := List.foldl_append

theorem readOctets_dot (acc : UInt32 × UInt32) (s : List UInt8) :
    readOctets acc (46 :: s) = readOctets (acc.1 * 256 + acc.2, 0) s := rfl

theorem digit_spec : ∀ k < 10, UInt8.ofNat (48 + k) ≠ 46 ∧
    (UInt8.ofNat (48 + k)).toUInt32 - 48 = UInt32.ofNat k := by decide

theorem readOctets_digit (acc : UInt32 × UInt32) (d : ℕ) (s : List UInt8) :
    readOctets acc (digit d :: s) = readOctets (acc.1, acc.2 * 10 + UInt32.ofNat (d % 10)) s := by
  obtain ⟨hdot, hvalue⟩ := digit_spec (d % 10) (Nat.mod_lt _ (by decide))
  rw [readOctets, List.foldl_cons, digit, if_neg hdot, hvalue]
  rfl

theorem ofNat_shift (a b : ℕ) :
    UInt32.ofNat a * 10 + UInt32.ofNat b = UInt32.ofNat (a * 10 + b) := by
  rw [UInt32.ofNat_add, UInt32.ofNat_mul]
  rfl

/-- A byte is read as it was written. -/
theorem readOctets_octetDigits (high : UInt32) {n : ℕ} (hn : n < 256) :
    readOctets (high, 0) (octetDigits n) = (high, UInt32.ofNat n) := by
  have hnil : ∀ acc, readOctets acc [] = acc := fun _ => rfl
  have hzero : (0 : UInt32) = UInt32.ofNat 0 := rfl
  rw [hzero]
  unfold octetDigits
  split_ifs with h1 h2 <;> simp only [readOctets_digit, hnil, ofNat_shift]
  · rw [Nat.zero_mul, Nat.zero_add, Nat.mod_eq_of_lt h1]
  · rw [show (0 * 10 + n / 10 % 10) * 10 + n % 10 = n by omega]
  · rw [show ((0 * 10 + n / 100 % 10) * 10 + n / 10 % 10) * 10 + n % 10 = n by omega]

/-- `inet_addr` reads what `inet_ntop` wrote, for every address. -/
theorem inetAddr_inetNtop (addr : UInt32) : inetAddr (inetNtop addr).bytes = addr := by
  have haddr : addr.toNat < 2 ^ 32 := addr.toNat_lt
  simp only [inetAddr_eq, inetNtop, List.append_assoc, List.cons_append, readOctets_append,
    readOctets_dot]
  rw [readOctets_octetDigits _ (by omega), readOctets_octetDigits _ (by omega),
    readOctets_octetDigits _ (by omega), readOctets_octetDigits _ (by omega)]
  apply UInt32.toNat.inj
  simp
  omega

/-- The words of a window's command, with the session and the name as they lie in memory. -/
def windowWords (isSender : Bool) (session : Memory.GroupSession) (ctx : Memory.ClientContext) :
    Option (List (List UInt8)) :=
  Shell.words (snprintf 512 (commandText isSender (.ofBytes session.multicastIp)
    (.ofBytes ctx.username))).2

theorem ofBytes_padded {cap : ℕ} (s : CharArray cap) : CStr.ofBytes (Memory.padded s) = s.toCStr :=
  CStr.ext (Memory.takeWhile_padded s)

theorem windowWords_eq {isSender : Bool} {session : Memory.GroupSession}
    {ctx : Memory.ClientContext} {ip : CharArray mcastIpLen} {username : Username}
    (hip : session.multicastIp = Memory.padded ip) (hname : ctx.username = Memory.padded username)
    (hplain : Shell.Plain ip.bytes ∧ Shell.Plain username.bytes) :
    windowWords isSender session ctx =
      some (terminalWords isSender ++ [ip.bytes, username.bytes]) := by
  rw [windowWords, hip, hname, ofBytes_padded, ofBytes_padded]
  exact (spawnCommand_words_iff isSender ip username).mpr hplain

/-- The number of a pool address. -/
theorem inetAddr_poolEntry (k : ℕ) :
    inetAddr (poolEntry k).ip.bytes = inetAddr multicastBaseIp + UInt32.ofNat k :=
  inetAddr_inetNtop _

/-- Pool addresses with one number are one. -/
theorem poolEntry_eq_of_inetAddr {j k : ℕ}
    (h : inetAddr (poolEntry j).ip.bytes = inetAddr (poolEntry k).ip.bytes) :
    poolEntry j = poolEntry k := by
  rw [inetAddr_poolEntry, inetAddr_poolEntry] at h
  rw [poolEntry, poolEntry, h]

theorem terminalWords_literal (isSender : Bool) : ∀ w ∈ terminalWords isSender, Shell.Literal w := by
  cases isSender <;> decide +kernel

theorem poolEntries_literal : ∀ addr ∈ poolEntries, Shell.Literal addr.ip.bytes := by decide +kernel

/-- From any state of the server and into the windows of any client whose name the shell
takes literally: the reply for a group makes a session whose windows get, as the argument
that the shell passes, an address that they read as one of the pool, and it is the address
of this group and of no other. -/
theorem address_reaches_windows {alloc : ℕ → Bool} {ctx₀ ctx : ServerContext}
    {moves : List (Move ServerContext CallLabel)} (h0 : serverCreate alloc = some ctx₀)
    (hr : Run CallStep ctx₀ moves ctx) {grp : GroupRecord} (hg : grp ∈ ctx.groups)
    {response : TLVMessage} (hresponse : (Reply.groupInfo grp.addr).Describes response)
    {sock : Int} {inputs : List (Move Memory.ClientContext Memory.Input)}
    {client : Memory.ClientContext}
    (hclient : Run Memory.Step (Memory.netConnect sock Memory.startContext) inputs client)
    (hname : Shell.Literal (CStr.ofBytes client.username).bytes) (name : GroupName) :
    ∃ ip port, parseGroupInfo response = some (ip, port) ∧ ∀ pids isSender, ∃ argument,
      windowWords isSender (Memory.newSession name ip port pids) client =
          some (terminalWords isSender ++ [argument, (CStr.ofBytes client.username).bytes]) ∧
        (∀ w ∈ terminalWords isSender ++ [argument, (CStr.ofBytes client.username).bytes],
          Shell.Literal w) ∧
        (∃ k < multicastPoolSize,
          inetAddr argument = inetAddr multicastBaseIp + UInt32.ofNat k) ∧
        ∀ grp' ∈ ctx.groups,
          inetAddr argument = inetAddr grp'.mcastIp.bytes ↔ grp'.name = grp.name := by
  have hok := addressesOk_of_run h0 hr
  have hentry : ∀ grp' ∈ ctx.groups, ∃ k < multicastPoolSize, grp'.addr = poolEntry k := by
    intro grp' hg'
    obtain ⟨k, hk, heq⟩ := List.mem_map.mp (hok.addressed.mem_poolEntries hg')
    exact ⟨k, List.mem_range.mp hk, heq.symm⟩
  obtain ⟨k, hk, haddr⟩ := hentry grp hg
  obtain ⟨-, c, -, -, hlays⟩ := Memory.laysOut_of_run hclient
  have huser : (CStr.ofBytes client.username).bytes = c.username.bytes := by
    rw [hlays.username, ofBytes_padded]
  have hip : Shell.Literal grp.mcastIp.bytes :=
    poolEntries_literal grp.addr (hok.addressed.mem_poolEntries hg)
  rw [huser] at hname ⊢
  refine ⟨grp.mcastIp, grp.mcastPort, hresponse.parseGroupInfo, fun pids isSender =>
    ⟨grp.mcastIp.bytes, windowWords_eq (Memory.strncpyInto_zeros grp.mcastIp) hlays.username
      ⟨hip.1, hname.1⟩, ?_, ⟨k, hk, ?_⟩, fun grp' hg' => ⟨fun heq => ?_, fun heq => ?_⟩⟩⟩
  · rw [List.forall_mem_append, List.forall_mem_cons, List.forall_mem_singleton]
    exact ⟨terminalWords_literal isSender, hip, hname⟩
  · exact (congrArg (fun a : McastEntry => inetAddr a.ip.bytes) haddr).trans (inetAddr_poolEntry k)
  · obtain ⟨j, -, haddr'⟩ := hentry grp' hg'
    have hsame : grp'.addr = grp.addr := by
      rw [haddr, haddr']
      apply poolEntry_eq_of_inetAddr
      rw [← haddr, ← haddr']
      exact heq.symm
    have hnd := (List.nodup_append.mp hok.addressed.nodup).1
    rw [List.inj_on_of_nodup_map hnd hg' hg hsame]
  · rw [List.inj_on_of_nodup_map hok.groups.names hg' hg heq]

/-- A user creates a group. -/
def oneGroup : List Call :=
  [.dispatch 5 (authMsg .register 0), .dispatch 5 (authMsg .login 0),
    .dispatch 5 (groupMsg .createGroup 0)]

/-- The client of the user, logged in. -/
def loggedInClient : Memory.ClientContext :=
  playEnd Memory.takeInput (Memory.netConnect 3 Memory.startContext) (Memory.visit.take 1)

def oneGroupInfo : TLVMessage :=
  (buildGroupInfoMsg .blank (poolEntry 0).ip.toCStr (poolEntry 0).port).getD .blank

theorem address_reaches_windows_one : ∃ ip port argument,
    parseGroupInfo oneGroupInfo = some (ip, port) ∧
      windowWords false (Memory.newSession (nameOf 0) ip port (0, 0)) loggedInClient =
        some (terminalWords false ++ [argument, (nameOf 0).bytes]) ∧
      (∀ w ∈ terminalWords false ++ [argument, (nameOf 0).bytes], Shell.Literal w) ∧
      ∃ k < multicastPoolSize, inetAddr argument = inetAddr multicastBaseIp + UInt32.ofNat k := by
  obtain ⟨grp, hg, haddr⟩ : ∃ grp ∈ (afterQuietCalls started oneGroup).groups,
      grp.addr = poolEntry 0 := by decide +kernel
  have hresponse : (Reply.groupInfo grp.addr).Describes oneGroupInfo := by
    rw [haddr]
    exact ⟨by decide, by decide +kernel⟩
  have hclient : Run Memory.Step (Memory.netConnect 3 Memory.startContext)
      (play Memory.takeInput (Memory.netConnect 3 Memory.startContext) (Memory.visit.take 1))
      loggedInClient :=
    Run.of_play (P := fun _ => True) (fun _ _ _ => rfl) fun _ _ => trivial
  have hname : (CStr.ofBytes loggedInClient.username).bytes = (nameOf 0).bytes := by decide
  obtain ⟨ip, port, hparse, hwords⟩ := address_reaches_windows serverCreate_started
    (run_quietCalls started oneGroup) hg hresponse hclient (by rw [hname]; decide +kernel) (nameOf 0)
  obtain ⟨argument, hargs, hliteral, hpool, -⟩ := hwords (0, 0) false
  exact ⟨ip, port, argument, hparse, hname ▸ hargs, hname ▸ hliteral, hpool⟩

end MeshChat.Client
