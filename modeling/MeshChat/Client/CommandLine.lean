import MeshChat.Lib.Shell
import MeshChat.Client.Ui
import MeshChat.Server.Addresses
import MeshChat.Stdio

/-!
# The command lines of the chat windows

From the line that a user types for a name to the words that the shell makes of
the commands of `client_spawn_chat_windows`. A name is checked for its length
only on the way, and so is an address from the server.
-/
namespace MeshChat.Client
open Server Runs

/-- A buffer without the newline at its end. -/
def chomp {cap : ℕ} (buf : CharArray cap) : CharArray cap :=
  if buf.bytes.getLast? = some 10 then
    { bytes := buf.bytes.dropLast
      nul_free := fun h => buf.nul_free (List.mem_of_mem_dropLast h)
      fits := lt_of_le_of_lt (by rw [List.length_dropLast]; exact Nat.sub_le _ _) buf.fits }
  else buf

/-- `read_input` into a buffer, with what is left of the input. Where the input has
ended the buffer keeps what the stack left in it, and there is no result. -/
def readInput (maxLen : ℕ) [NeZero maxLen] (stdin : List UInt8) :
    Option (CharArray maxLen × List UInt8) :=
  (fgets maxLen stdin).map fun r => (chomp r.1, r.2)

/-- The two lines that `handle_login` reads. -/
def readCredentials (stdin : List UInt8) : Option (Username × Password) :=
  (readInput maxUsernameLen stdin).bind fun u =>
    (readInput maxPasswordLen u.2).map fun p => (u.1, p.1)

/-- `handle_login` can put this name into a client's context: what was typed passes
the client's checks, and in some state of the server its reply is a success. -/
def CanLogIn (username : Username) : Prop :=
  ∃ (stdin : List UInt8) (typed : Username) (password : Password) (client client' : ClientContext)
    (msg m response : TLVMessage) (alloc : ℕ → Bool) (ctx₀ ctx : ServerContext)
    (moves : List (Move ServerContext CallLabel)) (env : Env) (fd : Int),
    readCredentials stdin = some (typed, password) ∧
      (handleLogin typed password).request client msg = some m ∧
      serverCreate alloc = some ctx₀ ∧ Run CallStep ctx₀ moves ctx ∧
      (dispatchMessage env ctx fd m).2.1 = [⟨fd, response⟩] ∧
      (handleLogin typed password).finish client (some response) = (client', 0) ∧
      client'.username = username

/-- The addresses that the client takes from a reply. -/
def CanBeTold (ip : CharArray mcastIpLen) : Prop :=
  ∃ (response : TLVMessage) (port : UInt16), parseGroupInfo response = some (ip, port)

def ascii (s : String) : List UInt8 := s.toUTF8.data.toList

/-- The words that both commands begin with, and the window's program. -/
def terminalWords : Bool → List (List UInt8)
  | false => ["gnome-terminal", "--geometry=80x20", "--", "./receiver.out"].map ascii
  | true => ["gnome-terminal", "--geometry=80x6", "--", "./sender.out"].map ascii

/-- The text of the command for a receiver or a sender. -/
def commandText (isSender : Bool) (multicastIp username : CStr) : List UInt8 :=
  match isSender with
  | false => ascii "gnome-terminal --geometry=80x20 -- ./receiver.out " ++ multicastIp.bytes ++
      32 :: username.bytes
  | true => ascii "gnome-terminal --geometry=80x6 -- ./sender.out " ++ multicastIp.bytes ++
      32 :: username.bytes

/-- What `client_spawn_chat_windows` hands to `system`. -/
def spawnCommand (isSender : Bool) (multicastIp : CharArray mcastIpLen) (username : Username) :
    List UInt8 :=
  (snprintf 512 (commandText isSender multicastIp.toCStr username.toCStr)).2

/-- Both commands are read by the shell as one simple command that ends in the
program, the address and the name. -/
def SpawnsExactly (multicastIp : CharArray mcastIpLen) (username : Username) : Prop :=
  ∀ isSender, Shell.words (spawnCommand isSender multicastIp username) =
    some (terminalWords isSender ++ [multicastIp.bytes, username.bytes])

theorem terminalWords_plain (isSender : Bool) : ∀ w ∈ terminalWords isSender, Shell.Plain w := by
  cases isSender <;> decide +kernel

/-- The words of the text stand between blanks. -/
theorem commandText_eq (isSender : Bool) (multicastIp username : CStr) :
    commandText isSender multicastIp username =
      List.intercalate [32] (terminalWords isSender ++ [multicastIp.bytes, username.bytes]) := by
  cases isSender with
  | false =>
    have hfront : ascii "gnome-terminal --geometry=80x20 -- ./receiver.out " =
        ascii "gnome-terminal" ++ 32 :: (ascii "--geometry=80x20" ++ 32 :: (ascii "--" ++
          32 :: (ascii "./receiver.out" ++ [32]))) := by decide
    rw [commandText, hfront]
    simp [terminalWords, List.intercalate_cons_cons]
  | true =>
    have hfront : ascii "gnome-terminal --geometry=80x6 -- ./sender.out " =
        ascii "gnome-terminal" ++ 32 :: (ascii "--geometry=80x6" ++ 32 :: (ascii "--" ++
          32 :: (ascii "./sender.out" ++ [32]))) := by decide
    rw [commandText, hfront]
    simp [terminalWords, List.intercalate_cons_cons]

/-- The buffer holds the whole command. -/
theorem spawnCommand_eq (isSender : Bool) (multicastIp : CharArray mcastIpLen)
    (username : Username) : spawnCommand isSender multicastIp username =
      List.intercalate [32] (terminalWords isSender ++ [multicastIp.bytes, username.bytes]) := by
  have hip : multicastIp.bytes.length < 16 := multicastIp.fits
  have hname : username.bytes.length < 32 := username.fits
  have hlen : (commandText isSender multicastIp.toCStr username.toCStr).length < 512 := by
    have hreceiver : (ascii "gnome-terminal --geometry=80x20 -- ./receiver.out ").length = 50 := by
      decide
    have hsender : (ascii "gnome-terminal --geometry=80x6 -- ./sender.out ").length = 47 := by
      decide
    cases isSender <;>
      simp only [commandText, List.length_append, List.length_cons, hreceiver, hsender] <;> omega
  rw [spawnCommand, snprintf_of_lt hlen (by decide), commandText_eq]

/-- The words of one of the commands are those that were meant if they are plain. -/
theorem spawnCommand_words_iff (isSender : Bool) (multicastIp : CharArray mcastIpLen)
    (username : Username) : Shell.words (spawnCommand isSender multicastIp username) =
        some (terminalWords isSender ++ [multicastIp.bytes, username.bytes]) ↔
      Shell.Plain multicastIp.bytes ∧ Shell.Plain username.bytes := by
  rw [spawnCommand_eq, Shell.words_intercalate_iff, List.forall_mem_append, List.forall_mem_cons,
    List.forall_mem_singleton]
  exact and_iff_right (terminalWords_plain isSender)

/-- The shell reads what was meant exactly if address and name are plain words. -/
theorem spawnsExactly_iff (multicastIp : CharArray mcastIpLen) (username : Username) :
    SpawnsExactly multicastIp username ↔
      Shell.Plain multicastIp.bytes ∧ Shell.Plain username.bytes := by
  simp only [SpawnsExactly, spawnCommand_eq, Shell.words_intercalate_iff, List.forall_mem_append,
    List.forall_mem_cons]
  constructor
  · intro h
    obtain ⟨-, hip, hname, -⟩ := h true
    exact ⟨hip, hname⟩
  · rintro ⟨hip, hname⟩ isSender
    exact ⟨terminalWords_plain isSender, hip, hname, List.forall_mem_nil _⟩

/-- An address of a group is a plain word. -/
theorem plain_of_group {alloc : ℕ → Bool} {ctx₀ ctx : ServerContext}
    {moves : List (Move ServerContext CallLabel)} (h0 : serverCreate alloc = some ctx₀)
    (hr : Run CallStep ctx₀ moves ctx) {grp : GroupRecord} (hg : grp ∈ ctx.groups) :
    Shell.Plain grp.mcastIp.bytes := by
  have hpool : ∀ addr ∈ poolEntries, Shell.Plain addr.ip.bytes := by decide +kernel
  exact hpool grp.addr ((addressesOk_of_run h0 hr).addressed.mem_poolEntries hg)

/-- For the groups of the server only the name matters: all of its addresses are
plain words. -/
theorem spawnsExactly_group_iff {alloc : ℕ → Bool} {ctx₀ ctx : ServerContext}
    {moves : List (Move ServerContext CallLabel)} (h0 : serverCreate alloc = some ctx₀)
    (hr : Run CallStep ctx₀ moves ctx) {grp : GroupRecord} (hg : grp ∈ ctx.groups)
    (username : Username) :
    SpawnsExactly grp.mcastIp username ↔ Shell.Plain username.bytes := by
  have haddr := plain_of_group h0 hr hg
  constructor
  · exact fun h => ((spawnCommand_words_iff true grp.mcastIp username).mp (h true)).2
  · exact fun h isSender => (spawnCommand_words_iff isSender grp.mcastIp username).mpr ⟨haddr, h⟩

/-- A name with a semicolon. -/
def splitName : CharArray maxUsernameLen := .ofBytes [97, 59, 98] (by decide)

def splitPassword : CharArray maxPasswordLen := .ofBytes [97] (by decide)

def splitMsg (tag : MessageTag) : TLVMessage :=
  (buildAuthMsg .blank tag splitName.toCStr splitPassword.toCStr).getD .blank

/-- The name is registered, and then logged in with. -/
theorem canLogIn_splitName : CanLogIn splitName := by
  let client := netConnect 3 startContext
  let response := buildSuccessMsg Env.quiet.stack
  refine ⟨[97, 59, 98, 10, 97, 10], splitName, splitPassword, client,
    ((handleLogin splitName splitPassword).finish client (some response)).1, .blank,
    splitMsg .login, response, fun _ => true, started,
    afterQuietCalls started [.dispatch 5 (splitMsg .register)], _, .quiet, 5, ?_, ?_,
    serverCreate_started, run_quietCalls _ _, ?_, ?_, ?_⟩
  · decide
  · decide +kernel
  · decide +kernel
  · decide
  · decide

/-- The shell ends the command at the semicolon and runs the rest of the name. -/
theorem spawn_runs_more :
    ¬ ∀ (multicastIp : CharArray mcastIpLen) (username : Username), CanLogIn username →
      CanBeTold multicastIp → SpawnsExactly multicastIp username := by
  intro h
  have htold : CanBeTold (poolEntry 0).ip :=
    ⟨(buildGroupInfoMsg .blank (poolEntry 0).ip.toCStr (poolEntry 0).port).getD .blank,
      (poolEntry 0).port, by decide +kernel⟩
  have hwords := h _ _ canLogIn_splitName htold false
  exact absurd hwords (by decide)

end MeshChat.Client
