import MeshChat.Lib.Resources
import MeshChat.Net.Transport
import MeshChat.Server.Loop

/-!
# The server process

`main` of `server_main.c` system call by system call, with the descriptors as the
kernel has them and the clients on the other ends. What a call returns is an
event; what the program does up to its next call is one step. The descriptors
that `socket` and `accept` returned and those passed to `close` are logged.
-/
namespace MeshChat.Server
open Runs Resources

/-- The server's end of an accepted connection: the bytes that wait to be read,
whether the peer has closed its end, and whether it has reset the connection. -/
structure Conn where
  pending : List UInt8
  eof : Bool
  reset : Bool
  deriving DecidableEq

inductive File where
  | listener
  | conn (c : Conn)
  deriving DecidableEq

/-- What a client does with its end. -/
inductive ClientAct where
  | send (bytes : List UInt8)
  | close
  | reset

namespace Conn

/-- A `read` returns at once. -/
def readable (c : Conn) : Bool := !c.pending.isEmpty || c.eof || c.reset

/-- A client that closed or reset its end sends no more. -/
def after (c : Conn) : ClientAct → Option Conn
  | .send bytes => if c.eof || c.reset then none else some { c with pending := c.pending ++ bytes }
  | .close => some { c with eof := true }
  | .reset => some { c with reset := true }

end Conn

/-- The bytes that `net_read_msg` still wants after those it has read. -/
def wanted (got : List UInt8) : ℕ :=
  if got.length < 2 then 2 - got.length else (got.getD 1 0).toNat - (got.length - 2)

/-- The bytes begin with a whole message. -/
def hasMessage (bytes : List UInt8) : Bool :=
  decide (2 ≤ bytes.length ∧ 2 + (bytes.getD 1 0).toNat ≤ bytes.length)

theorem wanted_eq_zero_iff {got : List UInt8} : wanted got = 0 ↔ hasMessage got = true := by
  unfold wanted hasMessage
  rw [decide_eq_true_eq]
  split <;> omega

/-- A message that has arrived stays whole. -/
theorem hasMessage_append {bytes : List UInt8} (h : hasMessage bytes = true) (more : List UInt8) :
    hasMessage (bytes ++ more) = true := by
  unfold hasMessage at h ⊢
  rw [decide_eq_true_eq] at h ⊢
  rw [List.getD_append _ _ _ _ (by omega), List.length_append]
  omega

/-- The message that `net_read_msg` stores, over what the stack held. -/
def assemble (into : TLVMessage) (got : List UInt8) : TLVMessage :=
  { into with tag := got.getD 0 0, length := got.getD 1 0 }.write 0 (got.drop 2)

/-- What `net_read_msg` has read when it returns 0 is a message to its last byte, and
it is the one that is stored. -/
theorem netReadMsg_assemble {s : Socket} {into : TLVMessage} (h : (netReadMsg s into).1 = 0) :
    ∃ got, s.unread = got ++ (netReadMsg s into).2.2.unread ∧
      got.length = 2 + (got.getD 1 0).toNat ∧ wanted got = 0 ∧
      (netReadMsg s into).2.1 = assemble into got := by
  have hdone : ∀ {got : List UInt8}, got.length = 2 + (got.getD 1 0).toNat → wanted got = 0 := by
    intro got hlen
    rw [wanted, if_neg (by omega)]
    omega
  unfold netReadMsg at h ⊢
  generalize hheader : s.readLoop 2 = r at h ⊢
  obtain ⟨ret, header, s'⟩ := r
  dsimp only at h ⊢
  by_cases hret : ret = 0
  · have hfront := @Socket.readLoop_block s 2
    rw [hheader] at hfront
    obtain ⟨hlen, happ⟩ := hfront hret
    rw [if_neg (not_not.mpr hret)] at h ⊢
    by_cases hzero : header.getD 1 0 = 0
    · rw [if_pos hzero]
      have hgot : header.length = 2 + (header.getD 1 0).toNat := by rw [hlen, hzero]; rfl
      refine ⟨header, happ, hgot, hdone hgot, ?_⟩
      rw [assemble, List.drop_of_length_le hlen.le, TLVMessage.write_nil]
    · rw [if_neg hzero] at h ⊢
      have hrest := @Socket.readLoop_block s' (header.getD 1 0).toNat
      generalize hvalue : s'.readLoop (header.getD 1 0).toNat = r at h hrest ⊢
      obtain ⟨ret', value, s''⟩ := r
      dsimp only at h hrest ⊢
      by_cases hret' : ret' = 0
      · obtain ⟨hlen', happ'⟩ := hrest hret'
        have htag : (header ++ value).getD 0 0 = header.getD 0 0 :=
          List.getD_append _ _ _ _ (by rw [hlen]; decide)
        have hlength : (header ++ value).getD 1 0 = header.getD 1 0 :=
          List.getD_append _ _ _ _ (by rw [hlen]; decide)
        have hgot : (header ++ value).length = 2 + ((header ++ value).getD 1 0).toNat := by
          rw [List.length_append, hlen, hlength, hlen']
        rw [if_neg (not_not.mpr hret')]
        refine ⟨header ++ value, ?_, hgot, hdone hgot, ?_⟩
        · rw [List.append_assoc, ← happ', happ]
        · rw [assemble, htag, hlength, List.drop_left' hlen]
      · rw [if_pos hret'] at h
        cases h
  · rw [if_pos hret] at h
    cases h

/-- The bytes that `net_send_msg` writes, and where. -/
def Sent.wire (s : Sent) : Int × List UInt8 := (s.fd, s.msg.frame.take s.msg.outLen.toNat)

/-- The writes that sending some messages takes; a message without bytes takes none. -/
def wires (sent : List Sent) : List (Int × List UInt8) :=
  (sent.map Sent.wire).filter fun out => !out.2.isEmpty

/-- What follows the last `write`: the connection for which there is no room is
closed, or `dispatch_message` returns to the slot it was called for. -/
inductive AfterSend where
  | reject (fd : Int)
  | reply (slot : ℕ) (fd : Int) (ret : Int)
  deriving DecidableEq

/-- Where the program is. `ready` is `read_fds` after `select`. -/
inductive ServerStage where
  | socket
  | bind
  | listen
  /-- the condition of the `while` loop -/
  | top
  | select
  | accept (ready : List Int)
  /-- the `for` loop over `client_fds` -/
  | slots (ready : List Int) (i : ℕ)
  /-- `net_read_msg` on `fd`, the entry of slot `i` -/
  | reading (ready : List Int) (i : ℕ) (fd : Int) (got : List UInt8)
  /-- `net_send_msg`, with what is left to write -/
  | sending (ready : List Int) (out : List (Int × List UInt8)) (after : AfterSend)
  /-- `server_destroy` -/
  | destroy
  | done
  /-- terminated by `SIGPIPE` -/
  | killed
  deriving DecidableEq

inductive FdCall where
  | socket (fd : Int)
  | accept (fd : Int)
  | close (fd : Int)
  deriving DecidableEq

/-- A descriptor is acquired by `socket` and `accept` and released by `close`. -/
def FdCall.use : FdCall → Use Int
  | .socket fd | .accept fd => .acquire fd
  | .close fd => .release fd

structure Process where
  ctx : ServerContext
  stage : ServerStage
  files : Int → Option File
  log : List FdCall

inductive OsEvent where
  | socket (fd : Option Int)
  | bind (ok : Bool)
  | listen (ok : Bool)
  /-- `SIGINT` or `SIGTERM` -/
  | signal
  /-- a step of the program that waits for no call -/
  | next
  | select (ready : List Int)
  | selectFails (eintr : Bool)
  | accept (env : Env) (conn : Option (Int × Conn))
  | read (n : ℕ)
  | readFails (env : Env)
  | dispatch (env : Env) (into : TLVMessage)
  | write (n : ℕ)
  | writeFails
  | sigpipe
  | client (fd : Int) (act : ClientAct)

namespace Process

def openFd (p : Process) (call : FdCall) (fd : Int) (file : File) : Process :=
  { p with files := Function.update p.files fd (some file), log := p.log ++ [call] }

def closeFd (p : Process) (fd : Int) : Process :=
  { p with files := Function.update p.files fd none, log := p.log ++ [.close fd] }

def setConn (p : Process) (fd : Int) (c : Conn) : Process :=
  { p with files := Function.update p.files fd (some (.conn c)) }

/-- The connection behind a descriptor. -/
def conn (p : Process) (fd : Int) : Option Conn :=
  match p.files fd with
  | some (.conn c) => some c
  | _ => none

/-- `select` may report this set. -/
def Reportable (p : Process) (ready : List Int) : Prop :=
  ∀ fd ∈ ready, fd = p.ctx.listenFd ∨
    fd ∈ p.ctx.clientFds ∧ (p.conn fd).any Conn.readable = true

instance (p : Process) (ready : List Int) : Decidable (p.Reportable ready) := by
  unfold Reportable
  infer_instance

/-- The descriptors that `server_destroy` closes. -/
def destroyed (ctx : ServerContext) : List Int :=
  (if 0 ≤ ctx.listenFd then [ctx.listenFd] else []) ++
    ctx.clientFds.filter fun fd => decide (0 ≤ fd)

/-- A step that waits for no call. -/
def next (p : Process) : Option Process :=
  match p.stage with
  | .top => some { p with stage := if p.ctx.running then .select else .destroy }
  | .slots ready i =>
      match p.ctx.clientFds[i]? with
      | none => some { p with stage := .top }
      | some fd =>
          if fd < 0 ∨ fd ∉ ready then some { p with stage := .slots ready (i + 1) }
          else some { p with stage := .reading ready i fd [] }
  | .sending ready [] (.reject fd) => some { p.closeFd fd with stage := .slots ready 0 }
  | .sending ready [] (.reply i fd ret) =>
      if ret < 0 then
        some { p.closeFd fd with ctx := setSlot p.ctx i (-1), stage := .slots ready (i + 1) }
      else some { p with stage := .slots ready (i + 1) }
  | .destroy => some { (destroyed p.ctx).foldl closeFd p with stage := .done }
  | _ => none

/-- `accept` returned a connection. -/
def accepted (p : Process) (env : Env) (ready : List Int) (fd : Int) (c : Conn) : Process :=
  let r := acceptClient env p.ctx fd
  { p.openFd (.accept fd) fd (.conn c) with
    ctx := r.1
    stage := if r.2 = [] then .slots ready 0 else .sending ready (wires r.2) (.reject fd) }

/-- The state after an event, if the event can happen. -/
def step (p : Process) : OsEvent → Option Process
  | .socket fd =>
      match p.stage, fd with
      | .socket, none => some { p with ctx := listening p.ctx (-1), stage := .destroy }
      | .socket, some fd =>
          if 0 ≤ fd ∧ p.files fd = none then
            some { p.openFd (.socket fd) fd .listener with
              ctx := listening p.ctx fd, stage := .bind }
          else none
      | _, _ => none
  | .bind ok =>
      match p.stage with
      | .bind =>
          if ok then some { p with stage := .listen }
          else some { p.closeFd p.ctx.listenFd with stage := .destroy }
      | _ => none
  | .listen ok =>
      match p.stage with
      | .listen =>
          if ok then some { p with stage := .top }
          else some { p.closeFd p.ctx.listenFd with stage := .destroy }
      | _ => none
  | .signal => some { p with ctx := { p.ctx with running := false } }
  | .next => p.next
  | .select ready =>
      match p.stage with
      | .select =>
          if p.Reportable ready then
            some { p with
              stage := if p.ctx.listenFd ∈ ready then .accept ready else .slots ready 0 }
          else none
      | _ => none
  | .selectFails eintr =>
      match p.stage with
      | .select => some { p with stage := if eintr then .top else .destroy }
      | _ => none
  | .accept env conn =>
      match p.stage, conn with
      | .accept ready, none => some { p with stage := .slots ready 0 }
      | .accept ready, some (fd, c) =>
          if 0 ≤ fd ∧ p.files fd = none then some (p.accepted env ready fd c) else none
      | _, _ => none
  | .read n =>
      match p.stage with
      | .reading ready i fd got =>
          match p.conn fd with
          | some c =>
              if 0 < n ∧ n ≤ wanted got ∧ n ≤ c.pending.length then
                some { p.setConn fd { c with pending := c.pending.drop n } with
                  stage := .reading ready i fd (got ++ c.pending.take n) }
              else none
          | none => none
      | _ => none
  | .readFails env =>
      match p.stage with
      | .reading ready i fd got =>
          if wanted got = 0 then none
          else some { p.closeFd fd with
            ctx := dropClient env p.ctx i fd, stage := .slots ready (i + 1) }
      | _ => none
  | .dispatch env into =>
      match p.stage with
      | .reading ready i fd got =>
          if wanted got = 0 then
            let r := dispatchMessage env p.ctx fd (assemble into got)
            some { p with ctx := r.1, stage := .sending ready (wires r.2.1) (.reply i fd r.2.2) }
          else none
      | _ => none
  | .write n =>
      match p.stage with
      | .sending ready ((fd, bytes) :: out) after =>
          match p.conn fd with
          | some c =>
              if c.reset = false ∧ 0 < n ∧ n ≤ bytes.length then
                let left := if n = bytes.length then out else (fd, bytes.drop n) :: out
                some { p with stage := .sending ready left after }
              else none
          | none => none
      | _ => none
  | .writeFails =>
      match p.stage with
      | .sending ready (_ :: out) after => some { p with stage := .sending ready out after }
      | _ => none
  | .sigpipe =>
      match p.stage with
      | .sending _ ((fd, _) :: _) _ =>
          if (p.conn fd).any Conn.reset = true then some { p with stage := .killed } else none
      | _ => none
  | .client fd act =>
      match p.conn fd with
      | some c => (c.after act).map (p.setConn fd)
      | none => none

end Process

/-- The process when `server_create` has returned a context. -/
def booted (ctx : ServerContext) : Process := ⟨ctx, .socket, fun _ => none, []⟩

def ProcessStep (p : Process) (e : OsEvent) (p' : Process) : Prop := p.step e = some p'

abbrev ProcessMove := Move Process OsEvent

/-- The steps that only move the program on. -/
inductive Control (p : Process) : OsEvent → ServerStage → Prop
  | bound : p.stage = .bind → Control p (.bind true) .listen
  | listens : p.stage = .listen → Control p (.listen true) .top
  | looks : p.stage = .top → p.ctx.running = true → Control p .next .select
  | stops : p.stage = .top → p.ctx.running = false → Control p .next .destroy
  | connection {ready : List Int} : p.stage = .select → p.Reportable ready →
      p.ctx.listenFd ∈ ready → Control p (.select ready) (.accept ready)
  | selected {ready : List Int} : p.stage = .select → p.Reportable ready →
      p.ctx.listenFd ∉ ready → Control p (.select ready) (.slots ready 0)
  | interrupted : p.stage = .select → Control p (.selectFails true) .top
  | selectFailed : p.stage = .select → Control p (.selectFails false) .destroy
  | noClient {ready : List Int} {env : Env} : p.stage = .accept ready →
      Control p (.accept env none) (.slots ready 0)
  | wraps {ready : List Int} {i : ℕ} : p.stage = .slots ready i → p.ctx.clientFds[i]? = none →
      Control p .next .top
  | skips {ready : List Int} {i : ℕ} {fd : Int} : p.stage = .slots ready i →
      p.ctx.clientFds[i]? = some fd → fd < 0 ∨ fd ∉ ready →
      Control p .next (.slots ready (i + 1))
  | turns {ready : List Int} {i : ℕ} {fd : Int} : p.stage = .slots ready i →
      p.ctx.clientFds[i]? = some fd → 0 ≤ fd → fd ∈ ready →
      Control p .next (.reading ready i fd [])
  | wrote {ready : List Int} {fd : Int} {bytes : List UInt8} {out : List (Int × List UInt8)}
      {after : AfterSend} {c : Conn} {n : ℕ} : p.stage = .sending ready ((fd, bytes) :: out) after →
      p.conn fd = some c → c.reset = false → 0 < n → n ≤ bytes.length →
      Control p (.write n)
        (.sending ready (if n = bytes.length then out else (fd, bytes.drop n) :: out) after)
  | gaveUp {ready : List Int} {w : Int × List UInt8} {out : List (Int × List UInt8)}
      {after : AfterSend} : p.stage = .sending ready (w :: out) after →
      Control p .writeFails (.sending ready out after)
  | killed {ready : List Int} {fd : Int} {bytes : List UInt8} {out : List (Int × List UInt8)}
      {after : AfterSend} {c : Conn} : p.stage = .sending ready ((fd, bytes) :: out) after →
      p.conn fd = some c → c.reset = true → Control p .sigpipe .killed
  | kept {ready : List Int} {i : ℕ} {fd ret : Int} :
      p.stage = .sending ready [] (.reply i fd ret) → 0 ≤ ret →
      Control p .next (.slots ready (i + 1))

/-- Everything a step can do, with the facts under which it does it. -/
inductive ProcessEffect (p : Process) : OsEvent → Process → Prop
  | moves {e : OsEvent} {stage : ServerStage} : Control p e stage →
      ProcessEffect p e { p with stage }
  | signal : ProcessEffect p .signal { p with ctx := { p.ctx with running := false } }
  | client {fd : Int} {act : ClientAct} {c c' : Conn} : p.conn fd = some c →
      c.after act = some c' → ProcessEffect p (.client fd act) (p.setConn fd c')
  | noSocket : p.stage = .socket →
      ProcessEffect p (.socket none) { p with ctx := listening p.ctx (-1), stage := .destroy }
  | socket {fd : Int} : p.stage = .socket → 0 ≤ fd → p.files fd = none →
      ProcessEffect p (.socket (some fd)) { p.openFd (.socket fd) fd .listener with
        ctx := listening p.ctx fd, stage := .bind }
  | setUpFails {e : OsEvent} : p.stage = .bind ∧ e = .bind false ∨
        p.stage = .listen ∧ e = .listen false →
      ProcessEffect p e { p.closeFd p.ctx.listenFd with stage := .destroy }
  | accepts {ready : List Int} {env : Env} {fd : Int} {c : Conn} : p.stage = .accept ready →
      0 ≤ fd → p.files fd = none →
      ProcessEffect p (.accept env (some (fd, c))) (p.accepted env ready fd c)
  | reads {ready : List Int} {i : ℕ} {fd : Int} {got : List UInt8} {c : Conn} {n : ℕ} :
      p.stage = .reading ready i fd got → p.conn fd = some c → 0 < n → n ≤ wanted got →
      n ≤ c.pending.length →
      ProcessEffect p (.read n) { p.setConn fd { c with pending := c.pending.drop n } with
        stage := .reading ready i fd (got ++ c.pending.take n) }
  | drops {ready : List Int} {i : ℕ} {fd : Int} {got : List UInt8} {env : Env} :
      p.stage = .reading ready i fd got → wanted got ≠ 0 →
      ProcessEffect p (.readFails env) { p.closeFd fd with
        ctx := dropClient env p.ctx i fd, stage := .slots ready (i + 1) }
  | dispatches {ready : List Int} {i : ℕ} {fd : Int} {got : List UInt8} {env : Env}
      {into : TLVMessage} : p.stage = .reading ready i fd got → wanted got = 0 →
      ProcessEffect p (.dispatch env into) { p with
        ctx := (dispatchMessage env p.ctx fd (assemble into got)).1
        stage := .sending ready (wires (dispatchMessage env p.ctx fd (assemble into got)).2.1)
          (.reply i fd (dispatchMessage env p.ctx fd (assemble into got)).2.2) }
  | rejected {ready : List Int} {fd : Int} : p.stage = .sending ready [] (.reject fd) →
      ProcessEffect p .next { p.closeFd fd with stage := .slots ready 0 }
  | exits {ready : List Int} {i : ℕ} {fd ret : Int} :
      p.stage = .sending ready [] (.reply i fd ret) → ret < 0 →
      ProcessEffect p .next { p.closeFd fd with
        ctx := setSlot p.ctx i (-1), stage := .slots ready (i + 1) }
  | destroys : p.stage = .destroy →
      ProcessEffect p .next
        { (Process.destroyed p.ctx).foldl Process.closeFd p with stage := .done }

theorem next_effect {p p' : Process} (h : p.next = some p') : ProcessEffect p .next p' := by
  unfold Process.next at h
  split at h
  · rename_i hstage
    obtain rfl := Option.some.inj h
    cases hrun : p.ctx.running with
    | true => exact .moves (.looks hstage hrun)
    | false => exact .moves (.stops hstage hrun)
  · rename_i ready i hstage
    split at h
    · rename_i hslot
      exact Option.some.inj h ▸ .moves (.wraps hstage hslot)
    · rename_i fd hslot
      split at h
      · rename_i hskip
        exact Option.some.inj h ▸ .moves (.skips hstage hslot hskip)
      · rename_i hturn
        rw [not_or, not_lt, not_not] at hturn
        exact Option.some.inj h ▸ .moves (.turns hstage hslot hturn.1 hturn.2)
  · exact Option.some.inj h ▸ .rejected ‹_›
  · split at h
    · exact Option.some.inj h ▸ .exits ‹_› ‹_›
    · exact Option.some.inj h ▸ .moves (.kept ‹_› (not_lt.mp ‹_›))
  · exact Option.some.inj h ▸ .destroys ‹_›
  · contradiction

theorem processStep_effect {p p' : Process} {e : OsEvent} (h : ProcessStep p e p') :
    ProcessEffect p e p' := by
  cases e with
  | socket fd =>
    simp only [ProcessStep, Process.step] at h
    split at h
    · exact Option.some.inj h ▸ .noSocket ‹_›
    · rename_i hstage
      obtain ⟨⟨hpos, hfree⟩, h⟩ := Option.ite_none_right_eq_some.mp h
      exact Option.some.inj h ▸ .socket hstage hpos hfree
    · contradiction
  | bind ok =>
    simp only [ProcessStep, Process.step] at h
    split at h
    · rename_i hstage
      cases ok with
      | true => exact Option.some.inj h ▸ .moves (.bound hstage)
      | false => exact Option.some.inj h ▸ .setUpFails (Or.inl ⟨hstage, rfl⟩)
    · contradiction
  | listen ok =>
    simp only [ProcessStep, Process.step] at h
    split at h
    · rename_i hstage
      cases ok with
      | true => exact Option.some.inj h ▸ .moves (.listens hstage)
      | false => exact Option.some.inj h ▸ .setUpFails (Or.inr ⟨hstage, rfl⟩)
    · contradiction
  | signal => exact Option.some.inj h ▸ .signal
  | next => exact next_effect h
  | select ready =>
    simp only [ProcessStep, Process.step] at h
    split at h
    · rename_i hstage
      obtain ⟨hready, h⟩ := Option.ite_none_right_eq_some.mp h
      obtain rfl := Option.some.inj h
      by_cases hlisten : p.ctx.listenFd ∈ ready
      · rw [if_pos hlisten]
        exact .moves (.connection hstage hready hlisten)
      · rw [if_neg hlisten]
        exact .moves (.selected hstage hready hlisten)
    · contradiction
  | selectFails eintr =>
    simp only [ProcessStep, Process.step] at h
    split at h
    · rename_i hstage
      cases eintr with
      | true => exact Option.some.inj h ▸ .moves (.interrupted hstage)
      | false => exact Option.some.inj h ▸ .moves (.selectFailed hstage)
    · contradiction
  | accept env conn =>
    simp only [ProcessStep, Process.step] at h
    split at h
    · exact Option.some.inj h ▸ .moves (.noClient ‹_›)
    · rename_i hstage
      obtain ⟨⟨hpos, hfree⟩, h⟩ := Option.ite_none_right_eq_some.mp h
      exact Option.some.inj h ▸ .accepts hstage hpos hfree
    · contradiction
  | read n =>
    simp only [ProcessStep, Process.step] at h
    split at h
    · rename_i hstage
      split at h
      · rename_i hconn
        obtain ⟨⟨hpos, hwant, hlen⟩, h⟩ := Option.ite_none_right_eq_some.mp h
        exact Option.some.inj h ▸ .reads hstage hconn hpos hwant hlen
      · contradiction
    · contradiction
  | readFails env =>
    simp only [ProcessStep, Process.step] at h
    split at h
    · rename_i hstage
      obtain ⟨hwant, h⟩ := Option.ite_none_left_eq_some.mp h
      exact Option.some.inj h ▸ .drops hstage hwant
    · contradiction
  | dispatch env into =>
    simp only [ProcessStep, Process.step] at h
    split at h
    · rename_i hstage
      obtain ⟨hwant, h⟩ := Option.ite_none_right_eq_some.mp h
      exact Option.some.inj h ▸ .dispatches hstage hwant
    · contradiction
  | write n =>
    simp only [ProcessStep, Process.step] at h
    split at h
    · rename_i hstage
      split at h
      · rename_i hconn
        obtain ⟨⟨hreset, hpos, hlen⟩, h⟩ := Option.ite_none_right_eq_some.mp h
        exact Option.some.inj h ▸ .moves (.wrote hstage hconn hreset hpos hlen)
      · contradiction
    · contradiction
  | writeFails =>
    simp only [ProcessStep, Process.step] at h
    split at h
    · exact Option.some.inj h ▸ .moves (.gaveUp ‹_›)
    · contradiction
  | sigpipe =>
    simp only [ProcessStep, Process.step] at h
    split at h
    · rename_i hstage
      obtain ⟨hreset, h⟩ := Option.ite_none_right_eq_some.mp h
      obtain ⟨c, hconn, hreset⟩ := (Option.any_eq_true _ _).mp hreset
      exact Option.some.inj h ▸ .moves (.killed hstage hconn hreset)
    · contradiction
  | client fd act =>
    simp only [ProcessStep, Process.step] at h
    split at h
    · rename_i hconn
      obtain ⟨c', hafter, h⟩ := Option.map_eq_some_iff.mp h
      exact h ▸ .client hconn hafter
    · contradiction

end MeshChat.Server
