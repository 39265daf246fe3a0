import MeshChat.Server.Addresses
import MeshChat.Server.Sigpipe

/-!
# Conversations

What passes over a connection from its acceptance on. A client may send as many
requests at once as it likes, cut in any places: the server takes the stream apart
into whole messages, and puts on the other stream one reply for each of them, in
their order and nothing else.
-/
namespace MeshChat.Server
open Runs

/-- The bytes of a reply. -/
def Reply.frame (reply : Reply) : List UInt8 :=
  [reply.tag.code, UInt8.ofNat reply.payload.length] ++ reply.payload

theorem Reply.Describes.frame_of {reply : Reply} {msg : TLVMessage} (h : reply.Describes msg) :
    msg.frame = reply.frame := by
  rw [TLVMessage.frame, Reply.frame, h.1, ← h.2, msg.payload_length, UInt8.ofNat_toNat]

/-- A reply takes one write, of the whole frame. -/
theorem Sends.wires {fd : Int} {reply : Reply} {sent : List Sent} (h : Sends fd reply sent) :
    MeshChat.Server.wires sent = [(fd, reply.frame)] := by
  obtain ⟨msg, rfl, hmsg⟩ := h
  have hlen : msg.outLen.toNat = msg.frame.length := by
    rw [(msg.outLen_eq_iff).mpr hmsg.length_le, msg.frame_length]
  have hwire : Sent.wire ⟨fd, msg⟩ = (fd, reply.frame) := by
    rw [Sent.wire, hlen, List.take_length, hmsg.frame_of]
  rw [MeshChat.Server.wires, List.map_singleton, hwire]
  rfl

/-- The bytes that are still to be written to a connection. -/
def ServerStage.owed (fd : Int) : ServerStage → List UInt8
  | .sending _ out _ => ((out.filter fun w => decide (w.1 = fd)).map Prod.snd).flatten
  | _ => []

/-- The history of a connection since it was accepted. -/
structure Talk where
  /-- what the client has sent -/
  sent : List UInt8
  /-- the messages that the server has read and dispatched -/
  requests : List (List UInt8)
  /-- what the server had to say before any of them -/
  greeting : List UInt8
  /-- what the handlers replied, message by message -/
  replies : List (List UInt8)
  written : List UInt8
  /-- a `write` failed -/
  broken : Bool

namespace Talk

def empty : Talk := ⟨[], [], [], [], [], false⟩

/-- What one step adds to the history of `fd`. -/
def note (fd : Int) (t : Talk) (m : ProcessMove) : Talk :=
  match m.label, m.pre.stage with
  | .accept _ (some (fd', c)), _ =>
      if fd' = fd then { empty with sent := c.pending, greeting := m.post.stage.owed fd } else t
  | .client fd' (.send bytes), _ => if fd' = fd then { t with sent := t.sent ++ bytes } else t
  | .dispatch _ _, .reading _ _ fd' got =>
      if fd' = fd then
        { t with requests := t.requests ++ [got], replies := t.replies ++ [m.post.stage.owed fd] }
      else t
  | .write n, .sending _ ((fd', bytes) :: _) _ =>
      if fd' = fd then { t with written := t.written ++ bytes.take n } else t
  | .writeFails, .sending _ ((fd', _) :: _) _ => if fd' = fd then { t with broken := true } else t
  | _, _ => t

/-- The history of `fd` after a run. -/
def of (fd : Int) (moves : List ProcessMove) : Talk := moves.foldl (note fd) empty

/-- What another connection's client does is not part of it. -/
theorem note_client_ne {fd fd' : Int} (h : fd' ≠ fd) {t : Talk} {p p' : Process} {act : ClientAct} :
    t.note fd ⟨p, .client fd' act, p'⟩ = t := by
  cases act with
  | send bytes => exact if_neg h
  | _ => rfl

theorem of_snoc (fd : Int) (moves : List ProcessMove) (m : ProcessMove) :
    of fd (moves ++ [m]) = note fd (of fd moves) m := by
  rw [of, List.foldl_append]
  rfl

end Talk

theorem Process.conn_accepted (p : Process) (env : Env) (ready : List Int) (fd : Int) (c : Conn)
    (fd' : Int) : (p.accepted env ready fd c).conn fd' = if fd' = fd then some c else p.conn fd' := by
  rw [← Process.conn_openFd p (.accept fd)]
  rcases p.accepted_cases env ready fd c with ⟨i, x, -, -, heq⟩ | ⟨-, heq⟩ <;> rw [heq] <;> rfl

/-- The reply is what the handlers said to this message, in a state of the server. -/
def Answered (fd : Int) (request reply : List UInt8) : Prop :=
  ∃ (env : Env) (ctx : ServerContext) (into : TLVMessage) (r : Reply),
    AddressesOk ctx ∧ Sends fd r (dispatchMessage env ctx fd (assemble into request)).2.1 ∧
      reply = r.frame

/-- Nothing is read beyond the end of a message. -/
def InFrame (got : List UInt8) : Prop := got.length ≤ 2 + (got.getD 1 0).toNat

/-- What holds of the history of a connection. -/
structure Talks (fd : Int) (t : Talk) (stage : ServerStage) (c : Conn) : Prop where
  received : t.sent = t.requests.flatten ++ stage.taken fd ++ c.pending
  whole : ∀ request ∈ t.requests, request.length = 2 + (request.getD 1 0).toNat
  answered : List.Forall₂ (Answered fd) t.requests t.replies
  delivered : t.broken = false →
    t.written ++ stage.owed fd = t.greeting ++ t.replies.flatten
  greeting : stage.rejecting ≠ some fd → t.greeting = []
  rejected : stage.rejecting = some fd →
    t.requests = [] ∧ t.greeting = (Reply.error .serverFull).frame

namespace ServerStage
variable {stage stage' : ServerStage} {fd : Int}

theorem owed_cons (fd fd' : Int) (bytes : List UInt8) (ready : List Int)
    (out : List (Int × List UInt8)) (after : AfterSend) :
    (sending ready ((fd', bytes) :: out) after).owed fd =
      (if fd' = fd then bytes else []) ++ (sending ready out after).owed fd := by
  simp only [owed, List.filter_cons, decide_eq_true_eq]
  split <;> rfl

/-- A reply to one connection is owed to no other. -/
theorem owed_sends (fd : Int) {fd' : Int} {reply : Reply} {sent : List Sent}
    (h : Sends fd' reply sent) (ready : List Int) (after : AfterSend) :
    (sending ready (wires sent) after).owed fd = if fd' = fd then reply.frame else [] := by
  rw [h.wires, owed_cons]
  exact List.append_nil _

end ServerStage

/-- A step that moves the program on without a `write`. -/
theorem Control.owed {p : Process} {e : OsEvent} {stage : ServerStage} (h : Control p e stage)
    (hended : stage.ended = false) (hwrite : ∀ n, e ≠ .write n) (hfails : e ≠ .writeFails)
    (fd : Int) : stage.owed fd = p.stage.owed fd := by
  cases h with
  | wrote _ _ _ _ _ => exact absurd rfl (hwrite _)
  | gaveUp _ => exact absurd rfl hfails
  | killed _ _ _ => cases hended
  | kept hstage _ => rw [hstage]; rfl
  | _ => simp_all [ServerStage.owed]

/-- Every request gets one reply, whatever fails in it. -/
theorem AddressesOk.sends {ctx : ServerContext} (h : AddressesOk ctx) (env : Env) (fd : Int)
    (msg : TLVMessage) : ∃ reply, Sends fd reply (dispatchMessage env ctx fd msg).2.1 := by
  by_cases hreq : (Request.ofMsg msg).endsSession
  · rw [(dispatch_ending env ctx fd hreq).2]
    exact ⟨_, sends_success env fd⟩
  · obtain ⟨reply, -, -, -, hsent, -⟩ := dispatch_running h.groups h.addressed h.keyed env fd msg hreq
    exact ⟨reply, hsent⟩

theorem AddressesOk.of_same {ctx ctx' : ServerContext} (h : AddressesOk ctx)
    (husers : ctx'.userMap = ctx.userMap) (hgroups : ctx'.groupMap = ctx.groupMap)
    (hqueue : ctx'.mcastQueue = ctx.mcastQueue) : AddressesOk ctx' := by
  obtain ⟨hkeyed, ⟨hgkeyed, hrecords, hrep, hsize⟩, haddressed⟩ := h
  refine ⟨husers ▸ hkeyed, ⟨hgroups ▸ hgkeyed, rfl, ?_, hqueue ▸ hsize⟩, ?_⟩
  · rw [ServerContext.pool, hqueue]
    exact hrep
  · rwa [ServerContext.groups, ServerContext.pool, hgroups, hqueue]

/-- The handlers of the process are those of the runs of calls. -/
theorem AddressesOk.step {p p' : Process} {e : OsEvent} (h : AddressesOk p.ctx)
    (hs : ProcessEffect p e p') : AddressesOk p'.ctx := by
  cases hs with
  | @accepts ready env fd c _ _ _ =>
    rcases p.accepted_cases env ready fd c with ⟨i, x, -, -, heq⟩ | ⟨-, heq⟩
    · rw [heq]
      exact h.of_same rfl rfl rfl
    · rw [heq]
      exact h
  | @drops ready i fd got env _ _ =>
    exact (h.call ⟨env, .disconnect fd⟩).of_same rfl rfl rfl
  | @dispatches ready i fd got env into _ _ => exact h.call ⟨env, .dispatch fd (assemble into got)⟩
  | destroys _ =>
    change AddressesOk ((Process.destroyed p.ctx).foldl Process.closeFd p).ctx
    rwa [Process.ctx_closeAll]
  | _ => exact h.of_same rfl rfl rfl

theorem InFrame.read {got more : List UInt8} {n : ℕ} (h : InFrame got) (hn : n ≤ wanted got)
    (hmore : more.length ≤ n) : InFrame (got ++ more) := by
  unfold InFrame at h ⊢
  unfold wanted at hn
  rw [List.length_append]
  split at hn
  · omega
  · rw [List.getD_append _ _ _ _ (by omega)]
    omega

/-- What is being read never runs past the end of its message. -/
theorem ProcessEffect.inFrame {p p' : Process} {e : OsEvent} (hs : ProcessEffect p e p')
    (h : ∀ ready i fd got, p.stage = .reading ready i fd got → InFrame got) :
    ∀ ready i fd got, p'.stage = .reading ready i fd got → InFrame got := by
  intro ready i fd got hstage
  cases hs with
  | moves hc =>
    cases hc with
    | turns _ _ _ _ =>
      cases hstage
      exact Nat.zero_le _
    | _ => cases hstage
  | signal => exact h ready i fd got hstage
  | client _ _ => exact h ready i fd got hstage
  | @reads ready' i' fd' got' c n hread _ _ hwant _ =>
    cases hstage
    refine (h _ _ _ _ hread).read hwant ?_
    rw [List.length_take]
    exact Nat.min_le_left _ _
  | @accepts ready' env fd' c _ _ _ =>
    have hpass := p.accepted_passing env ready' fd' c
    rw [hstage] at hpass
    cases hpass
  | _ => cases hstage

namespace Talks
variable {fd : Int} {t : Talk} {stage stage' : ServerStage} {c : Conn}

/-- The program moves on, and nothing passes over the connection. -/
theorem onward (h : Talks fd t stage c) (htaken : stage'.taken fd = stage.taken fd)
    (howed : stage'.owed fd = stage.owed fd)
    (hrejects : stage'.rejecting = some fd ↔ stage.rejecting = some fd) : Talks fd t stage' c where
  received := htaken ▸ h.received
  whole := h.whole
  answered := h.answered
  delivered := howed ▸ h.delivered
  greeting hne := h.greeting (mt hrejects.mpr hne)
  rejected he := h.rejected (hrejects.mp he)

/-- A connection that was just accepted. -/
theorem accepted (p : Process) (env : Env) (ready : List Int) (c : Conn) :
    Talks fd { Talk.empty with
      sent := c.pending, greeting := (p.accepted env ready fd c).stage.owed fd }
      (p.accepted env ready fd c).stage c := by
  rcases p.accepted_cases env ready fd c with ⟨i, x, -, -, heq⟩ | ⟨-, heq⟩
  · rw [heq]
    exact ⟨rfl, List.forall_mem_nil _, .nil, fun _ => rfl, fun _ => rfl, nofun⟩
  · have howed := ServerStage.owed_sends fd (sends_error env fd .serverFull) ready (.reject fd)
    rw [if_pos rfl] at howed
    rw [heq]
    exact ⟨rfl, List.forall_mem_nil _, .nil, fun _ => (List.append_nil _).symm,
      fun hne => absurd rfl hne, fun _ => ⟨rfl, howed⟩⟩

/-- Another connection is accepted. -/
theorem beside {p : Process} {fd' : Int} (hfd : fd' ≠ fd) (h : Talks fd t stage c)
    (htaken : stage.taken fd = []) (howed : stage.owed fd = []) (hrejects : stage.rejecting ≠ some fd)
    (env : Env) {ready : List Int} {c' : Conn} :
    Talks fd t (p.accepted env ready fd' c').stage c := by
  rcases p.accepted_cases env ready fd' c' with ⟨i, x, -, -, heq⟩ | ⟨-, heq⟩
  · rw [heq]
    exact h.onward htaken.symm howed.symm (iff_of_false nofun hrejects)
  · have hnone := ServerStage.owed_sends fd (sends_error env fd' .serverFull) ready
      (.reject fd')
    rw [if_neg hfd] at hnone
    rw [heq]
    exact h.onward htaken.symm (hnone.trans howed.symm)
      (iff_of_false (fun he => hfd (Option.some.inj he)) hrejects)

/-- Bytes are read from the connection. -/
theorem readOn {ready : List Int} {i : ℕ} {got : List UInt8}
    (h : Talks fd t (.reading ready i fd got) c) (n : ℕ) :
    Talks fd t (.reading ready i fd (got ++ c.pending.take n))
      { c with pending := c.pending.drop n } := by
  refine ⟨?_, h.whole, h.answered, h.delivered, h.greeting, h.rejected⟩
  have htaken : ∀ got, (ServerStage.reading ready i fd got).taken fd = got := fun _ => if_pos rfl
  rw [h.received, htaken, htaken, ← List.append_assoc, List.append_assoc _ (c.pending.take n),
    List.take_append_drop]

/-- The whole message was read and dispatched. -/
theorem dispatched {ready : List Int} {i : ℕ} {got : List UInt8} (env : Env) {ctx : ServerContext}
    (into : TLVMessage) (h : Talks fd t (.reading ready i fd got) c) (hok : AddressesOk ctx)
    (hframe : InFrame got) (hwant : wanted got = 0) :
    let r := dispatchMessage env ctx fd (assemble into got)
    let stage' := ServerStage.sending ready (wires r.2.1) (.reply i fd r.2.2)
    Talks fd { t with
      requests := t.requests ++ [got], replies := t.replies ++ [stage'.owed fd] } stage' c := by
  intro r stage'
  obtain ⟨reply, hsends⟩ := hok.sends env fd (assemble into got)
  have howed : stage'.owed fd = reply.frame := by
    rw [ServerStage.owed_sends fd hsends, if_pos rfl]
  have hmsg := wanted_eq_zero_iff.mp hwant
  rw [hasMessage, decide_eq_true_eq] at hmsg
  refine ⟨?_, fun request hrequest => ?_, ?_, fun hbroken => ?_, fun _ => h.greeting nofun, nofun⟩
  · have htaken : (ServerStage.reading ready i fd got).taken fd = got := if_pos rfl
    have hnone : stage'.taken fd = [] := rfl
    rw [h.received, htaken, hnone, List.flatten_append, List.flatten_singleton, List.append_nil]
  · rcases List.mem_append.mp hrequest with hrequest | hrequest
    · exact h.whole request hrequest
    · rw [List.mem_singleton.mp hrequest]
      exact le_antisymm hframe hmsg.2
  · rw [howed]
    exact List.rel_append h.answered (.cons ⟨env, ctx, into, reply, hok, hsends, rfl⟩ .nil)
  · have hnone : (ServerStage.reading ready i fd got).owed fd = [] := rfl
    have hdone := h.delivered hbroken
    rw [hnone, List.append_nil] at hdone
    rw [hdone, List.flatten_append, List.flatten_singleton, List.append_assoc]

/-- One `write`, or one that fails. -/
theorem wrote {ready : List Int} {fd' : Int} {bytes : List UInt8} {out : List (Int × List UInt8)}
    {after : AfterSend} (h : Talks fd t (.sending ready ((fd', bytes) :: out) after) c) (n : ℕ) :
    Talks fd (if fd' = fd then { t with written := t.written ++ bytes.take n } else t)
      (.sending ready (if n = bytes.length then out else (fd', bytes.drop n) :: out) after) c := by
  have hleft : (ServerStage.sending ready (if n = bytes.length then out
      else (fd', bytes.drop n) :: out) after).owed fd = (if fd' = fd then bytes.drop n else []) ++
        (ServerStage.sending ready out after).owed fd := by
    by_cases hall : n = bytes.length
    · rw [if_pos hall, hall, List.drop_length, ite_self, List.nil_append]
    · rw [if_neg hall, ServerStage.owed_cons]
  have hdone := h.delivered
  rw [ServerStage.owed_cons] at hdone
  by_cases hfd : fd' = fd
  · rw [if_pos hfd] at hdone ⊢
    refine ⟨h.received, h.whole, h.answered, fun hbroken => ?_, h.greeting, h.rejected⟩
    rw [hleft, if_pos hfd, List.append_assoc, ← List.append_assoc (bytes.take n),
      List.take_append_drop]
    exact hdone hbroken
  · rw [if_neg hfd] at hdone ⊢
    refine ⟨h.received, h.whole, h.answered, fun hbroken => ?_, h.greeting, h.rejected⟩
    rw [hleft, if_neg hfd]
    exact hdone hbroken

theorem gaveUp {ready : List Int} {fd' : Int} {bytes : List UInt8} {out : List (Int × List UInt8)}
    {after : AfterSend} (h : Talks fd t (.sending ready ((fd', bytes) :: out) after) c) :
    Talks fd (if fd' = fd then { t with broken := true } else t) (.sending ready out after) c := by
  by_cases hfd : fd' = fd
  · rw [if_pos hfd]
    exact ⟨h.received, h.whole, h.answered, nofun, h.greeting, h.rejected⟩
  · rw [if_neg hfd]
    refine h.onward rfl ?_ Iff.rfl
    rw [ServerStage.owed_cons, if_neg hfd, List.nil_append]

/-- The client does something at its end. -/
theorem heard {act : ClientAct} {c' : Conn} (h : Talks fd t stage c) (hact : c.after act = some c')
    (p p' : Process) : Talks fd (t.note fd ⟨p, .client fd act, p'⟩) stage c' := by
  cases act with
  | send bytes =>
    obtain ⟨-, hact⟩ := Option.ite_none_left_eq_some.mp hact
    obtain rfl := Option.some.inj hact
    have hnote : t.note fd ⟨p, .client fd (.send bytes), p'⟩ = { t with sent := t.sent ++ bytes } :=
      if_pos rfl
    rw [hnote]
    refine ⟨?_, h.whole, h.answered, h.delivered, h.greeting, h.rejected⟩
    rw [h.received, List.append_assoc]
  | close =>
    obtain rfl := Option.some.inj hact
    exact ⟨h.received, h.whole, h.answered, h.delivered, h.greeting, h.rejected⟩
  | reset =>
    obtain rfl := Option.some.inj hact
    exact ⟨h.received, h.whole, h.answered, h.delivered, h.greeting, h.rejected⟩

/-- A step of the program that waits for no data. -/
theorem moved {p : Process} {e : OsEvent} (h : Talks fd t p.stage c) (hc : Control p e stage)
    (hended : stage.ended = false) (p' : Process) : Talks fd (t.note fd ⟨p, e, p'⟩) stage c := by
  have hquiet : (∀ n, e ≠ .write n) → e ≠ .writeFails → Talks fd t stage c := by
    intro hwrite hfails
    refine h.onward (hc.taken fd) (hc.owed hended hwrite hfails fd) ?_
    rw [hc.rejecting hended]
  cases hc with
  | @wrote _ _ _ _ _ _ n hstage _ _ _ _ =>
    rw [hstage] at h
    have hnote := h.wrote n
    rwa [Talk.note, hstage]
  | gaveUp hstage =>
    rw [hstage] at h
    have hnote := h.gaveUp
    rwa [Talk.note, hstage]
  | _ => exact hquiet (fun _ => nofun) nofun

theorem step {p p' : Process} {e : OsEvent} (hs : ProcessEffect p e p')
    (h : ∀ c, p.conn fd = some c → Talks fd t p.stage c) (hok : AddressesOk p.ctx)
    (hframe : ∀ ready i fd got, p.stage = .reading ready i fd got → InFrame got)
    (hended : p'.stage.ended = false) (hc : p'.conn fd = some c) :
    Talks fd (t.note fd ⟨p, e, p'⟩) p'.stage c := by
  cases hs with
  | moves hcontrol => exact (h c hc).moved hcontrol hended _
  | signal => exact h c hc
  | @client fd' act c₀ c₁ hconn hact =>
    rw [Process.conn_setConn] at hc
    by_cases hfd : fd' = fd
    · subst hfd
      rw [if_pos rfl, Option.some.injEq] at hc
      exact hc ▸ (h c₀ hconn).heard hact p _
    · rw [if_neg (Ne.symm hfd)] at hc
      rw [Talk.note_client_ne hfd]
      exact h c hc
  | noSocket hstage =>
    refine (h c hc).onward ?_ ?_ ?_ <;> rw [hstage] <;> rfl
  | @socket fd' hstage _ hfree =>
    have hsame : (p.openFd (.socket fd') fd' .listener).conn fd = p.conn fd :=
      Process.conn_openFd_listener hfree fd
    have hconn : p.conn fd = some c := hsame.symm.trans hc
    refine (h c hconn).onward ?_ ?_ ?_ <;> rw [hstage] <;> rfl
  | setUpFails hfails =>
    have htalk := h c (Process.conn_of_closeFd hc).2
    rcases hfails with ⟨hstage, rfl⟩ | ⟨hstage, rfl⟩ <;>
      (refine htalk.onward ?_ ?_ ?_ <;> rw [hstage] <;> rfl)
  | @accepts ready env fd' c₀ hstage _ hfree =>
    have hconn := hc
    rw [Process.conn_accepted] at hconn
    by_cases hfd : fd' = fd
    · subst hfd
      rw [if_pos rfl, Option.some.injEq] at hconn
      subst hconn
      have hnote : t.note fd' ⟨p, .accept env (some (fd', c₀)), p.accepted env ready fd' c₀⟩ =
          { Talk.empty with
            sent := c₀.pending, greeting := (p.accepted env ready fd' c₀).stage.owed fd' } :=
        if_pos rfl
      rw [hnote]
      exact accepted p env ready c₀
    · have hnote : t.note fd ⟨p, .accept env (some (fd', c₀)), p.accepted env ready fd' c₀⟩ = t :=
        if_neg hfd
      rw [if_neg (Ne.symm hfd)] at hconn
      rw [hnote]
      exact (h c hconn).beside hfd (by rw [hstage]; rfl) (by rw [hstage]; rfl)
        (by rw [hstage]; nofun) env
  | @reads ready i fd' got c₀ n hstage hconn _ _ _ =>
    change (p.setConn fd' { c₀ with pending := c₀.pending.drop n }).conn fd = some c at hc
    rw [Process.conn_setConn] at hc
    by_cases hfd : fd' = fd
    · subst hfd
      rw [if_pos rfl, Option.some.injEq] at hc
      subst hc
      have htalk := h c₀ hconn
      rw [hstage] at htalk
      exact htalk.readOn n
    · rw [if_neg (Ne.symm hfd)] at hc
      refine (h c hc).onward ?_ ?_ ?_
      · rw [hstage]
        exact (if_neg hfd).trans (if_neg hfd).symm
      · rw [hstage]
        rfl
      · rw [hstage]
        rfl
  | @drops ready i fd' got env hstage _ =>
    obtain ⟨hne, hconn⟩ := Process.conn_of_closeFd hc
    refine (h c hconn).onward ?_ ?_ ?_
    · rw [hstage]
      exact (if_neg (Ne.symm hne)).symm
    · rw [hstage]
      rfl
    · rw [hstage]
      rfl
  | @dispatches ready i fd' got env into hstage hwant =>
    have htalk := h c hc
    rw [hstage] at htalk
    by_cases hfd : fd' = fd
    · subst hfd
      have hdone := htalk.dispatched env into hok (hframe _ _ _ _ hstage) hwant
      have hnote : ∀ p', t.note fd' ⟨p, .dispatch env into, p'⟩ = { t with
          requests := t.requests ++ [got], replies := t.replies ++ [p'.stage.owed fd'] } := by
        intro p'
        simp only [Talk.note, hstage, if_true]
      rw [hnote]
      exact hdone
    · obtain ⟨reply, hsends⟩ := hok.sends env fd' (assemble into got)
      have hnote : ∀ p', t.note fd ⟨p, .dispatch env into, p'⟩ = t := by
        intro p'
        simp only [Talk.note, hstage, if_neg hfd]
      rw [hnote]
      refine htalk.onward (if_neg hfd).symm ?_ Iff.rfl
      rw [ServerStage.owed_sends fd hsends, if_neg hfd]
      rfl
  | @rejected ready fd' hstage =>
    obtain ⟨hne, hconn⟩ := Process.conn_of_closeFd hc
    refine (h c hconn).onward ?_ ?_ ?_
    · rw [hstage]
      rfl
    · rw [hstage]
      rfl
    · rw [hstage]
      exact iff_of_false nofun fun he => hne (Option.some.inj he).symm
  | @exits ready i fd' ret hstage _ =>
    refine (h c (Process.conn_of_closeFd hc).2).onward ?_ ?_ ?_ <;> rw [hstage] <;> rfl
  | destroys _ => cases hended

end Talks

/-- The history of every open connection, after any run. -/
theorem talks_of_run {alloc : ℕ → Bool} {ctx₀ : ServerContext} {p : Process}
    {moves : List ProcessMove} (h0 : serverCreate alloc = some ctx₀)
    (hr : Run ProcessStep (booted ctx₀) moves p) (hended : p.stage.ended = false) (fd : Int) :
    ∀ c, p.conn fd = some c → Talks fd (Talk.of fd moves) p.stage c := by
  have hall := hr.history (G := fun _ _ => True)
    (I := fun moves p => AddressesOk p.ctx ∧
      (∀ ready i fd got, p.stage = .reading ready i fd got → InFrame got) ∧
      (p.stage.ended = false → ∀ c, p.conn fd = some c → Talks fd (Talk.of fd moves) p.stage c))
    ⟨addressesOk_of_run h0 .start, nofun, fun _ c hc => by simp [booted_conn] at hc⟩
    (fun moves p e p' hi _ hs => ?_) fun _ _ => trivial
  · exact hall.2.2 hended
  · obtain ⟨hok, hframe, htalks⟩ := hi
    have heffect := processStep_effect hs
    refine ⟨hok.step heffect, heffect.inFrame hframe, fun hended c hc => ?_⟩
    rw [Talk.of_snoc]
    exact Talks.step heffect (htalks (heffect.ended_before hended)) hok hframe hended hc

/-- A conversation. Everything that a client has sent on a connection since it was
accepted is, in order, the requests that were dispatched, each a whole message, what
has been read of the next one, and what waits to be read. What was written to it, with
what is still to be written, is one reply to each request, in the same order and with
nothing between them, unless a `write` to it failed; and to a connection that is
rejected only that there is no room. -/
theorem replies_follow_requests {alloc : ℕ → Bool} {ctx₀ : ServerContext} {p : Process}
    {moves : List ProcessMove} (h0 : serverCreate alloc = some ctx₀)
    (hr : Run ProcessStep (booted ctx₀) moves p) (hended : p.stage.ended = false) {fd : Int}
    {c : Conn} (hc : p.conn fd = some c) :
    let t := Talk.of fd moves
    t.sent = t.requests.flatten ++ p.stage.taken fd ++ c.pending ∧
      (∀ request ∈ t.requests, request.length = 2 + (request.getD 1 0).toNat) ∧
      (p.stage.rejecting ≠ some fd → List.Forall₂ (Answered fd) t.requests t.replies ∧
        (t.broken = false → t.written ++ p.stage.owed fd = t.replies.flatten)) ∧
      (p.stage.rejecting = some fd → t.requests = [] ∧
        (t.broken = false → t.written ++ p.stage.owed fd = (Reply.error .serverFull).frame)) := by
  intro t
  have htalk := talks_of_run h0 hr hended fd c hc
  refine ⟨htalk.received, htalk.whole, fun hserved => ⟨htalk.answered, fun hbroken => ?_⟩,
    fun hrejected => ?_⟩
  · have hdone := htalk.delivered hbroken
    rwa [htalk.greeting hserved, List.nil_append] at hdone
  · obtain ⟨hnone, hgreeting⟩ := htalk.rejected hrejected
    refine ⟨hnone, fun hbroken => ?_⟩
    have hanswered := htalk.answered
    rw [hnone, List.forall₂_nil_left_iff] at hanswered
    have hdone := htalk.delivered hbroken
    rwa [hanswered, hgreeting, List.flatten_nil, List.append_nil] at hdone

/-- Two requests and a part of a third arrive at once. -/
def threeAtOnce : List OsEvent :=
  List.flatten [listeningEvents,
    .accept .quiet (some (4, ⟨[3, 0, 9, 1, 7, 3], false, false⟩)) :: idleSlots,
    [.next, .select [4], .next, .read 1, .read 1, .dispatch .quiet .blank, .write 3], idleSlots,
    [.next, .select [4], .next, .read 2, .read 1, .dispatch .quiet .blank, .write 2]]

theorem replies_follow_requests_threeAtOnce :
    ∃ replies, List.Forall₂ (Answered 4) [[3, 0], [9, 1, 7]] replies ∧
      (Talk.of 4 (processMoves threeAtOnce)).written ++ [0] = replies.flatten := by
  have hconn : (processAfter threeAtOnce).conn 4 = some ⟨[3], false, false⟩ := by decide +kernel
  obtain ⟨-, -, hserved, -⟩ := replies_follow_requests serverCreate_started
    (run_process threeAtOnce (by decide +kernel)) (by decide +kernel) hconn
  obtain ⟨hanswered, hwritten⟩ := hserved (by decide +kernel)
  have hrequests : (Talk.of 4 (processMoves threeAtOnce)).requests = [[3, 0], [9, 1, 7]] := by
    decide +kernel
  have howed : (processAfter threeAtOnce).stage.owed 4 = [0] := by decide +kernel
  rw [hrequests] at hanswered
  rw [howed] at hwritten
  exact ⟨_, hanswered, hwritten (by decide +kernel)⟩

end MeshChat.Server
