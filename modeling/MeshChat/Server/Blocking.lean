import MeshChat.Server.Descriptors

/-!
# Reads that block

`select` says of a connection that the next `read` returns at once, but
`net_read_msg` reads until it has a whole message. No `read` blocks in a pass over the
slots if every connection that `select` reported has a whole message to read, or its
end. The loop does not get past a connection that has less.
-/
namespace MeshChat.Server
open Runs

/-- After the bytes that were read of it, the rest of the message or the end of the
connection has arrived. -/
def Conn.covers (c : Conn) (got : List UInt8) : Bool :=
  hasMessage (got ++ c.pending) || c.eof || c.reset

namespace Conn
variable {c c' : Conn} {got : List UInt8}

theorem covers_eq_false :
    c.covers got = false ↔ hasMessage (got ++ c.pending) = false ∧ c.eof = false ∧ c.reset = false := by
  rw [covers, Bool.or_eq_false_iff, Bool.or_eq_false_iff, and_assoc]

/-- Nothing that a client does takes it back. -/
theorem covers_after {act : ClientAct} (h : c.after act = some c') (hs : c.covers got = true) :
    c'.covers got = true := by
  cases act with
  | send bytes =>
    obtain ⟨hopen, h⟩ := Option.ite_none_left_eq_some.mp h
    rw [← Option.some.inj h]
    rw [Bool.not_eq_true, Bool.or_eq_false_iff] at hopen
    rw [covers, hopen.1, hopen.2, Bool.or_false, Bool.or_false] at hs
    rw [covers, ← List.append_assoc, hasMessage_append hs, Bool.true_or, Bool.true_or]
  | close =>
    rw [← Option.some.inj h, covers, Bool.or_true, Bool.true_or]
  | reset =>
    rw [← Option.some.inj h, covers, Bool.or_true]

/-- Reading moves bytes from one side to the other. -/
theorem covers_read (c : Conn) (got : List UInt8) (n : ℕ) :
    ({ c with pending := c.pending.drop n } : Conn).covers (got ++ c.pending.take n) =
      c.covers got := by
  rw [covers, List.append_assoc, List.take_append_drop, covers]

theorem readable_of_covers (h : c.covers got = true) (hwant : wanted got ≠ 0) :
    c.readable = true := by
  rw [readable]
  by_cases hnil : c.pending = []
  · rw [covers, hnil, List.append_nil] at h
    rw [Ne, wanted_eq_zero_iff, Bool.not_eq_true] at hwant
    rw [hwant, Bool.false_or] at h
    rw [Bool.or_assoc, h, Bool.or_true]
  · rw [List.isEmpty_eq_false_iff.mpr hnil, Bool.not_false, Bool.true_or, Bool.true_or]

end Conn

/-- The program is in a `read` that does not return. -/
def Process.blocked (p : Process) : Bool :=
  match p.stage with
  | .reading _ _ fd got => decide (wanted got ≠ 0) && (p.conn fd).any fun c => !c.readable
  | _ => false

theorem Process.blocked_eq_true {p : Process} : p.blocked = true ↔
    ∃ ready i fd got c, p.stage = .reading ready i fd got ∧ wanted got ≠ 0 ∧
      p.conn fd = some c ∧ c.readable = false := by
  unfold Process.blocked
  constructor
  · intro h
    split at h
    · rename_i ready i fd got hstage
      rw [Bool.and_eq_true, decide_eq_true_eq, Option.any_eq_true] at h
      obtain ⟨hwant, c, hc, hread⟩ := h
      exact ⟨ready, i, fd, got, c, hstage, hwant, hc, by simpa using hread⟩
    · cases h
  · rintro ⟨ready, i, fd, got, c, hstage, hwant, hc, hread⟩
    rw [hstage]
    simp [hwant, hc, hread]

/-- In the rest of the pass there is enough to read wherever the program reads. -/
structure PassOk (p : Process) : Prop where
  opened : ReadyOpen p
  visits : ∀ ready k, p.stage.toVisit = some (ready, k) → ∀ j fd, k ≤ j → 0 ≤ fd →
    p.ctx.clientFds[j]? = some fd → fd ∈ ready → ∀ c ∈ p.conn fd, c.covers [] = true
  reads : ∀ ready i fd got, p.stage = .reading ready i fd got →
    ∀ c ∈ p.conn fd, c.covers got = true

def OsEvent.selects : OsEvent → Bool
  | .select _ => true
  | _ => false

/-- Between two returns of `select` the pass goes on with what was reported. -/
theorem Control.pass {p : Process} {e : OsEvent} {stage : ServerStage} (h : Control p e stage)
    (he : e.selects = false) :
    (∀ ready, stage ≠ .accept ready) ∧
      (∀ ready k, stage.toVisit = some (ready, k) →
        ∃ k₀ ≤ k, p.stage.toVisit = some (ready, k₀)) ∧
      ∀ ready i fd got, stage = .reading ready i fd got →
        got = [] ∧ p.stage = .slots ready i ∧ p.ctx.clientFds[i]? = some fd ∧ 0 ≤ fd ∧ fd ∈ ready := by
  cases h with
  | connection => cases he
  | selected => cases he
  | noClient hstage =>
    refine ⟨nofun, fun ready k hk => ⟨k, le_rfl, ?_⟩, nofun⟩
    rwa [hstage]
  | @skips ready i fd hstage hslot hskip =>
    refine ⟨nofun, fun ready' k hk => ⟨i, ?_, ?_⟩, nofun⟩
    · cases hk
      exact Nat.le_succ i
    · cases hk
      rw [hstage]
      rfl
  | @turns ready i fd hstage hslot hpos hfd =>
    refine ⟨nofun, fun ready' k hk => ⟨i, ?_, ?_⟩, fun ready' i' fd' got he => ?_⟩
    · cases hk
      exact Nat.le_succ i
    · cases hk
      rw [hstage]
      rfl
    · cases he
      exact ⟨rfl, hstage, hslot, hpos, hfd⟩
  | wrote hstage _ _ _ _ =>
    refine ⟨nofun, fun ready k hk => ⟨k, le_rfl, ?_⟩, nofun⟩
    rwa [hstage]
  | gaveUp hstage =>
    refine ⟨nofun, fun ready k hk => ⟨k, le_rfl, ?_⟩, nofun⟩
    rwa [hstage]
  | kept hstage _ =>
    refine ⟨nofun, fun ready k hk => ⟨k, le_rfl, ?_⟩, nofun⟩
    rwa [hstage]
  | _ => exact ⟨nofun, nofun, nofun⟩

namespace PassOk
variable {p p' : Process}

/-- Outside of a pass nothing is visited. -/
theorem of_none (h : p.stage.toVisit = none) : PassOk p where
  opened ready hs := by
    rw [hs] at h
    cases h
  visits ready k hv := by
    rw [h] at hv
    cases hv
  reads ready i fd got hs := by
    rw [hs] at h
    cases h

/-- A step that neither turns to a connection nor reads from it. -/
theorem onward (h : PassOk p) {ready : List Int} {k : ℕ}
    (hvisit : p.stage.toVisit = some (ready, k)) (hvisit' : p'.stage.toVisit = some (ready, k))
    (hpass : p'.stage.passing = true)
    (hslots : ∀ (j : ℕ) (fd : Int), 0 ≤ fd → p'.ctx.clientFds[j]? = some fd → fd ∈ ready →
      p.ctx.clientFds[j]? = some fd)
    (hconn : ∀ fd c, fd ∈ ready → p'.conn fd = some c → p.conn fd = some c) : PassOk p' where
  opened ready hs := by
    rw [hs] at hpass
    cases hpass
  visits ready' k' hv j fd hj hpos hslot hfd c hc := by
    obtain ⟨rfl, rfl⟩ := Prod.mk.inj (Option.some.inj (hvisit'.symm.trans hv))
    exact h.visits _ _ hvisit j fd hj hpos (hslots j fd hpos hslot hfd) hfd c (hconn fd c hfd hc)
  reads ready i fd got hs := by
    rw [hs] at hpass
    cases hpass

/-- The connection of a slot is closed and the next slot is looked at. -/
theorem closeSlot (h : PassOk p) {ready : List Int} {i : ℕ}
    (hvisit : p.stage.toVisit = some (ready, i + 1)) (fd : Int) (ctx : ServerContext)
    (hfds : ctx.clientFds = p.ctx.clientFds.set i (-1)) :
    PassOk { p.closeFd fd with ctx, stage := .slots ready (i + 1) } := by
  refine h.onward hvisit rfl rfl (fun j fd' hpos hslot _ => ?_) fun fd' c _ hc => ?_
  · change ctx.clientFds[j]? = some fd' at hslot
    rw [hfds] at hslot
    exact ((SlotsInj.getElem?_close hpos).mp hslot).2
  · exact (Process.conn_of_closeFd hc).2

/-- Bytes are read from the connection of a slot. -/
theorem read (h : PassOk p) (hwf : Wf p) {ready : List Int} {i : ℕ} {fd : Int} {got : List UInt8}
    (hstage : p.stage = .reading ready i fd got) {c : Conn} (hc : p.conn fd = some c) (n : ℕ) :
    PassOk { p.setConn fd { c with pending := c.pending.drop n } with
      stage := .reading ready i fd (got ++ c.pending.take n) } where
  opened _ hs := nomatch hs
  visits ready' k hv j fd' hj hpos hslot hfd d hd := by
    obtain ⟨rfl, rfl⟩ := Prod.mk.inj (Option.some.inj hv)
    have hvisit : p.stage.toVisit = some (ready, i + 1) := by rw [hstage]; rfl
    change (p.setConn fd { c with pending := c.pending.drop n }).conn fd' = some d at hd
    rw [Process.conn_setConn, if_neg] at hd
    · exact h.visits _ _ hvisit j fd' hj hpos hslot hfd d hd
    · rintro rfl
      have hsame := hwf.slots i j fd' hpos (hwf.serving i fd' (by rw [hstage]; rfl)).2 hslot
      omega
  reads ready' i' fd' got' hs d hd := by
    cases hs
    change (p.setConn fd { c with pending := c.pending.drop n }).conn fd = some d at hd
    rw [Process.conn_setConn, if_pos rfl] at hd
    rw [← Option.some.inj hd, Conn.covers_read]
    exact h.reads ready i fd got hstage c hc

/-- A new connection is not among those that `select` reported. -/
theorem accepted (h : PassOk p) {ready : List Int} (hstage : p.stage = .accept ready) (env : Env)
    {fd : Int} (hpos : 0 ≤ fd) (hfree : p.files fd = none) (c : Conn) :
    PassOk (p.accepted env ready fd c) := by
  have hnew : fd ∉ ready := fun hfd => h.opened ready hstage fd hfd hpos hfree
  have hvisit : p.stage.toVisit = some (ready, 0) := by rw [hstage]; rfl
  have hconn : ∀ fd' d, fd' ∈ ready → (p.openFd (.accept fd) fd (.conn c)).conn fd' = some d →
      p.conn fd' = some d := by
    intro fd' d hfd' hd
    rwa [Process.conn_openFd, if_neg] at hd
    rintro rfl
    exact hnew hfd'
  rcases p.accepted_cases env ready fd c with ⟨i, x, hslot, hx, heq⟩ | ⟨-, heq⟩
  · rw [heq]
    refine h.onward hvisit rfl rfl (fun j fd' hpos' hslot' hfd' => ?_) hconn
    refine ((SlotsInj.getElem?_open hslot hx hpos').mp hslot').resolve_right ?_
    rintro ⟨-, rfl⟩
    exact hnew hfd'
  · rw [heq]
    exact h.onward hvisit rfl rfl (fun _ _ _ hslot _ => hslot) hconn

theorem step (h : PassOk p) (hwf : Wf p) {e : OsEvent} (he : e.selects = false)
    (hs : ProcessEffect p e p') : PassOk p' := by
  cases hs with
  | moves hc =>
    obtain ⟨haccept, hvisit, hread⟩ := hc.pass he
    refine ⟨fun ready hs => absurd hs (haccept ready), fun ready k hv j fd hj => ?_,
      fun ready i fd got hs c hc => ?_⟩
    · obtain ⟨k₀, hk, hv⟩ := hvisit ready k hv
      exact h.visits ready k₀ hv j fd (hk.trans hj)
    · obtain ⟨rfl, hstage, hslot, hpos, hfd⟩ := hread ready i fd got hs
      exact h.visits ready i (by rw [hstage]; rfl) i fd le_rfl hpos hslot hfd c hc
  | signal => exact ⟨h.opened, h.visits, h.reads⟩
  | @client fd act c c' hconn hact =>
    have hcovers : ∀ {fd' got}, (∀ d ∈ p.conn fd', d.covers got = true) →
        ∀ d ∈ (p.setConn fd c').conn fd', d.covers got = true := by
      intro fd' got hall d hd
      rw [Option.mem_def, Process.conn_setConn] at hd
      split at hd
      · rename_i hfd
        rw [← Option.some.inj hd]
        exact Conn.covers_after hact (hall c (hfd ▸ hconn))
      · exact hall d hd
    refine ⟨h.opened.setConn fd c', fun ready k hv j fd' hj hpos hslot hfd => ?_,
      fun ready i fd' got hs => hcovers (h.reads ready i fd' got hs)⟩
    exact hcovers (h.visits ready k hv j fd' hj hpos hslot hfd)
  | noSocket _ => exact .of_none rfl
  | socket _ _ _ => exact .of_none rfl
  | setUpFails _ => exact .of_none rfl
  | accepts hstage hpos hfree => exact h.accepted hstage _ hpos hfree _
  | reads hstage hconn _ _ _ => exact h.read hwf hstage hconn _
  | @drops ready i fd got env hstage hwant =>
    refine h.closeSlot (by rw [hstage]; rfl) fd (dropClient env p.ctx i fd) ?_
    rw [dropClient, setSlot, clientDisconnected, (cleanupClient_sameLoop env p.ctx fd).clientFds]
  | @dispatches ready i fd got env into hstage hwant =>
    have hfds := (dispatchMessage_sameLoop env p.ctx fd (assemble into got)).clientFds
    refine h.onward (by rw [hstage]; rfl) rfl rfl
      (fun j fd' _ hslot _ => hfds ▸ hslot) fun _ _ _ hc => hc
  | rejected hstage =>
    refine h.onward (by rw [hstage]; rfl) rfl rfl (fun _ _ _ hslot _ => hslot)
      fun _ _ _ hc => (Process.conn_of_closeFd hc).2
  | @exits ready i fd ret hstage _ =>
    exact h.closeSlot (by rw [hstage]; rfl) fd (setSlot p.ctx i (-1)) rfl
  | destroys _ => exact .of_none rfl

theorem not_blocked (h : PassOk p) : p.blocked = false := by
  rw [Bool.eq_false_iff]
  intro hblocked
  obtain ⟨ready, i, fd, got, c, hstage, hwant, hc, hread⟩ := Process.blocked_eq_true.mp hblocked
  rw [Conn.readable_of_covers (h.reads ready i fd got hstage c hc) hwant] at hread
  cases hread

end PassOk

/-- `select` reports connections on which there is enough to read. -/
theorem passOk_of_select {p p' : Process} {ready : List Int} (hwf : Wf p)
    (hs : ProcessStep p (.select ready) p')
    (hready : ∀ fd ∈ ready, ∀ c ∈ p.conn fd, c.covers [] = true) : PassOk p' := by
  cases processStep_effect hs with
  | moves hc =>
    cases hc with
    | connection hstage hreport _ =>
      refine ⟨fun ready' he => ?_, fun ready' k hv j fd _ _ _ hfd => ?_, nofun⟩
      · cases he
        exact ReadyOpen.of_reportable hwf hreport
      · cases hv
        exact hready fd hfd
    | selected hstage _ _ =>
      refine ⟨nofun, fun ready' k hv j fd _ _ _ hfd => ?_, nofun⟩
      cases hv
      exact hready fd hfd
  | setUpFails hfails => rcases hfails with ⟨-, he⟩ | ⟨-, he⟩ <;> cases he

/-- A pass over connections on which there is enough to read. -/
theorem pass_of_run {p p' : Process} {moves : List ProcessMove} (hr : Run ProcessStep p moves p')
    (hdescr : DescriptorsOk p) (hpass : PassOk p)
    (hmoves : ∀ m ∈ moves, m.label.failsSetUp = false ∧ m.label.selects = false) :
    p'.stage.ended = false → PassOk p' := by
  have h : DescriptorsOk p' ∧ (p'.stage.ended = false → PassOk p') := by
    refine hr.invariant (I := fun p => DescriptorsOk p ∧ (p.stage.ended = false → PassOk p))
      (G := fun _ e => e.failsSetUp = false ∧ e.selects = false) ⟨hdescr, fun _ => hpass⟩
      (fun p e p' hi he hs => ⟨hi.1.step he.1 hs, fun hended => ?_⟩) hmoves
    have heffect := processStep_effect hs
    have hbefore := heffect.ended_before hended
    exact (hi.2 hbefore).step (hi.1.wf hbefore) he.2 heffect
  exact h.2

/-- The program reads a message of which a part is missing. -/
def Starved (ready : List Int) (i : ℕ) (fd : Int) (p : Process) : Prop :=
  ∃ got c, p.stage = .reading ready i fd got ∧ p.conn fd = some c ∧ c.covers got = false

/-- Nothing arrives on the connection, and reading does not fail. -/
def OsEvent.withholds (fd : Int) : OsEvent → Bool
  | .client fd' _ => decide (fd' ≠ fd)
  | .readFails _ => false
  | _ => true

namespace Starved
variable {ready : List Int} {i : ℕ} {fd : Int} {p p' : Process}

theorem wanted_ne_zero {got : List UInt8} {c : Conn} (h : c.covers got = false) :
    wanted got ≠ 0 := by
  intro hwant
  have hwhole := hasMessage_append (wanted_eq_zero_iff.mp hwant) c.pending
  rw [(Conn.covers_eq_false.mp h).1] at hwhole
  cases hwhole

theorem read {got : List UInt8} {c : Conn} (h : c.covers got = false) (n : ℕ) :
    Starved ready i fd { p.setConn fd { c with pending := c.pending.drop n } with
      stage := .reading ready i fd (got ++ c.pending.take n) } := by
  refine ⟨_, { c with pending := c.pending.drop n }, rfl, ?_, (c.covers_read got n).trans h⟩
  exact (Process.conn_setConn p fd _ fd).trans (if_pos rfl)

/-- As long as nothing arrives the program does not get on. -/
theorem step (h : Starved ready i fd p) {e : OsEvent} (he : e.withholds fd = true)
    (hs : ProcessEffect p e p') : Starved ready i fd p' := by
  obtain ⟨got, c, hstage, hc, hcovers⟩ := h
  cases hs with
  | moves hm => cases hm <;> simp_all
  | signal => exact ⟨got, c, hstage, hc, hcovers⟩
  | @client fd' act d d' hconn hact =>
    refine ⟨got, c, hstage, ?_, hcovers⟩
    rw [Process.conn_setConn, if_neg (Ne.symm (of_decide_eq_true he)), hc]
  | reads hstage' hconn _ _ _ =>
    rw [hstage] at hstage'
    cases hstage'
    obtain rfl := Option.some.inj (hc.symm.trans hconn)
    exact read hcovers _
  | drops _ _ => cases he
  | dispatches hstage' hwant =>
    rw [hstage] at hstage'
    cases hstage'
    exact absurd hwant (wanted_ne_zero hcovers)
  | setUpFails hfails => rcases hfails with ⟨h, -⟩ | ⟨h, -⟩ <;> simp [hstage] at h
  | _ => simp_all

theorem of_run (h : Starved ready i fd p) {moves : List ProcessMove}
    (hr : Run ProcessStep p moves p') (hmoves : ∀ m ∈ moves, m.label.withholds fd = true) :
    Starved ready i fd p' :=
  hr.invariant (I := Starved ready i fd) (G := fun _ e => e.withholds fd = true) h
    (fun _ _ _ hi he hs => hi.step he (processStep_effect hs)) hmoves

/-- The bytes that are there are read, and then the program waits. -/
theorem blocks (h : Starved ready i fd p) : ∃ moves p', Run ProcessStep p moves p' ∧
    (∀ m ∈ moves, m.label = .read 1) ∧ p'.blocked = true := by
  obtain ⟨got, c, hstage, hc, hcovers⟩ := h
  suffices hgo : ∀ (pending got : List UInt8) (q : Process) (c : Conn) (moves : List ProcessMove),
      Run ProcessStep p moves q → (∀ m ∈ moves, m.label = .read 1) →
      q.stage = .reading ready i fd got → q.conn fd = some c → c.covers got = false →
      c.pending = pending → ∃ moves p', Run ProcessStep p moves p' ∧
        (∀ m ∈ moves, m.label = .read 1) ∧ p'.blocked = true from
    hgo _ got p c [] .start (List.forall_mem_nil _) hstage hc hcovers rfl
  intro pending
  induction pending with
  | nil =>
    intro got q c moves hr hmoves hstage hc hcovers hnil
    refine ⟨moves, q, hr, hmoves, Process.blocked_eq_true.mpr
      ⟨ready, i, fd, got, c, hstage, wanted_ne_zero hcovers, hc, ?_⟩⟩
    obtain ⟨-, heof, hreset⟩ := Conn.covers_eq_false.mp hcovers
    rw [Conn.readable, hnil, heof, hreset]
    rfl
  | cons b rest ih =>
    intro got q c moves hr hmoves hstage hc hcovers hcons
    have hwant := wanted_ne_zero hcovers
    have hlen : 1 ≤ c.pending.length := by rw [hcons, List.length_cons]; omega
    have hread : ProcessStep q (.read 1)
        { q.setConn fd { c with pending := c.pending.drop 1 } with
          stage := .reading ready i fd (got ++ c.pending.take 1) } := by
      simp only [ProcessStep, Process.step, hstage, hc]
      exact if_pos ⟨Nat.one_pos, Nat.one_le_iff_ne_zero.mpr hwant, hlen⟩
    refine ih (got ++ c.pending.take 1) _ { c with pending := c.pending.drop 1 } _
      (hr.snoc hread) ?_ rfl ?_ ((c.covers_read got 1).trans hcovers) ?_
    · exact List.forall_mem_append.mpr ⟨hmoves, List.forall_mem_singleton.mpr rfl⟩
    · exact (Process.conn_setConn q fd _ fd).trans (if_pos rfl)
    · rw [hcons, List.drop_one, List.tail_cons]

end Starved

/-- When `select` returns and every connection that it reports has a whole message to
read, or its end, no `read` blocks in the pass that follows, whatever the clients do
meanwhile. A connection of which less has arrived holds the loop when it turns to it:
until something more arrives there or reading fails, the loop reads from no other, and
once it has read what there is it waits. -/
theorem pass_blocks {alloc : ℕ → Bool} {ctx₀ : ServerContext} {p p' : Process}
    {moves : List ProcessMove} {ready : List Int} (h0 : serverCreate alloc = some ctx₀)
    (hr : Run ProcessStep (booted ctx₀) moves p) (hselect : ProcessStep p (.select ready) p') :
    ((∀ fd ∈ ready, ∀ c ∈ p.conn fd, c.covers [] = true) →
      ∀ moves' p'', Run ProcessStep p' moves' p'' → (∀ m ∈ moves', m.label.selects = false) →
        p''.blocked = false) ∧
    ∀ q ready' i fd got c, q.stage = .reading ready' i fd got → q.conn fd = some c →
      c.covers got = false →
      (∀ moves' q', Run ProcessStep q moves' q' → (∀ m ∈ moves', m.label.withholds fd = true) →
        ∃ got', q'.stage = .reading ready' i fd got') ∧
      ∃ moves' q', Run ProcessStep q moves' q' ∧ (∀ m ∈ moves', m.label = .read 1) ∧
        q'.blocked = true := by
  refine ⟨fun hready moves' p'' hr' hmoves => ?_, fun q ready' i fd got c hstage hc hcovers => ?_⟩
  · have hall := (hr.snoc hselect).append hr'
    rcases setUp_of_run (serverCreate_initial h0).clientFds_neg hall with
      ⟨hset, -⟩ | ⟨-, hfailed⟩
    · obtain ⟨hset, hset'⟩ := List.forall_mem_append.mp hset
      obtain ⟨hset₀, -⟩ := List.forall_mem_append.mp hset
      have hdescr := descriptorsOk_of_run h0 hr hset₀
      have hstage : p.stage.ended = false := by
        cases processStep_effect hselect with
        | moves hc => exact hc.ended
        | setUpFails hfails => rcases hfails with ⟨-, he⟩ | ⟨-, he⟩ <;> cases he
      have hpass := passOk_of_select (hdescr.wf hstage) hselect hready
      have hlater := pass_of_run hr' (descriptorsOk_of_run h0 (hr.snoc hselect) hset) hpass
        fun m hm => ⟨hset' m hm, hmoves m hm⟩
      by_cases hended : p''.stage.ended = false
      · exact (hlater hended).not_blocked
      · unfold Process.blocked
        split
        · rename_i hread
          rw [hread] at hended
          exact absurd rfl hended
        · rfl
    · unfold Process.blocked
      cases hfailed with
      | closed hstage _ _ _ => rw [hstage]
      | done hstage _ => rw [hstage]
  · have hstarved : Starved ready' i fd q := ⟨got, c, hstage, hc, hcovers⟩
    refine ⟨fun moves' q' hr' hmoves => ?_, hstarved.blocks⟩
    obtain ⟨got', -, hstage', -⟩ := hstarved.of_run hr' hmoves
    exact ⟨got', hstage'⟩

/-- Two clients, of which the second has sent a whole logout. -/
def twoClients (first : List UInt8) : List OsEvent :=
  List.flatten [listeningEvents, .accept .quiet (some (4, ⟨first, false, false⟩)) :: idleSlots,
    [.next, .select [3], .accept .quiet (some (5, ⟨[3, 0], false, false⟩))], idleSlots, [.next]]

/-- `select` reports both of them. -/
def twoLogouts : Process :=
  (attempt Process.step (processAfter (twoClients [3, 0])) (.select [4, 5])).2

theorem pass_blocks_two_logouts :
    (playEnd (attempt Process.step) twoLogouts [.next, .read 1]).blocked = false := by
  have hpass := pass_blocks serverCreate_started
    (run_process (twoClients [3, 0]) (by decide +kernel))
    (attempt_of_isSome Process.step _ (.select [4, 5]) (by decide +kernel))
  exact hpass.1 (by decide +kernel) _ _
    (run_attempts Process.step _ [.next, .read 1] (by decide +kernel)) (by decide)

/-- One byte of a header keeps the server from the whole message of the other client. -/
theorem pass_blocks_fails :
    ¬ ∀ (alloc : ℕ → Bool) (ctx₀ : ServerContext) (p : Process) (moves : List ProcessMove),
      serverCreate alloc = some ctx₀ → Run ProcessStep (booted ctx₀) moves p →
      p.blocked = false := by
  intro h
  have hblocked := h _ _ _ _ serverCreate_started
    (run_process (twoClients [1] ++ [.select [4, 5], .next, .read 1]) (by decide +kernel))
  exact absurd hblocked (by decide +kernel)

end MeshChat.Server
