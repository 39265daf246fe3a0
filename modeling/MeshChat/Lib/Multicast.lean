import Mathlib.Tactic

/-!
# Multicast delivery on one host

Which sockets of a host get a datagram that reached it. A socket gets the groups
it joined; with `IP_MULTICAST_ALL` on, which is the default, it gets every group
that any socket of the host joined.
-/
namespace Multicast

/-- A bound UDP socket. `addr` is its local address, `none` for `INADDR_ANY`. -/
structure UdpSocket (Addr Port : Type*) where
  port : Port
  addr : Option Addr
  joined : List Addr
  multicastAll : Bool

variable {Addr Port : Type*}

/-- A datagram for `group` and `port` goes to `s` on a host with these sockets. -/
def Delivers (sockets : List (UdpSocket Addr Port)) (group : Addr) (port : Port)
    (s : UdpSocket Addr Port) : Prop :=
  s.port = port ∧ (s.addr = none ∨ s.addr = some group) ∧
    (group ∈ s.joined ∨ s.multicastAll = true ∧ ∃ t ∈ sockets, group ∈ t.joined)

instance [DecidableEq Addr] [DecidableEq Port] (sockets : List (UdpSocket Addr Port))
    (group : Addr) (port : Port) (s : UdpSocket Addr Port) :
    Decidable (Delivers sockets group port s) :=
  inferInstanceAs (Decidable (_ ∧ _ ∧ _))

/-- A socket that is bound to any address and has the option on gets every group
that is joined on its host. -/
theorem delivers_iff_joined_on_host {sockets : List (UdpSocket Addr Port)} {group : Addr}
    {port : Port} {s : UdpSocket Addr Port} (hs : s ∈ sockets) (hport : s.port = port)
    (haddr : s.addr = none) (hall : s.multicastAll = true) :
    Delivers sockets group port s ↔ ∃ t ∈ sockets, group ∈ t.joined := by
  constructor
  · rintro ⟨-, -, hjoined | ⟨-, hhost⟩⟩
    · exact ⟨s, hs, hjoined⟩
    · exact hhost
  · exact fun hhost => ⟨hport, Or.inl haddr, Or.inr ⟨hall, hhost⟩⟩

/-- One socket more on the host: what it has joined also goes to the sockets that have
the option on. -/
theorem delivers_cons_iff {sockets : List (UdpSocket Addr Port)} {group : Addr} {port : Port}
    {s t : UdpSocket Addr Port} :
    Delivers (t :: sockets) group port s ↔ Delivers sockets group port s ∨
      s.port = port ∧ (s.addr = none ∨ s.addr = some group) ∧ s.multicastAll = true ∧
        group ∈ t.joined := by
  rw [Delivers, Delivers, List.exists_mem_cons_iff, ← and_or_left, ← and_or_left, or_assoc,
    ← and_or_left, or_comm (a := group ∈ t.joined)]

end Multicast
