import ComputerNetworks.Routing.Announcements
import ComputerNetworks.Routing.Sends

/-!
# PINGs, PONGs and ports

A port changes when its PONG comes in, when the PONG of its neighbour comes in elsewhere,
and when it expires. A PING carries the time it was sent at, and the PONG that answers it
goes back on the same port with the same time.
-/

namespace ComputerNetworks.Routing

/-- How a call changes port `i`. -/
inductive PortChange (event : Event) (i : ℕ) (port : Port) : Port → Prop
  | same : PortChange event i port port
  | measured {now source dest time junk : ℕ} (pong : event = .recv now i (.pong source dest time) junk) :
      PortChange event i port ⟨source, sub32 now time, now, true⟩
  | replaced {now other source dest time junk : ℕ}
      (pong : event = .recv now other (.pong source dest time) junk) (elsewhere : i ≠ other)
      (leads : port.toId = source) : PortChange event i port { port with connected := false }
  | closed {now : ℕ} (alarm : event = .alarm now .expire) (old : port.expired now = true) :
      PortChange event i port port.close

namespace Router

variable {r : Router} {site : Site} {event : Event} {i : ℕ}

/-- A call changes a port for one of these reasons. -/
theorem Coherent.handle_port (h : r.Coherent site) (admitted : site.admits event = true) (i : ℕ) :
    PortChange event i (r.ports i) ((r.handle event).1.ports i) := by
  apply h.routed.handle (I := fun s => PortChange event i (r.ports i) (s.ports i)) .same
  case pong =>
    rintro now port source dest time junk rfl
    have connected : PortChange (.recv now port (.pong source dest time) junk) i (r.ports i)
        ((r.connect now port source (sub32 now time)).ports i) := by
      simp only [Router.connect]
      split_ifs with here leads
      · subst here
        exact .measured rfl
      · exact .replaced rfl here leads
      · exact .same
    exact handlePong_keeps (P := fun s => PortChange (.recv now port (.pong source dest time) junk) i
      (r.ports i) (s.ports i)) (fun _ _ moves change => moves.sameLinks.ports ▸ change)
        (h.source_ne admitted) connected
  case dv =>
    rintro now port packet junk -
    have learned : (r.learnNeighbor port packet junk).ports = r.ports := by
      unfold Router.learnNeighbor
      split_ifs <;> rfl
    rw [(recvDV_moves now port packet junk r).sameLinks.ports, learned]
    exact .same
  case expire =>
    rintro now rfl
    obtain ⟨t, expired, moves⟩ := refreshDV_moves now h.linked.distinct
    have after : (r.refreshDV now).router.ports = t.1.ports := moves.sameLinks.ports
    rw [after, expired.ports]
    split_ifs with old
    · exact .closed rfl old.2
    · exact .same

/-- The port a PONG comes in on is connected, and knows the time. -/
theorem Coherent.handle_own_pong (h : r.Coherent site) {now source dest time junk : ℕ}
    (admitted : site.admits (.recv now i (.pong source dest time) junk) = true) :
    (r.handle (.recv now i (.pong source dest time) junk)).1.ports i =
      ⟨source, sub32 now time, now, true⟩ :=
  handlePong_keeps (P := fun s => s.ports i = ⟨source, sub32 now time, now, true⟩)
    (fun _ _ moves same => moves.sameLinks.ports ▸ same) (h.source_ne admitted)
      (by simp [Router.connect])

/-- Where a packet that a call sends on port `i` comes from: a PING from the alarm for it, and a
PONG from a PING that came in on this port. A DV packet has the size that an `unsigned short`
leaves of what its pairs need. -/
inductive Origin (r : Router) (event : Event) (i : ℕ) : Packet → Prop
  | data (source dest : ℕ) (payload : List UInt8) : Origin r event i (.data source dest payload)
  | ping {now : ℕ} (alarm : event = .alarm now .pingPong) (inside : i < r.numPorts) :
      Origin r event i (.ping r.routerId now)
  | pong {now dest time junk : ℕ} (ping : event = .recv now i (.ping dest time) junk) :
      Origin r event i (.pong r.routerId dest time)
  | dv {packet : DVPacket} (size : packet.size = (packet.pairs.length * 4 + 8) % 2 ^ 16) :
      Origin r event i (.dv packet)

theorem size_dvPacket (r : Router) (adverts : List Advert) (i : ℕ) :
    (r.dvPacket adverts i).size = ((r.dvPacket adverts i).pairs.length * 4 + 8) % 2 ^ 16 := by
  rw [dvPacket, List.length_map]

theorem origin_of_sent {p : Packet} (sent : (i, p) ∈ (r.handle event).2) : Origin r event i p := by
  have of_finish : ∀ {u : Update}, (i, p) ∈ u.finish.2 → Origin r event i p := by
    intro u member
    obtain ⟨-, -, rfl⟩ := mem_finish member
    exact .dv (size_dvPacket ..)
  cases event with
  | recv now port packet junk =>
    cases packet with
    | data source dest payload =>
      rw [handle_data, recvDATA] at sent
      split_ifs at sent
      · cases sent
      · split at sent
        · cases sent
        · split at sent <;> cases List.mem_singleton.mp sent <;> exact .data ..
    | ping =>
      cases List.mem_singleton.mp sent
      exact .pong rfl
    | pong => exact of_finish sent
    | dv => exact of_finish sent
  | alarm now type =>
    cases type with
    | expire =>
      rw [handle_expire] at sent
      split_ifs at sent
      · exact of_finish sent
      · cases sent
    | pingPong =>
      obtain ⟨j, inside, same⟩ := List.mem_map.mp sent
      cases same
      exact .ping rfl (List.mem_range.mp inside)
    | update =>
      rw [handle_update] at sent
      dsimp only at sent
      split_ifs at sent
      · obtain ⟨-, -, rfl⟩ := mem_sendDVUpdate.mp sent
        exact .dv (size_dvPacket ..)
      · cases sent

/-- A DV packet that a call sends fits up to 16381 pairs. -/
theorem fits_dv_iff {packet : DVPacket} (sent : (i, .dv packet) ∈ (r.handle event).2) :
    (Packet.dv packet).fits = true ↔ packet.pairs.length ≤ 16381 := by
  cases origin_of_sent sent with
  | dv size =>
    rw [Packet.fits, decide_eq_true_eq, size]
    omega

end Router

end ComputerNetworks.Routing
