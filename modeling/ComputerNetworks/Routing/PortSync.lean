import ComputerNetworks.Routing.Coherence

/-!
# Neighbour table and port table

A neighbour should be known exactly as long as a connected port leads to it, at the
cost of that port. PONG packets and expiry keep it so, but a DV packet from an
unknown source enters its sender as a neighbour without connecting a port, and with
parallel links a PONG may come in on another port than the recorded one, so that the
difference of the round trip times is taken to the wrong cost. The run theorem says
that these two are the only ways.
-/

namespace ComputerNetworks.Routing

open Lib

namespace Router

/-- Every neighbour is behind a connected port, at the cost of that port. -/
def Synced (r : Router) : Prop :=
  ∀ (n : ℕ) direct, r.directNeighbors[n]? = some direct →
    (r.ports direct.port).connected = true ∧ (r.ports direct.port).toId = n ∧
      (r.ports direct.port).cost = direct.cost

/-- Every connected port leads to a neighbour. -/
def PortsKnown (r : Router) : Prop :=
  ∀ i, (r.ports i).connected = true → r.Knows (r.ports i).toId

/-- A PONG from a neighbour is compared with the cost its routes were built on. -/
def DiffExact (r : Router) : Event → Prop
  | .recv _ port (.pong src _ _) _ =>
    ∀ direct, r.directNeighbors[src]? = some direct → (r.ports port).cost = direct.cost
  | _ => True

/-- A DV packet comes from a neighbour, and a PONG from a neighbour on its recorded
port or on one with the same cost. -/
def KeepsSync (r : Router) : Event → Prop
  | .recv _ port (.pong src _ _) _ =>
    ∀ direct, r.directNeighbors[src]? = some direct →
      direct.port = port ∨ (r.ports port).cost = direct.cost
  | .recv _ _ (.dv packet) _ => r.Knows packet.source
  | _ => True

variable {site : Site} {r s : Router}

theorem Synced.congr (h : r.Synced) (same : r.SameLinks s) : s.Synced := by
  intro n direct found
  rw [same.directNeighbors] at found
  rw [same.ports]
  exact h n direct found

theorem PortsKnown.congr (h : r.PortsKnown) (same : r.SameLinks s) : s.PortsKnown := by
  intro i connected
  unfold Knows
  rw [same.ports] at connected ⊢
  rw [same.directNeighbors]
  exact h i connected

/-! ### PONG packets -/

theorem Synced.connect (h : r.Synced) (linked : r.Linked site) {now port src rrt : ℕ}
    (joins : site.joins port src = true) : (r.connect now port src rrt).Synced := by
  intro n direct found
  rw [connect_directNeighbors] at found
  split_ifs at found with here
  · cases found
    simp [Router.connect, here]
  · obtain ⟨connected, leads, cost⟩ := h n direct found
    -- another neighbour keeps its port: the wires lead each port to one router
    have away : direct.port ≠ port := by
      intro same
      have toN := (Site.joins_iff.mp (linked.known n direct found)).2
      rw [same, (Site.joins_iff.mp joins).2] at toN
      exact here (Option.some.inj toN).symm
    have other : (r.ports direct.port).toId ≠ src := leads ▸ here
    simp only [Router.connect, if_neg away, if_neg other]
    exact ⟨connected, leads, cost⟩

theorem PortsKnown.connect (h : r.PortsKnown) (now port src rrt : ℕ) :
    (r.connect now port src rrt).PortsKnown := by
  intro i connected
  unfold Knows
  rw [connect_directNeighbors]
  split_ifs with here
  · exact ⟨_, rfl⟩
  · have away : i ≠ port := by
      rintro rfl
      simp [Router.connect] at here
    -- `connect` closes the other ports to `src`, so that an open one leads elsewhere
    have other : (r.ports i).toId ≠ src := by
      intro stale
      simp [Router.connect, away, stale] at connected
    simp only [Router.connect, if_neg away, if_neg other] at connected ⊢
    exact h i connected

/-! ### Expiry -/

theorem Synced.expire (h : r.Synced) (linked : r.Linked site) {now : ℕ} {t : Router × List ℕ}
    (expired : PortsExpired now r.numPorts r t) : t.1.Synced := by
  intro n direct found
  obtain ⟨old, spared⟩ := (expired.directNeighbors n direct).mp found
  obtain ⟨connected, leads, cost⟩ := h n direct old
  have inside : direct.port < r.numPorts := by
    rw [linked.numPorts]
    exact (Site.joins_iff.mp (linked.known n direct old)).1
  have alive : ¬ (direct.port < r.numPorts ∧ (r.ports direct.port).expired now = true) :=
    fun bad => spared direct.port inside bad.2 leads
  rw [expired.ports, if_neg alive]
  exact ⟨connected, leads, cost⟩

theorem PortsKnown.expire (h : r.PortsKnown) (linked : r.Linked site) {now : ℕ}
    {t : Router × List ℕ} (expired : PortsExpired now r.numPorts r t) : t.1.PortsKnown := by
  intro i connected
  rw [expired.ports] at connected ⊢
  split_ifs at connected ⊢ with old
  · cases connected
  · obtain ⟨direct, known⟩ := h i connected
    refine ⟨direct, (expired.directNeighbors _ _).mpr ⟨known, fun j inside late same => ?_⟩⟩
    -- a forgotten neighbour has only one open port, and that one is closed now
    have open_ : (r.ports j).connected = true := by
      simp only [Port.expired, Bool.and_eq_true] at late
      exact late.1
    have here := linked.distinct j i open_ connected same
    exact old (here ▸ ⟨inside, late⟩)

/-- Expiry followed by the repair of the routes. -/
theorem refreshDV_keeps {P : Router → Prop}
    (keeps : ∀ r s : Router, r.SameLinks s → P r → P s) (h : r.Coherent site) (now : ℕ)
    (expire : ∀ t, PortsExpired now r.numPorts r t → P t.1) : P (r.refreshDV now).router := by
  obtain ⟨t, expired, loops⟩ := refreshDV_loops now r
  have moves : Moves ⟨t.1, []⟩ (t.2.foldl (deleteRoute now) ⟨t.1, []⟩) :=
    deleteRoutes_moves (expired.nodup_toDelete h.linked.distinct)
      fun dest member => expired.listed member
  rw [loops]
  exact keeps _ _ (moves.sameLinks.trans (expireEntries_moves _).sameLinks) (expire t expired)

/-! ### DV packets -/

theorem PortsKnown.learnNeighbor (h : r.PortsKnown) (port : ℕ) (packet : DVPacket) (junk : ℕ) :
    (r.learnNeighbor port packet junk).PortsKnown := by
  by_cases known : r.Knows packet.source
  · rwa [learnNeighbor_of_knows known]
  · obtain ⟨cost, learnt⟩ := learnNeighbor_of_not_knows known port junk
    rw [learnt]
    intro i connected
    obtain ⟨direct, found⟩ := h i connected
    unfold Knows
    rw [Table.getElem?_insert]
    split_ifs
    · exact ⟨_, rfl⟩
    · exact ⟨direct, found⟩

/-- A neighbour learnt from a DV packet has no connected port. -/
theorem PortsKnown.not_synced (h : r.PortsKnown) {packet : DVPacket}
    (unknown : ¬ r.Knows packet.source) (port junk : ℕ) :
    ¬ (r.learnNeighbor port packet junk).Synced := by
  obtain ⟨cost, learnt⟩ := learnNeighbor_of_not_knows unknown port junk
  rw [learnt]
  intro synced
  -- an open port of its own would have made it known before
  obtain ⟨connected, leads, -⟩ := synced packet.source ⟨cost, port⟩
    (by rw [Table.getElem?_insert, if_pos rfl])
  exact unknown (leads ▸ h port connected)

/-! ### Whole calls -/

theorem PortsKnown.handle (h : r.PortsKnown) (coherent : r.Coherent site) {event : Event}
    (admitted : site.admits event = true) : (r.handle event).1.PortsKnown := by
  apply coherent.routed.handle (I := PortsKnown) h
  case pong =>
    rintro now port source dest time junk rfl
    exact handlePong_keeps (fun _ _ moves old => old.congr moves.sameLinks)
      (coherent.source_ne admitted) (h.connect now port source _)
  case dv =>
    intro now port packet junk _
    exact (h.learnNeighbor port packet junk).congr (recvDV_moves now port packet junk r).sameLinks
  case expire =>
    intro now _
    exact refreshDV_keeps (fun _ _ same old => old.congr same) coherent now
      fun t expired => h.expire coherent.linked expired

/-- A call keeps the tables synchronised, and compares round trip times correctly,
exactly when it meets the condition. -/
theorem Synced.handle_iff (h : r.Synced) (known : r.PortsKnown) (coherent : r.Coherent site)
    {event : Event} (admitted : site.admits event = true) :
    (r.handle event).1.Synced ∧ r.DiffExact event ↔ r.KeepsSync event := by
  cases event with
  | recv now port packet junk =>
    cases packet with
    | data source dest payload =>
      rw [handle_data, coherent.routed.recvDATA]
      exact iff_of_true ⟨h, trivial⟩ trivial
    | ping source time =>
      rw [handle_ping]
      exact iff_of_true ⟨h, trivial⟩ trivial
    | pong source dest time =>
      rw [handle_pong, Update.finish_fst]
      have synced : (r.handlePong now port source time).router.Synced :=
        handlePong_keeps (fun _ _ moves old => old.congr moves.sameLinks)
          (coherent.source_ne admitted) (h.connect coherent.linked admitted)
      refine ⟨fun kept direct found => .inr (kept.2 direct found), fun keeps => ⟨synced, ?_⟩⟩
      intro direct found
      -- on its recorded port the cost is right because the tables were synchronised
      rcases keeps direct found with recorded | same
      · exact recorded ▸ (h source direct found).2.2
      · exact same
    | dv packet =>
      rw [handle_dv, Update.finish_fst]
      have same := (recvDV_moves now port packet junk r).sameLinks
      refine ⟨fun kept => ?_, fun keeps => ⟨?_, trivial⟩⟩
      -- a DV packet from an unknown source breaks the tables by itself
      · by_contra unknown
        exact known.not_synced unknown port junk (kept.1.congr same.symm)
      · rw [learnNeighbor_of_knows keeps] at same
        exact h.congr same
  | alarm now type =>
    cases type with
    | expire =>
      rw [handle_expire]
      split_ifs
      · refine iff_of_true ⟨?_, trivial⟩ trivial
        exact refreshDV_keeps (fun _ _ same old => old.congr same) coherent now
          fun t expired => h.expire coherent.linked expired
      · exact iff_of_true ⟨h, trivial⟩ trivial
    | pingPong =>
      rw [handle_pingPong]
      exact iff_of_true ⟨h, trivial⟩ trivial
    | update =>
      rw [handle_update]
      exact iff_of_true ⟨h, trivial⟩ trivial

end Router

/-- Along every run, neighbour table and port table stay synchronised and every round
trip time is compared with the cost of its neighbour, exactly when every DV packet
comes from a neighbour and every PONG of one on its recorded port or at its cost. -/
theorem Site.synced_iff (site : Site) (events : List Event) :
    EachStep site.step (fun r event s => s.Synced ∧ r.DiffExact event) site.start events ↔
      EachStep site.step (fun r event _ => r.KeepsSync event) site.start events := by
  have step : ∀ (r : Router) event s, (r.Coherent site ∧ r.PortsKnown ∧ r.Synced) →
      site.step r event = some s → (s.Synced ∧ r.DiffExact event ↔ r.KeepsSync event) := by
    rintro r event s ⟨coherent, known, synced⟩ next
    obtain ⟨admitted, rfl⟩ := Site.step_eq_some.mp next
    exact synced.handle_iff known coherent admitted
  have keeps : ∀ (r : Router) event s, (r.Coherent site ∧ r.PortsKnown ∧ r.Synced) →
      site.step r event = some s → s.Synced → s.Coherent site ∧ s.PortsKnown ∧ s.Synced := by
    rintro r event s ⟨coherent, known, -⟩ next synced
    obtain ⟨admitted, rfl⟩ := Site.step_eq_some.mp next
    exact ⟨coherent.handle admitted, known.handle coherent admitted, synced⟩
  have start : site.start.Coherent site ∧ site.start.PortsKnown ∧ site.start.Synced :=
    ⟨.start site, by simp [Router.PortsKnown, start, Router.init],
      by simp [Router.Synced, start, Router.init]⟩
  exact EachStep.iff_of_invariant (fun r event s inv next both => keeps r event s inv next both.1)
    step start

/-- Router 1 hears a DV packet of its neighbour 2 before the first PONG: it knows 2
behind port 0, which is not connected. -/
theorem twoLinks_not_synced : ¬ EachStep twoLinks.step
    (fun r event s => s.Synced ∧ r.DiffExact event) twoLinks.start
    [.recv 20 0 (.dv ⟨12, 2, 1, [(1, 8)]⟩) 0] := by
  intro each
  obtain ⟨⟨synced, -⟩, -⟩ := each _ rfl
  have closed := (synced 2 ⟨8, 0⟩ (by decide +kernel)).1
  revert closed
  decide +kernel

end ComputerNetworks.Routing
