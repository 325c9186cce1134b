import ComputerNetworks.Routing.Network

/-!
# Uninitialised costs

The link to a new source of DV packets gets the cost that the packet gives for this
router, and none if the packet does not mention it. `junk` is what the cost field then
holds. Nothing that a network stores or sends depends on `junk` as long as every DV
packet comes from a known neighbour or mentions its receiver.
-/

namespace ComputerNetworks.Routing

open Lib

namespace Router

variable {r : Router} {packet : DVPacket}

/-- The cost of the link to the source of the packet is known or found in the packet. -/
def Defined (r : Router) (packet : DVPacket) : Prop :=
  r.Knows packet.source ∨ ∃ pair ∈ packet.received, pair.1 = r.routerId

/-- Then the tables behind the packet do not depend on uninitialised memory. -/
theorem Defined.learnNeighbor (h : r.Defined packet) (port junk junk' : ℕ) :
    r.learnNeighbor port packet junk = r.learnNeighbor port packet junk' := by
  rcases h with known | ⟨pair, listed, self⟩
  · rw [learnNeighbor_of_knows known, learnNeighbor_of_knows known]
  · have found : (packet.received.find? fun pair => pair.1 = r.routerId).isSome = true :=
      List.find?_isSome.mpr ⟨pair, listed, by simpa using self⟩
    obtain ⟨first, same⟩ := Option.isSome_iff_exists.mp found
    unfold Router.learnNeighbor
    rw [same]
    rfl

theorem Defined.recvDV (h : r.Defined packet) (now port junk junk' : ℕ) :
    r.recvDV now port packet junk = r.recvDV now port packet junk' := by
  unfold Router.recvDV
  rw [h.learnNeighbor port junk junk']

/-- Otherwise the cost of the new link is what the memory held. -/
theorem recvDV_junk (h : ¬ r.Defined packet) (now port junk : ℕ) :
    (r.recvDV now port packet junk).router.directNeighbors[packet.source]? = some ⟨junk, port⟩ := by
  obtain ⟨unknown, unlisted⟩ := not_or.mp h
  have missing : packet.received.find? (fun pair => pair.1 = r.routerId) = none := by
    rw [List.find?_eq_none]
    exact fun pair listed self => unlisted ⟨pair, listed, by simpa using self⟩
  have links := (recvDV_moves now port packet junk r).sameLinks.directNeighbors
  rw [links]
  unfold Router.learnNeighbor
  rw [if_neg fun known => unknown ((Table.contains_iff _).mp known), missing]
  dsimp only
  rw [Table.getElem?_insert, if_pos rfl]
  rfl

/-- A call that leaves no cost undefined does not depend on uninitialised memory. -/
theorem handle_junk {packet : Packet} (defined : ∀ received, packet = .dv received → r.Defined received)
    (now port junk junk' : ℕ) :
    r.handle (.recv now port packet junk) = r.handle (.recv now port packet junk') := by
  cases packet with
  | dv received => rw [handle_dv, handle_dv, (defined received rfl).recvDV now port junk junk']
  | _ => rfl

end Router

/-- The same action, but for what uninitialised memory holds. -/
inductive NetworkAction.Alike : NetworkAction → NetworkAction → Prop
  | junk (k now junk junk' : ℕ) : Alike (.deliver k now junk) (.deliver k now junk')
  | refl (action : NetworkAction) : Alike action action

namespace Network

variable {topology : Topology} {net net' : Network}

/-- The action delivers no DV packet that leaves a cost undefined. -/
def Defined (net : Network) (action : NetworkAction) : Prop :=
  ∀ k now junk r port packet, action = .deliver k now junk →
    net.flight[k]? = some (r, port, .dv packet) → (net.routers r).Defined packet

theorem defined_of_ne {action : NetworkAction} (other : ∀ k now junk, action ≠ .deliver k now junk) :
    net.Defined action := by
  intro k now junk _ _ _ same
  exact absurd same (other k now junk)

theorem step_none_of_alike {action other : NetworkAction} (alike : action.Alike other)
    (disabled : net.step topology action = none) : net.step topology other = none := by
  cases alike with
  | refl => exact disabled
  | junk k now junk junk' =>
    -- whether the packet can be delivered depends on the clock and the packets in flight
    simp only [step, event] at disabled ⊢
    split_ifs at disabled ⊢ with timely
    · cases found : net.flight[k]? with
      | none => rfl
      | some entry =>
        rw [found] at disabled
        cases disabled
    · rfl

/-- The tables of a router are those its last call left. -/
theorem call_routers (net : Network) (r now : ℕ) (event : Event) :
    (net.call topology r now event).routers r = ((net.routers r).handle event).1 :=
  Function.update_self ..

/-- A step is determined exactly when it leaves no cost undefined. -/
theorem step_alike_iff {action : NetworkAction} (next : net.step topology action = some net') :
    (∀ other, action.Alike other → net.step topology other = net.step topology action) ↔
      net.Defined action := by
  cases action with
  | deliver k now junk =>
    simp only [step, event, Option.ite_none_right_eq_some, Option.map_eq_some_iff] at next
    obtain ⟨timely, _, ⟨⟨r, port, packet⟩, found, rfl⟩, -⟩ := next
    have steps : ∀ junk, net.step topology (.deliver k now junk) =
        some ({ net with flight := net.flight.eraseIdx k }.call topology r now
          (.recv now port packet junk)) := fun junk => by
      simp only [step, event, if_pos timely, found, Option.map_some]
    constructor
    · rintro same _ _ _ s port' received ⟨⟩ found'
      rw [found] at found'
      obtain ⟨rfl, rfl, rfl⟩ : r = s ∧ port = port' ∧ packet = .dv received := by
        simpa using found'
      -- with other junk the new link would have another cost
      by_contra undefined
      have moved := same _ (.junk k now junk (junk + 1))
      rw [steps, steps, Option.some.injEq] at moved
      have tables := congrArg (fun net => (net.routers r).directNeighbors[received.source]?) moved
      simp only [call_routers, Router.handle_dv, Update.finish_fst,
        Router.recvDV_junk undefined] at tables
      have costs := congrArg NNCell.cost (Option.some.inj tables)
      exact Nat.succ_ne_self junk costs
    · intro defined other alike
      cases alike with
      | refl => rfl
      | junk _ _ _ junk' =>
        have clean : ∀ received, packet = .dv received → (net.routers r).Defined received :=
          fun received same => defined k now junk r port received rfl (same ▸ found)
        -- the call returns the same router and the same packets
        have handled := Router.handle_junk clean now port junk' junk
        rw [steps, steps]
        unfold call
        rw [handled]
  | lose k =>
    refine iff_of_true (fun other alike => ?_) (defined_of_ne (by simp))
    cases alike
    rfl
  | alarm r now type =>
    refine iff_of_true (fun other alike => ?_) (defined_of_ne (by simp))
    cases alike
    rfl
  | originate r now dest payload =>
    refine iff_of_true (fun other alike => ?_) (defined_of_ne (by simp))
    cases alike
    rfl

/-- At every moment of a run, no table and no packet under way depends on uninitialised
memory exactly when no DV packet that was delivered left a cost undefined. -/
theorem determined_iff_defined (topology : Topology) (clock : ℕ) (actions : List NetworkAction) :
    (∀ n, Determined (step topology) NetworkAction.Alike (start topology clock) (actions.take n)) ↔
      EachStep (step topology) (fun net action _ => net.Defined action) (start topology clock)
        actions := by
  have enabled : ∀ (net : Network) action other, action.Alike other →
      step topology net action = none → step topology net other = none :=
    fun _ _ _ => step_none_of_alike
  apply (determined_iff_eachStep NetworkAction.Alike.refl enabled).trans
  apply EachStep.iff_of_invariant (I := fun _ => True)
  · intros
    trivial
  · intro net action net' _ next
    exact step_alike_iff next
  · trivial

/-- The ends of the two links between routers 1, 2 and 3 in a line. -/
theorem line_peer {r i s j : ℕ} :
    (if r = 1 ∧ i = 0 then some (2, 0) else if r = 2 ∧ i = 0 then some (1, 0)
      else if r = 2 ∧ i = 1 then some (3, 0) else if r = 3 ∧ i = 0 then some (2, 1) else none) =
        some (s, j) ↔
      r = 1 ∧ i = 0 ∧ s = 2 ∧ j = 0 ∨ r = 2 ∧ i = 0 ∧ s = 1 ∧ j = 0 ∨
        r = 2 ∧ i = 1 ∧ s = 3 ∧ j = 0 ∨ r = 3 ∧ i = 0 ∧ s = 2 ∧ j = 1 := by
  constructor
  · intro peer
    split_ifs at peer with first second third fourth
    · cases peer
      exact .inl ⟨first.1, first.2, rfl, rfl⟩
    · cases peer
      exact .inr (.inl ⟨second.1, second.2, rfl, rfl⟩)
    · cases peer
      exact .inr (.inr (.inl ⟨third.1, third.2, rfl, rfl⟩))
    · cases peer
      exact .inr (.inr (.inr ⟨fourth.1, fourth.2, rfl, rfl⟩))
  · rintro (⟨rfl, rfl, rfl, rfl⟩ | ⟨rfl, rfl, rfl, rfl⟩ | ⟨rfl, rfl, rfl, rfl⟩ |
      ⟨rfl, rfl, rfl, rfl⟩) <;> rfl

theorem line_port {r i s j : ℕ}
    (ends : r = 1 ∧ i = 0 ∧ s = 2 ∧ j = 0 ∨ r = 2 ∧ i = 0 ∧ s = 1 ∧ j = 0 ∨
      r = 2 ∧ i = 1 ∧ s = 3 ∧ j = 0 ∨ r = 3 ∧ i = 0 ∧ s = 2 ∧ j = 1) :
    i < if r = 2 then 2 else 1 := by
  split_ifs <;> omega

/-- Routers 1, 2 and 3 in a line. -/
def threeInLine : Topology where
  nodes := [1, 2, 3]
  numPorts r := if r = 2 then 2 else 1
  protocolType := .dv
  peer r i :=
    if r = 1 ∧ i = 0 then some (2, 0) else if r = 2 ∧ i = 0 then some (1, 0)
    else if r = 2 ∧ i = 1 then some (3, 0) else if r = 3 ∧ i = 0 then some (2, 1) else none
  symm r i s j h := by
    rw [line_peer] at h ⊢
    obtain ⟨hr, hi, hs, hj⟩ | ⟨hr, hi, hs, hj⟩ | ⟨hr, hi, hs, hj⟩ | ⟨hr, hi, hs, hj⟩ := h
    · exact .inr (.inl ⟨hs, hj, hr, hi⟩)
    · exact .inl ⟨hs, hj, hr, hi⟩
    · exact .inr (.inr (.inr ⟨hs, hj, hr, hi⟩))
    · exact .inr (.inr (.inl ⟨hs, hj, hr, hi⟩))
  inside r i s j h := line_port (line_peer.mp h)
  loopless r i s j h := by
    rw [line_peer] at h
    omega

/-- Router 1 loses the first two tables of router 2, and hears from it again when the
round trip time between 2 and 3 has changed, before its own first PONG. -/
def lostTables (junk : ℕ) : List NetworkAction :=
  [.deliver 1 10 0, .deliver 3 20 0, .lose 3, .deliver 1 30 0, .deliver 2 40 0, .lose 2,
    .alarm 2 10000 .pingPong, .deliver 4 10010 0, .deliver 4 10030 0, .deliver 4 10040 junk]

/-- Its route to 3 costs what its memory held, and 30. -/
theorem lostTables_undefined : ¬ ∀ n, Determined (step threeInLine) NetworkAction.Alike
    (start threeInLine 0) ((lostTables 0).take n) := by
  intro determined
  have alike : List.Forall₂ NetworkAction.Alike ((lostTables 0).take 10) (lostTables 1) := by
    repeat constructor
  have same := determined 10 (lostTables 1) alike
  -- the two runs differ in the junk of the last delivery only
  have first : (exec (step threeInLine) (start threeInLine 0) ((lostTables 0).take 10)).map
      (fun net => (net.routers 1).dvMap[3]?.map DVCell.cost) = some (some 30) := by
    decide +kernel
  have second : (exec (step threeInLine) (start threeInLine 0) (lostTables 1)).map
      (fun net => (net.routers 1).dvMap[3]?.map DVCell.cost) = some (some 31) := by
    decide +kernel
  rw [same, first] at second
  exact absurd second (by decide)

end Network

end ComputerNetworks.Routing
