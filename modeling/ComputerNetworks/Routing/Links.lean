import ComputerNetworks.Lib.WeightedGraph
import ComputerNetworks.Routing.Network

/-!
# Links with constant round trips

A topology with at most one link per pair of routers, whose round trip times do not
change, and the weighted graph it makes. A network has at most 16000 routers, so that
a full table fits into a DV packet.
-/

namespace ComputerNetworks.Routing

open Lib

/-- A topology of single links with symmetric round trip times of at least 1. -/
structure Links extends Topology where
  rtt : ℕ → ℕ → ℕ
  rtt_symm : ∀ r s, rtt r s = rtt s r
  rtt_pos : ∀ r i s j, peer r i = some (s, j) → 1 ≤ rtt r s
  single : ∀ r i i' s j j', peer r i = some (s, j) → peer r i' = some (s, j') → i = i'
  closed : ∀ r i s j, peer r i = some (s, j) → r ∈ nodes
  small : nodes.length ≤ 16000

namespace Links

variable (links : Links)

/-- The port of `r` that leads to `s`. -/
def portTo (r s : ℕ) : Option ℕ :=
  (List.range (links.numPorts r)).find? fun i => (links.peer r i).map Prod.fst = some s

variable {links} {r s i j : ℕ}

theorem portTo_eq_some_iff : links.portTo r s = some i ↔ ∃ j, links.peer r i = some (s, j) := by
  constructor
  · intro found
    have leads := List.find?_some found
    obtain ⟨⟨t, j⟩, peer, rfl⟩ := Option.map_eq_some_iff.mp (of_decide_eq_true leads)
    exact ⟨j, peer⟩
  · rintro ⟨j, peer⟩
    cases found : links.portTo r s with
    | none =>
      have inside := List.mem_range.mpr (links.inside r i s j peer)
      have := List.find?_eq_none.mp found i inside
      simp [peer] at this
    | some i' =>
      have leads := List.find?_some found
      obtain ⟨⟨t, j'⟩, peer', rfl⟩ := Option.map_eq_some_iff.mp (of_decide_eq_true leads)
      rw [links.single r i i' t j j' peer peer']

theorem portTo_comm : (links.portTo r s).isSome = true ↔ (links.portTo s r).isSome = true := by
  have half : ∀ r s, (links.portTo r s).isSome = true → (links.portTo s r).isSome = true := by
    intro r s linked
    obtain ⟨i, found⟩ := Option.isSome_iff_exists.mp linked
    obtain ⟨j, peer⟩ := portTo_eq_some_iff.mp found
    rw [portTo_eq_some_iff.mpr ⟨i, links.symm r i s j peer⟩]
    rfl
  exact ⟨half r s, half s r⟩

variable (links) in
/-- The graph of the links, weighted by round trip times. -/
def graph : WeightedGraph ℕ where
  weight r s := (links.portTo r s).map fun _ => links.rtt r s
  symm r s := by
    have linked : (links.portTo r s).isSome = true ↔ (links.portTo s r).isSome = true := portTo_comm
    rw [links.rtt_symm r s]
    cases forth : links.portTo r s <;> cases back : links.portTo s r <;> simp [forth, back] at linked ⊢
  loopless r := by
    cases found : links.portTo r r with
    | none => rfl
    | some i =>
      obtain ⟨j, peer⟩ := portTo_eq_some_iff.mp found
      exact absurd rfl (links.loopless r i r j peer)
  positive r s w edge := by
    obtain ⟨i, found, rfl⟩ := Option.map_eq_some_iff.mp edge
    obtain ⟨j, peer⟩ := portTo_eq_some_iff.mp found
    exact links.rtt_pos r i s j peer

theorem weight_eq_some_iff {w : ℕ} : links.graph.weight r s = some w ↔
    (∃ i j, links.peer r i = some (s, j)) ∧ w = links.rtt r s := by
  simp only [graph, Option.map_eq_some_iff, portTo_eq_some_iff]
  constructor
  · rintro ⟨i, ⟨j, peer⟩, rfl⟩
    exact ⟨⟨i, j, peer⟩, rfl⟩
  · rintro ⟨⟨i, j, peer⟩, rfl⟩
    exact ⟨i, ⟨j, peer⟩, rfl⟩

theorem weight_of_peer (peer : links.peer r i = some (s, j)) :
    links.graph.weight r s = some (links.rtt r s) :=
  weight_eq_some_iff.mpr ⟨⟨i, j, peer⟩, rfl⟩

theorem mem_nodes_of_weight {w : ℕ} (edge : links.graph.weight r s = some w) :
    r ∈ links.nodes.toFinset := by
  obtain ⟨⟨i, j, peer⟩, -⟩ := weight_eq_some_iff.mp edge
  exact List.mem_toFinset.mpr (links.closed r i s j peer)

/-- Only routers of the network are connected to another router. -/
theorem mem_nodes_of_walk {d c : ℕ} (walk : links.graph.Walk d r c) (other : r ≠ d) :
    d ∈ links.nodes := by
  induction walk with
  | nil => exact absurd rfl other
  | @cons u v w c edge walk ih =>
    by_cases last : v = d
    · subst last
      rw [links.graph.symm] at edge
      exact List.mem_toFinset.mp (mem_nodes_of_weight edge)
    · exact ih last

/-- Routers 1 and 2, with a round trip time of 10. -/
def oneLink : Links where
  toTopology := Network.oneLink
  rtt _ _ := 10
  rtt_symm _ _ := rfl
  rtt_pos _ _ _ _ _ := by omega
  single r i i' s j j' h h' := by
    simp only [Network.oneLink] at h h'
    split_ifs at h h' <;> omega
  closed r i s j h := by
    simp only [Network.oneLink] at h
    split_ifs at h with one two
    · simp [Network.oneLink, one.1]
    · simp [Network.oneLink, two.1]
  small := by decide

theorem oneLink_peer (peer : oneLink.peer r i = some (s, j)) :
    i = 0 ∧ j = 0 ∧ (r = 1 ∧ s = 2 ∨ r = 2 ∧ s = 1) := by
  simp only [oneLink, Network.oneLink] at peer
  split_ifs at peer with one two
  · obtain ⟨rfl, rfl⟩ := Prod.mk.inj (Option.some.inj peer)
    exact ⟨one.2, rfl, .inl ⟨one.1, rfl⟩⟩
  · obtain ⟨rfl, rfl⟩ := Prod.mk.inj (Option.some.inj peer)
    exact ⟨two.2, rfl, .inr ⟨two.1, rfl⟩⟩

/-- The router a data packet for `dest` is passed on to. -/
def nextRouter (links : Links) (r : Router) (dest : ℕ) : Option ℕ :=
  match (r.recvDATA r.routerId dest []).2 with
  | [(port, _)] => (links.peer r.routerId port).map Prod.fst
  | _ => none

end Links

end ComputerNetworks.Routing
