import ComputerNetworks.Routing.Network
import ComputerNetworks.Simulation.EventLoop

/-!
# The wiring of a simulated network

A link of the configuration is pushed to `link_vector` at both of its nodes, and the place
it has there is the port. `Node::send` finds the port at the other end by going through the
other node's `link_vector`. When no link joins a node to itself this is the symmetric
wiring that a network of routers needs.
-/

namespace ComputerNetworks.Simulation

open Lib Routing

/-- The node at the other end of a link. -/
def Link.otherEnd (link : Link) (id : ℕ) : ℕ := if link.node1 = id then link.node2 else link.node1

/-- The link ends at the node. -/
def Link.touches (link : Link) (id : ℕ) : Bool := decide (link.node1 = id ∨ link.node2 = id)

namespace Config

variable (config : Config)

/-- What is behind port `i` of node `id`: the node at the other end of the link, and its port. -/
def peer (id i : ℕ) : Option (ℕ × ℕ) := do
  let number ← (config.linkVector id)[i]?
  let link ← config.links[number]?
  let port ← (config.linkVector (link.otherEnd id)).idxOf? number
  return (link.otherEnd id, port)

/-- No link joins a node to itself, and a port fits an `unsigned short`. -/
structure Wired : Prop where
  loopless : ∀ link ∈ config.links, link.node1 ≠ link.node2
  room : ∀ id, (config.linkVector id).length < 2 ^ 16

variable {config}

theorem mem_linkVector {id number : ℕ} : number ∈ config.linkVector id ↔
    ∃ link, config.links[number]? = some link ∧ link.touches id = true := by
  simp only [linkVector, List.mem_flatMap, List.mem_append, Prod.exists,
    List.mk_mem_zipIdx_iff_getElem?, Link.touches, decide_eq_true_eq]
  constructor
  · rintro ⟨link, other, found, here | here⟩
    · split_ifs at here with first
      · rw [List.mem_singleton.mp here]
        exact ⟨link, found, .inl first⟩
      · cases here
    · split_ifs at here with second
      · rw [List.mem_singleton.mp here]
        exact ⟨link, found, .inr second⟩
      · cases here
  · rintro ⟨link, found, first | second⟩
    · exact ⟨link, number, found, .inl (by rw [if_pos first]; exact List.mem_singleton_self _)⟩
    · exact ⟨link, number, found, .inr (by rw [if_pos second]; exact List.mem_singleton_self _)⟩

/-- A link is pushed once, when its two ends are not the same. -/
theorem Wired.linkVector_eq (wired : config.Wired) (id : ℕ) : config.linkVector id =
    (config.links.zipIdx.filter fun entry => entry.1.touches id).map Prod.snd := by
  have once : ∀ entries : List (Link × ℕ), (∀ entry ∈ entries, entry.1.node1 ≠ entry.1.node2) →
      (entries.flatMap fun entry =>
        (if entry.1.node1 = id then [entry.2] else []) ++
          (if entry.1.node2 = id then [entry.2] else [])) =
      (entries.filter fun entry => entry.1.touches id).map Prod.snd := by
    intro entries different
    induction entries with
    | nil => rfl
    | cons entry entries ih =>
      have here := different entry List.mem_cons_self
      rw [List.flatMap_cons, ih fun other member => different other (List.mem_cons_of_mem _ member)]
      by_cases first : entry.1.node1 = id
      · have second : entry.1.node2 ≠ id := fun same => here (first.trans same.symm)
        simp [Link.touches, first, second]
      · by_cases second : entry.1.node2 = id <;> simp [Link.touches, first, second]
  exact once _ fun entry member => wired.loopless _ (List.fst_mem_of_mem_zipIdx member)

theorem Wired.nodup_linkVector (wired : config.Wired) (id : ℕ) : (config.linkVector id).Nodup := by
  have numbers : (config.links.zipIdx.map Prod.snd).Nodup := by
    rw [List.zipIdx_map_snd]
    exact List.nodup_range'
  rw [wired.linkVector_eq]
  exact numbers.sublist (List.filter_sublist.map Prod.snd)

/-- The place of a link at a node is its port there. -/
theorem Wired.idxOf?_iff (wired : config.Wired) {id number port : ℕ} :
    (config.linkVector id).idxOf? number = some port ↔
      (config.linkVector id)[port]? = some number := by
  rw [List.idxOf?_eq_some_iff]
  constructor
  · rintro ⟨inside, found, -⟩
    rw [List.getElem?_eq_getElem inside, found]
  · intro found
    obtain ⟨inside, same⟩ := List.getElem?_eq_some_iff.mp found
    refine ⟨inside, same, fun j earlier equal => ?_⟩
    have collide := (wired.nodup_linkVector id).getElem_inj_iff.mp (equal.trans same.symm)
    omega

theorem Wired.peer_iff (wired : config.Wired) {id i other j : ℕ} :
    config.peer id i = some (other, j) ↔ ∃ number link,
      (config.linkVector id)[i]? = some number ∧ config.links[number]? = some link ∧
        other = link.otherEnd id ∧ (config.linkVector other)[j]? = some number := by
  simp only [peer, Option.bind_eq_bind, Option.bind_eq_some_iff, Option.pure_def, Option.some.injEq,
    Prod.mk.injEq]
  constructor
  · rintro ⟨number, at_port, link, found, port, back, rfl, rfl⟩
    exact ⟨number, link, at_port, found, rfl, wired.idxOf?_iff.mp back⟩
  · rintro ⟨number, link, at_port, found, rfl, back⟩
    exact ⟨number, at_port, link, found, j, wired.idxOf?_iff.mpr back, rfl, rfl⟩

/-- The link at a port ends at the node. -/
theorem touches_of_port {id i number : ℕ} {link : Link}
    (at_port : (config.linkVector id)[i]? = some number) (found : config.links[number]? = some link) :
    link.touches id = true := by
  obtain ⟨other, same, touches⟩ := mem_linkVector.mp (List.mem_of_getElem? at_port)
  cases found.symm.trans same
  exact touches

/-- The other end of the other end. -/
theorem Wired.otherEnd_otherEnd (wired : config.Wired) {id : ℕ} {link : Link}
    (member : link ∈ config.links) (touches : link.touches id = true) :
    link.otherEnd id ≠ id ∧ link.otherEnd (link.otherEnd id) = id := by
  have different := wired.loopless link member
  simp only [Link.touches, decide_eq_true_eq] at touches
  unfold Link.otherEnd
  split_ifs <;> grind

theorem Wired.peer_symm (wired : config.Wired) {r i s j : ℕ} (joined : config.peer r i = some (s, j)) :
    config.peer s j = some (r, i) := by
  rw [wired.peer_iff] at joined ⊢
  obtain ⟨number, link, at_port, found, rfl, back⟩ := joined
  have touches := touches_of_port at_port found
  obtain ⟨-, returns⟩ := wired.otherEnd_otherEnd (List.mem_of_getElem? found) touches
  refine ⟨number, link, back, found, ?_, at_port⟩
  rw [returns]

/-- Every port of a node leads somewhere. -/
theorem Wired.peer_isSome (wired : config.Wired) {id i : ℕ}
    (inside : i < (config.linkVector id).length) :
    ∃ number link j, (config.linkVector id)[i]? = some number ∧ config.links[number]? = some link ∧
      (config.linkVector (link.otherEnd id)).idxOf? number = some j ∧
      config.peer id i = some (link.otherEnd id, j) := by
  have at_port := List.getElem?_eq_getElem inside
  obtain ⟨link, found, touches⟩ := mem_linkVector.mp (List.getElem_mem inside)
  -- the link is in the vector of its other end
  have ends : link.touches (link.otherEnd id) = true := by
    simp only [Link.touches, Link.otherEnd, decide_eq_true_eq] at touches ⊢
    split_ifs <;> grind
  obtain ⟨j, there, back⟩ := List.getElem_of_mem (mem_linkVector.mpr ⟨link, found, ends⟩)
  have back' := List.getElem?_eq_some_iff.mpr ⟨there, back⟩
  exact ⟨_, link, j, at_port, found, wired.idxOf?_iff.mpr back',
    wired.peer_iff.mpr ⟨_, link, at_port, found, rfl, back'⟩⟩

/-- The network that the configuration describes. -/
def Wired.topology (wired : config.Wired) : Topology where
  nodes := config.nodes
  numPorts id := (config.linkVector id).length
  protocolType := config.protocolType
  peer := config.peer
  symm _ _ _ _ := wired.peer_symm
  inside r i s j joined := by
    obtain ⟨number, link, at_port, -⟩ := wired.peer_iff.mp joined
    exact (List.getElem?_eq_some_iff.mp at_port).1
  loopless r i s j joined := by
    obtain ⟨number, link, at_port, found, rfl, -⟩ := wired.peer_iff.mp joined
    exact (wired.otherEnd_otherEnd (List.mem_of_getElem? found)
      (touches_of_port at_port found)).1

end Config

end ComputerNetworks.Simulation
