import ComputerNetworks.Routing.Links

/-!
# A network in which no link changes

Every link has a constant round trip time and delivers DV packets in order without
loss; no route expires. Routers handle PONGs, DV packets and the periodic update in any
order, except that a neighbour's first PONG comes before its first DV packet.
-/

namespace ComputerNetworks.Routing

open Lib

/-- The routers, the DV packets under way from one router to another, and whether a
router has handled a PONG from another. -/
structure StaticNetwork where
  routers : ℕ → Router
  chan : ℕ → ℕ → List DVPacket
  heard : ℕ → ℕ → Bool

/-- What can happen next. -/
inductive StaticAction
  /-- A router handles a PONG on a port. -/
  | pong (router port now time : ℕ)
  /-- A router handles the next DV packet on a port. -/
  | deliver (router port now junk : ℕ)
  /-- The periodic update of a router. -/
  | update (router now : ℕ)
  deriving DecidableEq, Repr

namespace StaticNetwork

variable (links : Links)

/-- The DV packets among those that `r` sends that go to `s`. -/
def dvTo (r s : ℕ) (sends : List Send) : List DVPacket :=
  sends.filterMap fun send =>
    match send.2 with
    | .dv packet => if (links.peer r send.1).map Prod.fst = some s then some packet else none
    | _ => none

/-- A call at router `r`. -/
def call (net : StaticNetwork) (r : ℕ) (event : Event) : StaticNetwork where
  routers := Function.update net.routers r ((net.routers r).handle event).1
  chan a b :=
    if a = r then net.chan a b ++ dvTo links r b ((net.routers r).handle event).2 else net.chan a b
  heard := net.heard

/-- Note that `r` has handled a PONG from `n`. -/
def hear (net : StaticNetwork) (r n : ℕ) : StaticNetwork :=
  { net with heard := fun a b => if a = r ∧ b = n then true else net.heard a b }

/-- The first DV packet from `n` to `r` arrives. -/
def drop (net : StaticNetwork) (n r : ℕ) : StaticNetwork :=
  { net with chan := fun a b => if a = n ∧ b = r then (net.chan a b).tail else net.chan a b }

/-- The transition function. -/
def step (net : StaticNetwork) : StaticAction → Option StaticNetwork
  | .pong r port now time =>
    match links.peer r port with
    | none => none
    | some (n, _) =>
      if sub32 now time = links.rtt r n then
        some ((net.hear r n).call links r (.recv now port (.pong n r time) 0))
      else none
  | .deliver r port now junk =>
    match links.peer r port with
    | none => none
    | some (n, _) =>
      match net.chan n r with
      | [] => none
      | packet :: _ =>
        if net.heard r n then some ((net.drop n r).call links r (.recv now port (.dv packet) junk))
        else none
  | .update r now => some (net.call links r (.alarm now .update))

/-- Every router after `init`. -/
def start : StaticNetwork where
  routers r := (links.site r).start
  chan _ _ := []
  heard _ _ := false

/-- No DV packet is under way on a link, and every PONG has been handled at both ends. -/
structure Quiet (net : StaticNetwork) : Prop where
  empty : ∀ r i n j, links.peer r i = some (n, j) → net.chan n r = []
  heard : ∀ r i n j, links.peer r i = some (n, j) → net.heard r n = true

/-- The links of a router are those it has heard from. -/
structure Wired (r : ℕ) (heard : ℕ → Bool) (router : Router) : Prop where
  routerId : router.routerId = r
  numPorts : router.numPorts = links.numPorts r
  linked : ∀ n, heard n = true → ∃ i j, links.peer r i = some (n, j)
  known : ∀ (n : ℕ) direct, router.directNeighbors[n]? = some direct ↔
    heard n = true ∧ (∃ j, links.peer r direct.port = some (n, j)) ∧ direct.cost = links.rtt r n
  ends : ∀ i n j, links.peer r i = some (n, j) →
    if heard n = true then
      (router.ports i).connected = true ∧ (router.ports i).toId = n ∧
        (router.ports i).cost = links.rtt r n
    else (router.ports i).connected = false ∧ (router.ports i).cost = 0
  loose : ∀ i, links.peer r i = none → (router.ports i).connected = false

variable {links} {r n i j : ℕ} {heard : ℕ → Bool} {router : Router}

theorem Wired.congr (h : Wired links r heard router) {router' : Router}
    (same : router.SameLinks router') : Wired links r heard router' where
  routerId := same.routerId.trans h.routerId
  numPorts := same.numPorts.trans h.numPorts
  linked := h.linked
  known n direct := by rw [same.directNeighbors]; exact h.known n direct
  ends i n j peer := by rw [same.ports]; exact h.ends i n j peer
  loose i free := by rw [same.ports]; exact h.loose i free

theorem Wired.knows (h : Wired links r heard router) (heard_ : heard n = true) :
    ∃ i j, links.peer r i = some (n, j) ∧
      router.directNeighbors[n]? = some ⟨links.rtt r n, i⟩ := by
  obtain ⟨i, j, peer⟩ := h.linked n heard_
  exact ⟨i, j, peer, (h.known n _).mpr ⟨heard_, ⟨j, peer⟩, rfl⟩⟩

theorem Wired.knows_iff (h : Wired links r heard router) :
    router.Knows n ↔ heard n = true := by
  constructor
  · rintro ⟨direct, found⟩
    exact ((h.known n direct).mp found).1
  · intro heard_
    obtain ⟨i, j, -, found⟩ := h.knows heard_
    exact ⟨_, found⟩

theorem Wired.linkCost (h : Wired links r heard router) (heard_ : heard n = true) :
    router.linkCost n = links.rtt r n := by
  obtain ⟨i, j, -, found⟩ := h.knows heard_
  simp [Router.linkCost, found]

/-- Handling a PONG connects the link, and no other changes. -/
theorem Wired.connect (h : Wired links r heard router) (peer : links.peer r i = some (n, j))
    (now : ℕ) : Wired links r (fun b => if b = n then true else heard b)
      (router.connect now i n (links.rtt r n)) where
  routerId := h.routerId
  numPorts := h.numPorts
  linked b heard_ := by
    split_ifs at heard_ with here
    · exact ⟨i, j, here ▸ peer⟩
    · exact h.linked b heard_
  known b direct := by
    rw [Router.connect_directNeighbors]
    split_ifs with here
    · subst here
      constructor
      · intro found
        obtain rfl := Option.some.inj found
        exact ⟨rfl, ⟨j, peer⟩, rfl⟩
      · rintro ⟨-, ⟨j', peer'⟩, cost⟩
        cases direct
        rw [Option.some.injEq, NNCell.mk.injEq]
        exact ⟨cost.symm, links.single r i _ b j j' peer peer'⟩
    · exact h.known b direct
  ends i' b j' peer' := by
    simp only [Router.connect]
    by_cases here : i' = i
    · subst here
      rw [peer] at peer'
      obtain ⟨rfl, rfl⟩ := Prod.mk.inj (Option.some.inj peer')
      simp
    -- no second port leads to `n`
    · have other : b ≠ n := by
        rintro rfl
        exact here (links.single r i' i b j' j peer' peer)
      have ends := h.ends i' b j' peer'
      simp only [if_neg here, if_neg other]
      -- `connect` closes ports by the router they lead to; this one leads elsewhere or nowhere
      by_cases heard_ : heard b = true
      · rw [if_pos heard_] at ends ⊢
        rw [if_neg (by rw [ends.2.1]; exact other)]
        exact ends
      · rw [if_neg heard_] at ends ⊢
        split_ifs
        · exact ⟨rfl, ends.2⟩
        · exact ends
  loose i' free := by
    simp only [Router.connect]
    have here : i' ≠ i := by
      rintro rfl
      rw [peer] at free
      cases free
    rw [if_neg here]
    split_ifs
    · rfl
    · exact h.loose i' free

theorem filterMap_ite {α β : Type*} (p : α → Bool) (f : α → β) (l : List α) :
    l.filterMap (fun a => if p a then some (f a) else none) = (l.filter p).map f := by
  induction l with
  | nil => rfl
  | cons a l ih => by_cases h : p a <;> simp [h, ih]

/-- What a wired router sends to a neighbour: the adverts in one packet, if it has heard
from it. -/
theorem Wired.dvTo_sendDVUpdate (h : Wired links r heard router) (adverts : List Advert) (n : ℕ) :
    ∃ i, dvTo links r n (router.sendDVUpdate adverts) =
      if heard n = true then [router.dvPacket adverts i] else [] := by
  by_cases heard_ : heard n = true
  · obtain ⟨i, j, peer⟩ := h.linked n heard_
    refine ⟨i, ?_⟩
    have ends := h.ends i n j peer
    rw [if_pos heard_] at ends
    have inside : i < router.numPorts := by
      rw [h.numPorts]
      exact links.inside r i n j peer
    -- of the open ports one leads to `n`
    have only : ∀ k, (links.peer r k).map Prod.fst = some n ↔ k = i := by
      intro k
      constructor
      · intro leads
        obtain ⟨⟨n', j'⟩, peer', rfl⟩ := Option.map_eq_some_iff.mp leads
        exact links.single r k i n' j' j peer' peer
      · rintro rfl
        rw [peer, Option.map_some]
    have alone : ((List.range router.numPorts).filter fun k => (router.ports k).connected).filter
        (fun k => k == i) = [i] := by
      rw [List.filter_filter]
      have same : ((List.range router.numPorts).filter fun k =>
          (k == i) && (router.ports k).connected) = (List.range router.numPorts).filter (· == i) := by
        refine List.filter_congr fun k _ => ?_
        by_cases here : k = i <;> simp [here, ends.1]
      rw [same, List.filter_beq,
        List.count_eq_one_of_mem List.nodup_range (List.mem_range.mpr inside)]
      rfl
    rw [if_pos heard_, dvTo, Router.sendDVUpdate, List.filterMap_map]
    have choose : ((fun send : Send => match send.2 with
        | .dv packet => if (links.peer r send.1).map Prod.fst = some n then some packet else none
        | _ => none) ∘ fun k => (k, Packet.dv (router.dvPacket adverts k))) =
        fun k => if k == i then some (router.dvPacket adverts k) else none := by
      funext k
      simp only [Function.comp_apply, only, beq_iff_eq]
    rw [choose, filterMap_ite, alone, List.map_singleton]
  · refine ⟨0, ?_⟩
    rw [if_neg heard_, dvTo, List.filterMap_eq_nil_iff]
    -- nothing goes out on a port that is not connected
    rintro ⟨i, packet⟩ sent
    obtain ⟨-, connected, rfl⟩ := Router.mem_sendDVUpdate.mp sent
    dsimp only
    rw [if_neg]
    intro leads
    obtain ⟨⟨n', j⟩, peer, rfl⟩ := Option.map_eq_some_iff.mp leads
    have ends := h.ends i n' j peer
    rw [if_neg heard_, connected] at ends
    cases ends.1

end StaticNetwork

end ComputerNetworks.Routing
