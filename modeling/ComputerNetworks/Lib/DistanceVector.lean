import ComputerNetworks.Lib.WeightedGraph
import Mathlib.Logic.Function.Basic

/-!
# A distance-vector protocol for one destination

Vertices of a weighted graph learn their distance to `d` from what their neighbours
tell them over reliable ordered channels. A vertex first hears from a neighbour and
then tells it of its route; it tells all neighbours it has heard of whenever its route
may have changed. It takes what its next hop says even if that is worse, yet costs
never increase, because every advert under way is at most the last one taken.

Each route is backed by a simple path whose vertices have routes that are no worse,
which bounds all costs by the total weight of the graph.
-/

namespace ComputerNetworks.Lib

namespace DistanceVector

variable {V : Type*}

/-- The route of each vertex (next hop and cost), the neighbours it has heard, and the
costs under way from one vertex to another. -/
structure State (V : Type*) where
  entry : V → Option (V × ℕ)
  heard : V → V → Bool
  chan : V → V → List ℕ

namespace State

variable (s : State V)

/-- The cost of the route of a vertex. -/
def cost (v : V) : Option ℕ := (s.entry v).map Prod.snd

/-- A vertex has a route of at most this cost. -/
def Within (v : V) (c : ℕ) : Prop := ∃ h k, s.entry v = some (h, k) ∧ k ≤ c

variable {s} {r n v : V} {c : ℕ}

theorem Within.mono {c' : ℕ} (h : s.Within v c) (le : c ≤ c') : s.Within v c' := by
  obtain ⟨hop, k, found, bound⟩ := h
  exact ⟨hop, k, found, Nat.le_trans bound le⟩

theorem within_iff : s.Within v c ↔ ∃ k ≤ c, s.cost v = some k := by
  simp only [Within, cost, Option.map_eq_some_iff, Prod.exists]
  constructor
  · rintro ⟨h, k, found, le⟩
    exact ⟨k, le, h, k, found, rfl⟩
  · rintro ⟨k, le, h, _, found, rfl⟩
    exact ⟨h, _, found, le⟩

variable [LinearOrder V] (s)

/-- `r` hears `n`. -/
def hears (r n : V) : State V :=
  { s with heard := fun a b => if a = r ∧ b = n then true else s.heard a b }

/-- The oldest cost under way from `n` to `r` arrives. -/
def take (n r : V) : State V :=
  { s with chan := fun a b => if a = n ∧ b = r then (s.chan a b).tail else s.chan a b }

/-- `r` sets its route and tells everyone it has heard. -/
def tell (r : V) (route : V × ℕ) : State V where
  entry := Function.update s.entry r (some route)
  heard := s.heard
  chan a b := if a = r ∧ s.heard r b = true then s.chan a b ++ [route.2] else s.chan a b

variable {s} {route : V × ℕ}

@[simp] theorem hears_entry : (s.hears r n).entry = s.entry := rfl
@[simp] theorem hears_chan : (s.hears r n).chan = s.chan := rfl
@[simp] theorem take_entry : (s.take n r).entry = s.entry := rfl
@[simp] theorem take_heard : (s.take n r).heard = s.heard := rfl
@[simp] theorem tell_heard : (s.tell r route).heard = s.heard := rfl

@[simp] theorem take_chan_self : (s.take n r).chan n r = (s.chan n r).tail := by simp [take]

theorem hears_heard_of_ne_left {a b : V} (other : a ≠ r) : (s.hears r n).heard a b = s.heard a b :=
  if_neg fun h => other h.1

@[simp] theorem hears_heard_self : (s.hears r n).heard r n = true := if_pos ⟨rfl, rfl⟩

theorem hears_heard_of_ne_right {a b : V} (other : b ≠ n) : (s.hears r n).heard a b = s.heard a b :=
  if_neg fun h => other h.2

theorem take_chan_of_ne {a b : V} (other : ¬ (a = n ∧ b = r)) :
    (s.take n r).chan a b = s.chan a b := if_neg other

@[simp] theorem tell_entry_self : (s.tell r route).entry r = some route := by simp [tell]

theorem tell_entry_of_ne (other : v ≠ r) : (s.tell r route).entry v = s.entry v := by
  simp [tell, other]

theorem tell_chan_of_ne (other : v ≠ r) (b : V) : (s.tell r route).chan v b = s.chan v b :=
  if_neg fun h => other h.1

theorem tell_chan_of_heard {b : V} (heard : s.heard r b = true) :
    (s.tell r route).chan r b = s.chan r b ++ [route.2] := if_pos ⟨rfl, heard⟩

end State

variable (G : WeightedGraph V) (d : V)

/-- What makes a route good: it is the edge to `d`, or the next hop is and will be no
worse than it needs to be. -/
inductive Good (s : State V) (r : V) : V → ℕ → Prop
  | direct {w : ℕ} (heard : s.heard r d = true) (edge : G.weight r d = some w) : Good s r d w
  | via {h : V} {w k k' : ℕ} (heard : s.heard r h = true) (edge : G.weight r h = some w)
      (next : s.Within h k') (le : k' + w ≤ k) (flight : ∀ c ∈ s.chan h r, c + w ≤ k) :
      Good s r h k

/-- `r` knows what `n` has to say, or is about to: the last advert is under way. -/
def Known (s : State V) (n r : V) : Prop :=
  s.heard n r = true → ∀ h k, s.entry n = some (h, k) →
    (s.chan n r).getLast? = some k ∨ r = d ∨ ∀ w, G.weight r n = some w → s.Within r (k + w)

/-- A vertex that has heard `d` has a route at least as good as the edge to it. -/
def Near (s : State V) (r : V) : Prop :=
  s.heard r d = true → ∀ w, G.weight r d = some w → s.Within r w

variable {G d} {s t : State V} {r n : V} {k c w : ℕ}

/-- Costs that do not increase and adverts no higher than the routes keep a route good. -/
theorem Good.mono {h : V} (good : Good G d s r h k)
    (heard : ∀ n, s.heard r n = true → t.heard r n = true)
    (within : ∀ v c, s.Within v c → t.Within v c)
    (chan : ∀ v c', s.Within v c' → ∀ c ∈ t.chan v r, c ∈ s.chan v r ∨ c ≤ c') :
    Good G d t r h k := by
  cases good with
  | direct heard_ edge => exact .direct (heard d heard_) edge
  | @via _ w _ k' heard_ edge next le flight =>
    refine .via (heard h heard_) edge (within _ _ next) le fun c member => ?_
    rcases chan h k' next c member with old | low
    · exact flight c old
    · omega

/-- Costs do not increase: nothing that was within reach gets out of it. -/
def NoWorse (s t : State V) : Prop := ∀ v c, s.Within v c → t.Within v c

/-- What `n` has to say stays known as long as nothing changes at `n`. -/
theorem Known.mono (known : Known G d s n r) (noWorse : NoWorse s t)
    (entry : t.entry n = s.entry n) (heard : t.heard n r = s.heard n r)
    (chan : t.chan n r = s.chan n r) : Known G d t n r := by
  intro heard' h k found
  rw [heard] at heard'
  rw [entry] at found
  rw [chan]
  rcases known heard' h k found with last | here | within
  · exact .inl last
  · exact .inr (.inl here)
  · exact .inr (.inr fun w edge => noWorse _ _ (within w edge))

/-- The last advert of `n` is known once it is dealt with. -/
theorem Known.received {rest : List ℕ} (known : Known G d s n r) (head : s.chan n r = c :: rest)
    (edge : G.weight r n = some w) (noWorse : NoWorse s t) (entry : t.entry n = s.entry n)
    (heard : t.heard n r = s.heard n r) (chan : t.chan n r = rest)
    (dealt : r = d ∨ t.Within r (c + w)) : Known G d t n r := by
  intro heard' h k found
  rw [heard] at heard'
  rw [entry] at found
  rw [chan]
  rcases known heard' h k found with last | here | within
  · rw [head] at last
    cases rest with
    | nil =>
      cases last
      right
      rcases dealt with here | within
      · exact .inl here
      · refine .inr fun w' edge' => ?_
        rw [edge] at edge'
        cases edge'
        exact within
    | cons c' rest => exact .inl (by simpa using last)
  · exact .inr (.inl here)
  · exact .inr (.inr fun w' edge' => noWorse _ _ (within w' edge'))

/-- A vertex stays near what it was near to. -/
theorem Near.mono (near : Near G d s r) (noWorse : NoWorse s t)
    (heard : t.heard r d = true → s.heard r d = true) : Near G d t r :=
  fun heard' w edge => noWorse _ _ (near (heard heard') w edge)

variable (G d) [LinearOrder V]

/-- One event at a vertex `r`. -/
inductive Step (s : State V) : State V → Prop
  /-- Hear a neighbour, without a route to tell of. -/
  | hear {r n : V} {w : ℕ} (edge : G.weight r n = some w) (other : n ≠ d)
      (none_ : s.entry r = none) : Step s (s.hears r n)
  /-- Hear a neighbour, and tell of the route; one to `d` is at most the edge to `d`. -/
  | hearTell {r n : V} {w : ℕ} {route : V × ℕ} (edge : G.weight r n = some w)
      (found : s.entry r = some route) (near : n = d → route.2 ≤ w) :
      Step s ((s.hears r n).tell r route)
  /-- Hear `d` and take the edge to it, if there is no better route. -/
  | hearTarget {r : V} {w : ℕ} (edge : G.weight r d = some w)
      (best : ∀ h k, s.entry r = some (h, k) → w ≤ k) :
      Step s ((s.hears r d).tell r (d, w))
  /-- Ignore an advert that is no improvement. -/
  | ignore {r n : V} {w c : ℕ} {rest : List ℕ} (edge : G.weight r n = some w)
      (head : s.chan n r = c :: rest) (useless : r = d ∨ s.Within r (c + w)) :
      Step s (s.take n r)
  /-- Take a route that is an improvement, or through the next hop anyway. -/
  | adopt {r n : V} {w c : ℕ} {rest : List ℕ} (edge : G.weight r n = some w)
      (heard : s.heard r n = true) (head : s.chan n r = c :: rest) (other : r ≠ d)
      (useful : ∀ h k, s.entry r = some (h, k) → c + w < k ∨ n = h) :
      Step s ((s.take n r).tell r (n, c + w))
  /-- Take the edge to `d` instead of a route through the next hop. -/
  | direct {r n : V} {w c k wd : ℕ} {rest : List ℕ} (edge : G.weight r n = some w)
      (head : s.chan n r = c :: rest) (found : s.entry r = some (n, k))
      (heard : s.heard r d = true) (near : G.weight r d = some wd) (better : wd ≤ c + w) :
      Step s ((s.take n r).tell r (d, wd))
  /-- Tell of the route without a reason. -/
  | announce {r : V} {route : V × ℕ} (found : s.entry r = some route) :
      Step s (s.tell r route)

/-- A simple path to `d` of weight `c` through the vertices `A`, all of which have a
route that is no worse than the path from there. -/
inductive Backed (cost : V → Option ℕ) : V → Finset V → ℕ → Prop
  | target : Backed cost d {d} 0
  | cons {u v : V} {A : Finset V} {w c : ℕ} (edge : G.weight u v = some w)
      (path : Backed cost v A c) (fresh : u ∉ A) (known : ∃ k ≤ c + w, cost u = some k) :
      Backed cost u (insert u A) (c + w)

/-- The invariant of the routes and channels. -/
structure Sound (s : State V) : Prop where
  target : s.entry d = none
  adjacent : ∀ r n, s.heard r n = true → ∃ w, G.weight r n = some w
  good : ∀ r h k, s.entry r = some (h, k) → Good G d s r h k
  sorted : ∀ n r, (s.chan n r).Pairwise (· ≥ ·)
  sent : ∀ n r, ∀ c ∈ s.chan n r, s.Within n c
  backed : ∀ r h k, s.entry r = some (h, k) → ∃ A, Backed G d s.cost r A k
  backedChan : ∀ n r, ∀ c ∈ s.chan n r, ∃ A, Backed G d s.cost n A c

/-- The invariant of the protocol. -/
structure Inv (s : State V) : Prop where
  sound : Sound G d s
  known : ∀ n r, Known G d s n r
  near : ∀ r, Near G d s r

variable {G d} {v : V}

/-! ### Paths -/

namespace Backed

variable {cost cost' : V → Option ℕ} {A : Finset V}

theorem mem (path : Backed G d cost v A c) : v ∈ A := by
  cases path <;> simp

theorem walk (path : Backed G d cost v A c) : G.Walk d v c := by
  induction path with
  | target => exact .nil
  | cons edge _ _ _ ih => exact .cons edge ih

/-- The vertices of a path have routes no worse than the whole path. -/
theorem cost_le (path : Backed G d cost v A c) {x : V} (member : x ∈ A) :
    x = d ∨ ∃ k ≤ c, cost x = some k := by
  induction path with
  | target => exact .inl (Finset.mem_singleton.mp member)
  | cons edge path fresh known ih =>
    rcases Finset.mem_insert.mp member with rfl | later
    · exact .inr known
    · rcases ih later with here | ⟨k, le, found⟩
      · exact .inl here
      · exact .inr ⟨k, by omega, found⟩

/-- A path stays backed when costs do not increase. -/
theorem mono (decrease : ∀ x k, cost x = some k → ∃ k' ≤ k, cost' x = some k')
    (path : Backed G d cost v A c) : Backed G d cost' v A c := by
  induction path with
  | target => exact .target
  | cons edge path fresh known ih =>
    obtain ⟨k, le, found⟩ := known
    obtain ⟨k', le', found'⟩ := decrease _ k found
    exact .cons edge ih fresh ⟨k', by omega, found'⟩

/-- A simple path weighs no more than the edges among its vertices. -/
theorem le_total (path : Backed G d cost v A c) : c ≤ G.total A := by
  induction path with
  | target => exact Nat.zero_le _
  | cons edge path fresh known ih =>
    have := WeightedGraph.total_add_weight_le edge path.mem fresh
    omega

end Backed

/-! ### What an event preserves -/

namespace State

/-- A route that replaces no better one makes no vertex worse off. -/
theorem Within.tell {route : V × ℕ} (best : ∀ h k, s.entry r = some (h, k) → route.2 ≤ k)
    (h : s.Within v c) : (s.tell r route).Within v c := by
  obtain ⟨hop, k, found, le⟩ := h
  by_cases here : v = r
  · subst here
    exact ⟨route.1, route.2, tell_entry_self, Nat.le_trans (best hop k found) le⟩
  · exact ⟨hop, k, by rw [tell_entry_of_ne here, found], le⟩

theorem within_tell_self {route : V × ℕ} (le : route.2 ≤ c) : (s.tell r route).Within r c :=
  ⟨route.1, route.2, tell_entry_self, le⟩

/-- The costs under way after a route was told of. -/
theorem mem_tell_chan {route : V × ℕ} {a b : V} (member : c ∈ (s.tell r route).chan a b) :
    c ∈ s.chan a b ∨ a = r ∧ c = route.2 := by
  simp only [tell] at member
  split_ifs at member with told
  · rcases List.mem_append.mp member with old | new
    · exact .inl old
    · exact .inr ⟨told.1, List.mem_singleton.mp new⟩
  · exact .inl member

theorem mem_of_mem_take_chan {a b : V} (member : c ∈ (s.take n r).chan a b) : c ∈ s.chan a b := by
  simp only [take] at member
  split_ifs at member
  · exact List.mem_of_mem_tail member
  · exact member

end State

theorem Sound.hears (h : Sound G d s) (edge : G.weight r n = some w) : Sound G d (s.hears r n) where
  target := h.target
  adjacent a b heard := by
    simp only [State.hears] at heard
    split_ifs at heard with here
    · exact ⟨w, by rw [here.1, here.2, edge]⟩
    · exact h.adjacent a b heard
  good a hop k found := by
    refine (h.good a hop k found).mono (fun b heard => ?_) (fun _ _ => id) fun _ _ _ _ => .inl
    simp only [State.hears]
    split_ifs
    · rfl
    · exact heard
  sorted := h.sorted
  sent := h.sent
  backed := h.backed
  backedChan := h.backedChan

theorem Sound.take (h : Sound G d s) (n r : V) : Sound G d (s.take n r) where
  target := h.target
  adjacent := h.adjacent
  good a hop k found := (h.good a hop k found).mono (fun _ => id) (fun _ _ => id)
    fun _ _ _ _ member => .inl (State.mem_of_mem_take_chan member)
  sorted a b := by
    simp only [State.take]
    split_ifs
    · exact (h.sorted a b).sublist (List.tail_sublist _)
    · exact h.sorted a b
  sent a b c member := h.sent a b c (State.mem_of_mem_take_chan member)
  backed := h.backed
  backedChan a b c member := h.backedChan a b c (State.mem_of_mem_take_chan member)

/-- Telling of a good route that replaces no better one. -/
theorem Sound.tell (h : Sound G d s) {route : V × ℕ} (other : r ≠ d)
    (good : Good G d s r route.1 route.2) (best : ∀ h k, s.entry r = some (h, k) → route.2 ≤ k)
    (backed : ∃ A, Backed G d (s.tell r route).cost r A route.2) : Sound G d (s.tell r route) := by
  -- no cost grows
  have decrease : ∀ x k, s.cost x = some k → ∃ k' ≤ k, (s.tell r route).cost x = some k' := by
    intro x k found
    exact State.within_iff.mp ((State.within_iff.mpr ⟨k, Nat.le_refl k, found⟩).tell best)
  -- what is under way afterwards was so before or is the new cost
  have low : ∀ a b c', s.Within a c' → ∀ c ∈ (s.tell r route).chan a b, c ∈ s.chan a b ∨ c ≤ c' := by
    intro a b c' within c member
    rcases State.mem_tell_chan member with old | ⟨rfl, rfl⟩
    · exact .inl old
    · obtain ⟨hop, k, found, le⟩ := within
      exact .inr (Nat.le_trans (best hop k found) le)
  have keep : ∀ a hop k, Good G d s a hop k → Good G d (s.tell r route) a hop k := by
    intro a hop k good
    exact good.mono (fun _ => id) (fun _ _ h => h.tell best) fun v c' => low v a c'
  refine ⟨?_, h.adjacent, fun a hop k found => ?_, fun a b => ?_, fun a b c member => ?_,
    fun a hop k found => ?_, fun a b c member => ?_⟩
  -- the seven fields in turn; only the vertex that tells and its channels change
  · rw [State.tell_entry_of_ne other.symm, h.target]
  · by_cases here : a = r
    · subst here
      rw [State.tell_entry_self] at found
      cases found
      exact keep a _ _ good
    · rw [State.tell_entry_of_ne here] at found
      exact keep a hop k (h.good a hop k found)
  · simp only [State.tell]
    split_ifs with told
    · obtain ⟨rfl, -⟩ := told
      rw [List.pairwise_append]
      refine ⟨h.sorted a b, List.pairwise_singleton _ _, fun c member c' last => ?_⟩
      obtain ⟨hop, k, found, le⟩ := h.sent a b c member
      rw [List.mem_singleton.mp last]
      exact Nat.le_trans (best hop k found) le
    · exact h.sorted a b
  · rcases State.mem_tell_chan member with old | ⟨rfl, rfl⟩
    · exact (h.sent a b c old).tell best
    · exact State.within_tell_self (Nat.le_refl _)
  · by_cases here : a = r
    · subst here
      rw [State.tell_entry_self] at found
      cases found
      exact backed
    · rw [State.tell_entry_of_ne here] at found
      obtain ⟨A, path⟩ := h.backed a hop k found
      exact ⟨A, path.mono decrease⟩
  · rcases State.mem_tell_chan member with old | ⟨rfl, rfl⟩
    · obtain ⟨A, path⟩ := h.backedChan a b c old
      exact ⟨A, path.mono decrease⟩
    · exact backed

/-! ### Who knows what -/

/-- A vertex that tells of its route makes it known. -/
theorem known_of_tell (s : State V) (r b : V) (route : V × ℕ) : Known G d (s.tell r route) r b := by
  intro heard h k found
  rw [State.tell_entry_self] at found
  cases found
  left
  rw [State.tell_chan_of_heard (show s.heard r b = true from heard), List.getLast?_concat]

/-! ### Events -/

theorem noWorse_tell {route : V × ℕ} (best : ∀ h k, s.entry r = some (h, k) → route.2 ≤ k) :
    NoWorse s (s.tell r route) := fun _ _ within => within.tell best

/-- A route of the invariant is backed by the costs as they are. -/
theorem Sound.backed_tell (h : Sound G d s) {route : V × ℕ} (found : s.entry r = some route) :
    ∃ A, Backed G d (s.tell r route).cost r A route.2 := by
  obtain ⟨A, path⟩ := h.backed r route.1 route.2 found
  refine ⟨A, path.mono fun x k cost => ?_⟩
  have best : ∀ h k, s.entry r = some (h, k) → route.2 ≤ k := by
    intro h k found'
    rw [found] at found'
    cases found'
    exact Nat.le_refl _
  exact State.within_iff.mp ((State.within_iff.mpr ⟨k, Nat.le_refl k, cost⟩).tell best)

theorem Sound.ne_target (h : Sound G d s) {route : V × ℕ} (found : s.entry r = some route) :
    r ≠ d := by
  rintro rfl
  rw [h.target] at found
  cases found

/-- Telling of a route as it is. -/
theorem Sound.announce (h : Sound G d s) {route : V × ℕ} (found : s.entry r = some route) :
    Sound G d (s.tell r route) ∧ NoWorse s (s.tell r route) := by
  have best : ∀ h k, s.entry r = some (h, k) → route.2 ≤ k := by
    intro h k found'
    rw [found] at found'
    cases found'
    exact Nat.le_refl _
  exact ⟨h.tell (h.ne_target found) (h.good r _ _ found) best (h.backed_tell found), noWorse_tell best⟩

/-- A path through the edge to `d`. -/
theorem backed_edge (edge : G.weight r d = some w) :
    ∃ A, Backed G d (s.tell r (d, w)).cost r A w := by
  refine ⟨insert r {d}, ?_⟩
  have path : Backed G d (s.tell r (d, w)).cost r (insert r {d}) (0 + w) := by
    refine .cons edge .target ?_ ⟨w, by omega, by simp [State.cost]⟩
    simpa using WeightedGraph.ne_of_weight edge
  simpa using path

/-- Telling of a route after hearing a neighbour. -/
theorem Inv.hears_tell (h : Inv G d s) {route : V × ℕ}
    (sound : Sound G d ((s.hears r n).tell r route))
    (best : ∀ h k, s.entry r = some (h, k) → route.2 ≤ k)
    (near : n = d → ∀ w, G.weight r d = some w → route.2 ≤ w) :
    Inv G d ((s.hears r n).tell r route) := by
  have noWorse : NoWorse s ((s.hears r n).tell r route) := noWorse_tell (s := s.hears r n) best
  refine ⟨sound, fun a b => ?_, fun b => ?_⟩
  · by_cases here : a = r
    · subst here
      exact known_of_tell _ a b route
    · exact (h.known a b).mono noWorse (State.tell_entry_of_ne here)
        (State.hears_heard_of_ne_left here) (State.tell_chan_of_ne here b)
  · by_cases here : b = r ∧ n = d
    · obtain ⟨rfl, same⟩ := here
      exact fun _ w edge => State.within_tell_self (near same w edge)
    · refine (h.near b).mono noWorse fun heard => ?_
      by_cases row : b = r
      · rwa [State.tell_heard,
          State.hears_heard_of_ne_right fun same => here ⟨row, same.symm⟩] at heard
      · rwa [State.tell_heard, State.hears_heard_of_ne_left row] at heard

/-- Telling of a route no worse than the advert that was received. -/
theorem Inv.take_tell (h : Inv G d s) {rest : List ℕ} (head : s.chan n r = c :: rest)
    (edge : G.weight r n = some w) {route : V × ℕ}
    (sound : Sound G d ((s.take n r).tell r route))
    (best : ∀ h k, s.entry r = some (h, k) → route.2 ≤ k) (le : route.2 ≤ c + w) :
    Inv G d ((s.take n r).tell r route) := by
  have noWorse : NoWorse s ((s.take n r).tell r route) := noWorse_tell (s := s.take n r) best
  refine ⟨sound, fun a b => ?_, fun b => (h.near b).mono noWorse id⟩
  by_cases here : a = r
  · subst here
    exact known_of_tell _ a b route
  · by_cases arrived : a = n ∧ b = r
    · obtain ⟨rfl, rfl⟩ := arrived
      refine (h.known a b).received head edge noWorse (State.tell_entry_of_ne here) rfl ?_
        (.inr (State.within_tell_self le))
      rw [State.tell_chan_of_ne here, State.take_chan_self, head, List.tail_cons]
    · refine (h.known a b).mono noWorse (State.tell_entry_of_ne here) rfl ?_
      rw [State.tell_chan_of_ne here, State.take_chan_of_ne arrived]

/-- An advert has a sender other than `d`, and a path that leads around a receiver whose
route it improves. -/
theorem Sound.advert (h : Sound G d s) (member : c ∈ s.chan n r) (other : r ≠ d)
    (useful : ∀ h k, s.entry r = some (h, k) → c < k) :
    ∃ A, Backed G d s.cost n A c ∧ r ∉ A := by
  obtain ⟨A, path⟩ := h.backedChan n r c member
  refine ⟨A, path, fun onPath => ?_⟩
  rcases path.cost_le onPath with here | ⟨k, le, cost⟩
  · exact other here
  · obtain ⟨hop, k', found, le'⟩ := State.within_iff.mpr ⟨k, le, cost⟩
    have := useful hop k' found
    omega

/-- What a next hop says is no worse than the route through it. -/
theorem Sound.advert_le (h : Sound G d s) (member : c ∈ s.chan n r)
    (found : s.entry r = some (n, k)) (edge : G.weight r n = some w) : c + w ≤ k := by
  cases h.good r n k found with
  | direct heard edge' =>
    obtain ⟨hop, k', found', -⟩ := h.sent _ r c member
    rw [h.target] at found'
    cases found'
  | via heard edge' next le flight =>
    rw [edge] at edge'
    cases edge'
    exact flight c member

/-- The next hop of a route is `d`, or has a route that leaves room for the edge to it. -/
theorem Sound.nearer (h : Sound G d s) (found : s.entry r = some (n, k)) :
    ∃ w, G.weight r n = some w ∧ (n = d ∧ w ≤ k ∨ ∃ k', s.cost n = some k' ∧ k' + w ≤ k) := by
  cases h.good r n k found with
  | direct heard edge => exact ⟨_, edge, .inl ⟨rfl, Nat.le_refl _⟩⟩
  | via heard edge next le flight =>
    obtain ⟨k', le', found'⟩ := State.within_iff.mp next
    exact ⟨_, edge, .inr ⟨k', found', by omega⟩⟩

/-- Taking a route that an advert offers. -/
theorem Inv.adopt (h : Inv G d s) {rest : List ℕ} (edge : G.weight r n = some w)
    (heard : s.heard r n = true) (head : s.chan n r = c :: rest) (other : r ≠ d)
    (useful : ∀ h k, s.entry r = some (h, k) → c + w < k ∨ n = h) :
    Inv G d ((s.take n r).tell r (n, c + w)) ∧ NoWorse s ((s.take n r).tell r (n, c + w)) := by
  have member : c ∈ s.chan n r := head ▸ List.mem_cons_self
  have positive := G.positive r n w edge
  have best : ∀ h k, s.entry r = some (h, k) → c + w ≤ k := by
    intro hop k found
    -- the new cost is lower, or it comes from the next hop, whose adverts never rise
    rcases useful hop k found with less | rfl
    · omega
    · exact h.sound.advert_le member found edge
  obtain ⟨A, path, fresh⟩ := h.sound.advert member other fun hop k found => by
    have := best hop k found
    omega
  have noWorse : NoWorse (s.take n r) ((s.take n r).tell r (n, c + w)) := noWorse_tell best
  have decrease : ∀ x k, s.cost x = some k →
      ∃ k' ≤ k, ((s.take n r).tell r (n, c + w)).cost x = some k' := fun x k cost =>
    State.within_iff.mp (noWorse x k (State.within_iff.mpr ⟨k, Nat.le_refl k, cost⟩))
  have good : Good G d (s.take n r) r n (c + w) := by
    refine .via heard edge (h.sound.sent n r c member) (Nat.le_refl _) fun c' later => ?_
    -- what follows in the channel is no worse than its head
    have sorted := h.sound.sorted n r
    rw [head, List.pairwise_cons] at sorted
    rw [State.take_chan_self, head, List.tail_cons] at later
    have := sorted.1 c' later
    omega
  have sound : Sound G d ((s.take n r).tell r (n, c + w)) := (h.sound.take n r).tell other good best
    ⟨_, .cons edge (path.mono decrease) fresh ⟨c + w, Nat.le_refl _, by simp [State.cost]⟩⟩
  exact ⟨h.take_tell head edge sound best (Nat.le_refl _), noWorse⟩

/-- Every event preserves the invariant, and leaves no vertex worse off. -/
theorem Inv.step (h : Inv G d s) (step : Step G d s t) : Inv G d t ∧ NoWorse s t := by
  cases step with
  | @hear r n w edge other none_ =>
    refine ⟨⟨h.sound.hears edge, fun a b => ?_, fun b => ?_⟩, fun _ _ => id⟩
    · by_cases here : a = r
      · subst here
        intro _ hop k found
        rw [State.hears_entry, none_] at found
        cases found
      · exact (h.known a b).mono (fun _ _ => id) rfl (State.hears_heard_of_ne_left here) rfl
    · refine (h.near b).mono (fun _ _ => id) fun heard => ?_
      rwa [State.hears_heard_of_ne_right other.symm] at heard
  | @hearTell r n w route edge found near =>
    have sound := (h.sound.hears edge).announce found
    -- the neighbour is told the route that is there
    have best : ∀ h k, s.entry r = some (h, k) → route.2 ≤ k := by
      intro hop k found'
      rw [found] at found'
      cases found'
      exact Nat.le_refl _
    refine ⟨h.hears_tell sound.1 best fun same w' edge' => ?_, sound.2⟩
    subst same
    rw [edge] at edge'
    cases edge'
    exact near rfl
  | @hearTarget r w edge best =>
    have sound := h.sound.hears edge
    have good : Good G d (s.hears r d) r d w := .direct State.hears_heard_self edge
    refine ⟨h.hears_tell (sound.tell (WeightedGraph.ne_of_weight edge) good best
      (backed_edge edge)) best fun _ w' edge' => ?_, noWorse_tell (s := s.hears r d) best⟩
    rw [edge] at edge'
    cases edge'
    exact Nat.le_refl _
  | @ignore r n w c rest edge head useless =>
    refine ⟨⟨h.sound.take n r, fun a b => ?_, fun b => (h.near b).mono (fun _ _ => id) id⟩,
      fun _ _ => id⟩
    -- only the channel that the advert leaves changes
    by_cases arrived : a = n ∧ b = r
    · obtain ⟨rfl, rfl⟩ := arrived
      exact (h.known a b).received head edge (fun _ _ => id) rfl rfl
        (by rw [State.take_chan_self, head, List.tail_cons]) useless
    · exact (h.known a b).mono (fun _ _ => id) rfl rfl (State.take_chan_of_ne arrived)
  | adopt edge heard head other useful => exact h.adopt edge heard head other useful
  | @direct r n w c k wd rest edge head found heard near better =>
    have member : c ∈ s.chan n r := head ▸ List.mem_cons_self
    have le := h.sound.advert_le member found edge
    have best : ∀ h k, s.entry r = some (h, k) → wd ≤ k := by
      intro hop k' found'
      rw [found] at found'
      cases found'
      omega
    have good : Good G d (s.take n r) r d wd := .direct heard near
    have sound : Sound G d ((s.take n r).tell r (d, wd)) :=
      (h.sound.take n r).tell (WeightedGraph.ne_of_weight near) good best (backed_edge near)
    exact ⟨h.take_tell head edge sound best better, noWorse_tell (s := s.take n r) best⟩
  | @announce r route found =>
    have sound := h.sound.announce found
    refine ⟨⟨sound.1, fun a b => ?_, fun b => (h.near b).mono sound.2 id⟩, sound.2⟩
    by_cases here : a = r
    · subst here
      exact known_of_tell s a b route
    · exact (h.known a b).mono sound.2 (State.tell_entry_of_ne here) rfl
        (State.tell_chan_of_ne here b)

/-! ### Results -/

/-- Nothing heard, nothing known and nothing under way. -/
theorem Inv.start : Inv G d ⟨fun _ => none, fun _ _ => false, fun _ _ => []⟩ where
  sound :=
    { target := rfl
      adjacent := fun _ _ heard => by cases heard
      good := fun _ _ _ found => by cases found
      sorted := fun _ _ => List.Pairwise.nil
      sent := fun _ _ _ member => by cases member
      backed := fun _ _ _ found => by cases found
      backedChan := fun _ _ _ member => by cases member }
  known _ _ heard := by cases heard
  near _ heard := by cases heard

/-- A route costs at least the distance. -/
theorem Inv.distance_le (h : Inv G d s) (found : s.entry v = some (r, k)) :
    ∃ c ≤ k, G.IsDistance d v c := by
  obtain ⟨A, path⟩ := h.sound.backed v r k found
  obtain ⟨c, distance⟩ := path.walk.exists_distance
  exact ⟨c, distance.least k path.walk, distance⟩

/-- Costs and adverts are bounded by the total weight. -/
theorem Inv.le_total (h : Inv G d s) {B : Finset V}
    (edges : ∀ u v w, G.weight u v = some w → u ∈ B) :
    (∀ v r k, s.entry v = some (r, k) → k ≤ G.total B) ∧
      ∀ n r, ∀ c ∈ s.chan n r, c ≤ G.total B := by
  constructor
  · intro v r k found
    obtain ⟨A, path⟩ := h.sound.backed v r k found
    exact Nat.le_trans path.le_total (WeightedGraph.total_le edges)
  · intro n r c member
    obtain ⟨A, path⟩ := h.sound.backedChan n r c member
    exact Nat.le_trans path.le_total (WeightedGraph.total_le edges)

/-- When everyone has heard its neighbours and nothing is under way, routes are exact. -/
theorem Inv.exact (h : Inv G d s) (heard : ∀ u v w, G.weight u v = some w → s.heard u v = true)
    (empty : ∀ u v w, G.weight u v = some w → s.chan v u = []) (other : v ≠ d) (distance : G.IsDistance d v c) :
    ∃ r, s.entry v = some (r, c) := by
  have relaxed : G.Relaxed d (fun v => if v = d then some 0 else s.cost v) := by
    refine ⟨if_pos rfl, fun u v w c edge label => ?_⟩
    by_cases arrived : u = d
    · exact ⟨0, Nat.zero_le _, if_pos arrived⟩
    · have edge' : G.weight v u = some w := by rw [G.symm, edge]
      simp only [if_neg arrived]
      rw [← State.within_iff]
      by_cases here : v = d
      · subst here
        exact (h.near u (heard u v w edge) w edge).mono (Nat.le_add_left w c)
      · simp only [if_neg here, State.cost, Option.map_eq_some_iff, Prod.exists] at label
        obtain ⟨hop, _, found, rfl⟩ := label
        rcases h.known v u (heard v u w edge') hop _ found with last | same | within
        · rw [empty u v w edge] at last
          cases last
        · exact absurd same arrived
        · exact within w edge
  obtain ⟨k, le, label⟩ := relaxed.le_walk distance.walk
  simp only [if_neg other, State.cost, Option.map_eq_some_iff, Prod.exists] at label
  obtain ⟨hop, _, found, rfl⟩ := label
  obtain ⟨c', le', distance'⟩ := h.distance_le found
  have := distance.unique distance'
  exact ⟨hop, by rw [found]; congr 2; omega⟩

end DistanceVector

end ComputerNetworks.Lib
