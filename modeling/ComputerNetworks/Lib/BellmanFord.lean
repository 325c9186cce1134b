import Mathlib.Data.List.Basic
import Mathlib.Order.Lattice
import Mathlib.Data.Nat.Notation
import Mathlib.Order.Basic

/-!
# The Bellman-Ford update of a route table

A router `me` keeps a next hop and a cost for every destination it can reach. A
neighbour `n` over a link of cost `w` tells it costs, one destination at a time. The
route through `n` follows what `n` says, for better or worse, but never costs more than
the direct link; any other route only gets better.
-/

namespace ComputerNetworks.Lib

/-- Next hop and cost of the route to each destination. -/
abbrev Routes (V : Type*) := V → Option (V × ℕ)

namespace Routes

variable {V : Type*} [DecidableEq V]

/-- The entry for `d` after `n` said that it costs `told`, or cannot be reached. The
direct link to `d` costs `direct`. -/
def relax (me n : V) (w : ℕ) (d : V) (direct told : Option ℕ) : Option (V × ℕ) → Option (V × ℕ)
  | some (hop, cost) =>
    match told with
    | some c =>
      if hop = n then
        match direct with
        | some k => some (if c + w < k then n else d, min (c + w) k)
        | none => some (n, c + w)
      else some (if c + w < cost then n else hop, min cost (c + w))
    | none => if hop = n then direct.map fun k => (d, k) else some (hop, cost)
  | none =>
    match told with
    | some c => if d = me then none else some (n, c + w)
    | none => none

/-- The table after one pair `(d, told)` from `n`. -/
def hear (links : V → Option ℕ) (me n : V) (w : ℕ) (routes : Routes V) (pair : V × Option ℕ) :
    Routes V :=
  Function.update routes pair.1
    (relax me n w pair.1 (links pair.1) pair.2 (routes pair.1))

/-- Every neighbour can be reached at no more than the cost of the link to it. -/
def Near (links : V → Option ℕ) (routes : Routes V) : Prop :=
  ∀ d k, links d = some k → ∃ hop cost, routes d = some (hop, cost) ∧ cost ≤ k

variable {links : V → Option ℕ} {me n : V} {w : ℕ} {routes : Routes V}

/-- An entry within the direct link stays within it. -/
theorem relax_near {d hop : V} {cost k : ℕ} (le : cost ≤ k) (told : Option ℕ) :
    ∃ hop' cost', relax me n w d (some k) told (some (hop, cost)) = some (hop', cost') ∧
      cost' ≤ k := by
  cases told with
  | none =>
    by_cases via : hop = n
    · exact ⟨d, k, if_pos via, le_rfl⟩
    · exact ⟨hop, cost, if_neg via, le⟩
  | some c =>
    by_cases via : hop = n
    · exact ⟨_, _, if_pos via, min_le_right _ _⟩
    · exact ⟨_, _, if_neg via, (min_le_left _ _).trans le⟩

/-- A pair keeps all neighbours near. -/
theorem Near.hear (near : Near links routes) (pair : V × Option ℕ) :
    Near links (hear links me n w routes pair) := by
  intro d k link
  obtain ⟨hop, cost, found, le⟩ := near d k link
  by_cases here : d = pair.1
  · subst here
    unfold Routes.hear
    rw [Function.update_self, link, found]
    exact relax_near le pair.2
  · refine ⟨hop, cost, ?_, le⟩
    unfold Routes.hear
    rw [Function.update_of_ne here, found]

/-- So does a whole packet. -/
theorem Near.hears (near : Near links routes) (pairs : List (V × Option ℕ)) :
    Near links (pairs.foldl (Routes.hear links me n w) routes) := by
  induction pairs generalizing routes with
  | nil => exact near
  | cons pair pairs ih => exact ih (near.hear pair)

end Routes

end ComputerNetworks.Lib
