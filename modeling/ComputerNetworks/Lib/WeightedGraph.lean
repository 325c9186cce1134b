import Mathlib.Algebra.Order.BigOperators.Group.Finset

/-!
# Weighted graphs and distances

Undirected graphs with positive weights, the walks to a target, and distances. A
labelling that no edge can improve and in which every label is the label of a
neighbour plus an edge is the table of distances. The total weight of a finite set
of vertices bounds the paths in it.
-/

namespace ComputerNetworks.Lib

/-- An undirected graph without loops whose edges have positive weights. -/
structure WeightedGraph (V : Type*) where
  weight : V → V → Option ℕ
  symm : ∀ u v, weight u v = weight v u
  loopless : ∀ v, weight v v = none
  positive : ∀ u v w, weight u v = some w → 0 < w

namespace WeightedGraph

variable {V : Type*} (G : WeightedGraph V) (d : V)

/-- There is a walk of this weight from a vertex to `d`. -/
inductive Walk : V → ℕ → Prop
  | nil : Walk d 0
  | cons {u v : V} {w c : ℕ} (edge : G.weight u v = some w) (walk : Walk v c) : Walk u (c + w)

/-- The least weight of a walk to `d`. -/
structure IsDistance (u : V) (c : ℕ) : Prop where
  walk : G.Walk d u c
  least : ∀ c', G.Walk d u c' → c ≤ c'

/-- No edge can improve the label of a vertex. -/
structure Relaxed (label : V → Option ℕ) : Prop where
  target : label d = some 0
  edge : ∀ u v w c, G.weight u v = some w → label v = some c → ∃ k ≤ c + w, label u = some k

/-- Every label but that of `d` comes from a neighbour. -/
def Supported (label : V → Option ℕ) : Prop :=
  ∀ u c, label u = some c → u ≠ d →
    ∃ v w k, G.weight u v = some w ∧ label v = some k ∧ c = k + w

variable {G d} {u v : V} {w c : ℕ} {label : V → Option ℕ}

theorem ne_of_weight (edge : G.weight u v = some w) : u ≠ v := by
  rintro rfl
  rw [G.loopless] at edge
  cases edge

/-- A connected vertex has a distance. -/
theorem Walk.exists_distance (walk : G.Walk d u c) : ∃ k, G.IsDistance d u k := by
  classical
  have some_walk : ∃ k, G.Walk d u k := ⟨c, walk⟩
  exact ⟨Nat.find some_walk, Nat.find_spec some_walk, fun _ other => Nat.find_min' some_walk other⟩

theorem IsDistance.unique {c' : ℕ} (h : G.IsDistance d u c) (h' : G.IsDistance d u c') : c = c' :=
  Nat.le_antisymm (h.least _ h'.walk) (h'.least _ h.walk)

/-- Relaxed labels are bounded by walks. -/
theorem Relaxed.le_walk (relaxed : G.Relaxed d label) (walk : G.Walk d u c) :
    ∃ k ≤ c, label u = some k := by
  induction walk with
  | nil => exact ⟨0, Nat.le_refl 0, relaxed.target⟩
  | @cons u v w c edge walk ih =>
    obtain ⟨k, le, found⟩ := ih
    obtain ⟨k', le', found'⟩ := relaxed.edge u v w k edge found
    exact ⟨k', by omega, found'⟩

/-- A supported label is the weight of a walk: labels decrease along the supports, so
no cycle supports itself. -/
theorem Supported.walk (supported : G.Supported d label) (target : label d = some 0) :
    ∀ u c, label u = some c → G.Walk d u c := by
  intro u c
  induction c using Nat.strong_induction_on generalizing u with
  | _ c ih =>
    intro found
    by_cases here : u = d
    · subst here
      rw [target] at found
      cases found
      exact .nil
    · obtain ⟨v, w, k, edge, support, rfl⟩ := supported u c found here
      have := G.positive u v w edge
      exact .cons edge (ih k (by omega) v support)

/-- Labels that are relaxed and supported are exactly the distances. -/
theorem label_iff_isDistance (relaxed : G.Relaxed d label) (supported : G.Supported d label) :
    label u = some c ↔ G.IsDistance d u c := by
  have sound : ∀ k, label u = some k → G.IsDistance d u k := by
    intro k found
    refine ⟨supported.walk relaxed.target u k found, fun c' walk => ?_⟩
    obtain ⟨k', le, found'⟩ := relaxed.le_walk walk
    rw [found] at found'
    cases found'
    exact le
  constructor
  · exact sound c
  · intro distance
    obtain ⟨k, -, found⟩ := relaxed.le_walk distance.walk
    rw [found, (sound k found).unique distance]

/-! ### The total weight -/

variable [LinearOrder V]

/-- The sum of the weights of the edges inside a set, each counted once. -/
def total (G : WeightedGraph V) (A : Finset V) : ℕ :=
  ∑ p ∈ (A ×ˢ A).filter (fun p => p.1 < p.2), (G.weight p.1 p.2).getD 0

/-- A vertex outside of a set brings the edges to it. -/
theorem total_add_weight_le {A : Finset V} (edge : G.weight u v = some w) (old : v ∈ A)
    (fresh : u ∉ A) : G.total A + w ≤ G.total (insert u A) := by
  let p : V × V := if u < v then (u, v) else (v, u)
  have different : u ≠ v := ne_of_weight edge
  have weight : (G.weight p.1 p.2).getD 0 = w := by
    unfold p
    split_ifs
    · simp [edge]
    · simp [G.symm v u, edge]
  have outside : p ∉ (A ×ˢ A).filter (fun p => p.1 < p.2) := by
    unfold p
    split_ifs <;> simp [fresh]
  have inside : insert p ((A ×ˢ A).filter (fun p => p.1 < p.2)) ⊆
      ((insert u A) ×ˢ (insert u A)).filter (fun p => p.1 < p.2) := by
    intro q member
    rcases Finset.mem_insert.mp member with rfl | member
    · unfold p
      split_ifs with less
      · simp [old, less]
      · simpa [old] using lt_of_le_of_ne (not_lt.mp less) different.symm
    · simp only [Finset.mem_filter, Finset.mem_product] at member ⊢
      exact ⟨⟨Finset.mem_insert_of_mem member.1.1, Finset.mem_insert_of_mem member.1.2⟩, member.2⟩
  calc G.total A + w
      = ∑ p ∈ insert p ((A ×ˢ A).filter (fun p => p.1 < p.2)), (G.weight p.1 p.2).getD 0 := by
        rw [Finset.sum_insert outside, weight, total, Nat.add_comm]
    _ ≤ G.total (insert u A) := Finset.sum_le_sum_of_subset inside

/-- The total weight of any set is bounded by that of all vertices that have edges. -/
theorem total_le {A B : Finset V} (edges : ∀ u v w, G.weight u v = some w → u ∈ B) :
    G.total A ≤ G.total B := by
  refine Finset.sum_le_sum_of_ne_zero fun p member nonzero => ?_
  cases edge : G.weight p.1 p.2 with
  | none => simp [edge] at nonzero
  | some w =>
    rw [Finset.mem_filter] at member
    exact Finset.mem_filter.mpr ⟨Finset.mem_product.mpr ⟨edges _ _ w edge,
      edges _ _ w (by rw [G.symm, edge])⟩, member.2⟩

/-- An edge weighs no more than everything. -/
theorem weight_le_total {B : Finset V} (edges : ∀ u v w, G.weight u v = some w → u ∈ B)
    (edge : G.weight u v = some w) : w ≤ G.total B := by
  have pair := total_add_weight_le edge (Finset.mem_singleton_self v)
    (by simpa using ne_of_weight edge)
  exact Nat.le_trans (Nat.le_trans (Nat.le_add_left w _) pair) (total_le edges)

end WeightedGraph

end ComputerNetworks.Lib
