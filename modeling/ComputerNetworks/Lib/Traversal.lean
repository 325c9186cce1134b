import Mathlib.Data.List.Forall2

/-!
# Traversals that can fail

`mapM` in `Option` goes through a list and gives up at the first element that has no image.
When it does not give up, it has related the two lists place by place, and what is known of
the elements of one list carries over to the other from there.
-/

namespace ComputerNetworks.Lib

variable {α β : Type*} {f : α → Option β} {as : List α} {bs : List β}

/-- A traversal succeeds with the list of the images. -/
theorem mapM_eq_some_iff : as.mapM f = some bs ↔ List.Forall₂ (fun a b => f a = some b) as bs := by
  induction as generalizing bs with
  | nil =>
    rw [List.mapM_nil, Option.pure_def, Option.some.injEq, List.forall₂_nil_left_iff]
    exact eq_comm
  | cons a as ih =>
    simp only [List.mapM_cons, Option.bind_eq_bind, Option.bind_eq_some_iff, Option.pure_def,
      Option.some.injEq, List.forall₂_cons_left_iff]
    constructor
    · rintro ⟨b, first, others, rest, rfl⟩
      exact ⟨b, others, first, ih.mp rest, rfl⟩
    · rintro ⟨b, others, first, rest, rfl⟩
      exact ⟨b, first, others, ih.mpr rest, rfl⟩

/-- A traversal succeeds when every element has an image. -/
theorem exists_mapM (all : ∀ a ∈ as, ∃ b, f a = some b) : ∃ bs, as.mapM f = some bs := by
  induction as with
  | nil => exact ⟨[], List.mapM_nil⟩
  | cons a as ih =>
    obtain ⟨b, first⟩ := all a List.mem_cons_self
    obtain ⟨bs, rest⟩ := ih fun other member => all other (List.mem_cons_of_mem _ member)
    exact ⟨b :: bs, mapM_eq_some_iff.mpr (.cons first (mapM_eq_some_iff.mp rest))⟩

theorem length_of_mapM (all : as.mapM f = some bs) : bs.length = as.length :=
  (mapM_eq_some_iff.mp all).length_eq.symm

/-- What is collected is the image of an element. -/
theorem exists_of_mem_mapM (all : as.mapM f = some bs) {b : β} (member : b ∈ bs) :
    ∃ a ∈ as, f a = some b := by
  obtain ⟨i, inside, rfl⟩ := List.getElem_of_mem member
  have before : i < as.length := length_of_mapM all ▸ inside
  exact ⟨as[i], List.getElem_mem before, (mapM_eq_some_iff.mp all).get before inside⟩

/-- The image of an element is collected. -/
theorem mem_of_mem_mapM (all : as.mapM f = some bs) {a : α} (member : a ∈ as) :
    ∃ b ∈ bs, f a = some b := by
  obtain ⟨i, inside, rfl⟩ := List.getElem_of_mem member
  have behind : i < bs.length := (length_of_mapM all).symm ▸ inside
  exact ⟨bs[i], List.getElem_mem behind, (mapM_eq_some_iff.mp all).get inside behind⟩

end ComputerNetworks.Lib
