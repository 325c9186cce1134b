import Mathlib.Data.List.ReduceOption

/-!
# Release buffers

Elements that belong in one sequence arrive in any order within a window of slots. The
buffer releases the run of filled slots at the front of the window, and the window
moves behind it. Nothing put into a free slot is lost, repeated or moved to another
place of the sequence.
-/

namespace ComputerNetworks.Lib

/-- The elements released so far, and the slots of the window behind them. -/
structure ReleaseBuffer (α : Type*) where
  released : List α
  waiting : List (Option α)

namespace ReleaseBuffer

variable {α : Type*}

/-- The filled slots at the front of a window. -/
def leading : List (Option α) → List α
  | some x :: slots => x :: leading slots
  | _ => []

/-- A window of `n` free slots, and nothing released. -/
def empty (n : ℕ) : ReleaseBuffer α := ⟨[], List.replicate n none⟩

/-- Fill the `i`-th slot. -/
def put (i : ℕ) (x : α) (b : ReleaseBuffer α) : ReleaseBuffer α :=
  { b with waiting := b.waiting.set i (some x) }

/-- Release the front of the window. -/
def release (b : ReleaseBuffer α) : ReleaseBuffer α :=
  let run := leading b.waiting
  ⟨b.released ++ run, b.waiting.drop run.length ++ List.replicate run.length none⟩

/-- Everything that was put in, whether released or not. -/
def contents (b : ReleaseBuffer α) : List α := b.released ++ b.waiting.reduceOption

/-- The `i`-th element of the sequence, released or waiting, satisfies `P i`. -/
structure Placed (P : ℕ → α → Prop) (b : ReleaseBuffer α) : Prop where
  released : ∀ i x, b.released[i]? = some x → P i x
  waiting : ∀ j x, b.waiting[j]? = some (some x) → P (b.released.length + j) x

variable {b : ReleaseBuffer α} {i : ℕ} {x : α}

/-! ### The front of a window -/

theorem leading_append_drop (slots : List (Option α)) :
    (leading slots).map some ++ slots.drop (leading slots).length = slots := by
  induction slots with
  | nil => rfl
  | cons slot slots ih =>
    cases slot with
    | none => rfl
    | some x => simpa [leading] using ih

theorem length_leading_le (slots : List (Option α)) : (leading slots).length ≤ slots.length := by
  have whole := congrArg List.length (leading_append_drop slots)
  rw [List.length_append, List.length_map] at whole
  omega

/-- The front of a window ends at a free slot. -/
theorem getElem?_length_leading {slots : List (Option α)}
    (short : (leading slots).length < slots.length) :
    slots[(leading slots).length]? = some none := by
  induction slots with
  | nil => exact absurd short (Nat.lt_irrefl 0)
  | cons slot slots ih =>
    cases slot with
    | none => rfl
    | some x =>
      simp only [leading, List.length_cons, Nat.add_lt_add_iff_right] at short
      simpa [leading] using ih short

/-- The slots at the front are filled. -/
theorem getElem?_leading {slots : List (Option α)} {j : ℕ} (inside : j < (leading slots).length) :
    ∃ y, slots[j]? = some (some y) := by
  refine ⟨(leading slots)[j], ?_⟩
  conv_lhs => rw [← leading_append_drop slots]
  rw [List.getElem?_append_left (by simpa using inside)]
  simp [inside]

/-- Behind a free first slot nothing is ready. -/
theorem leading_eq_nil {slots : List (Option α)} (free : slots[0]? = some none) :
    leading slots = [] := by
  cases slots with
  | nil => rfl
  | cons slot slots =>
    obtain rfl : slot = none := by simpa using free
    rfl

/-- After a release the first slot is free. -/
theorem release_free (positive : 0 < b.waiting.length) : b.release.waiting[0]? = some none := by
  have bound := length_leading_le b.waiting
  unfold release
  dsimp only
  rcases Nat.lt_or_ge (leading b.waiting).length b.waiting.length with short | whole
  · rw [List.getElem?_append_left (by rw [List.length_drop]; omega), List.getElem?_drop, Nat.add_zero]
    exact getElem?_length_leading short
  · rw [List.drop_eq_nil_of_le whole, List.nil_append, List.getElem?_replicate, if_pos (by omega)]

/-! ### Nothing is lost -/

theorem contents_put (free : b.waiting[i]? = some none) :
    (b.put i x).contents.Perm (x :: b.contents) := by
  obtain ⟨inside, slot⟩ := List.getElem?_eq_some_iff.mp free
  have filled : b.waiting.set i (some x) = b.waiting.take i ++ some x :: b.waiting.drop (i + 1) := by
    rw [List.set_eq_take_append_cons_drop, if_pos inside]
  have whole : b.waiting = b.waiting.take i ++ none :: b.waiting.drop (i + 1) := by
    rw [← slot, ← List.drop_eq_getElem_cons inside, List.take_append_drop]
  unfold contents put
  rw [filled, List.reduceOption_append, List.reduceOption_cons_of_some]
  conv_rhs => rw [whole, List.reduceOption_append, List.reduceOption_cons_of_none]
  rw [← List.append_assoc, ← List.append_assoc]
  exact List.perm_middle

theorem contents_release : b.release.contents = b.contents := by
  have filled : ∀ run : List α, (run.map some).reduceOption = run := by
    intro run
    simp [List.reduceOption]
  unfold contents release
  conv_rhs => rw [← leading_append_drop b.waiting]
  rw [List.reduceOption_append, List.reduceOption_append, filled,
    List.reduceOption_replicate_none, List.append_nil, List.append_assoc]

/-! ### Everything is in its place -/

theorem Placed.empty {P : ℕ → α → Prop} (n : ℕ) : Placed P (empty n) := by
  refine ⟨by simp [ReleaseBuffer.empty], fun j x filled => ?_⟩
  simp [ReleaseBuffer.empty, List.getElem?_replicate] at filled

theorem Placed.put {P : ℕ → α → Prop} (h : Placed P b) (fits : P (b.released.length + i) x) :
    Placed P (b.put i x) := by
  refine ⟨h.released, fun j y filled => ?_⟩
  unfold ReleaseBuffer.put at filled ⊢
  dsimp only at filled ⊢
  rw [List.getElem?_set] at filled
  split_ifs at filled with here inside
  · obtain rfl : x = y := by simpa using filled
    exact here ▸ fits
  · exact h.waiting j y filled

theorem Placed.release {P : ℕ → α → Prop} (h : Placed P b) : Placed P b.release := by
  have run : ∀ k y, (leading b.waiting)[k]? = some y → P (b.released.length + k) y := by
    intro k y ready
    apply h.waiting
    rw [← leading_append_drop b.waiting, List.getElem?_append_left]
    · simpa using ready
    · simpa using (List.getElem?_eq_some_iff.mp ready).1
  constructor
  · intro k y place
    unfold ReleaseBuffer.release at place
    dsimp only at place
    rcases Nat.lt_or_ge k b.released.length with old | new
    · rw [List.getElem?_append_left old] at place
      exact h.released k y place
    · rw [List.getElem?_append_right new] at place
      simpa [Nat.add_sub_cancel' new] using run _ y place
  · intro j y filled
    unfold ReleaseBuffer.release at filled ⊢
    dsimp only at filled ⊢
    rw [List.length_append, Nat.add_assoc]
    apply h.waiting
    rcases Nat.lt_or_ge j (b.waiting.drop (leading b.waiting).length).length with old | new
    · rwa [List.getElem?_append_left old, List.getElem?_drop] at filled
    · rw [List.getElem?_append_right new, List.getElem?_replicate] at filled
      split_ifs at filled
      cases filled

end ReleaseBuffer

end ComputerNetworks.Lib
