import Mathlib.Algebra.BigOperators.Group.List.Basic
import Mathlib.Algebra.Order.BigOperators.Group.List
import Mathlib.Algebra.Ring.Int.Defs
import Mathlib.Data.Int.Order.Basic

/-!
# Relative paths

A path is read component by component, from the directory where one starts. An empty
component and `.` lead nowhere, `..` leads up and any other component leads down.
-/

namespace ComputerNetworks.Lib

/-- The components of a path. -/
def components (path : List Char) : List (List Char) := path.splitOn '/'

/-- A component that stays in the directory. -/
def Stays (component : List Char) : Prop := component = [] ∨ component = ['.']

instance (component : List Char) : Decidable (Stays component) :=
  inferInstanceAs (Decidable (component = [] ∨ component = ['.']))

/-- The component that leads up. -/
def parent : List Char := ['.', '.']

/-- How a component changes the depth. -/
def descent (component : List Char) : ℤ :=
  if Stays component then 0 else if component = parent then -1 else 1

/-- How far some components lead down. -/
def depth (cs : List (List Char)) : ℤ := (cs.map descent).sum

/-- Reading the path never leads above the directory where one starts. -/
def Confined (path : List Char) : Prop := ∀ n, 0 ≤ depth ((components path).take n)

variable {path component : List Char} {cs : List (List Char)}

@[simp] theorem depth_nil : depth [] = 0 := rfl

@[simp] theorem depth_append (cs ds : List (List Char)) : depth (cs ++ ds) = depth cs + depth ds := by
  simp [depth]

@[simp] theorem depth_singleton (component : List Char) : depth [component] = descent component := by
  simp [depth]

/-- Every component but the last one is followed by a slash. -/
theorem infix_of_mem_components (inner : component ∈ (components path).dropLast) :
    component ++ ['/'] <:+: path := by
  have joined : ['/'].intercalate (components path) = path := List.intercalate_splitOn '/'
  rw [← joined]
  generalize components path = cs at inner
  induction cs with
  | nil => cases inner
  | cons c cs ih =>
    by_cases last : cs = []
    · rw [last] at inner
      cases inner
    · rw [List.intercalate_cons_of_ne_nil last]
      rw [List.dropLast_cons_of_ne_nil last, List.mem_cons] at inner
      rcases inner with rfl | later
      · exact (List.prefix_append _ _).isInfix
      · exact (ih later).trans (List.suffix_append _ _).isInfix

/-- A character in front of a path goes to its first component. -/
theorem components_cons {c : Char} (plain : c ≠ '/') (split : components path = component :: cs) :
    components (c :: path) = (c :: component) :: cs := by
  have different : (c == '/') = false := beq_eq_false_iff_ne.mpr plain
  rw [components, List.splitOn_cons_eq_if_modifyHead, different]
  rw [components] at split
  rw [split]
  rfl

theorem descent_nonneg (level : component ≠ parent) : 0 ≤ descent component := by
  unfold descent
  split_ifs <;> decide

@[simp] theorem descent_parent : descent parent = -1 := rfl

theorem depth_nonneg (level : ∀ c ∈ cs, c ≠ parent) : 0 ≤ depth cs := by
  apply List.sum_nonneg
  intro d member
  obtain ⟨c, inside, rfl⟩ := List.mem_map.mp member
  exact descent_nonneg (level c inside)

/-- Components that do not lead up lead down unless they all stay. -/
theorem depth_eq_zero_iff (level : ∀ c ∈ cs, c ≠ parent) : depth cs = 0 ↔ ∀ c ∈ cs, Stays c := by
  induction cs with
  | nil => simp
  | cons c cs ih =>
    have here := level c (.head _)
    have later : ∀ d ∈ cs, d ≠ parent := fun d inside => level d (.tail _ inside)
    have rest := depth_nonneg later
    have first : depth (c :: cs) = descent c + depth cs := by simp [depth]
    rw [first, List.forall_mem_cons, ← ih later]
    by_cases stays : Stays c
    · simp [descent, stays]
    · simp only [descent, stays, here, if_false, false_and, iff_false]
      omega

theorem not_confined_of_parent (split : components path = parent :: cs) : ¬ Confined path := by
  intro confined
  have first : 0 ≤ depth [parent] := by
    simpa only [split, List.take_succ_cons, List.take_zero] using confined 1
  exact absurd first (by decide)

/-- A path that leads up at its end only is confined if it leads down before. -/
theorem confined_concat_iff {last : List Char} (split : components path = cs ++ [last])
    (level : ∀ c ∈ cs, c ≠ parent) :
    Confined path ↔ (last = parent → ¬ ∀ c ∈ cs, Stays c) := by
  have short : ∀ n, 0 ≤ depth (cs.take n) :=
    fun n => depth_nonneg fun c inside => level c (List.mem_of_mem_take inside)
  have whole := depth_nonneg level
  constructor
  · rintro confined rfl stays
    have wrong := confined (cs.length + 1)
    rw [split, List.take_of_length_le (by simp), depth_append, (depth_eq_zero_iff level).mpr stays] at wrong
    exact absurd wrong (by decide)
  · intro down n
    rw [split]
    by_cases inner : n ≤ cs.length
    · rw [List.take_append_of_le_length inner]
      exact short n
    · rw [List.take_of_length_le (by simp; omega), depth_append, depth_singleton]
      by_cases up : last = parent
      · have positive : depth cs ≠ 0 := fun zero => down up ((depth_eq_zero_iff level).mp zero)
        rw [up, descent_parent]
        omega
      · have := descent_nonneg up
        omega

end ComputerNetworks.Lib
