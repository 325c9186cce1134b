import Mathlib.Data.List.Basic
import Mathlib.Data.Nat.Notation
import Mathlib.Logic.Function.Basic

/-!
# Linked lists in memory

Cells that hold a value and the address of the next cell, in a memory in which an address may
be free. A list is named by the addresses of its cells.
-/

namespace ComputerNetworks.Lib

/-- A cell of a list. -/
structure Cell (β : Type*) where
  value : β
  next : Option ℕ

/-- What is at each address, `none` where nothing is allocated. -/
abbrev Heap (β : Type*) := ℕ → Option (Cell β)

variable {β : Type*} {heap heap' : Heap β} {a b : ℕ} {as bs : List ℕ}

/-- Behind the cell at `a`, the list goes through the cells at `as` and ends. -/
def Linked (heap : Heap β) : ℕ → List ℕ → Prop
  | a, [] => ∃ cell, heap a = some cell ∧ cell.next = none
  | a, b :: bs => ∃ cell, heap a = some cell ∧ cell.next = some b ∧ Linked heap b bs

theorem Linked.cell (h : Linked heap a as) : ∃ cell, heap a = some cell ∧ cell.next = as.head? := by
  cases as with
  | nil => exact h
  | cons b bs =>
    obtain ⟨cell, here, next, -⟩ := h
    exact ⟨cell, here, next⟩

/-- The rest of a list. -/
theorem Linked.behind (h : Linked heap a (as ++ b :: bs)) : Linked heap b bs := by
  induction as generalizing a with
  | nil =>
    obtain ⟨-, -, -, rest⟩ := h
    exact rest
  | cons c cs ih =>
    obtain ⟨-, -, -, rest⟩ := h
    exact ih rest

/-- The memory determines the list. -/
theorem Linked.unique (h : Linked heap a as) (h' : Linked heap a bs) : as = bs := by
  induction as generalizing a bs with
  | nil =>
    obtain ⟨cell, here, last⟩ := h
    obtain ⟨cell', here', next⟩ := h'.cell
    cases here.symm.trans here'
    rw [last] at next
    exact (List.head?_eq_none_iff.mp next.symm).symm
  | cons c cs ih =>
    obtain ⟨cell, here, next, rest⟩ := h
    obtain ⟨cell', here', next'⟩ := h'.cell
    cases here.symm.trans here'
    cases bs with
    | nil =>
      rw [next] at next'
      cases next'
    | cons b bs =>
      cases next.symm.trans next'
      obtain ⟨-, -, -, rest'⟩ := h'
      rw [ih rest rest']

/-- A list does not come back to where it starts. -/
theorem Linked.notMem (h : Linked heap a as) : a ∉ as := by
  intro member
  obtain ⟨front, back, rfl⟩ := List.append_of_mem member
  have size := congrArg List.length (h.unique h.behind)
  simp only [List.length_append, List.length_cons] at size
  omega

/-- The list depends on the links of its own cells alone. -/
theorem Linked.congr (h : Linked heap a as)
    (same : ∀ b ∈ a :: as, (heap' b).map Cell.next = (heap b).map Cell.next) :
    Linked heap' a as := by
  induction as generalizing a with
  | nil =>
    obtain ⟨cell, here, last⟩ := h
    have kept := same a List.mem_cons_self
    rw [here, Option.map_some, last, Option.map_eq_some_iff] at kept
    exact kept
  | cons b bs ih =>
    obtain ⟨cell, here, next, rest⟩ := h
    have kept := same a List.mem_cons_self
    rw [here, Option.map_some, next, Option.map_eq_some_iff] at kept
    obtain ⟨cell', here', next'⟩ := kept
    exact ⟨cell', here', next', ih rest fun c member => same c (List.mem_cons_of_mem _ member)⟩

/-- The memory after the cell at `b`, to which the one at `a` leads, is unlinked and freed. -/
def unlink (heap : Heap β) (a b : ℕ) (cell removed : Cell β) : Heap β :=
  Function.update (Function.update heap a (some { cell with next := removed.next })) b none

/-- Without its first cell, a list goes on with the second. -/
theorem Linked.unlink (h : Linked heap a (b :: bs)) (cell : Cell β) {removed : Cell β}
    (first : heap b = some removed) :
    Linked (unlink heap a b cell removed) a bs ∧ unlink heap a b cell removed b = none := by
  have apart := h.notMem
  rw [List.mem_cons, not_or] at apart
  obtain ⟨-, -, -, rest⟩ := h
  have head : Lib.unlink heap a b cell removed a = some { cell with next := removed.next } := by
    rw [Lib.unlink, Function.update_of_ne apart.1, Function.update_self]
  refine ⟨?_, Function.update_self ..⟩
  cases bs with
  | nil =>
    obtain ⟨cell', there, last⟩ := rest
    cases first.symm.trans there
    exact ⟨_, head, last⟩
  | cons c cs =>
    have away := rest.notMem
    obtain ⟨cell', there, next, rest⟩ := rest
    cases first.symm.trans there
    refine ⟨_, head, next, rest.congr fun d member => ?_⟩
    have ne : d ≠ b := fun same => away (same ▸ member)
    have ne' : d ≠ a := fun same => apart.2 (same ▸ member)
    rw [Lib.unlink, Function.update_of_ne ne, Function.update_of_ne ne']

end ComputerNetworks.Lib
