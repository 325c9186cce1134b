import Mathlib.Data.Multiset.Basic
import Mathlib.Order.Lattice
import Mathlib.Tactic.Common

/-!
# Binary heaps with the earliest element first

A heap in an array, as `std::push_heap` and `std::pop_heap` keep it. An element of
a heap has a key, and no cell has a smaller key than its parent. Among equal keys
a heap keeps no order, but an element that is pushed never overtakes an equal one
on its way up, so the root stays where it is while later elements come in.
-/

namespace ComputerNetworks.Lib

variable {α κ : Type*} [LinearOrder κ] (key : α → κ)

/-- The value in cell `i` moves up while it is strictly before its parent. -/
def siftUp (heap : Array α) (i : ℕ) : Array α :=
  if h : 0 < i ∧ i < heap.size then
    if key heap[i] < key heap[(i - 1) / 2] then
      siftUp (heap.swap i ((i - 1) / 2)) ((i - 1) / 2)
    else heap
  else heap
termination_by i

/-- The value in cell `i` moves down to a leaf, which is returned too. The left child
takes its place if it is strictly before the right one. -/
def sink (heap : Array α) (i : ℕ) : Array α × ℕ :=
  if h : 2 * i + 2 < heap.size then
    if key heap[2 * i + 1] < key heap[2 * i + 2] then
      sink (heap.swap i (2 * i + 1)) (2 * i + 1)
    else sink (heap.swap i (2 * i + 2)) (2 * i + 2)
  else if h : 2 * i + 1 < heap.size then (heap.swap i (2 * i + 1), 2 * i + 1)
  else (heap, i)
termination_by heap.size - i
decreasing_by all_goals (simp only [Array.size_swap]; omega)

/-- `push`: a new last cell, sifted up. -/
def pushHeap (heap : Array α) (a : α) : Array α := siftUp key (heap.push a) heap.size

/-- `push` for each of several elements. -/
def pushAll (heap : Array α) (items : List α) : Array α := items.foldl (pushHeap key) heap

/-- `pop`: the last value takes the place of the root, sinks to a leaf and is sifted up. -/
def popHeap (heap : Array α) : Array α :=
  let (sunk, hole) := sink key (heap.swapIfInBounds 0 (heap.size - 1)).pop 0
  siftUp key sunk hole

/-- Cell `c` is a child of cell `p`. -/
def IsChild (p c : ℕ) : Prop := c = 2 * p + 1 ∨ c = 2 * p + 2

theorem isChild_parent {i : ℕ} (inner : 0 < i) : IsChild ((i - 1) / 2) i := by
  unfold IsChild
  omega

theorem IsChild.lt {p c : ℕ} (child : IsChild p c) : p < c := by
  unfold IsChild at child
  omega

theorem IsChild.parent_eq {p c : ℕ} (child : IsChild p c) : p = (c - 1) / 2 := by
  unfold IsChild at child
  omega

/-- No cell is before its parent. -/
def Heaped (heap : Array α) : Prop :=
  ∀ p c x y, IsChild p c → heap[p]? = some x → heap[c]? = some y → key x ≤ key y

/-- A heap but for the value in cell `i`, whose neighbours fit together. -/
structure HoleAt (heap : Array α) (i : ℕ) : Prop where
  other : ∀ p c x y, IsChild p c → p ≠ i → c ≠ i →
    heap[p]? = some x → heap[c]? = some y → key x ≤ key y
  grand : ∀ p c x y, IsChild p i → IsChild i c →
    heap[p]? = some x → heap[c]? = some y → key x ≤ key y

variable {key} {heap : Array α} {i : ℕ} {root value : α}

/-! ### The order -/

/-- The root of a heap is a first element. -/
theorem Heaped.root_le (heaped : Heaped key heap) (top : heap[0]? = some root) {x : α}
    (member : x ∈ heap) : key root ≤ key x := by
  obtain ⟨j, at_j⟩ := Array.mem_iff_getElem?.mp member
  induction j using Nat.strong_induction_on generalizing x with
  | _ j ih =>
    by_cases first : j = 0
    · subst first
      have same : root = x := Option.some.inj (top.symm.trans at_j)
      exact le_of_eq (congrArg key same)
    -- the parent lies in an earlier cell, so that the root is not after it
    · have inside : j < heap.size := (Array.getElem?_eq_some_iff.mp at_j).1
      have parent : heap[(j - 1) / 2]? = some heap[(j - 1) / 2] := Array.getElem?_eq_getElem (by omega)
      calc key root
        _ ≤ key heap[(j - 1) / 2] :=
          ih _ (by omega) (Array.mem_of_getElem? parent) parent
        _ ≤ key x := heaped _ j _ _ (isChild_parent (by omega)) parent at_j

/-- A hole whose value is not before its parent nor after its children is none. -/
theorem HoleAt.fill (hole : HoleAt key heap i)
    (below : ∀ c x y, IsChild i c → heap[i]? = some x → heap[c]? = some y → key x ≤ key y)
    (above : ∀ p x y, IsChild p i → heap[p]? = some x → heap[i]? = some y → key x ≤ key y) :
    Heaped key heap := by
  intro p c x y child at_p at_c
  by_cases upper : p = i
  · subst upper
    exact below c x y child at_p at_c
  · by_cases lower : c = i
    · subst lower
      exact above p x y child at_p at_c
    · exact hole.other p c x y child upper lower at_p at_c

/-- Exchanging the value in the hole with its parent moves the hole up. -/
theorem HoleAt.rise (hole : HoleAt key heap i) {p : ℕ} (child : IsChild p i) (inside : i < heap.size)
    (h : p < heap.size) :
    HoleAt key (heap.swap i p) p := by
  have parent := child.parent_eq
  have lower := child.lt
  constructor
  · intro q c x y qc off_q off_c at_q at_c
    rw [Array.getElem?_swap] at at_q at_c
    -- only the cells around the hole change; its children now meet the old parent
    have := hole.other q c x y qc
    have := hole.grand p c x y child
    have := qc.parent_eq
    grind
  · intro q c x y up down at_q at_c
    rw [Array.getElem?_swap] at at_q at_c
    have := hole.other q p x
    have := hole.other p c
    have := up.lt
    have := down.lt
    grind

/-- Exchanging the value in the hole with a first child moves the hole down. -/
theorem HoleAt.fall (hole : HoleAt key heap i) {c : ℕ} (child : IsChild i c) (h : i < heap.size)
    (inside : c < heap.size)
    (first : ∀ s y, IsChild i s → heap[s]? = some y → key heap[c] ≤ key y) :
    HoleAt key (heap.swap i c) c := by
  have lower := child.lt
  constructor
  · intro q s x y qs off_q off_s at_q at_s
    rw [Array.getElem?_swap] at at_q at_s
    have := hole.other q s x y qs
    have := hole.grand q c x y
    have := qs.parent_eq
    have := child.parent_eq
    grind
  · intro q s x y up down at_q at_s
    rw [Array.getElem?_swap] at at_q at_s
    have := hole.other c s
    have := up.parent_eq
    have := child.parent_eq
    have := down.lt
    grind

/-- Sifting up mends a hole whose value is not after its children. -/
theorem HoleAt.siftUp (hole : HoleAt key heap i) (below : ∀ c x y, IsChild i c →
    heap[i]? = some x → heap[c]? = some y → key x ≤ key y) :
    Heaped key (siftUp key heap i) := by
  fun_induction Lib.siftUp key heap i with
  | case1 heap i h early ih =>
    have child := isChild_parent h.1
    apply ih (hole.rise child h.2 (by omega))
    -- the parent that came down fits above its own children
    intro c x y down at_p at_c
    rw [Array.getElem?_swap] at at_p at_c
    have := hole.other ((i - 1) / 2) c
    have := down.lt
    have := child.lt
    grind
  | case2 heap i h late =>
    apply hole.fill below
    intro p x y child at_p at_i
    have := child.parent_eq
    grind
  | case3 heap i h =>
    apply hole.fill below
    intro p x y child at_p at_i
    have := child.lt
    grind

/-- Sinking takes a hole to a leaf. -/
theorem HoleAt.sink (hole : HoleAt key heap i) :
    HoleAt key (sink key heap i).1 (sink key heap i).2 ∧
      ∀ c, IsChild (Lib.sink key heap i).2 c → (Lib.sink key heap i).1[c]? = none := by
  fun_induction Lib.sink key heap i with
  | case1 heap i h early ih =>
    apply ih (hole.fall (.inl rfl) (by omega) (by omega) _)
    intro s y child at_s
    unfold IsChild at child
    grind
  | case2 heap i h late ih =>
    apply ih (hole.fall (.inr rfl) (by omega) (by omega) _)
    intro s y child at_s
    unfold IsChild at child
    grind
  | case3 heap i two one =>
    refine ⟨hole.fall (.inl rfl) (by omega) one ?_, ?_⟩
    · intro s y child at_s
      unfold IsChild at child
      grind
    · intro c child
      have := child.lt
      unfold IsChild at child
      grind
  | case4 heap i two one =>
    refine ⟨hole, fun c child => ?_⟩
    unfold IsChild at child
    grind

/-! ### The elements -/

theorem siftUp_perm (heap : Array α) (i : ℕ) : (siftUp key heap i).Perm heap := by
  fun_induction siftUp key heap i with
  | case1 heap i h early ih => exact ih.trans (Array.swap_perm h.2 (by omega))
  | case2 => exact .rfl
  | case3 => exact .rfl

theorem sink_perm (heap : Array α) (i : ℕ) : (sink key heap i).1.Perm heap := by
  fun_induction sink key heap i with
  | case1 heap i h early ih => exact ih.trans (Array.swap_perm (by omega) (by omega))
  | case2 heap i h late ih => exact ih.trans (Array.swap_perm (by omega) (by omega))
  | case3 heap i two one => exact Array.swap_perm (by omega) one
  | case4 => exact .rfl

/-- A value that is not before the root does not take its place. -/
theorem siftUp_root (top : heap[0]? = some root) (at_i : heap[i]? = some value)
    (later : key root ≤ key value) : (siftUp key heap i)[0]? = some root := by
  fun_induction siftUp key heap i with
  | case1 heap i h early ih =>
    -- the parent is after the value, so it is not the root
    have inner : (i - 1) / 2 ≠ 0 := by
      intro first
      have same : root = heap[(i - 1) / 2] := by grind
      have now : value = heap[i] := by grind
      rw [same, now] at later
      exact absurd early later.not_gt
    apply ih
    · rw [Array.getElem?_swap, if_neg inner, if_neg (by omega)]
      exact top
    · rw [Array.getElem?_swap, if_pos rfl, ← at_i]
      exact (Array.getElem?_eq_getElem h.2).symm
  | case2 => exact top
  | case3 => exact top

/-- A value that is before all others becomes the root. -/
theorem siftUp_first (at_i : heap[i]? = some value)
    (first : ∀ j x, j ≠ i → heap[j]? = some x → key value < key x) :
    (siftUp key heap i)[0]? = some value := by
  fun_induction siftUp key heap i with
  | case1 heap i h early ih =>
    apply ih
    · rw [Array.getElem?_swap, if_pos rfl, ← at_i]
      exact (Array.getElem?_eq_getElem h.2).symm
    · intro j x other at_j
      rw [Array.getElem?_swap, if_neg other.symm] at at_j
      have := first j x
      have := first ((i - 1) / 2) x
      grind
  | case2 heap i h late =>
    have now : value = heap[i] := by grind
    have parent := first ((i - 1) / 2) heap[(i - 1) / 2] (by omega) (Array.getElem?_eq_getElem _)
    rw [now] at parent
    exact absurd parent late
  | case3 heap i h =>
    have inside : i < heap.size := (Array.getElem?_eq_some_iff.mp at_i).1
    have same : i = 0 := by omega
    rw [← same]
    exact at_i

/-! ### Pushing and popping -/

theorem Heaped.push (heaped : Heaped key heap) (a : α) : Heaped key (pushHeap key heap a) := by
  have hole : HoleAt key (heap.push a) heap.size := by
    constructor
    · intro p c x y child off_p off_c at_p at_c
      rw [Array.getElem?_push, if_neg ‹_›] at at_p at_c
      exact heaped p c x y child at_p at_c
    · intro p c x y up down at_p at_c
      have := down.lt
      grind
  apply hole.siftUp
  intro c x y down at_i at_c
  have := down.lt
  grind

theorem pushHeap_perm (heap : Array α) (a : α) :
    (pushHeap key heap a).toList.Perm (a :: heap.toList) := by
  have sifted : (pushHeap key heap a).toList.Perm (heap.push a).toList :=
    Array.perm_iff_toList_perm.mp (siftUp_perm _ _)
  rw [Array.toList_push] at sifted
  exact sifted.trans (List.perm_append_singleton a heap.toList)

theorem pushHeap_root (top : heap[0]? = some root) {a : α} (later : key root ≤ key a) :
    (pushHeap key heap a)[0]? = some root := by
  have inside : 0 < heap.size := (Array.getElem?_eq_some_iff.mp top).1
  apply siftUp_root _ Array.getElem?_push_size later
  rw [Array.getElem?_push, if_neg (by omega)]
  exact top

/-- An element that is before the root takes its place. -/
theorem Heaped.pushHeap_first (heaped : Heaped key heap) {a : α}
    (first : ∀ x, heap[0]? = some x → key a < key x) : (pushHeap key heap a)[0]? = some a := by
  apply siftUp_first Array.getElem?_push_size
  intro j x other at_j
  rw [Array.getElem?_push, if_neg other] at at_j
  have inside : 0 < heap.size := Nat.zero_lt_of_lt (Array.getElem?_eq_some_iff.mp at_j).1
  have top : heap[0]? = some heap[0] := Array.getElem?_eq_getElem inside
  exact (first _ top).trans_le (heaped.root_le top (Array.mem_of_getElem? at_j))

theorem pushAll_append (heap : Array α) (items others : List α) :
    pushAll key heap (items ++ others) = pushAll key (pushAll key heap items) others :=
  List.foldl_append

theorem Heaped.pushAll (heaped : Heaped key heap) (items : List α) :
    Heaped key (pushAll key heap items) := by
  induction items generalizing heap with
  | nil => exact heaped
  | cons a items ih => exact ih (heaped.push a)

theorem pushAll_perm (heap : Array α) (items : List α) :
    (pushAll key heap items).toList.Perm (items ++ heap.toList) := by
  induction items generalizing heap with
  | nil => exact .rfl
  | cons a items ih =>
    have first : (items ++ (pushHeap key heap a).toList).Perm (items ++ a :: heap.toList) :=
      (pushHeap_perm heap a).append_left items
    exact (ih _).trans (first.trans List.perm_middle)

/-- The root stays while elements come in that are not before it. -/
theorem pushAll_root (top : heap[0]? = some root) {items : List α}
    (later : ∀ a ∈ items, key root ≤ key a) : (pushAll key heap items)[0]? = some root := by
  induction items generalizing heap with
  | nil => exact top
  | cons a items ih =>
    exact ih (pushHeap_root top (later a (.head _))) fun b member => later b (.tail _ member)

theorem Heaped.pop (heaped : Heaped key heap) : Heaped key (popHeap key heap) := by
  have hole : HoleAt key (heap.swapIfInBounds 0 (heap.size - 1)).pop 0 := by
    constructor
    · intro p c x y child off_p off_c at_p at_c
      have := heaped p c x y child
      have := child.lt
      grind
    · intro p c x y up
      exact absurd up.lt (by omega)
  obtain ⟨sunk, leaf⟩ := hole.sink
  apply sunk.siftUp
  intro c x y child at_hole at_c
  rw [leaf c child] at at_c
  cases at_c

theorem popHeap_perm (top : heap[0]? = some root) :
    (root :: (popHeap key heap).toList).Perm heap.toList := by
  obtain ⟨inside, rfl⟩ := Array.getElem?_eq_some_iff.mp top
  have last : heap.size - 1 < heap.size := by omega
  have sifted : (popHeap key heap).Perm (heap.swapIfInBounds 0 (heap.size - 1)).pop :=
    (siftUp_perm _ _).trans (sink_perm _ _)
  rw [Array.swapIfInBounds_def, dif_pos inside, dif_pos last] at sifted
  -- the root is in the last cell when `pop_back` drops it
  have dropped : (heap.swap 0 (heap.size - 1)).pop.toList ++ [heap[0]] =
      (heap.swap 0 (heap.size - 1)).toList := by
    apply List.ext_getElem?
    intro j
    grind
  have exchanged : (heap.swap 0 (heap.size - 1)).toList.Perm heap.toList :=
    Array.perm_iff_toList_perm.mp (Array.swap_perm inside last)
  rw [← dropped] at exchanged
  exact ((Array.perm_iff_toList_perm.mp sifted).cons heap[0]).trans
    ((List.perm_append_singleton _ _).symm.trans exchanged)

/-- A way to remove the root of a heap. -/
structure Pop (key : α → κ) where
  pop : Array α → Array α
  heaped : ∀ {heap}, Heaped key heap → Heaped key (pop heap)
  perm : ∀ {heap root}, heap[0]? = some root → (root :: (pop heap).toList).Perm heap.toList

/-- The one of libstdc++. -/
def Pop.binary (key : α → κ) : Pop key where
  pop := popHeap key
  heaped := Heaped.pop
  perm := popHeap_perm

/-- A round of a loop that looks at the root, pushes elements that are not before it
and pops: the root is what it pops, and nothing else goes. -/
theorem Pop.round (p : Pop key) (heaped : Heaped key heap) (top : heap[0]? = some root)
    {items : List α} (later : ∀ a ∈ items, key root ≤ key a) :
    (pushAll key heap items)[0]? = some root ∧ Heaped key (p.pop (pushAll key heap items)) ∧
      (root :: (p.pop (pushAll key heap items)).toList).Perm (items ++ heap.toList) := by
  have stays := pushAll_root top later
  exact ⟨stays, p.heaped (heaped.pushAll items), (p.perm stays).trans (pushAll_perm heap items)⟩

/-- A round whose last element is before the root: this is the element that it pops. -/
theorem Pop.overtaken (p : Pop key) (heaped : Heaped key heap) (top : heap[0]? = some root)
    {items : List α} (later : ∀ a ∈ items, key root ≤ key a) {last : α} (before : key last < key root) :
    (pushAll key heap (items ++ [last]))[0]? = some last ∧
      Heaped key (p.pop (pushAll key heap (items ++ [last]))) ∧
      (p.pop (pushAll key heap (items ++ [last]))).toList.Perm (items ++ heap.toList) := by
  have pushed := heaped.pushAll items
  have first : (pushAll key heap (items ++ [last]))[0]? = some last := by
    rw [pushAll_append]
    apply pushed.pushHeap_first
    intro x at_root
    rw [pushAll_root top later] at at_root
    exact Option.some.inj at_root ▸ before
  refine ⟨first, p.heaped (heaped.pushAll _), ?_⟩
  -- what goes is the last element, and the rest is as before
  have all := (p.perm first).trans (pushAll_perm heap (items ++ [last]))
  rw [List.append_assoc, List.singleton_append] at all
  exact (all.trans List.perm_middle).cons_inv

end ComputerNetworks.Lib
