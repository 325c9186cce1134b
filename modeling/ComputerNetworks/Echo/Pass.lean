import ComputerNetworks.Echo.Node
import ComputerNetworks.Lib.LinkedList
import Mathlib.Data.Int.Notation
import Mathlib.Data.List.Nodup

/-!
# A pass over the connections

The part of the select loop that looks at every connection, and `dump`, on the linked list of
nodes in memory. A node that has been dumped is free, and the program is stopped when it looks
at one: nothing is known about what it does then.
-/

namespace ComputerNetworks.Echo.Pass

open Lib

/-- What `struct node` says about its connection. -/
structure ListNode where
  socket : ℤ
  node : Node

/-- Why a run does not get further. -/
inductive Stop
  /-- A freed node is looked at. -/
  | freed
  /-- The run is longer than what is asked for. -/
  | fuel
  deriving DecidableEq

/-- What a pass does. -/
inductive Event
  | sending (socket : ℤ)
  | recieving (socket : ℤ)
  | close (socket : ℤ)
  | dump (socket : ℤ)
  deriving DecidableEq

/-- What `select`, `send` and `recv` say. An error of `recv` is `none`. -/
structure Outcome where
  writeSet : ℤ → Bool
  readSet : ℤ → Bool
  send : ℤ → ℤ
  recv : ℤ → Option (List UInt8)

/-- The memory, and what has been done so far. -/
structure State where
  heap : Heap ListNode
  log : List Event

/-- The address of the local variable `head`. -/
abbrev head : ℕ := 0

/-- Look at a node. -/
def readNode (heap : Heap ListNode) (a : ℕ) : Except Stop (Cell ListNode) :=
  match heap a with
  | some cell => .ok cell
  | none => .error .freed

/-- The loop of `dump`. -/
def dump (socket : ℤ) : ℕ → Heap ListNode → ℕ → Except Stop (Heap ListNode)
  | 0, _, _ => .error .fuel
  | fuel + 1, heap, current => do
    let cell ← readNode heap current
    match cell.next with
    | none => return heap
    | some temp =>
      let removed ← readNode heap temp
      if removed.value.socket = socket then return unlink heap current temp cell removed
      else dump socket fuel heap temp

/-- The connection is closed, clean up. -/
def cleanUp (fuel : ℕ) (state : State) (current : ℕ) : Except Stop State := do
  let cell ← readNode state.heap current
  let heap ← dump cell.value.socket fuel state.heap head
  return ⟨heap, state.log ++ [.close cell.value.socket, .dump cell.value.socket]⟩

/-- A call of `serverSending` or `serverRecieving` changed the node at `current`. -/
def State.call (state : State) (current : ℕ) (cell : Cell ListNode) (node : Node)
    (event : Event) : State where
  heap := Function.update state.heap current (some ⟨⟨cell.value.socket, node⟩, cell.next⟩)
  log := state.log ++ [event]

/-- The write step of a connection. -/
def writeStep (outcome : Outcome) (fuel : ℕ) (state : State) (current : ℕ) :
    Except Stop State := do
  let cell ← readNode state.heap current
  let socket := cell.value.socket
  if outcome.writeSet socket then
    let count := outcome.send socket
    let node := (cell.value.node.serverSending count.toNat).1
    let state := state.call current cell node (.sending socket)
    if count ≤ 0 then cleanUp fuel state current else return state
  else return state

/-- The read step of a connection. -/
def readStep (outcome : Outcome) (fuel : ℕ) (state : State) (current : ℕ) :
    Except Stop State := do
  let cell ← readNode state.heap current
  let socket := cell.value.socket
  if outcome.readSet socket then
    let bytes := (outcome.recv socket).getD []
    let node := cell.value.node.serverRecieving bytes
    let state := state.call current cell node (.recieving socket)
    if bytes = [] then cleanUp fuel state current else return state
  else return state

/-- The loop over the list, from the node at `current` on. -/
def pass (outcome : Outcome) : ℕ → State → ℕ → Except Stop State
  | 0, _, _ => .error .fuel
  | fuel + 1, state, current => do
    let cell ← readNode state.heap current
    match cell.next with
    | none => return state
    | some current =>
      let state ← writeStep outcome fuel state current
      let state ← readStep outcome fuel state current
      pass outcome fuel state current

variable {outcome : Outcome} {heap : Heap ListNode} {state : State} {a b current fuel : ℕ}
  {as : List ℕ} {cell : Cell ListNode} {socket : ℤ}

theorem readNode_eq (here : heap a = some cell) : readNode heap a = .ok cell := by
  rw [readNode, here]

theorem readNode_freed (free : heap a = none) : readNode heap a = .error .freed := by
  rw [readNode, free]

/-! ### `dump` -/

/-- The socket of the node at an address. -/
def socketAt (heap : Heap ListNode) (a : ℕ) : Option ℤ := (heap a).map fun cell => cell.value.socket

/-- `dump` takes the first node with the socket out of the list and frees it. -/
theorem dump_spec {front back : List ℕ} (linked : Linked heap current (front ++ a :: back))
    (found : socketAt heap a = some socket) (first : ∀ x ∈ front, socketAt heap x ≠ some socket)
    (enough : front.length < fuel) :
    ∃ heap', dump socket fuel heap current = .ok heap' ∧ Linked heap' current (front ++ back) ∧
      heap' a = none ∧ ∀ x ∉ current :: (front ++ [a]), heap' x = heap x := by
  induction front generalizing current fuel with
  | nil =>
    obtain ⟨fuel, rfl⟩ : ∃ k, fuel = k + 1 := ⟨fuel - 1, by omega⟩
    obtain ⟨cell, here, next⟩ := linked.cell
    obtain ⟨removed, there, same⟩ := Option.map_eq_some_iff.mp found
    obtain ⟨rest, free⟩ := linked.unlink cell there
    refine ⟨_, ?_, rest, free, fun x away => ?_⟩
    · simp only [dump, bind, Except.bind, readNode_eq here, next, List.nil_append,
        List.head?_cons, readNode_eq there, if_pos same]
      rfl
    · simp only [List.nil_append, List.mem_cons, List.not_mem_nil, or_false, not_or] at away
      rw [unlink, Function.update_of_ne away.2, Function.update_of_ne away.1]
  | cons b front ih =>
    obtain ⟨fuel, rfl⟩ : ∃ k, fuel = k + 1 := ⟨fuel - 1, by omega⟩
    have outside := linked.notMem
    obtain ⟨cell, here, next, rest⟩ := linked
    obtain ⟨passed, there, -⟩ := Linked.cell rest
    have other : passed.value.socket ≠ socket := by
      have := first b List.mem_cons_self
      simpa [socketAt, there] using this
    rw [List.length_cons] at enough
    obtain ⟨heap', dumped, rest', free, kept⟩ :=
      ih rest (fun x member => first x (List.mem_cons_of_mem _ member)) (Nat.lt_of_succ_lt_succ enough)
    have away : current ∉ b :: (front ++ [a]) := by
      intro member
      apply outside
      simp only [List.mem_cons, List.mem_append, List.not_mem_nil, or_false, List.cons_append]
        at member ⊢
      tauto
    refine ⟨heap', ?_, ⟨cell, (kept current away).trans here, next, rest'⟩, free,
      fun x outside => kept x fun member => outside (List.mem_cons_of_mem _ member)⟩
    simp only [dump, bind, Except.bind, readNode_eq here, next, readNode_eq there, if_neg other,
      dumped]

/-- `dump` looks at all nodes in front of the one it takes out. -/
theorem dump_short {front back : List ℕ} (linked : Linked heap current (front ++ a :: back))
    (first : ∀ x ∈ front, socketAt heap x ≠ some socket) (short : fuel ≤ front.length) :
    dump socket fuel heap current = .error .fuel := by
  induction front generalizing current fuel with
  | nil =>
    obtain rfl : fuel = 0 := Nat.le_zero.mp short
    rfl
  | cons b front ih =>
    cases fuel with
    | zero => rfl
    | succ fuel =>
      obtain ⟨cell, here, next, rest⟩ := linked
      obtain ⟨passed, there, -⟩ := Linked.cell rest
      have other : passed.value.socket ≠ socket := by
        have := first b List.mem_cons_self
        simpa [socketAt, there] using this
      have later := ih rest (fun x member => first x (List.mem_cons_of_mem _ member))
        (Nat.le_of_succ_le_succ short)
      simp only [dump, bind, Except.bind, readNode_eq here, next, readNode_eq there, if_neg other,
        later]

/-! ### One connection -/

/-- The same list with the same sockets. -/
structure SameList (heap heap' : Heap ListNode) : Prop where
  next : ∀ a, (heap' a).map Cell.next = (heap a).map Cell.next
  socket : ∀ a, socketAt heap' a = socketAt heap a

theorem SameList.refl (heap : Heap ListNode) : SameList heap heap := ⟨fun _ => rfl, fun _ => rfl⟩

theorem SameList.trans {heap₁ heap₂ heap₃ : Heap ListNode} (h : SameList heap₁ heap₂)
    (h' : SameList heap₂ heap₃) : SameList heap₁ heap₃ :=
  ⟨fun a => (h'.next a).trans (h.next a), fun a => (h'.socket a).trans (h.socket a)⟩

theorem SameList.linked {heap' : Heap ListNode} (h : SameList heap heap')
    (linked : Linked heap a as) : Linked heap' a as :=
  linked.congr fun b _ => h.next b

theorem State.call_sameList (here : state.heap current = some cell) (node : Node) (event : Event) :
    SameList state.heap (state.call current cell node event).heap := by
  constructor
  · intro a
    by_cases same : a = current
    · subst same
      simp [State.call, here]
    · simp [State.call, same]
  · intro a
    by_cases same : a = current
    · subst same
      simp [State.call, socketAt, here]
    · simp [State.call, socketAt, same]

/-- A call of `serverSending` that does not return a positive count. -/
def Outcome.sendFails (outcome : Outcome) (socket : ℤ) : Bool :=
  outcome.writeSet socket && decide (outcome.send socket ≤ 0)

/-- A call of `serverRecieving` that does not return a positive count. -/
def Outcome.recvFails (outcome : Outcome) (socket : ℤ) : Bool :=
  outcome.readSet socket && decide ((outcome.recv socket).getD [] = [])

def Outcome.sendCalls (outcome : Outcome) (socket : ℤ) : List Event :=
  if outcome.writeSet socket then [.sending socket] else []

def Outcome.recvCalls (outcome : Outcome) (socket : ℤ) : List Event :=
  if outcome.readSet socket then [.recieving socket] else []

theorem writeStep_of_works (here : state.heap current = some cell)
    (works : outcome.sendFails cell.value.socket = false) (fuel : ℕ) :
    ∃ state', writeStep outcome fuel state current = .ok state' ∧
      SameList state.heap state'.heap ∧
        state'.log = state.log ++ outcome.sendCalls cell.value.socket := by
  simp only [writeStep, bind, Except.bind, readNode_eq here]
  by_cases ready : outcome.writeSet cell.value.socket = true
  · have positive : ¬ outcome.send cell.value.socket ≤ 0 := by simpa [Outcome.sendFails, ready] using works
    simp only [if_pos ready, if_neg positive]
    refine ⟨_, rfl, state.call_sameList here _ _, ?_⟩
    rw [Outcome.sendCalls, if_pos ready]
    rfl
  · rw [if_neg ready]
    refine ⟨state, rfl, .refl _, ?_⟩
    rw [Outcome.sendCalls, if_neg ready, List.append_nil]

theorem readStep_of_works (here : state.heap current = some cell)
    (works : outcome.recvFails cell.value.socket = false) (fuel : ℕ) :
    ∃ state', readStep outcome fuel state current = .ok state' ∧
      SameList state.heap state'.heap ∧
        state'.log = state.log ++ outcome.recvCalls cell.value.socket := by
  simp only [readStep, bind, Except.bind, readNode_eq here]
  by_cases ready : outcome.readSet cell.value.socket = true
  · have some : (outcome.recv cell.value.socket).getD [] ≠ [] := by
      simpa [Outcome.recvFails, ready] using works
    simp only [if_pos ready, if_neg some]
    refine ⟨_, rfl, state.call_sameList here _ _, ?_⟩
    rw [Outcome.recvCalls, if_pos ready]
    rfl
  · rw [if_neg ready]
    refine ⟨state, rfl, .refl _, ?_⟩
    rw [Outcome.recvCalls, if_neg ready, List.append_nil]

/-- The list consists of `front` and `rest`, and the loop stands before `rest`. -/
structure Standing (front rest : List ℕ) (current : ℕ) (heap : Heap ListNode) : Prop where
  linked : Linked heap head (front ++ rest)
  distinct : ((front ++ rest).map (socketAt heap)).Nodup
  behind : Linked heap current rest

variable {front rest : List ℕ}

theorem Standing.congr {heap' : Heap ListNode} (h : Standing front rest current heap)
    (same : SameList heap heap') : Standing front rest current heap' where
  linked := same.linked h.linked
  distinct := by
    rw [funext same.socket]
    exact h.distinct
  behind := same.linked h.behind

/-- The loop goes on with the next node. -/
theorem Standing.advance (h : Standing front (a :: rest) current heap) :
    Standing (front ++ [a]) rest a heap where
  linked := by simpa using h.linked
  distinct := by simpa using h.distinct
  behind := by
    obtain ⟨-, -, -, rest⟩ := h.behind
    exact rest

theorem Standing.first (h : Standing front (a :: rest) current heap)
    (found : socketAt heap a = some socket) : ∀ x ∈ front, socketAt heap x ≠ some socket := by
  have distinct := h.distinct
  rw [List.map_append, List.map_cons, List.nodup_append] at distinct
  intro x member same
  exact distinct.2.2 _ (List.mem_map_of_mem member) _ List.mem_cons_self (same.trans found.symm)

/-- Cleaning up frees the node that the loop looks at. -/
theorem Standing.cleanUp (h : Standing front (a :: rest) current state.heap) (fuel : ℕ) :
    cleanUp fuel state a = .error .fuel ∧ fuel ≤ front.length ∨
      ∃ state', cleanUp fuel state a = .ok state' ∧ state'.heap a = none := by
  obtain ⟨-, -, -, here⟩ := h.behind
  obtain ⟨cell, here, -⟩ := here.cell
  have found : socketAt state.heap a = some cell.value.socket := by rw [socketAt, here]; rfl
  simp only [Pass.cleanUp, bind, Except.bind, readNode_eq here]
  rcases Nat.lt_or_ge front.length fuel with enough | short
  · right
    obtain ⟨heap', dumped, -, free, -⟩ := dump_spec h.linked found (h.first found) enough
    rw [dumped]
    exact ⟨_, rfl, free⟩
  · left
    rw [dump_short h.linked (h.first found) short]
    exact ⟨rfl, short⟩

theorem Standing.writeStep_of_fails (h : Standing front (a :: rest) current state.heap)
    (here : state.heap a = some cell) (fails : outcome.sendFails cell.value.socket = true)
    (fuel : ℕ) :
    writeStep outcome fuel state a = .error .fuel ∧ fuel ≤ front.length ∨
      ∃ state', writeStep outcome fuel state a = .ok state' ∧ state'.heap a = none := by
  obtain ⟨ready, failed⟩ : outcome.writeSet cell.value.socket = true ∧
    outcome.send cell.value.socket ≤ 0 := by simpa [Outcome.sendFails] using fails
  simp only [writeStep, bind, Except.bind, readNode_eq here, if_pos ready, if_pos failed]
  exact (h.congr (state.call_sameList here _ _)).cleanUp fuel

theorem Standing.readStep_of_fails (h : Standing front (a :: rest) current state.heap)
    (here : state.heap a = some cell) (fails : outcome.recvFails cell.value.socket = true)
    (fuel : ℕ) :
    readStep outcome fuel state a = .error .fuel ∧ fuel ≤ front.length ∨
      ∃ state', readStep outcome fuel state a = .ok state' ∧ state'.heap a = none := by
  obtain ⟨ready, failed⟩ : outcome.readSet cell.value.socket = true ∧
    (outcome.recv cell.value.socket).getD [] = [] := by simpa [Outcome.recvFails] using fails
  simp only [readStep, bind, Except.bind, readNode_eq here, if_pos ready, if_pos failed]
  exact (h.congr (state.call_sameList here _ _)).cleanUp fuel

/-! ### The loop -/

/-- Some call that is due for the connection of the node at `a` does not return a positive
count. -/
def failsAt (outcome : Outcome) (heap : Heap ListNode) (a : ℕ) : Bool :=
  (socketAt heap a).any fun socket => outcome.sendFails socket || outcome.recvFails socket

/-- The calls for the connection of the node at `a`. -/
def callsAt (outcome : Outcome) (heap : Heap ListNode) (a : ℕ) : List Event :=
  (socketAt heap a).elim [] fun socket => outcome.sendCalls socket ++ outcome.recvCalls socket

theorem SameList.failsAt {heap' : Heap ListNode} (h : SameList heap heap') :
    failsAt outcome heap' = failsAt outcome heap := by
  funext a
  rw [Pass.failsAt, Pass.failsAt, h.socket]

theorem SameList.callsAt {heap' : Heap ListNode} (h : SameList heap heap') :
    callsAt outcome heap' = callsAt outcome heap := by
  funext a
  rw [Pass.callsAt, Pass.callsAt, h.socket]

theorem failsAt_eq (found : socketAt heap a = some socket) :
    failsAt outcome heap a = (outcome.sendFails socket || outcome.recvFails socket) := by
  rw [failsAt, found, Option.any_some]

/-- The node that is looked at is still there. -/
theorem SameList.node {heap' : Heap ListNode} (h : SameList heap heap') (here : heap a = some cell) :
    ∃ cell', heap' a = some cell' ∧ cell'.value.socket = cell.value.socket := by
  have kept := h.socket a
  rw [socketAt, socketAt, here, Option.map_some, Option.map_eq_some_iff] at kept
  exact kept

/-- When both calls for a connection return a positive count, the loop goes on to the next
node. -/
theorem Standing.pass_cons (h : Standing front (a :: rest) current state.heap)
    (works : failsAt outcome state.heap a = false) (fuel : ℕ) :
    ∃ state', pass outcome (fuel + 1) state current = pass outcome fuel state' a ∧
      SameList state.heap state'.heap ∧
        state'.log = state.log ++ callsAt outcome state.heap a := by
  obtain ⟨cell, here, next, behind⟩ := h.behind
  obtain ⟨node, there, -⟩ := Linked.cell behind
  have found : socketAt state.heap a = some node.value.socket := by rw [socketAt, there]; rfl
  rw [failsAt_eq found, Bool.or_eq_false_iff] at works
  obtain ⟨sends, receives⟩ := works
  obtain ⟨state₁, wrote, same₁, log₁⟩ := writeStep_of_works there sends fuel
  obtain ⟨node₁, there₁, socket₁⟩ := same₁.node there
  obtain ⟨state₂, got, same₂, log₂⟩ := readStep_of_works there₁ (socket₁ ▸ receives) fuel
  refine ⟨state₂, ?_, same₁.trans same₂, ?_⟩
  · simp only [pass, bind, Except.bind, readNode_eq here, next, wrote, got]
  · rw [log₂, log₁, socket₁, callsAt, found, Option.elim_some, List.append_assoc]

/-- While every call returns a positive count, the loop goes through the list. -/
theorem Standing.pass_of_works (h : Standing front rest current state.heap)
    (works : ∀ a ∈ rest, failsAt outcome state.heap a = false) (enough : rest.length < fuel) :
    ∃ final, pass outcome fuel state current = .ok final ∧ SameList state.heap final.heap ∧
      final.log = state.log ++ rest.flatMap (callsAt outcome state.heap) := by
  induction rest generalizing front current state fuel with
  | nil =>
    obtain ⟨fuel, rfl⟩ : ∃ k, fuel = k + 1 := ⟨fuel - 1, by omega⟩
    obtain ⟨cell, here, last⟩ := h.behind
    refine ⟨state, ?_, .refl _, by simp⟩
    simp only [pass, bind, Except.bind, readNode_eq here, last]
    rfl
  | cons a rest ih =>
    obtain ⟨fuel, rfl⟩ : ∃ k, fuel = k + 1 := ⟨fuel - 1, by omega⟩
    obtain ⟨state', on, same, log⟩ := h.pass_cons (works a List.mem_cons_self) fuel
    rw [List.length_cons] at enough
    have later : ∀ b ∈ rest, failsAt outcome state'.heap b = false := by
      intro b member
      rw [same.failsAt]
      exact works b (List.mem_cons_of_mem _ member)
    obtain ⟨final, passed, same', log'⟩ :=
      ih (h.congr same).advance later (Nat.lt_of_succ_lt_succ enough)
    refine ⟨final, on.trans passed, same.trans same', ?_⟩
    rw [log', log, same.callsAt, List.flatMap_cons, List.append_assoc]

/-- The loop does not get beyond a call that does not return a positive count: the read step
looks at the socket of the freed node, and the loop at its link. -/
theorem Standing.stuck (h : Standing front (a :: rest) current state.heap)
    (here : state.heap current = some cell) (next : cell.next = some a)
    (fails : failsAt outcome state.heap a = true) (fuel : ℕ) :
    pass outcome (fuel + 1) state current = .error .freed ∨
      pass outcome (fuel + 1) state current = .error .fuel ∧ fuel ≤ front.length := by
  obtain ⟨-, -, -, behind⟩ := h.behind
  obtain ⟨node, there, -⟩ := behind.cell
  have found : socketAt state.heap a = some node.value.socket := by rw [socketAt, there]; rfl
  rw [failsAt_eq found] at fails
  simp only [pass, bind, Except.bind, readNode_eq here, next]
  cases sends : outcome.sendFails node.value.socket with
  | true =>
    rcases h.writeStep_of_fails there sends fuel with ⟨short, bound⟩ | ⟨state₁, wrote, free⟩
    · rw [short]
      exact .inr ⟨rfl, bound⟩
    · have stuck : readStep outcome fuel state₁ a = .error .freed := by
        simp only [readStep, bind, Except.bind, readNode_freed free]
      left
      simp only [wrote, stuck]
  | false =>
    obtain ⟨state₁, wrote, same₁, -⟩ := writeStep_of_works there sends fuel
    obtain ⟨node₁, there₁, socket₁⟩ := same₁.node there
    rw [sends, Bool.false_or, ← socket₁] at fails
    simp only [wrote]
    rcases (h.congr same₁).readStep_of_fails there₁ fails fuel with
      ⟨short, bound⟩ | ⟨state₂, got, free⟩
    · rw [short]
      exact .inr ⟨rfl, bound⟩
    · simp only [got]
      cases fuel with
      | zero => exact .inr ⟨rfl, Nat.zero_le _⟩
      | succ fuel =>
        left
        simp only [pass, bind, Except.bind, readNode_freed free]

/-- After a call that does not return a positive count, the loop looks at the node it has
freed. -/
theorem Standing.pass_of_fails (h : Standing front rest current state.heap)
    (fails : ∃ a ∈ rest, failsAt outcome state.heap a = true) (fuel : ℕ) :
    pass outcome fuel state current = .error .freed ∨
      pass outcome fuel state current = .error .fuel ∧
        fuel ≤ front.length + 2 * rest.length := by
  induction rest generalizing front current state fuel with
  | nil =>
    obtain ⟨a, member, -⟩ := fails
    cases member
  | cons a rest ih =>
    cases fuel with
    | zero => exact .inr ⟨rfl, Nat.zero_le _⟩
    | succ fuel =>
      rw [List.length_cons]
      cases failing : failsAt outcome state.heap a with
      | true =>
        obtain ⟨cell, here, next, -⟩ := h.behind
        rcases h.stuck here next failing fuel with freed | ⟨short, bound⟩
        · exact .inl freed
        · exact .inr ⟨short, by omega⟩
      | false =>
        obtain ⟨state', on, same, -⟩ := h.pass_cons failing fuel
        have later : ∃ b ∈ rest, failsAt outcome state'.heap b = true := by
          obtain ⟨b, member, fails⟩ := fails
          refine ⟨b, (List.mem_cons.mp member).resolve_left ?_, same.failsAt ▸ fails⟩
          rintro rfl
          rw [failing] at fails
          cases fails
        rw [on]
        rcases ih (h.congr same).advance later fuel with freed | ⟨short, bound⟩
        · exact .inl freed
        · rw [List.length_append, List.length_singleton] at bound
          exact .inr ⟨short, by omega⟩

/-! ### The pass -/

/-- The list of connections, in memory, with distinct sockets. -/
structure ConnectionList where
  heap : Heap ListNode
  nodes : List ℕ
  linked : Linked heap head nodes
  distinct : (nodes.map (socketAt heap)).Nodup

/-- What a pass is to do. -/
structure Law (outcome : Outcome) (list : ConnectionList) (final : State) : Prop where
  once : ∀ socket, final.log.count (.close socket) ≤ 1 ∧ final.log.count (.dump socket) ≤ 1
  handled : ∀ a ∈ list.nodes, ∀ event ∈ callsAt outcome list.heap a, event ∈ final.log
  /-- The failed connections are gone, and the others are in their old order. -/
  linked : Linked final.heap head (list.nodes.filter fun a => !failsAt outcome list.heap a)

theorem ConnectionList.standing (list : ConnectionList) :
    Standing [] list.nodes head list.heap := ⟨list.linked, list.distinct, list.linked⟩

/-- No call closes or dumps a connection. -/
theorem notMem_callsAt (outcome : Outcome) (heap : Heap ListNode) (a : ℕ) (socket : ℤ) :
    .close socket ∉ callsAt outcome heap a ∧ .dump socket ∉ callsAt outcome heap a := by
  cases found : socketAt heap a with
  | none => simp [callsAt, found]
  | some s =>
    simp only [callsAt, found, Option.elim_some, Outcome.sendCalls, Outcome.recvCalls]
    constructor <;> split_ifs <;> simp

theorem law_of_works {list : ConnectionList} {final : State}
    (works : ∀ a ∈ list.nodes, failsAt outcome list.heap a = false)
    (same : SameList list.heap final.heap)
    (log : final.log = list.nodes.flatMap (callsAt outcome list.heap)) : Law outcome list final where
  once := by
    intro socket
    have absent : .close socket ∉ final.log ∧ .dump socket ∉ final.log := by
      rw [log, List.mem_flatMap, List.mem_flatMap]
      constructor
      · rintro ⟨a, -, member⟩
        exact (notMem_callsAt outcome list.heap a socket).1 member
      · rintro ⟨a, -, member⟩
        exact (notMem_callsAt outcome list.heap a socket).2 member
    rw [List.count_eq_zero_of_not_mem absent.1, List.count_eq_zero_of_not_mem absent.2]
    decide
  handled := by
    intro a member event call
    rw [log]
    exact List.mem_flatMap.mpr ⟨a, member, call⟩
  linked := by
    have all : (list.nodes.filter fun a => !failsAt outcome list.heap a) = list.nodes := by
      rw [List.filter_eq_self]
      intro a member
      rw [works a member]
      rfl
    rw [all]
    exact same.linked list.linked

/-- A pass does what it is to do exactly when every call that is due returns a positive count,
and otherwise it looks at a node that it has freed. -/
theorem pass_law_iff (outcome : Outcome) (list : ConnectionList) :
    ((∃ fuel final, pass outcome fuel ⟨list.heap, []⟩ head = .ok final ∧
        Law outcome list final) ↔ ∀ a ∈ list.nodes, failsAt outcome list.heap a = false) ∧
      ∀ fuel > 2 * list.nodes.length, pass outcome fuel ⟨list.heap, []⟩ head = .error .freed ↔
        ∃ a ∈ list.nodes, failsAt outcome list.heap a = true := by
  have standing : Standing [] list.nodes head (State.mk list.heap []).heap := list.standing
  constructor
  · constructor
    · rintro ⟨fuel, final, passed, -⟩ a member
      rw [← Bool.not_eq_true]
      intro fails
      rcases standing.pass_of_fails ⟨a, member, fails⟩ fuel with freed | ⟨short, -⟩
      · rw [freed] at passed
        cases passed
      · rw [short] at passed
        cases passed
    · intro works
      obtain ⟨final, passed, same, log⟩ :=
        standing.pass_of_works works (Nat.lt_succ_self list.nodes.length)
      exact ⟨_, final, passed, law_of_works works same log⟩
  · intro fuel enough
    constructor
    · intro freed
      by_contra none
      have works : ∀ a ∈ list.nodes, failsAt outcome list.heap a = false := by
        intro a member
        rw [← Bool.not_eq_true]
        exact fun fails => none ⟨a, member, fails⟩
      have enough' : list.nodes.length < fuel := by omega
      obtain ⟨final, passed, -⟩ := standing.pass_of_works works enough'
      rw [freed] at passed
      cases passed
    · intro fails
      rcases standing.pass_of_fails fails fuel with freed | ⟨-, bound⟩
      · exact freed
      · rw [List.length_nil] at bound
        omega

/-- The list of one connection, whose socket is 4. -/
def oneConnection : ConnectionList where
  heap := fun a =>
    if a = 0 then some ⟨⟨0, .fresh fun _ => 0⟩, some 1⟩
    else if a = 1 then some ⟨⟨4, .fresh fun _ => 0⟩, none⟩
    else none
  nodes := [1]
  linked := ⟨_, rfl, rfl, _, rfl, rfl⟩
  distinct := List.nodup_singleton _

/-- The peer has closed the connection, and `recv` returns 0. -/
def peerClosed : Outcome := ⟨fun _ => false, fun _ => true, fun _ => 0, fun _ => some []⟩

/-- The loop goes on from the node that it has freed. -/
theorem not_law_peerClosed :
    ¬ ∃ fuel final, pass peerClosed fuel ⟨oneConnection.heap, []⟩ head = .ok final ∧
      Law peerClosed oneConnection final := by
  rintro ⟨fuel, final, passed, -⟩
  have standing : Standing [] oneConnection.nodes head (State.mk oneConnection.heap []).heap :=
    oneConnection.standing
  have fails : ∃ a ∈ oneConnection.nodes, failsAt peerClosed oneConnection.heap a = true :=
    ⟨1, List.mem_cons_self, rfl⟩
  rcases standing.pass_of_fails fails fuel with freed | ⟨short, -⟩
  · rw [freed] at passed
    cases passed
  · rw [short] at passed
    cases passed

end ComputerNetworks.Echo.Pass
