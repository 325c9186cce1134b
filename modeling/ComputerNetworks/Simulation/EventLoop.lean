import ComputerNetworks.Lib.Traversal
import ComputerNetworks.Simulation.Simulator
import Mathlib.Algebra.Order.Ring.Rat
import Mathlib.Data.Nat.Cast.Order.Ring

/-!
# The event loop

The loop dispatches an event while it is still at the root of `event_q`, and pops only
afterwards. No handler schedules anything before the time of its own event, so the root
stays where it is, the event that goes is the one dispatched, and time does not go back.
-/

namespace ComputerNetworks.Simulation

open Lib Routing

/-- The event changes the delay of a link. -/
def EventKind.changesDelay (number : ℕ) : EventKind → Bool
  | .changeDelay other _ => other = number
  | _ => false

/-- The call of a router that an event makes, with what is scheduled behind it. -/
def EventKind.calls (time junk : ℕ) : EventKind → Option (ℕ × Routing.Event × List Request)
  | .xmitPktEndToEnd src pkt => some (src, .recv time 0xffff pkt junk, [])
  | .recvPkt dest dport pkt => some (dest, .recv time dport pkt junk, [])
  | .alarm id type => some (id, .alarm time type, [⟨time + period type, .alarm id type⟩])
  | _ => none

theorem EventKind.calls_alarm {kind : EventKind} {time junk id now : ℕ} {type : AlarmType}
    {rest : List Request} (calls : kind.calls time junk = some (id, .alarm now type, rest)) :
    kind = .alarm id type ∧ now = time ∧ rest = [⟨time + period type, .alarm id type⟩] := by
  cases kind <;> cases calls
  exact ⟨rfl, rfl, rfl⟩

/-- How an event can leave a link: it keeps its loss and, but for the two kinds of events about
them, its delay and its life. -/
structure Link.Follows (event : Event) (number : ℕ) (link after : Link) : Prop where
  loss : after.tenLossProb = link.tenLossProb
  delay : event.kind.changesDelay number = false → after.delay = link.delay
  alive : event.kind ≠ .linkDie number → link.isAlive = true → after.isAlive = true

theorem Event.time_lt (event : Event) : event.time < 2 ^ 32 := Nat.mod_lt _ (by decide)

theorem Event.time_eq {event : Event} (narrow : event.due < 2 ^ 32) : event.time = event.due :=
  Nat.mod_eq_of_lt narrow

namespace Simulator

variable {s after : Simulator} {requests : List Request}

/-! ### What a dispatch does to the queue -/

@[simp] theorem events_length (allocated : ℕ) : (events allocated requests).length = requests.length := by
  simp [events]

theorem events_serials (allocated : ℕ) (requests : List Request) :
    (events allocated requests).map Event.serial = List.range' allocated requests.length := by
  rw [← List.zipIdx_map_snd allocated requests, events, List.map_map]
  rfl

theorem mem_events {allocated : ℕ} {event : Event} (member : event ∈ events allocated requests) :
    event.toRequest ∈ requests := by
  obtain ⟨⟨request, serial⟩, zipped, rfl⟩ := List.mem_map.mp member
  exact List.fst_mem_of_mem_zipIdx zipped

theorem exists_event (allocated : ℕ) {request : Request} (member : request ∈ requests) :
    ∃ event ∈ events allocated requests, event.toRequest = request ∧ allocated ≤ event.serial := by
  obtain ⟨k, inside, rfl⟩ := List.getElem_of_mem member
  refine ⟨⟨requests[k], allocated + k⟩, ?_, rfl, Nat.le_add_right _ _⟩
  refine List.mem_map.mpr ⟨(requests[k], allocated + k), ?_, rfl⟩
  exact List.mk_add_mem_zipIdx_iff_getElem?.mpr (List.getElem?_eq_getElem inside)

theorem events_append (allocated : ℕ) (others : List Request) : events allocated (requests ++ others) =
    events allocated requests ++ events (allocated + requests.length) others := by
  simp only [events, List.zipIdx_append, List.map_append]

/-- What every handler leaves alone: only the loop touches the queue and the clock. -/
structure SameQueue (s after : Simulator) : Prop where
  eventQ : after.eventQ = s.eventQ
  globalTime : after.globalTime = s.globalTime
  stopTime : after.stopTime = s.stopTime
  linkVector : after.linkVector = s.linkVector
  allocated : after.allocated = s.allocated

theorem send_due {id : ℕ} {packet : Send} {request : Request} (sent : s.send id packet = some request) :
    request.due = s.globalTime := by
  simp only [send, Option.bind_eq_bind, Option.bind_eq_some_iff, Option.pure_def] at sent
  obtain ⟨number, -, link, -, port, -, made⟩ := sent
  exact congrArg Request.due (Option.some.inj made).symm

/-- A call goes through when the packets fit and each of them finds a link. -/
theorem call_eq_some {id : ℕ} {event : Routing.Event} {rest : List Request}
    (called : s.call id event rest = some (after, requests)) : ∃ router sent,
      s.routers id = some router ∧ (∀ packet ∈ (router.handle event).2, packet.2.fits = true) ∧
        (router.handle event).2.mapM (s.send id) = some sent ∧
          after = { s with routers := Function.update s.routers id (some (router.handle event).1) } ∧
            requests = sent ++ rest := by
  simp only [call, Option.bind_eq_bind, Option.bind_eq_some_iff, Option.ite_none_right_eq_some,
    List.all_eq_true, Option.pure_def, Option.some.injEq, Prod.mk.injEq] at called
  obtain ⟨router, found, fits, sent, made, rfl, rfl⟩ := called
  exact ⟨router, sent, found, fits, made, rfl, rfl⟩

/-- What a call of a router does: it changes no link, and what it schedules are
transmissions at this very time, before the rest. -/
theorem call_cases {id : ℕ} {event : Routing.Event} {rest : List Request}
    (called : s.call id event rest = some (after, requests)) :
    SameQueue s after ∧ after.links = s.links ∧ ∃ sent, requests = sent ++ rest ∧
      ∀ request ∈ sent, ∃ packet, s.send id packet = some request := by
  obtain ⟨router, sent, -, -, made, rfl, rfl⟩ := call_eq_some called
  refine ⟨⟨rfl, rfl, rfl, rfl, rfl⟩, rfl, sent, rfl, fun request member => ?_⟩
  obtain ⟨packet, -, request⟩ := exists_of_mem_mapM made member
  exact ⟨packet, request⟩

theorem onLink_cases {number : ℕ} {change : Link → Link}
    (changed : s.onLink number change = some (after, requests)) :
    SameQueue s after ∧ requests = [] ∧
      ∃ link, s.links[number]? = some link ∧ after.links = s.links.set number (change link) := by
  simp only [onLink, Option.map_eq_some_iff, Prod.mk.injEq] at changed
  obtain ⟨link, found, rfl, rfl⟩ := changed
  exact ⟨⟨rfl, rfl, rfl, rfl, rfl⟩, rfl, link, found, rfl⟩

variable {choice : Choice} {event : Event}

theorem dispatch_of_calls {id : ℕ} {called : Routing.Event} {rest : List Request}
    (now : s.globalTime = event.time)
    (calls : event.kind.calls event.time choice.junk = some (id, called, rest)) :
    s.dispatch choice event = s.call id called rest := by
  unfold dispatch
  cases kind : event.kind <;> rw [kind] at calls <;> cases calls <;> simp only [now]

/-- What a dispatch comes to: a call of a router, a change of a link, or a transmission. -/
inductive Dispatched (s after : Simulator) (requests : List Request) (event : Event) : Prop
  | call (id : ℕ) (called : Routing.Event) (rest : List Request)
      (made : s.call id called rest = some (after, requests))
      (alarms : rest = [] ∨ ∃ type, rest = [⟨s.globalTime + period type, .alarm id type⟩])
      (quiet : event.route = none)
  | change (number : ℕ) (change : Link → Link) (made : s.onLink number change = some (after, requests))
      (follows : ∀ link, Link.Follows event number link (change link)) (quiet : event.route = none)
  | xmit (dest number : ℕ) (link : Link) (route : event.route = some (dest, number))
      (found : s.links[number]? = some link) (same : after = s) (atMost : requests.length ≤ 1)
      (arrivals : ∀ request ∈ requests,
        request.route = none ∧ request.due = event.time + link.delay.toNat)
      (passes : link.isAlive = true → link.tenLossProb ≤ 0 → requests ≠ [])

theorem dispatch_cases (dispatched : s.dispatch choice event = some (after, requests)) :
    Dispatched s after requests event := by
  unfold dispatch at dispatched
  cases kind : event.kind with
  | changeDelay number delay =>
    rw [kind] at dispatched
    apply Dispatched.change number _ dispatched _ (congrArg EventKind.route kind)
    refine fun link => ⟨rfl, fun keeps => ?_, fun _ alive => alive⟩
    rw [kind] at keeps
    exact absurd rfl (of_decide_eq_false keeps)
  | linkDie number =>
    rw [kind] at dispatched
    apply Dispatched.change number _ dispatched _ (congrArg EventKind.route kind)
    exact fun link => ⟨rfl, fun _ => rfl, fun lives => absurd kind lives⟩
  | linkComeUp number =>
    rw [kind] at dispatched
    apply Dispatched.change number _ dispatched _ (congrArg EventKind.route kind)
    exact fun link => ⟨rfl, fun _ => rfl, fun _ _ => rfl⟩
  | xmitPktEndToEnd | recvPkt =>
    rw [kind] at dispatched
    exact .call _ _ _ dispatched (.inl rfl) (congrArg EventKind.route kind)
  | alarm id type =>
    rw [kind] at dispatched
    exact .call _ _ _ dispatched (.inr ⟨type, rfl⟩) (congrArg EventKind.route kind)
  | xmitPktOnLink dest dport number pkt =>
    simp only [kind, Option.map_eq_some_iff] at dispatched
    obtain ⟨link, found, made⟩ := dispatched
    have route : event.route = some (dest, number) := congrArg EventKind.route kind
    split_ifs at made with passes
    · obtain ⟨rfl, rfl⟩ := Prod.mk.inj made
      refine .xmit dest number link route found rfl (le_refl 1) (fun request member => ?_)
        fun _ _ => List.cons_ne_nil _ _
      rw [List.mem_singleton.mp member]
      exact ⟨rfl, rfl⟩
    · -- a link that is alive and loses nothing passes every draw
      obtain ⟨rfl, rfl⟩ := Prod.mk.inj made
      refine .xmit dest number link route found rfl (Nat.zero_le 1)
        (fun _ none => absurd none List.not_mem_nil) fun alive lossless => ?_
      have drawn : (0 : ℚ) ≤ ((choice.draw % 10 : ℕ) : ℚ) := Nat.cast_nonneg _
      exact absurd ⟨alive, lossless.trans drawn⟩ passes

theorem dispatch_sameQueue (dispatched : s.dispatch choice event = some (after, requests)) :
    SameQueue s after := by
  cases dispatch_cases dispatched with
  | call _ _ _ made => exact (call_cases made).1
  | change _ _ made => exact (onLink_cases made).1
  | xmit _ _ _ _ _ same => exact same ▸ ⟨rfl, rfl, rfl, rfl, rfl⟩

/-- What an event schedules: transmissions at its own time, and then at most one event
after a delay. -/
theorem dispatch_due (dispatched : s.dispatch choice event = some (after, requests))
    (now : s.globalTime = event.time) : ∃ sent last, requests = sent ++ last ∧
      (∀ request ∈ sent, request.due = event.time) ∧ last.length ≤ 1 ∧ ∀ request ∈ last,
        request.route = none ∧ event.time ≤ request.due ∧ request.due < event.time + 2 ^ 32 := by
  cases dispatch_cases dispatched with
  | call id called rest made alarms =>
    obtain ⟨-, -, sent, rfl, all⟩ := call_cases made
    have sentNow : ∀ request ∈ sent, request.due = event.time := by
      intro request member
      obtain ⟨packet, made⟩ := all request member
      exact (send_due made).trans now
    rcases alarms with rfl | ⟨type, rfl⟩
    · exact ⟨sent, [], rfl, sentNow, Nat.zero_le 1, fun _ none => absurd none List.not_mem_nil⟩
    -- the alarm that a node sets again comes last, behind what it sends
    · have short : period type < 2 ^ 32 := by cases type <;> decide
      refine ⟨sent, _, rfl, sentNow, le_refl 1, fun request member => ?_⟩
      rw [List.mem_singleton.mp member, now]
      exact ⟨rfl, Nat.le_add_right _ _, Nat.add_lt_add_left short _⟩
  | change number change made =>
    obtain ⟨-, rfl, -⟩ := onLink_cases made
    exact ⟨[], [], rfl, fun _ none => absurd none List.not_mem_nil, Nat.zero_le 1,
      fun _ none => absurd none List.not_mem_nil⟩
  | xmit dest number link route found same atMost arrivals =>
    refine ⟨[], requests, rfl, fun _ none => absurd none List.not_mem_nil, atMost, ?_⟩
    intro request member
    obtain ⟨quiet, due⟩ := arrivals request member
    rw [due]
    exact ⟨quiet, Nat.le_add_right _ _, Nat.add_lt_add_left link.delay.toNat_lt _⟩

/-- A link that an event does not concern stays as it is. -/
theorem dispatch_link {number : ℕ} {link : Link}
    (dispatched : s.dispatch choice event = some (after, requests))
    (found : s.links[number]? = some link) :
    ∃ link', after.links[number]? = some link' ∧ link.Follows event number link' := by
  have same : after.links = s.links →
      ∃ link', after.links[number]? = some link' ∧ link.Follows event number link' :=
    fun links => ⟨link, links ▸ found, rfl, fun _ => rfl, fun _ alive => alive⟩
  cases dispatch_cases dispatched with
  | call _ _ _ made => exact same (call_cases made).2.1
  | xmit _ _ _ _ _ unchanged => exact same (congrArg links unchanged)
  | change other change made follows =>
    obtain ⟨-, -, link', at_other, links⟩ := onLink_cases made
    by_cases here : other = number
    · subst here
      rw [found] at at_other
      have inside : other < s.links.length := (List.getElem?_eq_some_iff.mp found).1
      refine ⟨change link, ?_, follows link⟩
      rw [links, List.getElem?_set_self inside, Option.some.inj at_other]
    · refine ⟨link, ?_, rfl, fun _ => rfl, fun _ alive => alive⟩
      rw [links, List.getElem?_set_ne here, found]

/-- What a transmission schedules: an arrival after the delay of the link, if the link is alive
and loses nothing. -/
theorem dispatch_xmit {dest number : ℕ} {link : Link}
    (dispatched : s.dispatch choice event = some (after, requests))
    (found : s.links[number]? = some link) (route : event.route = some (dest, number)) :
    (∀ request ∈ requests, request.due = event.time + link.delay.toNat) ∧
      (link.isAlive = true → link.tenLossProb ≤ 0 → requests ≠ []) := by
  cases dispatch_cases dispatched with
  | call _ _ _ _ _ quiet => exact absurd (route.symm.trans quiet) (Option.some_ne_none _)
  | change _ _ _ _ quiet => exact absurd (route.symm.trans quiet) (Option.some_ne_none _)
  | xmit _ other link' goes at_other _ _ arrivals passes =>
    obtain ⟨-, rfl⟩ := Prod.mk.inj (Option.some.inj (route.symm.trans goes))
    obtain rfl : link = link' := Option.some.inj (found.symm.trans at_other)
    exact ⟨fun request member => (arrivals request member).2, passes⟩

/-! ### Turns of the loop -/

variable {pops : Pop Event.time} {turn : Turn}

/-- What a turn does to the queue and the clock. -/
structure Turned (pops : Pop Event.time) (s after : Simulator) (turn : Turn) : Prop where
  top : s.eventQ[0]? = some turn.dispatched
  eventQ : after.eventQ = pops.pop (pushAll Event.time s.eventQ turn.scheduled)
  popped : turn.popped = (pushAll Event.time s.eventQ turn.scheduled)[0]?
  globalTime : after.globalTime = turn.dispatched.time
  stopTime : after.stopTime = s.stopTime
  serials : turn.scheduled.map Event.serial = List.range' s.allocated turn.scheduled.length
  allocated : after.allocated = s.allocated + turn.scheduled.length

theorem turn_cases (next : s.turn pops choice = some (after, turn)) :
    Turned pops s after turn ∧ ∃ mid requests,
      { s with globalTime := turn.dispatched.time }.dispatch choice turn.dispatched =
        some (mid, requests) ∧
      turn.scheduled = events s.allocated requests ∧ after.links = mid.links ∧
        after.linkVector = s.linkVector := by
  simp only [Simulator.turn, Option.bind_eq_bind, Option.bind_eq_some_iff, Option.pure_def,
    Option.some.injEq, Prod.mk.injEq] at next
  obtain ⟨event, top, ⟨mid, requests⟩, dispatched, rfl, rfl⟩ := next
  have same := dispatch_sameQueue dispatched
  have allocated : mid.allocated = s.allocated := same.allocated
  have eventQ : mid.eventQ = s.eventQ := same.eventQ
  refine ⟨⟨top, ?_, ?_, same.globalTime, same.stopTime, ?_, ?_⟩, mid, requests, dispatched, ?_, rfl,
    same.linkVector⟩
  · simp only [schedule, eventQ]
  · simp only [schedule, eventQ]
  -- a handler allocates no serial itself
  · rw [← allocated, events_length]
    exact events_serials _ _
  · simp only [schedule, events_length, allocated]
  · rw [allocated]

/-- The queue behind a turn. Either all that was scheduled is in time, and the turn popped its own
event; or the last scheduled time did not fit an `unsigned int`, and that event is popped. -/
theorem turn_queue (heaped : Heaped Event.time s.eventQ) (next : s.turn pops choice = some (after, turn)) :
    Heaped Event.time after.eventQ ∧ ∃ kept, (∀ event ∈ kept, event ∈ turn.scheduled ∧
        event.due < 2 ^ 32 ∧ turn.dispatched.time ≤ event.time) ∧
      (turn.scheduled = kept ∧ turn.popped = some turn.dispatched ∧
          (turn.dispatched :: after.eventQ.toList).Perm (kept ++ s.eventQ.toList) ∨
        ∃ lost, turn.scheduled = kept ++ [lost] ∧ (lost.route = none ∧ 2 ^ 32 ≤ lost.due) ∧
          after.eventQ.toList.Perm (kept ++ s.eventQ.toList)) := by
  obtain ⟨facts, mid, requests, dispatched, scheduled, -⟩ := turn_cases next
  obtain ⟨sent, last, rfl, now, short, soon⟩ := dispatch_due dispatched rfl
  have sentNow : ∀ event ∈ events s.allocated sent, event.due = turn.dispatched.time :=
    fun event member => now _ (mem_events member)
  rw [events_append] at scheduled
  have atMost : (events (s.allocated + sent.length) last).length ≤ 1 := by rwa [events_length]
  have lastSoon : ∀ event ∈ events (s.allocated + sent.length) last,
      event.route = none ∧ turn.dispatched.time ≤ event.due ∧
        event.due < turn.dispatched.time + 2 ^ 32 :=
    fun event member => soon _ (mem_events member)
  generalize events s.allocated sent = first at scheduled sentNow
  generalize events (s.allocated + sent.length) last = rest at scheduled atMost lastSoon
  have inTime : ∀ event : Event, turn.dispatched.time ≤ event.due → event.due < 2 ^ 32 →
      turn.dispatched.time ≤ event.time :=
    fun event later narrow => (Event.time_eq narrow).symm ▸ later
  have firstInTime : ∀ event ∈ first, event.due < 2 ^ 32 ∧ turn.dispatched.time ≤ event.time := by
    intro event member
    have narrow : event.due < 2 ^ 32 := sentNow event member ▸ turn.dispatched.time_lt
    exact ⟨narrow, inTime event (sentNow event member).ge narrow⟩
  by_cases fits : ∀ event ∈ rest, event.due < 2 ^ 32
  · have all : ∀ event ∈ turn.scheduled, event.due < 2 ^ 32 ∧ turn.dispatched.time ≤ event.time := by
      intro event member
      rw [scheduled] at member
      rcases List.mem_append.mp member with old | new
      · exact firstInTime event old
      · exact ⟨fits event new, inTime event (lastSoon event new).2.1 (fits event new)⟩
    obtain ⟨stays, mended, kept⟩ := pops.round heaped facts.top fun event member => (all event member).2
    rw [← facts.eventQ] at mended kept
    exact ⟨mended, turn.scheduled, fun event member => ⟨member, all event member⟩,
      .inl ⟨rfl, facts.popped.trans stays, kept⟩⟩
  · -- the time that does not fit is before that of the turn
    push Not at fits
    obtain ⟨lost, member, wide⟩ := fits
    obtain ⟨only, alone⟩ :=
      List.length_eq_one_iff.mp (le_antisymm atMost (List.length_pos_of_mem member))
    have same : lost = only := List.mem_singleton.mp (alone ▸ member)
    rw [alone, ← same] at scheduled
    have early : lost.time < turn.dispatched.time := by
      have bound := (lastSoon lost member).2.2
      rw [Event.time]
      omega
    obtain ⟨-, mended, kept⟩ :=
      pops.overtaken heaped facts.top (fun event member => (firstInTime event member).2) early
    rw [← scheduled, ← facts.eventQ] at mended kept
    refine ⟨mended, first, fun event member => ?_, .inr ⟨lost, scheduled,
      ⟨(lastSoon lost member).1, wide⟩, kept⟩⟩
    exact ⟨scheduled ▸ List.mem_append_left _ member, firstInTime event member⟩

/-- A queue that is a heap of all events made so far, each with its own number. -/
structure Filled (s : Simulator) : Prop where
  heaped : Heaped Event.time s.eventQ
  serials : (s.eventQ.toList.map Event.serial).Perm (List.range s.allocated)

theorem range_append_range' (m n : ℕ) : List.range m ++ List.range' m n = List.range (m + n) := by
  rw [List.range_eq_range', List.range_eq_range']
  simpa only [Nat.zero_add] using List.range'_append_1 (s := 0)

theorem Filled.schedule (filled : s.Filled) (requests : List Request) :
    (s.schedule requests).Filled := by
  refine ⟨filled.heaped.pushAll _, ?_⟩
  have pushed : ((s.schedule requests).eventQ.toList.map Event.serial).Perm
      ((events s.allocated requests ++ s.eventQ.toList).map Event.serial) :=
    (pushAll_perm s.eventQ (events s.allocated requests)).map Event.serial
  rw [List.map_append, events_serials] at pushed
  have counted := (filled.serials.append_left (List.range' s.allocated requests.length)).trans
    List.perm_append_comm
  rw [range_append_range'] at counted
  exact pushed.trans counted

end Simulator

namespace Config

variable {config : Config} {start : Simulator}

/-- The simulator boots when every node that is looked up is there and all of them start. -/
theorem boots_iff : config.boot = some start ↔
    (∀ event ∈ config.events, ∀ id ∈ event.kind.looksUp, id ∈ config.nodes) ∧
      exec config.initNode config.simulator config.nodes = some start := by
  rw [boot, Option.ite_none_right_eq_some, foldlM_eq_exec]

/-- What holds behind `init` and survives every node holds when the loop begins. -/
theorem boot_invariant {I : Simulator → Prop} (first : I config.simulator)
    (preserved : ∀ s id after, I s → config.initNode s id = some after → I after)
    (boots : config.boot = some start) : I start := by
  obtain ⟨-, run⟩ := boots_iff.mp boots
  exact exec_invariant preserved first run

/-- Initialising a node only schedules events and adds its router. -/
theorem initNode_cases {s after : Simulator} {id : ℕ} (next : config.initNode s id = some after) :
    ∃ routers requests, after = { s with routers := routers }.schedule requests := by
  simp only [initNode, Option.bind_eq_bind, Option.bind_eq_some_iff, Option.pure_def,
    Option.some.injEq] at next
  obtain ⟨pings, -, rfl⟩ := next
  exact ⟨_, _, rfl⟩

theorem boot_filled (boots : config.boot = some start) : start.Filled := by
  refine boot_invariant ?_ ?_ boots
  · apply Simulator.Filled.schedule
    refine ⟨fun p c x y _ at_p => ?_, .refl _⟩
    cases at_p
  · intro s id after filled next
    obtain ⟨routers, requests, rfl⟩ := initNode_cases next
    have base : Simulator.Filled { s with routers := routers } := ⟨filled.heaped, filled.serials⟩
    exact base.schedule requests

theorem boot_links (boots : config.boot = some start) : start.links = config.links := by
  refine boot_invariant (I := fun s => s.links = config.links) rfl ?_ boots
  intro s id after same next
  obtain ⟨routers, requests, rfl⟩ := initNode_cases next
  exact same

end Config

namespace History

/-- The events dispatched so far. -/
def dispatched (h : History) : List Event := h.log.map Turn.dispatched

/-- The events made so far: those that were there at the start, and those of the turns. -/
def created (start : Simulator) (h : History) : List Event :=
  start.eventQ.toList ++ h.log.flatMap Turn.scheduled

/-- No scheduled time is too large for an `unsigned int`. -/
def Unwrapped (h : History) : Prop := ∀ turn ∈ h.log, ∀ event ∈ turn.scheduled, event.due < 2 ^ 32

instance (h : History) : Decidable h.Unwrapped :=
  inferInstanceAs (Decidable (∀ turn ∈ h.log, ∀ event ∈ turn.scheduled, event.due < 2 ^ 32))

/-- What holds of every run. Time does not go back, and an event is dispatched or waits in the
queue, unless it is an arrival or an alarm whose time did not fit an `unsigned int`. -/
structure Timely (start : Simulator) (h : History) : Prop where
  heaped : Heaped Event.time h.simulator.eventQ
  sorted : (h.dispatched.map Event.time).Pairwise (· ≤ ·)
  later : ∀ earlier ∈ h.dispatched, ∀ event ∈ h.simulator.eventQ, earlier.time ≤ event.time
  numbered : ∀ event, event ∈ h.dispatched ∨ event ∈ h.simulator.eventQ →
    event.serial < h.simulator.allocated
  narrow : ∀ turn ∈ h.log, ∀ event ∈ turn.scheduled,
    event ∈ h.dispatched ∨ event ∈ h.simulator.eventQ → event.due < 2 ^ 32
  accounted : ∀ event ∈ h.created start,
    event ∈ h.dispatched ∨ event ∈ h.simulator.eventQ ∨ event.route = none ∧ 2 ^ 32 ≤ event.due

/-- What holds of a run without overflow. -/
structure Orderly (start : Simulator) (h : History) : Prop where
  kept : (h.dispatched ++ h.simulator.eventQ.toList).Perm (h.created start)
  serials : ((h.created start).map Event.serial).Perm (List.range h.simulator.allocated)
  popped : ∀ turn ∈ h.log, turn.popped = some turn.dispatched

variable {pops : Pop Event.time} {start : Simulator} {h next : History} {choice : Choice}

/-- A step is a turn of the loop, added to the log. -/
theorem step_cases (stepped : h.step pops choice = some next) : ¬ h.Ended ∧ ∃ turn,
    h.simulator.turn pops choice = some (next.simulator, turn) ∧ next.log = h.log ++ [turn] := by
  unfold step at stepped
  split_ifs at stepped with ended
  obtain ⟨⟨after, turn⟩, turned, rfl⟩ := Option.map_eq_some_iff.mp stepped
  exact ⟨ended, turn, turned, rfl⟩

theorem dispatched_step {turn : Turn} (log : next.log = h.log ++ [turn]) :
    next.dispatched = h.dispatched ++ [turn.dispatched] := by
  simp [History.dispatched, log]

theorem created_step {turn : Turn} (log : next.log = h.log ++ [turn]) :
    next.created start = h.created start ++ turn.scheduled := by
  simp [History.created, log]

theorem Timely.of_filled (filled : start.Filled) : Timely start ⟨start, []⟩ where
  heaped := filled.heaped
  sorted := List.Pairwise.nil
  later _ none := absurd none List.not_mem_nil
  numbered event member := by
    have waits : event ∈ start.eventQ := member.resolve_left List.not_mem_nil
    have inside := List.mem_map_of_mem (f := Event.serial) (Array.mem_def.mp waits)
    exact List.mem_range.mp (filled.serials.subset inside)
  narrow _ none := absurd none List.not_mem_nil
  accounted event member := by
    have waits : event ∈ start.eventQ.toList := by simpa [created] using member
    exact .inr (.inl (Array.mem_def.mpr waits))

/-- What a turn does to the queue, event by event, when `kept` are those of the scheduled events
whose times fit. -/
structure Advance (h next : History) (turn : Turn) (kept : List Event) : Prop where
  heaped : Heaped Event.time next.simulator.eventQ
  top : turn.dispatched ∈ h.simulator.eventQ
  least : ∀ event ∈ h.simulator.eventQ, turn.dispatched.time ≤ event.time
  inTime : ∀ event ∈ kept, event ∈ turn.scheduled ∧ event.due < 2 ^ 32 ∧
    turn.dispatched.time ≤ event.time
  scheduled : ∀ event ∈ turn.scheduled, event ∈ kept ∨ event.route = none ∧ 2 ^ 32 ≤ event.due
  incoming : ∀ event ∈ next.simulator.eventQ, event ∈ kept ∨ event ∈ h.simulator.eventQ
  outgoing : ∀ event, event ∈ kept ∨ event ∈ h.simulator.eventQ →
    event = turn.dispatched ∨ event ∈ next.simulator.eventQ
  fresh : ∀ event ∈ turn.scheduled, h.simulator.allocated ≤ event.serial ∧
    event.serial < next.simulator.allocated
  more : h.simulator.allocated ≤ next.simulator.allocated

theorem Timely.advance (timely : h.Timely start) (stepped : h.step pops choice = some next) :
    ∃ turn kept, next.log = h.log ++ [turn] ∧ Advance h next turn kept := by
  obtain ⟨-, turn, turned, log⟩ := step_cases stepped
  obtain ⟨facts, -⟩ := Simulator.turn_cases turned
  obtain ⟨heaped, kept, inTime, queue⟩ := Simulator.turn_queue timely.heaped turned
  refine ⟨turn, kept, log, ?_⟩
  constructor
  case heaped => exact heaped
  case top => exact Array.mem_of_getElem? facts.top
  case least => exact fun event old => timely.heaped.root_le facts.top old
  case inTime => exact inTime
  case scheduled =>
    intro event new
    obtain ⟨all, -⟩ | ⟨lost, all, wide, -⟩ := queue
    · exact .inl (all ▸ new)
    · rw [all, List.mem_append, List.mem_singleton] at new
      rcases new with new | rfl
      · exact .inl new
      · exact .inr wide
  case incoming =>
    intro event inside
    rw [Array.mem_def] at inside ⊢
    rw [← List.mem_append]
    obtain ⟨-, -, perm⟩ | ⟨lost, -, -, perm⟩ := queue
    · exact perm.subset (.tail _ inside)
    · exact perm.subset inside
  case outgoing =>
    intro event inside
    rw [Array.mem_def, ← List.mem_append] at inside
    rw [Array.mem_def]
    obtain ⟨-, -, perm⟩ | ⟨lost, -, -, perm⟩ := queue
    · exact List.mem_cons.mp (perm.symm.subset inside)
    · exact .inr (perm.symm.subset inside)
  case fresh =>
    intro event new
    have inside := List.mem_map_of_mem (f := Event.serial) new
    rw [facts.serials, List.mem_range'_1] at inside
    rw [facts.allocated]
    exact inside
  case more => exact facts.allocated ▸ Nat.le_add_right _ _

/-- The turn of an event is not later than the events in the queue behind it. -/
theorem Advance.after {turn : Turn} {kept : List Event} (turned : Advance h next turn kept) :
    ∀ event ∈ next.simulator.eventQ, turn.dispatched.time ≤ event.time := by
  intro event inQueue
  rcases turned.incoming event inQueue with new | old
  · exact (turned.inTime event new).2.2
  · exact turned.least event old

/-- An event of the history or the queue was there before or is one of those kept. -/
theorem Advance.present {turn : Turn} {kept : List Event} (turned : Advance h next turn kept)
    (log : next.log = h.log ++ [turn]) {event : Event}
    (inside : event ∈ next.dispatched ∨ event ∈ next.simulator.eventQ) :
    event ∈ kept ∨ event ∈ h.dispatched ∨ event ∈ h.simulator.eventQ := by
  rcases inside with done | waits
  · rw [dispatched_step log, List.mem_append, List.mem_singleton] at done
    rcases done with old | rfl
    · exact .inr (.inl old)
    · exact .inr (.inr turned.top)
  · exact (turned.incoming event waits).imp_right .inr

/-- An event that is kept or was in the queue is dispatched or still there. -/
theorem Advance.stays {turn : Turn} {kept : List Event} (turned : Advance h next turn kept)
    (log : next.log = h.log ++ [turn]) {event : Event}
    (inside : event ∈ kept ∨ event ∈ h.simulator.eventQ) :
    event ∈ next.dispatched ∨ event ∈ next.simulator.eventQ := by
  rcases turned.outgoing event inside with rfl | waits
  · exact .inl (dispatched_step log ▸ List.mem_append_right _ (.head _))
  · exact .inr waits

theorem Timely.step (timely : h.Timely start) (stepped : h.step pops choice = some next) :
    next.Timely start := by
  obtain ⟨turn, kept, log, turned⟩ := timely.advance stepped
  constructor
  case heaped => exact turned.heaped
  case sorted =>
    rw [dispatched_step log, List.map_append, List.pairwise_append]
    refine ⟨timely.sorted, List.pairwise_singleton _ _, ?_⟩
    intro t earlier t' last
    obtain ⟨event, inside, rfl⟩ := List.mem_map.mp earlier
    rw [List.mem_singleton.mp last]
    exact timely.later event inside _ turned.top
  case later =>
    rw [dispatched_step log]
    intro earlier inside event inQueue
    rcases List.mem_append.mp inside with old | new
    · exact (timely.later earlier old _ turned.top).trans (turned.after event inQueue)
    · rw [List.mem_singleton.mp new]
      exact turned.after event inQueue
  case numbered =>
    intro event inside
    rcases turned.present log inside with new | old
    · exact (turned.fresh event (turned.inTime event new).1).2
    · exact (timely.numbered event old).trans_le turned.more
  case narrow =>
    intro t inside event scheduled there
    rcases turned.present log there with new | old
    · exact (turned.inTime event new).2.1
    · rw [log, List.mem_append, List.mem_singleton] at inside
      rcases inside with before | rfl
      · exact timely.narrow t before event scheduled old
      · exact absurd (timely.numbered event old) (turned.fresh event scheduled).1.not_gt
  case accounted =>
    intro event made
    rw [← or_assoc]
    rw [created_step log, List.mem_append] at made
    rcases made with old | new
    · rcases timely.accounted event old with done | waits | wide
      · exact .inl (.inl (dispatched_step log ▸ List.mem_append_left _ done))
      · exact .inl (turned.stays log (.inr waits))
      · exact .inr wide
    · exact (turned.scheduled event new).imp_left fun fits => turned.stays log (.inl fits)

theorem Timely.run (filled : start.Filled) {choices : List Choice} {final : History}
    (run : exec (History.step pops) ⟨start, []⟩ choices = some final) : final.Timely start :=
  exec_invariant (fun _ _ _ timely stepped => timely.step stepped) (.of_filled filled) run

theorem Orderly.of_filled (filled : start.Filled) : Orderly start ⟨start, []⟩ where
  kept := by simp [dispatched, created]
  serials := by simpa [created] using filled.serials
  popped _ none := absurd none List.not_mem_nil

/-- While all times fit, a turn pops its own event. -/
theorem Orderly.step (orderly : h.Orderly start) (timely : h.Timely start)
    (stepped : h.step pops choice = some next) (unwrapped : next.Unwrapped) :
    next.Orderly start := by
  obtain ⟨-, turn, turned, log⟩ := step_cases stepped
  obtain ⟨facts, -⟩ := Simulator.turn_cases turned
  have fits : ∀ event ∈ turn.scheduled, event.due < 2 ^ 32 :=
    unwrapped turn (log ▸ List.mem_append_right _ (.head _))
  obtain ⟨-, kept, -, ⟨all, popped, perm⟩ | ⟨lost, all, ⟨-, wide⟩, -⟩⟩ :=
    Simulator.turn_queue timely.heaped turned
  · refine ⟨?_, ?_, ?_⟩
    · have swapped : (h.dispatched ++ (kept ++ h.simulator.eventQ.toList)).Perm
          (h.dispatched ++ h.simulator.eventQ.toList ++ kept) := by
        rw [List.append_assoc]
        exact List.perm_append_comm.append_left _
      rw [dispatched_step log, created_step log, List.append_assoc, all]
      exact ((perm.append_left _).trans swapped).trans (orderly.kept.append_right _)
    · rw [created_step log, List.map_append, facts.serials, facts.allocated,
        ← Simulator.range_append_range']
      exact orderly.serials.append_right _
    · rw [log]
      intro t inside
      rcases List.mem_append.mp inside with old | new
      · exact orderly.popped t old
      · rw [List.mem_singleton.mp new, popped]
  · have narrow := fits lost (all ▸ List.mem_append_right _ (.head _))
    exact absurd wide narrow.not_ge

theorem Orderly.run (filled : start.Filled) {choices : List Choice} {final : History}
    (run : exec (History.step pops) ⟨start, []⟩ choices = some final) (unwrapped : final.Unwrapped) :
    final.Orderly start := by
  have invariant : final.Timely start ∧ (final.Unwrapped → final.Orderly start) := by
    refine exec_invariant (I := fun h => h.Timely start ∧ (h.Unwrapped → h.Orderly start)) ?_
      ⟨.of_filled filled, fun _ => .of_filled filled⟩ run
    rintro h choice next ⟨timely, orderly⟩ stepped
    refine ⟨timely.step stepped, fun unwrapped => ?_⟩
    obtain ⟨-, turn, -, log⟩ := step_cases stepped
    have before : h.Unwrapped := fun t inside => unwrapped t (log ▸ List.mem_append_left _ inside)
    exact (orderly before).step timely stepped unwrapped
  exact invariant.2 unwrapped

/-- However events are popped and whatever happens around it, the loop dispatches events in
the order of their times, pops the event it has dispatched, and dispatches every event once
or still has it in the queue. -/
theorem run_orderly {config : Config} (boots : config.boot = some start) {choices : List Choice}
    {final : History} (run : exec (History.step pops) ⟨start, []⟩ choices = some final)
    (unwrapped : final.Unwrapped) :
    (final.dispatched.map Event.time).Pairwise (· ≤ ·) ∧
      (∀ turn ∈ final.log, turn.popped = some turn.dispatched) ∧
      ((final.dispatched ++ final.simulator.eventQ.toList).map Event.serial).Nodup ∧
      (final.dispatched ++ final.simulator.eventQ.toList).Perm (final.created start) := by
  have filled := Config.boot_filled boots
  have orderly := Orderly.run filled run unwrapped
  have once := (orderly.kept.map Event.serial).trans orderly.serials
  exact ⟨(Timely.run filled run).sorted, orderly.popped, once.symm.nodup List.nodup_range, orderly.kept⟩

end History

/-- Three routers, joined to each other by links of 10 ms that lose nothing. -/
def triangle : Config where
  nodes := [1, 2, 3]
  links := [⟨1, 2, 10, 0, true⟩, ⟨2, 3, 10, 0, true⟩, ⟨1, 3, 10, 0, true⟩]
  events := []
  stopTime := 0
  protocolType := .dv
  globalTime := 0
  alive := by decide
  scripted := by decide

/-- The turns of the triangle in which the first PINGs and PONGs go around. -/
theorem triangle_orderly : ∃ start final, triangle.boot = some start ∧
    exec (History.step (Pop.binary Event.time)) ⟨start, []⟩ (List.replicate 18 ⟨0, 0⟩) = some final ∧
    final.dispatched.length = 18 ∧ (final.dispatched.map Event.time).Pairwise (· ≤ ·) ∧
    (∀ turn ∈ final.log, turn.popped = some turn.dispatched) ∧
    ((final.dispatched ++ final.simulator.eventQ.toList).map Event.serial).Nodup ∧
    (final.dispatched ++ final.simulator.eventQ.toList).Perm (final.created start) := by
  have ran : ((triangle.boot.bind fun start =>
      exec (History.step (Pop.binary Event.time)) ⟨start, []⟩ (List.replicate 18 ⟨0, 0⟩)).any
        fun final => decide final.Unwrapped && decide (final.dispatched.length = 18)) = true := by
    decide +kernel
  obtain ⟨final, found, checked⟩ := (Option.any_eq_true _ _).mp ran
  obtain ⟨start, boots, run⟩ := Option.bind_eq_some_iff.mp found
  simp only [Bool.and_eq_true, decide_eq_true_eq] at checked
  obtain ⟨unwrapped, turns⟩ := checked
  exact ⟨start, final, boots, run, turns, History.run_orderly boots run unwrapped⟩

end ComputerNetworks.Simulation
