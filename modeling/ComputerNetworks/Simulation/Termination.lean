import ComputerNetworks.Lib.Flood
import ComputerNetworks.Simulation.KeepAlive

/-!
# Simulations end

Every event schedules only events that are later, or transmissions at its own time, and a
transmission only an arrival after the delay of the link. With positive delays a chain of events
can therefore go on for a bounded number of steps before the stop time is over. An event is
weighed by the room that is left behind it, so that it outweighs all it can schedule.
-/

namespace ComputerNetworks.Simulation

open Lib Routing

/-- The delay is positive, and no longer than that. -/
def Lasts (longest : ℕ) (delay : UInt32) : Prop := 0 < delay.toNat ∧ delay.toNat ≤ longest

/-- All delays are positive. There is a stop time; no time that can be reached before it, or that the
file names, is too large for an `unsigned int`, nor what an event at that time schedules. -/
structure Config.Timed (config : Config) (longest : ℕ) : Prop where
  links : ∀ link ∈ config.links, Lasts longest link.delay
  changes : ∀ request ∈ config.events, ∀ number delay, request.kind = .changeDelay number delay →
    Lasts longest delay
  periods : 30000 ≤ longest
  stops : config.stopTime ≠ 0
  stop : config.stopTime + 2 * longest < 2 ^ 32
  first : config.globalTime + 2 * longest < 2 ^ 32
  events : ∀ request ∈ config.events, request.due + longest < 2 ^ 32

/-- How far along an event is: a transmission comes behind what is due at the same time. -/
def Request.level (request : Request) : ℕ := 2 * request.due + if request.route = none then 0 else 1

namespace Simulator

variable {s after : Simulator} {choice : Choice} {event : Event} {requests : List Request} {longest : ℕ}

theorem exists_of_send {id : ℕ} {packet : Send} {request : Request} (sent : s.send id packet = some request) :
    ∃ rcpt port number, request = ⟨s.globalTime, .xmitPktOnLink rcpt port number packet.2⟩ := by
  simp only [send, Option.bind_eq_bind, Option.bind_eq_some_iff, Option.pure_def] at sent
  obtain ⟨number, -, link, -, port, -, made⟩ := sent
  exact ⟨_, port, number, (Option.some.inj made).symm⟩

/-- What an event schedules is further along than the event, though not much later. -/
theorem dispatch_onward (dispatched : s.dispatch choice event = some (after, requests))
    (now : s.globalTime = event.time) (links : ∀ link ∈ s.links, Lasts longest link.delay)
    (periods : 30000 ≤ longest) : ∀ request ∈ requests, request.kind.scripted = false ∧
      request.due ≤ event.time + longest ∧
        2 * event.time + (if event.route = none then 0 else 1) < request.level := by
  -- a call transmits now, and sets its alarm again for later
  have call : ∀ {id called rest}, s.call id called rest = some (after, requests) → event.route = none →
      (∀ request ∈ rest, ∃ type, request = ⟨s.globalTime + period type, .alarm id type⟩) →
        ∀ request ∈ requests, request.kind.scripted = false ∧ request.due ≤ event.time + longest ∧
          2 * event.time + (if event.route = none then 0 else 1) < request.level := by
    intro id called rest made quiet alarms request member
    obtain ⟨-, -, sent, rfl, all⟩ := call_cases made
    rw [if_pos quiet, ← now]
    rcases List.mem_append.mp member with new | last
    · obtain ⟨packet, transmits⟩ := all request new
      obtain ⟨rcpt, port, number, rfl⟩ := exists_of_send transmits
      exact ⟨rfl, Nat.le_add_right _ _, Nat.lt_succ_self _⟩
    · obtain ⟨type, rfl⟩ := alarms request last
      have short := period_le type
      have long : 0 < period type := by cases type <;> decide
      refine ⟨rfl, by dsimp only; omega, ?_⟩
      change 2 * s.globalTime + 0 < 2 * (s.globalTime + period type) + 0
      omega
  cases kind : event.kind with
  | changeDelay | linkDie | linkComeUp =>
    rw [dispatch, kind] at dispatched
    obtain ⟨-, rfl, -⟩ := onLink_cases dispatched
    exact fun request member => absurd member List.not_mem_nil
  | xmitPktEndToEnd | recvPkt =>
    rw [dispatch, kind] at dispatched
    exact call dispatched (congrArg EventKind.route kind) fun request member => absurd member List.not_mem_nil
  | alarm id type =>
    rw [dispatch, kind] at dispatched
    exact call dispatched (congrArg EventKind.route kind)
      fun request member => ⟨type, List.mem_singleton.mp member⟩
  | xmitPktOnLink dest dport number pkt =>
    have route : event.route = some (dest, number) := congrArg EventKind.route kind
    simp only [dispatch, kind, Option.map_eq_some_iff] at dispatched
    obtain ⟨link, found, made⟩ := dispatched
    obtain ⟨positive, short⟩ := links link (List.mem_of_getElem? found)
    split_ifs at made <;> obtain ⟨rfl, rfl⟩ := Prod.mk.inj made
    · intro request member
      rw [List.mem_singleton.mp member, if_neg (route ▸ Option.some_ne_none _)]
      refine ⟨rfl, by dsimp only; omega, ?_⟩
      change 2 * event.time + 1 < 2 * (event.time + link.delay.toNat) + 0
      omega
    · exact fun request member => absurd member List.not_mem_nil

/-- Delays stay positive. -/
theorem dispatch_lasts (dispatched : s.dispatch choice event = some (after, requests))
    (links : ∀ link ∈ s.links, Lasts longest link.delay)
    (changes : ∀ number delay, event.kind = .changeDelay number delay → Lasts longest delay) :
    ∀ link ∈ after.links, Lasts longest link.delay := by
  have change : ∀ {number change}, s.onLink number change = some (after, requests) →
      (∀ link, Lasts longest link.delay → Lasts longest (change link).delay) →
        ∀ link ∈ after.links, Lasts longest link.delay := by
    intro number change made lasts link member
    obtain ⟨-, -, link', found, changed⟩ := onLink_cases made
    rw [changed] at member
    rcases List.mem_or_eq_of_mem_set member with old | rfl
    · exact links link old
    · exact lasts link' (links link' (List.mem_of_getElem? found))
  cases kind : event.kind with
  | changeDelay number delay =>
    rw [dispatch, kind] at dispatched
    exact change dispatched fun _ _ => changes number delay kind
  | linkDie | linkComeUp =>
    rw [dispatch, kind] at dispatched
    exact change dispatched fun _ lasts => lasts
  | xmitPktEndToEnd | recvPkt | alarm =>
    rw [dispatch, kind] at dispatched
    rw [(call_cases dispatched).2.1]
    exact links
  | xmitPktOnLink dest dport number pkt =>
    simp only [dispatch, kind, Option.map_eq_some_iff] at dispatched
    obtain ⟨link, -, made⟩ := dispatched
    split_ifs at made <;> obtain ⟨rfl, -⟩ := Prod.mk.inj made <;> exact links

end Simulator

/-! ### What a turn schedules -/

namespace Simulator

variable {s after : Simulator} {requests rest : List Request}

theorem events_requests (allocated : ℕ) (requests : List Request) :
    (events allocated requests).map Event.toRequest = requests := by
  conv_rhs => rw [← List.zipIdx_map_fst allocated requests]
  rw [events, List.map_map]
  rfl

theorem call_length {id : ℕ} {called : Routing.Event}
    (made : s.call id called rest = some (after, requests)) : ∃ router, s.routers id = some router ∧
      requests.length = (router.handle called).2.length + rest.length := by
  obtain ⟨router, sent, found, -, sends, -, rfl⟩ := call_eq_some made
  exact ⟨router, found, by rw [List.length_append, length_of_mapM sends]⟩

end Simulator

/-- More than an event can schedule: a packet for each port, and an alarm. -/
def width : ℕ := 2 ^ 16 + 1

theorem Mirrored.length_le {config : Config} {wf : config.WellFormed} {h : History} (m : Mirrored config wf h)
    {event : Event} (inside : event ∈ h.simulator.eventQ) {choice : Choice} {mid : Simulator}
    {requests : List Request}
    (dispatched : ({ h.simulator with globalTime := event.time } : Simulator).dispatch choice event =
      some (mid, requests)) : requests.length ≤ width := by
  cases calls : event.kind.calls event.time choice.junk with
  | none =>
    cases kind : event.kind with
    | xmitPktEndToEnd | recvPkt | alarm =>
      rw [kind] at calls
      cases calls
    | changeDelay | linkDie | linkComeUp =>
      rw [Simulator.dispatch, kind] at dispatched
      obtain ⟨-, rfl, -⟩ := Simulator.onLink_cases dispatched
      exact Nat.zero_le _
    | xmitPktOnLink dest dport other pkt =>
      simp only [Simulator.dispatch, kind, Option.map_eq_some_iff] at dispatched
      obtain ⟨link, -, made⟩ := dispatched
      split_ifs at made <;> obtain ⟨-, rfl⟩ := Prod.mk.inj made <;> simp [width]
  | some call =>
    obtain ⟨id, called, rest⟩ := call
    obtain ⟨router, found, coherent, admitted⟩ := m.admits inside calls
    rw [Simulator.dispatch_of_calls rfl calls] at dispatched
    obtain ⟨router', found', length⟩ := Simulator.call_length dispatched
    cases found.symm.trans found'
    have one : rest.length ≤ 1 := by
      cases kind : event.kind <;> rw [kind] at calls <;> cases calls <;> simp
    have ports : (router.handle called).1.numPorts = (config.linkVector id).length :=
      (coherent.handle admitted).linked.numPorts
    have sends := Router.length_handle_le router called
    have room := wf.room id
    rw [width]
    omega

/-! ### Runs -/

/-- The room that is left for what is in the queue. -/
def History.potential (stopTime : ℕ) (h : History) : ℕ :=
  if h.Ended then 0
  else 1 + (h.simulator.eventQ.toList.map fun event =>
    Flood.weight width (2 * stopTime + 1) event.level).sum

/-- A run without overflow so far, none of whose events is too late and all of whose links have a
positive delay; the alarms of all nodes are set. -/
structure InTime (config : Config) (wf : config.WellFormed) (longest : ℕ) (start : Simulator)
    (h : History) : Prop where
  timely : h.Timely start
  mirrored : Mirrored config wf h
  unwrapped : h.Unwrapped
  stopTime : h.simulator.stopTime = config.stopTime
  links : ∀ link ∈ h.simulator.links, Lasts longest link.delay
  changes : ∀ request, h.simulator.Queued request → ∀ number delay,
    request.kind = .changeDelay number delay → Lasts longest delay
  early : ¬ h.Ended → ∀ request, h.simulator.Queued request → request.due + longest < 2 ^ 32
  alarms : ∀ id ∈ config.nodes, ∃ due, h.simulator.Queued ⟨due, .alarm id .update⟩

/-- A turn of such a run, on its event and with what it schedules. -/
structure Passing (config : Config) (longest : ℕ) (h next : History) (event : Event) (choice : Choice)
    (requests : List Request) : Prop where
  inside : event ∈ h.simulator.eventQ
  dispatched : ∃ mid, ({ h.simulator with globalTime := event.time } : Simulator).dispatch choice event =
    some (mid, requests) ∧ next.simulator.links = mid.links
  time : event.time = event.due
  onward : ∀ request ∈ requests, request.kind.scripted = false ∧ request.due ≤ event.time + longest ∧
    event.level < request.level
  requeued : Simulator.Requeued h.simulator next.simulator event requests
  perm : (event :: next.simulator.eventQ.toList).Perm
    (Simulator.events h.simulator.allocated requests ++ h.simulator.eventQ.toList)
  stopTime : next.simulator.stopTime = config.stopTime
  goes : ¬ next.Ended → event.time ≤ config.stopTime

namespace Passing

variable {config : Config} {wf : config.WellFormed} {longest : ℕ} {start : Simulator} {h next : History}
  {event : Event} {choice : Choice} {requests : List Request}

/-- What is in the queue behind a turn is early enough. -/
theorem early (p : Passing config longest h next event choice requests) (timed : config.Timed longest)
    (early : ∀ request, h.simulator.Queued request → request.due + longest < 2 ^ 32)
    (goes : ¬ next.Ended) {request : Request} (there : next.simulator.Queued request) :
    request.due + longest < 2 ^ 32 := by
  rcases p.requeued.comes request there with new | old
  · have soon := (p.onward request new).2.1
    have due := p.goes goes
    have bound := timed.stop
    omega
  · exact early request old

/-- What the file names is the only thing that changes a delay. -/
theorem changes (p : Passing config longest h next event choice requests)
    (changes : ∀ request, h.simulator.Queued request → ∀ number delay,
      request.kind = .changeDelay number delay → Lasts longest delay)
    {request : Request} (there : next.simulator.Queued request) {number : ℕ} {delay : UInt32}
    (kind : request.kind = .changeDelay number delay) : Lasts longest delay := by
  rcases p.requeued.comes request there with new | old
  · have unscripted := (p.onward request new).1
    rw [kind] at unscripted
    cases unscripted
  · exact changes request old number delay kind

/-- An alarm that goes off is set again. -/
theorem alarm (p : Passing config longest h next event choice requests) {id due : ℕ} {type : AlarmType}
    (set : h.simulator.Queued ⟨due, .alarm id type⟩) :
    ∃ due, next.simulator.Queued ⟨due, .alarm id type⟩ := by
  rcases p.requeued.stays _ set with rung | waits
  · -- `dispatch` sets the alarm again behind what the router sends
    obtain ⟨mid, dispatched, -⟩ := p.dispatched
    have kind : event.kind = .alarm id type := (congrArg Request.kind rung).symm
    rw [Simulator.dispatch, kind] at dispatched
    obtain ⟨-, -, sent, rfl, -⟩ := Simulator.call_cases dispatched
    exact ⟨_, p.requeued.posts _ (List.mem_append_right _ (List.mem_singleton_self _))⟩
  · exact ⟨due, waits⟩

/-- What is scheduled weighs less than what was dispatched. -/
theorem potential_lt (p : Passing config longest h next event choice requests)
    (few : requests.length ≤ width) (going : ¬ h.Ended) :
    next.potential config.stopTime < h.potential config.stopTime := by
  unfold History.potential
  rw [if_neg going]
  split_ifs with ended
  · omega
  -- each of the few requests is further along than the event, up to the stop time
  have later : ∀ level ∈ requests.map Request.level, event.level < level := by
    intro level member
    obtain ⟨request, new, rfl⟩ := List.mem_map.mp member
    exact (p.onward request new).2.2
  have low : event.level ≤ 2 * config.stopTime + 1 := by
    have due := p.goes ended
    rw [Request.level, ← p.time]
    split_ifs <;> omega
  have answers : (requests.map Request.level).length ≤ width := by rwa [List.length_map]
  have lighter := Flood.sum_weight_lt answers later low
  have levels : (Simulator.events h.simulator.allocated requests).map
      (fun event => Flood.weight width (2 * config.stopTime + 1) event.level) =
        (requests.map Request.level).map (Flood.weight width (2 * config.stopTime + 1)) := by
    conv_rhs => rw [← Simulator.events_requests h.simulator.allocated requests]
    rw [List.map_map, List.map_map]
    rfl
  have sums := (p.perm.map fun event =>
    Flood.weight width (2 * config.stopTime + 1) event.level).sum_eq
  rw [List.map_cons, List.sum_cons, List.map_append, List.sum_append, levels] at sums
  omega

end Passing

namespace InTime

variable {config : Config} {wf : config.WellFormed} {longest : ℕ} {start : Simulator} {h next : History}
  {pops : Pop Event.time} {choice : Choice}

theorem passing (t : InTime config wf longest start h) (timed : config.Timed longest)
    (stepped : h.step pops choice = some next) : ∃ turn requests, next.log = h.log ++ [turn] ∧
      Passing config longest h next turn.dispatched choice requests ∧
        ∀ event ∈ turn.scheduled, event.due < 2 ^ 32 := by
  obtain ⟨going, turn, turned, log⟩ := History.step_cases stepped
  obtain ⟨mid, requests, dispatched, scheduled, -, links, -⟩ := Simulator.turn_parts turned
  obtain ⟨facts, -⟩ := Simulator.turn_cases turned
  have inside : turn.dispatched ∈ h.simulator.eventQ := Array.mem_of_getElem? facts.top
  have early := t.early going _ ⟨_, inside, rfl⟩
  have time : turn.dispatched.time = turn.dispatched.due := Event.time_eq (by omega)
  have onward := Simulator.dispatch_onward dispatched rfl t.links timed.periods
  have fits : ∀ event ∈ turn.scheduled, event.due < 2 ^ 32 := by
    intro event member
    have soon := (onward _ (Simulator.mem_events (scheduled ▸ member))).2.1
    omega
  have stopTime := facts.stopTime.trans t.stopTime
  refine ⟨turn, requests, log, ?_, fits⟩
  constructor
  case inside => exact inside
  case dispatched => exact ⟨mid, dispatched, links⟩
  case time => exact time
  case onward =>
    rw [time] at onward ⊢
    exact onward
  case requeued =>
    exact Simulator.turn_requeued t.timely.heaped turned scheduled
      (t.timely.numbered _ (.inr inside)) fits
  case perm => exact scheduled ▸ Simulator.turn_perm t.timely.heaped turned fits
  case stopTime => exact stopTime
  case goes =>
    -- a turn behind the stop time is the last one
    intro goes
    by_contra late
    refine goes ⟨by simp [log], stopTime ▸ timed.stops, ?_⟩
    rw [stopTime, facts.globalTime]
    exact Nat.lt_of_not_le late

theorem step (t : InTime config wf longest start h) (timed : config.Timed longest)
    (stepped : h.step pops choice = some next) : InTime config wf longest start next ∧
      next.potential config.stopTime < h.potential config.stopTime := by
  obtain ⟨turn, requests, log, passing, fits⟩ := t.passing timed stepped
  obtain ⟨going, -⟩ := History.step_cases stepped
  obtain ⟨mid, dispatched, links⟩ := passing.dispatched
  refine ⟨?_, passing.potential_lt (t.mirrored.length_le passing.inside dispatched) going⟩
  constructor
  case timely => exact t.timely.step stepped
  case mirrored => exact t.mirrored.step stepped
  case unwrapped =>
    intro other member
    rw [log, List.mem_append, List.mem_singleton] at member
    rcases member with old | rfl
    · exact t.unwrapped other old
    · exact fits
  case stopTime => exact passing.stopTime
  case links =>
    exact links ▸ Simulator.dispatch_lasts dispatched t.links (t.changes _ ⟨_, passing.inside, rfl⟩)
  case changes => exact fun _ there _ _ kind => passing.changes t.changes there kind
  case early => exact fun goes _ there => passing.early timed (t.early going) goes there
  case alarms =>
    intro id member
    obtain ⟨due, set⟩ := t.alarms id member
    exact passing.alarm set

/-- The loop begins in time. -/
theorem boot (timed : config.Timed longest) (boots : config.boot = some start) :
    InTime config wf longest start ⟨start, []⟩ := by
  have mirrored : Mirrored config wf ⟨start, []⟩ := .boot boots
  have booted : start.stopTime = config.stopTime ∧
      (∀ request, start.Queued request → request.due + longest < 2 ^ 32 ∧ ∀ number delay,
        request.kind = .changeDelay number delay → Lasts longest delay) ∧
      ∀ id router, start.routers id = some router → ∃ due, start.Queued ⟨due, .alarm id .update⟩ := by
    refine wf.boot_invariant (I := fun s =>
      s.stopTime = config.stopTime ∧ (∀ request, s.Queued request → request.due + longest < 2 ^ 32 ∧
        ∀ number delay, request.kind = .changeDelay number delay → Lasts longest delay) ∧
      ∀ id router, s.routers id = some router → ∃ due, s.Queued ⟨due, .alarm id .update⟩)
      ⟨rfl, ?_, fun id router none_ => by cases none_⟩ ?_ boots
    · intro request queued
      have listed := (Kept.queued_schedule.mp queued).resolve_right (by
        rintro ⟨event, inside, -⟩
        cases Array.mem_def.mp inside)
      exact ⟨timed.events request listed, timed.changes request listed⟩
    · rintro s id after requests ⟨stop, queue, alarms⟩ started
      rw [started.eq]
      refine ⟨stop, fun request queued => ?_, fun other router held => ?_⟩
      · rcases Kept.queued_schedule.mp queued with new | old
        · have soon := (started.due new).2
          have first := timed.first
          have long := timed.periods
          refine ⟨by omega, fun _ _ kind => ?_⟩
          rcases started.comes request new with ⟨i, _, _, _, -, -, -, rfl⟩ | ⟨type, rfl⟩ <;> cases kind
        · exact queue request old
      · simp only [Simulator.schedule, Function.update_apply] at held
        split_ifs at held with here
        · subst here
          exact ⟨_, Kept.queued_schedule.mpr (.inl (started.alarms .update))⟩
        · obtain ⟨due, set⟩ := alarms other router held
          exact ⟨due, Kept.queued_schedule.mpr (.inr set)⟩
  obtain ⟨stop, queue, alarms⟩ := booted
  constructor
  case timely =>
    exact .of_filled (Config.boot_filled boots)
  case mirrored => exact mirrored
  case unwrapped => exact fun _ none_ => absurd none_ List.not_mem_nil
  case stopTime => exact stop
  case links => exact fun link member => timed.links link (Config.boot_links boots ▸ member)
  case changes => exact fun request queued => (queue request queued).2
  case early => exact fun _ request queued => (queue request queued).1
  case alarms =>
    intro id member
    obtain ⟨net, mirrors, -⟩ := mirrored
    exact alarms id _ (mirrors.routers id member)

end InTime

/-- Every simulation of a configuration without mistakes, with positive delays and in which all times
fit up to the stop time, comes to its end after a bounded number of turns, whatever is lost and in
whatever order events of the same time are popped: it goes past the stop time, and nothing
goes wrong on the way, unless a router has a table that no packet has room for. -/
theorem History.run_ends {config : Config} (wf : config.WellFormed) {longest : ℕ}
    (timed : config.Timed longest) : ∃ start bound, config.boot = some start ∧
      ∀ (pops : Pop Event.time) (choices : ℕ → Choice), ∃ n ≤ bound, ∃ final,
        exec (History.step pops) ⟨start, []⟩ ((List.range n).map choices) = some final ∧
          final.Unwrapped ∧ (final.Ended ∨ final.simulator.Overruns (choices n) ∨
            config.nodes = [] ∧ final.simulator.eventQ.size = 0) := by
  obtain ⟨start, boots, -⟩ := wf.boots
  refine ⟨start, (⟨start, []⟩ : History).potential config.stopTime, boots, fun pops choices => ?_⟩
  have goes : ∀ h choice, InTime config wf longest start h →
      ¬ (h.Ended ∨ h.simulator.eventQ.size = 0 ∨ h.simulator.Overruns choice) →
        ∃ next, h.step pops choice = some next := by
    intro h choice inTime going
    obtain ⟨net, mirrors, sound⟩ := inTime.mirrored
    rw [← mirrors.step_eq_none wf sound pops choice] at going
    exact Option.ne_none_iff_exists'.mp going
  have lowers : ∀ h choice next, InTime config wf longest start h → h.step pops choice = some next →
      InTime config wf longest start next ∧ next.potential config.stopTime < h.potential config.stopTime :=
    fun h choice next inTime stepped => inTime.step timed stepped
  obtain ⟨n, few, final, run, inTime, done⟩ := exists_done _ goes lowers (.boot timed boots) choices
  refine ⟨n, few, final, run, inTime.unwrapped, done.imp id fun stuck => stuck.symm.imp id fun empty => ⟨?_, empty⟩⟩
  -- a node would have its alarm in the queue
  refine List.eq_nil_iff_forall_not_mem.mpr fun id member => ?_
  obtain ⟨due, event, inside, -⟩ := inTime.alarms id member
  rw [Array.size_eq_zero_iff.mp empty] at inside
  cases Array.mem_def.mp inside

/-- The triangle, to be stopped after 5 ms. -/
def brief : Config := { triangle with stopTime := 5 }

theorem brief_wellFormed : brief.WellFormed where
  loopless := triangle_wellFormed.loopless
  room := triangle_wellFormed.room
  ends := triangle_wellFormed.ends
  proper := fun _ none_ => absurd none_ List.not_mem_nil
  early := triangle_wellFormed.early
  ahead := triangle_wellFormed.ahead

theorem brief_timed : brief.Timed 30000 where
  links := by simp [brief, triangle, Lasts]
  changes := fun _ none_ => absurd none_ List.not_mem_nil
  periods := le_rfl
  stops := by decide
  stop := by decide
  first := by decide
  events := fun _ none_ => absurd none_ List.not_mem_nil

/-- The triangle stops, whatever is drawn. -/
theorem brief_ends : ∃ start bound, brief.boot = some start ∧
    ∀ choices : ℕ → Choice, ∃ n ≤ bound, ∃ final,
      exec (History.step (Pop.binary Event.time)) ⟨start, []⟩ ((List.range n).map choices) = some final ∧
        final.Unwrapped ∧ (final.Ended ∨ final.simulator.Overruns (choices n)) := by
  obtain ⟨start, bound, boots, ends⟩ := History.run_ends brief_wellFormed brief_timed
  refine ⟨start, bound, boots, fun choices => ?_⟩
  obtain ⟨n, few, final, run, unwrapped, ended⟩ := ends (Pop.binary Event.time) choices
  have nodes : brief.nodes ≠ [] := List.cons_ne_nil _ _
  exact ⟨n, few, final, run, unwrapped, ended.imp_right fun stuck =>
    stuck.resolve_right fun empty => nodes empty.1⟩

end ComputerNetworks.Simulation
