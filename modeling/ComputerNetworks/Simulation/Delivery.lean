import ComputerNetworks.Simulation.EventLoop

/-!
# Delivery on a link

A packet goes through `event_q` twice, as a transmission and as an arrival. The queue
orders events by their times only, so packets that are sent in different milliseconds
arrive in the order in which they were sent, and packets of the same millisecond need not.
-/

namespace ComputerNetworks.Simulation

open Lib Routing

namespace History

/-- `first` was dispatched, and `second` after it. -/
def Before (h : History) (first second : Event) : Prop := [first, second].Sublist h.dispatched

/-- What `xmit` transmits has arrived, and `event` was dispatched after that. -/
def ArrivedBefore (h : History) (xmit event : Event) : Prop :=
  ∃ turn ∈ h.log, turn.dispatched = xmit ∧ ∃ arrival ∈ turn.scheduled, h.Before arrival event

/-- A link had died when `event` was dispatched. -/
def DiedBefore (h : History) (number : ℕ) (event : Event) : Prop :=
  ∃ death ∈ h.dispatched, death.kind = .linkDie number ∧ h.Before death event

/-- In the run so far, the packets that were sent on a link to the same node have been received
in the order of `key`: a packet that has arrived did so after all those before it, but for
those that found the link dead. -/
def InOrder (key : Event → ℕ) (start : Simulator) (h : History) (number : ℕ) : Prop :=
  ∀ xmit ∈ h.created start, ∀ turn ∈ h.log, xmit.route = turn.dispatched.route →
    xmit.route.map Prod.snd = some number → key xmit < key turn.dispatched →
    ∀ arrival ∈ turn.scheduled, arrival ∈ h.dispatched →
      h.ArrivedBefore xmit arrival ∨ h.DiedBefore number xmit

/-- The delay of a link does not change in the run so far. -/
def KeepsDelay (h : History) (number : ℕ) : Prop :=
  ∀ event ∈ h.dispatched, event.kind.changesDelay number = false

instance (h : History) (number : ℕ) : Decidable (h.KeepsDelay number) :=
  inferInstanceAs (Decidable (∀ event ∈ h.dispatched, event.kind.changesDelay number = false))

variable {pops : Pop Event.time} {start : Simulator} {h next : History} {choice : Choice}
  {number : ℕ} {link : Link}

theorem Before.mono {first second : Event} {turn : Turn} (log : next.log = h.log ++ [turn])
    (before : h.Before first second) : next.Before first second := by
  rw [Before, dispatched_step log]
  exact before.trans (List.sublist_append_left _ _)

theorem DiedBefore.mono {event : Event} {turn : Turn} (log : next.log = h.log ++ [turn])
    (died : h.DiedBefore number event) : next.DiedBefore number event := by
  obtain ⟨death, member, kind, before⟩ := died
  exact ⟨death, dispatched_step log ▸ List.mem_append_left _ member, kind, before.mono log⟩

/-- Of two events with different times the earlier one was dispatched first. -/
theorem Timely.before (timely : h.Timely start) {first second : Event} (inside : first ∈ h.dispatched)
    (member : second ∈ h.dispatched) (earlier : first.time < second.time) :
    h.Before first second := by
  obtain ⟨before, rest, split⟩ := List.append_of_mem inside
  have sorted := timely.sorted
  rw [split, List.map_append, List.pairwise_append] at sorted
  rw [split, List.mem_append, List.mem_cons] at member
  -- dispatch times do not go down, so that the later event stands behind
  rcases member with old | rfl | new
  · have wrong := sorted.2.2 second.time (List.mem_map_of_mem old) first.time (.head _)
    exact absurd earlier wrong.not_gt
  · exact absurd earlier (lt_irrefl _)
  · rw [Before, split]
    exact ((List.singleton_sublist.mpr new).cons_cons first).trans (List.sublist_append_right _ _)

/-- What holds of a link that loses nothing while its delay does not change. -/
structure Steady (number : ℕ) (link : Link) (h : History) : Prop where
  present : ∃ now, h.simulator.links[number]? = some now ∧ now.delay = link.delay ∧
    now.tenLossProb ≤ 0 ∧
    (now.isAlive = true ∨ ∃ death ∈ h.dispatched, death.kind = .linkDie number)
  turns : ∀ turn ∈ h.log, turn.dispatched.route.map Prod.snd = some number →
    (∀ arrival ∈ turn.scheduled, arrival.due = turn.dispatched.time + link.delay.toNat) ∧
      (turn.scheduled = [] → h.DiedBefore number turn.dispatched)

theorem Steady.step (steady : Steady number link h) (stepped : h.step pops choice = some next)
    (keeps : next.KeepsDelay number) : Steady number link next := by
  obtain ⟨-, turn, turned, log⟩ := step_cases stepped
  obtain ⟨-, mid, requests, dispatched, scheduled, links, -⟩ := Simulator.turn_cases turned
  obtain ⟨now, found, delay, loss, life⟩ := steady.present
  have here : turn.dispatched ∈ next.dispatched :=
    dispatched_step log ▸ List.mem_append_right _ (.head _)
  constructor
  · obtain ⟨after, at_number, follows⟩ := Simulator.dispatch_link dispatched found
    refine ⟨after, links ▸ at_number, (follows.delay (keeps _ here)).trans delay,
      follows.loss.trans_le loss, ?_⟩
    rcases life with alive | ⟨death, member, kind⟩
    · by_cases dies : turn.dispatched.kind = .linkDie number
      · exact .inr ⟨turn.dispatched, here, dies⟩
      · exact .inl (follows.alive dies alive)
    · exact .inr ⟨death, dispatched_step log ▸ List.mem_append_left _ member, kind⟩
  · intro t inside route
    rw [log, List.mem_append, List.mem_singleton] at inside
    rcases inside with old | rfl
    · obtain ⟨arrivals, lost⟩ := steady.turns t old route
      exact ⟨arrivals, fun none => (lost none).mono log⟩
    · obtain ⟨⟨dest, same⟩, goes, rfl⟩ := Option.map_eq_some_iff.mp route
      obtain ⟨arrivals, passes⟩ := Simulator.dispatch_xmit dispatched found goes
      refine ⟨fun arrival member => ?_, fun none => ?_⟩
      · rw [← delay]
        exact arrivals _ (Simulator.mem_events (scheduled ▸ member))
      · -- a link that is alive would have scheduled the arrival
        have nothing : requests = [] := by
          rw [scheduled] at none
          exact List.length_eq_zero_iff.mp (Simulator.events_length _ ▸ List.length_eq_zero_iff.mpr none)
        rcases life with alive | ⟨death, member, kind⟩
        · exact absurd nothing (passes alive loss)
        · refine ⟨death, dispatched_step log ▸ List.mem_append_left _ member, kind, ?_⟩
          rw [Before, dispatched_step log]
          exact (List.singleton_sublist.mpr member).append (List.Sublist.refl _)

theorem Steady.run {config : Config} (boots : config.boot = some start)
    (found : config.links[number]? = some link) (lossless : link.tenLossProb ≤ 0)
    {choices : List Choice} {final : History}
    (run : exec (History.step pops) ⟨start, []⟩ choices = some final)
    (keeps : final.KeepsDelay number) : Steady number link final := by
  have invariant : final.KeepsDelay number → Steady number link final := by
    refine exec_invariant (I := fun h => h.KeepsDelay number → Steady number link h) ?_ ?_ run
    · intro h choice next steady stepped keeps
      obtain ⟨-, turn, -, log⟩ := step_cases stepped
      have before : h.KeepsDelay number :=
        fun event member => keeps event (dispatched_step log ▸ List.mem_append_left _ member)
      exact (steady before).step stepped keeps
    · intro _
      refine ⟨⟨link, ?_, rfl, lossless, .inl ?_⟩, fun _ none => absurd none List.not_mem_nil⟩
      · rw [Config.boot_links boots]
        exact found
      · exact config.alive link (List.mem_of_getElem? found)
  exact invariant keeps

/-- Packets that are sent on a link in different milliseconds are received in the order in which
they were sent. -/
theorem inOrder_of_time {config : Config} (boots : config.boot = some start) {choices : List Choice}
    {final : History} (run : exec (History.step pops) ⟨start, []⟩ choices = some final)
    (found : config.links[number]? = some link) (lossless : link.tenLossProb ≤ 0)
    (keeps : final.KeepsDelay number) : final.InOrder Event.time start number := by
  have timely := Timely.run (Config.boot_filled boots) run
  have steady := Steady.run boots found lossless run keeps
  intro xmit made turn inside sameRoute onLink earlier arrival scheduled arrived
  have there : turn.dispatched ∈ final.dispatched := List.mem_map_of_mem inside
  have arrivesAt : arrival.time = turn.dispatched.time + link.delay.toNat := by
    rw [Event.time_eq (timely.narrow turn inside arrival scheduled (.inl arrived))]
    exact (steady.turns turn inside (sameRoute ▸ onLink)).1 arrival scheduled
  -- the earlier transmission has been dispatched
  have sent : xmit ∈ final.dispatched := by
    rcases timely.accounted xmit made with done | waits | ⟨none, -⟩
    · exact done
    · exact absurd earlier (timely.later _ there xmit waits).not_gt
    · rw [none] at onLink
      cases onLink
  obtain ⟨before, inLog, rfl⟩ := List.mem_map.mp sent
  obtain ⟨dues, lost⟩ := steady.turns before inLog onLink
  cases first : before.scheduled with
  | nil => exact .inr (lost first)
  | cons early others =>
    -- its arrival is due before the other one, so it has been dispatched too
    have fromTurn : early ∈ before.scheduled := first ▸ .head _
    have narrow : early.due < 2 ^ 32 := by
      rw [dues early fromTurn]
      have := arrival.time_lt
      omega
    have sooner : early.time < arrival.time := by
      rw [Event.time_eq narrow, dues early fromTurn, arrivesAt]
      omega
    have created : early ∈ final.created start :=
      List.mem_append_right _ (List.mem_flatMap.mpr ⟨before, inLog, fromTurn⟩)
    rcases timely.accounted early created with done | waits | ⟨-, wide⟩
    · exact .inl ⟨before, inLog, rfl, early, fromTurn, timely.before done arrived sooner⟩
    · exact absurd sooner (timely.later arrival arrived early waits).not_gt
    · exact absurd narrow wide.not_gt

/-! ### A packet that is overtaken -/

theorem Orderly.unique (orderly : h.Orderly start) {a b : Event} (first : a ∈ h.created start)
    (second : b ∈ h.created start) (same : a.serial = b.serial) : a = b :=
  List.inj_on_of_nodup_map (orderly.serials.symm.nodup List.nodup_range) first second same

theorem Orderly.created_of_dispatched (orderly : h.Orderly start) {a : Event}
    (inside : a ∈ h.dispatched) : a ∈ h.created start :=
  orderly.kept.subset (List.mem_append_left _ inside)

/-- No event is dispatched by two turns. -/
theorem Orderly.turn_unique (orderly : h.Orderly start) {turn turn' : Turn} (first : turn ∈ h.log)
    (second : turn' ∈ h.log) (same : turn.dispatched = turn'.dispatched) : turn = turn' := by
  have all := ((orderly.kept.map Event.serial).trans orderly.serials).symm.nodup List.nodup_range
  rw [List.map_append] at all
  have once : (h.log.map fun turn => turn.dispatched.serial).Nodup := by
    have dispatched := (List.nodup_append.mp all).1
    rwa [History.dispatched, List.map_map] at dispatched
  exact List.inj_on_of_nodup_map once first second (congrArg Event.serial same)

/-- The numbers of a transmission and its arrival, for all turns of a run. -/
def traces (h : History) : List (ℕ × Option (ℕ × ℕ) × List ℕ) :=
  h.log.map fun turn =>
    (turn.dispatched.serial, turn.dispatched.route, turn.scheduled.map Event.serial)

/-- Two transmissions `x` and `y` with the arrivals `a` and `b` that did not come in this order. -/
theorem Orderly.not_inOrder (orderly : h.Orderly start) {x y a b dest : ℕ}
    (first : (x, some (dest, number), [a]) ∈ h.traces)
    (second : (y, some (dest, number), [b]) ∈ h.traces) (sent : x < y)
    (received : b ∈ h.dispatched.map Event.serial)
    (overtaken : ¬ [a, b].Sublist (h.dispatched.map Event.serial))
    (lives : ∀ event ∈ h.dispatched, event.kind ≠ .linkDie number) :
    ¬ h.InOrder Event.serial start number := by
  obtain ⟨turn, inside, trace⟩ := List.mem_map.mp first
  obtain ⟨turn', inside', trace'⟩ := List.mem_map.mp second
  simp only [Prod.mk.injEq] at trace trace'
  obtain ⟨rfl, route, arrivals⟩ := trace
  obtain ⟨rfl, route', arrivals'⟩ := trace'
  obtain ⟨arrival, scheduled, rfl⟩ := List.map_eq_singleton_iff.mp arrivals'
  have fromTurn : arrival ∈ turn'.scheduled := scheduled ▸ .head _
  have arrived : arrival ∈ h.dispatched := by
    obtain ⟨event, done, same⟩ := List.mem_map.mp received
    have created : arrival ∈ h.created start :=
      List.mem_append_right _ (List.mem_flatMap.mpr ⟨turn', inside', fromTurn⟩)
    exact orderly.unique (orderly.created_of_dispatched done) created same ▸ done
  intro inOrder
  -- the second packet has arrived, and neither the first one nor a dead link came before it
  have made := orderly.created_of_dispatched (List.mem_map_of_mem inside)
  rcases inOrder _ made turn' inside' (route.trans route'.symm) (congrArg (Option.map Prod.snd) route)
    sent arrival fromTurn arrived with ⟨again, there, same, early, member, before⟩ | ⟨death, member, kind, -⟩
  · rw [orderly.turn_unique there inside same] at member
    have number : early.serial ∈ turn.scheduled.map Event.serial := List.mem_map_of_mem member
    rw [arrivals, List.mem_singleton] at number
    exact overtaken (number ▸ before.map Event.serial)
  · exact lives death member kind

end History

/-- The link between routers 2 and 3 of the triangle in its first PINGs. -/
theorem triangle_inOrder : ∃ start final, triangle.boot = some start ∧
    exec (History.step (Pop.binary Event.time)) ⟨start, []⟩ (List.replicate 12 ⟨0, 0⟩) = some final ∧
    final.InOrder Event.time start 1 := by
  have ran : ((triangle.boot.bind fun start =>
      exec (History.step (Pop.binary Event.time)) ⟨start, []⟩ (List.replicate 12 ⟨0, 0⟩)).any
        fun final => decide (final.KeepsDelay 1)) = true := by decide +kernel
  obtain ⟨final, found, keeps⟩ := (Option.any_eq_true _ _).mp ran
  obtain ⟨start, boots, run⟩ := Option.bind_eq_some_iff.mp found
  have found : triangle.links[1]? = some ⟨2, 3, 10, 0, true⟩ := rfl
  exact ⟨start, final, boots, run,
    History.inOrder_of_time boots run found (le_refl 0) (of_decide_eq_true keeps)⟩

/-- Within 20 ms, router 3 sends router 2 two DV packets in one millisecond, and the second one
arrives before the first one. -/
theorem triangle_overtaken : ∃ start final, triangle.boot = some start ∧
    exec (History.step (Pop.binary Event.time)) ⟨start, []⟩ (List.replicate 42 ⟨0, 0⟩) = some final ∧
    final.Unwrapped ∧ final.KeepsDelay 1 ∧ ¬ final.InOrder Event.serial start 1 := by
  have ran : ((triangle.boot.bind fun start =>
      exec (History.step (Pop.binary Event.time)) ⟨start, []⟩ (List.replicate 42 ⟨0, 0⟩)).any
        fun final => decide (final.Unwrapped ∧ final.KeepsDelay 1 ∧
          (38, some (2, 1), [48]) ∈ final.traces ∧ (40, some (2, 1), [49]) ∈ final.traces ∧
          49 ∈ final.dispatched.map Event.serial ∧
          ¬ [48, 49].Sublist (final.dispatched.map Event.serial) ∧
          ∀ event ∈ final.dispatched, event.kind ≠ .linkDie 1)) = true := by decide +kernel
  obtain ⟨final, found, facts⟩ := (Option.any_eq_true _ _).mp ran
  obtain ⟨start, boots, run⟩ := Option.bind_eq_some_iff.mp found
  obtain ⟨unwrapped, keeps, first, second, received, overtaken, lives⟩ := of_decide_eq_true facts
  have orderly := History.Orderly.run (Config.boot_filled boots) run unwrapped
  exact ⟨start, final, boots, run, unwrapped, keeps,
    orderly.not_inOrder first second (by decide) received overtaken lives⟩

end ComputerNetworks.Simulation
