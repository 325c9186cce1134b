import ComputerNetworks.Routing.Entries

/-!
# Loops over destinations, one entry at a time

The loops of `handlePingPong` and `refreshDV` go over different destinations, and a
round looks at its own entry and at tables that the loop does not change. What a loop
does to an entry, and what it pushes about it, is then what its one round does.
-/

namespace ComputerNetworks.Routing

/-- The adverts about a destination. -/
def about (dest : ℕ) (adverts : List Advert) : List Advert :=
  adverts.filter fun advert => advert.dest = dest

@[simp] theorem about_nil (dest : ℕ) : about dest [] = [] := rfl

theorem about_append (dest : ℕ) (as bs : List Advert) :
    about dest (as ++ bs) = about dest as ++ about dest bs := List.filter_append ..

theorem about_eq_self {dest : ℕ} {adverts : List Advert}
    (all : ∀ advert ∈ adverts, advert.dest = dest) : about dest adverts = adverts :=
  List.filter_eq_self.mpr fun advert member => decide_eq_true (all advert member)

theorem about_eq_nil {dest : ℕ} {adverts : List Advert}
    (all : ∀ advert ∈ adverts, advert.dest ≠ dest) : about dest adverts = [] :=
  List.filter_eq_nil_iff.mpr fun advert member => by simpa using all advert member

/-- Among adverts about different destinations there is one about each. -/
theorem about_of_nodup {adverts : List Advert} (nodup : (adverts.map Advert.dest).Nodup)
    {advert : Advert} (member : advert ∈ adverts) : about advert.dest adverts = [advert] := by
  obtain ⟨before, after, rfl⟩ := List.append_of_mem member
  rw [List.map_append, List.map_cons, List.nodup_append, List.nodup_cons] at nodup
  obtain ⟨-, ⟨fresh, -⟩, apart⟩ := nodup
  have left : about advert.dest before = [] := about_eq_nil fun other listed same =>
    apart other.dest (List.mem_map_of_mem listed) advert.dest List.mem_cons_self same
  have right : about advert.dest after = [] := about_eq_nil fun other listed same =>
    fresh (List.mem_map.mpr ⟨other, listed, same⟩)
  rw [about_append, left, List.nil_append]
  change about advert.dest ([advert] ++ after) = [advert]
  rw [about_append, right, List.append_nil, about_eq_self (by simp)]

/-- The rounds `f` of a loop, among routers with property `K`: what becomes of the entry
of a destination, and what is pushed about it. -/
structure Rounds (f : Update → ℕ → Update) (K : Router → Prop)
    (cell : ℕ → Option DVCell → Option DVCell) (push : ℕ → Option DVCell → List Advert) : Prop where
  keep : ∀ u dest, K u.router → K (f u dest).router
  own : ∀ u dest, K u.router → (f u dest).router.dvMap[dest]? = cell dest u.router.dvMap[dest]?
  frame : ∀ u dest (d : ℕ), d ≠ dest → (f u dest).router.dvMap[d]? = u.router.dvMap[d]?
  pushed : ∀ u dest, K u.router → (f u dest).newPacket = u.newPacket ++ push dest u.router.dvMap[dest]?
  about : ∀ dest entry, ∀ advert ∈ push dest entry, advert.dest = dest

namespace Rounds

variable {f : Update → ℕ → Update} {K : Router → Prop}
  {cell : ℕ → Option DVCell → Option DVCell} {push : ℕ → Option DVCell → List Advert}
  {dests : List ℕ} {u : Update}

/-- The loop keeps what its rounds keep. -/
theorem foldl_keep (h : Rounds f K cell push) (start : K u.router) : K (dests.foldl f u).router := by
  refine List.foldlRecOn (motive := fun v : Update => K v.router) _ _ start fun v hv dest _ => ?_
  exact h.keep v dest hv

/-- What a loop does to an entry. -/
theorem foldl_entry (h : Rounds f K cell push) (nodup : dests.Nodup) (start : K u.router) (d : ℕ) :
    (dests.foldl f u).router.dvMap[d]? =
      if d ∈ dests then cell d u.router.dvMap[d]? else u.router.dvMap[d]? := by
  induction dests generalizing u with
  | nil => rfl
  | cons dest dests ih =>
    obtain ⟨fresh, nodup⟩ := List.nodup_cons.mp nodup
    rw [List.foldl_cons, ih nodup (h.keep u dest start)]
    by_cases here : d = dest
    · subst here
      rw [if_neg fresh, h.own u d start, if_pos List.mem_cons_self]
    · simp only [h.frame u dest d here, List.mem_cons, here, false_or]

/-- What a loop pushes about a destination. -/
theorem foldl_about (h : Rounds f K cell push) (nodup : dests.Nodup) (start : K u.router) (d : ℕ) :
    Routing.about d (dests.foldl f u).newPacket = Routing.about d u.newPacket ++
      if d ∈ dests then push d u.router.dvMap[d]? else [] := by
  induction dests generalizing u with
  | nil => simp
  | cons dest dests ih =>
    obtain ⟨fresh, nodup⟩ := List.nodup_cons.mp nodup
    rw [List.foldl_cons, ih nodup (h.keep u dest start), h.pushed u dest start, about_append]
    by_cases here : d = dest
    · subst here
      rw [if_neg fresh, if_pos List.mem_cons_self, about_eq_self (h.about d _), List.append_nil]
    · have others : ∀ advert ∈ push dest u.router.dvMap[dest]?, advert.dest ≠ d :=
        fun advert member same => here (same.symm.trans (h.about dest _ advert member))
      simp only [about_eq_nil others, List.append_nil, h.frame u dest d here, List.mem_cons, here,
        false_or]

/-- A loop over all entries does its round to each. -/
theorem foldl_keys (h : Rounds f K cell push) (start : K u.router) {d : ℕ}
    (absent : cell d none = none) (silent : push d none = []) :
    (u.router.dvMap.keys.foldl f u).router.dvMap[d]? = cell d u.router.dvMap[d]? ∧
      Routing.about d (u.router.dvMap.keys.foldl f u).newPacket =
        Routing.about d u.newPacket ++ push d u.router.dvMap[d]? := by
  have nodup := u.router.dvMap.nodup_keys
  rw [h.foldl_entry nodup start, h.foldl_about nodup start]
  by_cases listed : d ∈ u.router.dvMap.keys
  · rw [if_pos listed, if_pos listed]
    exact ⟨rfl, rfl⟩
  · have none_ : u.router.dvMap[d]? = none := by
      rw [Table.mem_keys_iff, not_exists] at listed
      exact Option.eq_none_iff_forall_ne_some.mpr listed
    rw [if_neg listed, if_neg listed, none_, absent, silent]
    exact ⟨rfl, rfl⟩

end Rounds

namespace Router

variable {now src rrt diff : ℕ} {disconnected : Bool}

/-! ### The PONG loop -/

/-- What a changed round trip time to `src` does to the entry of `dest`. -/
def pongCell (now src rrt diff : ℕ) (links : Table NNCell) (dest : ℕ) :
    Option DVCell → Option DVCell
  | none => none
  | some cell =>
    if cell.nextHop = src then
      let maychangeCost := (cell.cost + diff) % 2 ^ 16
      match links[dest]? with
      | some direct =>
        if direct.cost ≤ maychangeCost then some ⟨dest, direct.cost, now⟩
        else some { cell with updated := now }
      | none => some ⟨cell.nextHop, maychangeCost, now⟩
    else if dest = src ∧ rrt ≤ cell.cost then some ⟨src, rrt, now⟩
    else some cell

/-- The loop says what has become of an entry it had to look at, or of every entry. -/
def pongPush (now src rrt diff : ℕ) (links : Table NNCell) (all : Bool) (dest : ℕ)
    (entry : Option DVCell) : List Advert :=
  match entry, pongCell now src rrt diff links dest entry with
  | some cell, some cell' =>
    if cell.nextHop = src ∨ dest = src ∧ rrt ≤ cell.cost ∨ all then [.route dest cell'.cost] else []
  | _, _ => []

/-- A round of the PONG loop that says something. -/
def PongNews (src rrt : ℕ) (all : Bool) (dest : ℕ) (cell : DVCell) : Prop :=
  cell.nextHop = src ∨ dest = src ∧ rrt ≤ cell.cost ∨ all = true

/-- A round of the PONG loop writes the new cell and pushes it, or does nothing. -/
theorem repriceEntry_cases (now src rrt diff : ℕ) (disconnected : Bool) (u : Update) (dest : ℕ) {cell : DVCell}
    (found : u.router.dvMap[dest]? = some cell) :
    ∃ cell', pongCell now src rrt diff u.router.directNeighbors dest (some cell) = some cell' ∧
      (PongNews src rrt (disconnected && u.router.dvMap.contains src) dest cell ∧
          (repriceEntry now src rrt diff disconnected u dest = u.reroute dest cell' ∨
            repriceEntry now src rrt diff disconnected u dest = u.reprice dest cell' ∨
            cell' = cell ∧
              repriceEntry now src rrt diff disconnected u dest = u.tell (.route dest cell.cost)) ∨
        ¬ PongNews src rrt (disconnected && u.router.dvMap.contains src) dest cell ∧ cell' = cell ∧
          repriceEntry now src rrt diff disconnected u dest = u) := by
  unfold repriceEntry pongCell
  rw [found]
  dsimp only
  -- the branches of the loop: a route through the sender, the one to it, all others
  by_cases via : cell.nextHop = src
  · rw [if_pos via, if_pos via]
    cases direct : u.router.directNeighbors[dest]? with
    | none => exact ⟨_, rfl, .inl ⟨.inl via, .inr (.inl rfl)⟩⟩
    | some near =>
      dsimp only
      split_ifs
      · exact ⟨_, rfl, .inl ⟨.inl via, .inl rfl⟩⟩
      · exact ⟨_, rfl, .inl ⟨.inl via, .inr (.inl rfl)⟩⟩
  · rw [if_neg via, if_neg via]
    by_cases better : dest = src ∧ rrt ≤ cell.cost
    · rw [if_pos better, if_pos better]
      exact ⟨_, rfl, .inl ⟨.inr (.inl better), .inl rfl⟩⟩
    · rw [if_neg better, if_neg better]
      refine ⟨cell, rfl, ?_⟩
      by_cases all : disconnected = true ∧ u.router.dvMap.contains src = true
      · rw [if_pos all]
        exact .inl ⟨.inr (.inr (by simpa using all)), .inr (.inr ⟨rfl, rfl⟩)⟩
      · rw [if_neg all]
        refine .inr ⟨?_, rfl, rfl⟩
        rintro (h | h | h)
        · exact via h
        · exact better h
        · exact all (by simpa using h)

theorem repriceEntry_of_none (u : Update) (dest : ℕ) (absent : u.router.dvMap[dest]? = none) :
    repriceEntry now src rrt diff disconnected u dest = u := by
  unfold repriceEntry
  rw [absent]

theorem pongPush_some {links : Table NNCell} {all : Bool} {dest : ℕ} {cell cell' : DVCell}
    (next : pongCell now src rrt diff links dest (some cell) = some cell') :
    (PongNews src rrt all dest cell →
        pongPush now src rrt diff links all dest (some cell) = [.route dest cell'.cost]) ∧
      (¬ PongNews src rrt all dest cell →
        pongPush now src rrt diff links all dest (some cell) = []) := by
  unfold pongPush PongNews
  rw [next]
  exact ⟨fun news => if_pos news, fun silent => if_neg silent⟩

/-- Writing an entry that exists adds no destination. -/
theorem contains_insert_of_found {t : Table DVCell} {dest : ℕ} {cell cell' : DVCell}
    (found : t[dest]? = some cell) (src : ℕ) : (t.insert dest cell').contains src = t.contains src := by
  rw [Std.ExtTreeMap.contains_insert]
  by_cases here : dest = src
  · subst here
    rw [(Table.contains_iff t).mpr ⟨cell, found⟩, Bool.or_true]
  · simp [here]

theorem repriceEntry_rounds (now src rrt diff : ℕ) (disconnected : Bool) (links : Table NNCell) (listed : Bool) :
    Rounds (repriceEntry now src rrt diff disconnected)
      (fun r => r.directNeighbors = links ∧ r.dvMap.contains src = listed)
      (pongCell now src rrt diff links) (pongPush now src rrt diff links (disconnected && listed)) where
  keep u dest := by
    rintro ⟨rfl, rfl⟩
    refine ⟨repriceEntry_directNeighbors .., ?_⟩
    cases found : u.router.dvMap[dest]? with
    | none => rw [repriceEntry_of_none u dest found]
    | some cell =>
      obtain ⟨cell', -, ⟨-, same | same | ⟨-, same⟩⟩ | ⟨-, -, same⟩⟩ :=
        repriceEntry_cases now src rrt diff disconnected u dest found
      · rw [same]
        exact contains_insert_of_found found src
      · rw [same]
        exact contains_insert_of_found found src
      · rw [same]
        rfl
      · rw [same]
  own u dest := by
    rintro ⟨rfl, rfl⟩
    cases found : u.router.dvMap[dest]? with
    | none =>
      rw [repriceEntry_of_none u dest found, found]
      rfl
    | some cell =>
      obtain ⟨cell', next, ⟨-, same | same | ⟨unchanged, same⟩⟩ | ⟨-, unchanged, same⟩⟩ :=
        repriceEntry_cases now src rrt diff disconnected u dest found
      · rw [same, next]
        exact (install_dvMap ..).trans (if_pos rfl)
      · rw [same, next]
        exact (setCell_dvMap ..).trans (if_pos rfl)
      · rw [same, next, unchanged]
        exact found
      · rw [same, next, unchanged, found]
  frame u dest d other := repriceEntry_own now src rrt diff disconnected u dest d other
  pushed u dest := by
    rintro ⟨rfl, rfl⟩
    cases found : u.router.dvMap[dest]? with
    | none =>
      rw [repriceEntry_of_none u dest found]
      exact (List.append_nil _).symm
    | some cell =>
      obtain ⟨cell', next, ⟨news, same | same | ⟨unchanged, same⟩⟩ | ⟨silent, -, same⟩⟩ :=
        repriceEntry_cases now src rrt diff disconnected u dest found
      · rw [same, (pongPush_some next).1 news]
        rfl
      · rw [same, (pongPush_some next).1 news]
        rfl
      · rw [same, (pongPush_some next).1 news, unchanged]
        rfl
      · rw [same, (pongPush_some next).2 silent, List.append_nil]
  about dest entry advert member := by
    unfold pongPush at member
    split at member
    · split_ifs at member
      · rw [List.mem_singleton.mp member]
        rfl
      · cases member
    · cases member

/-- What the loop over all routes does to an entry, and what it pushes about it. -/
theorem updateRoutes_entry (now src rrt : ℕ) (disconnected : Bool) (r : Router) (changed : diff ≠ 0) (d : ℕ) :
    (r.updateRoutes now src rrt diff disconnected).router.dvMap[d]? =
        pongCell now src rrt diff r.directNeighbors d r.dvMap[d]? ∧
      about d (r.updateRoutes now src rrt diff disconnected).newPacket =
        pongPush now src rrt diff r.directNeighbors (disconnected && r.dvMap.contains src) d
          r.dvMap[d]? := by
  have rounds := repriceEntry_rounds now src rrt diff disconnected r.directNeighbors
    (r.dvMap.contains src)
  unfold updateRoutes
  rw [if_pos changed, rounds.foldl_entry r.dvMap.nodup_keys ⟨rfl, rfl⟩,
    rounds.foldl_about r.dvMap.nodup_keys ⟨rfl, rfl⟩, about_nil, List.nil_append]
  -- the loop comes to every destination of the table exactly once
  by_cases listed : d ∈ r.dvMap.keys
  · rw [if_pos listed, if_pos listed]
    exact ⟨rfl, rfl⟩
  · have absent : r.dvMap[d]? = none := by
      rw [Table.mem_keys_iff] at listed
      exact Option.eq_none_iff_forall_not_mem.mpr fun cell found => listed ⟨cell, found⟩
    rw [if_neg listed, if_neg listed, absent]
    exact ⟨rfl, rfl⟩

/-- Confirming routes changes none. -/
theorem touchEntries_route (now src : ℕ) (dests : List ℕ) (r : Router) (d : ℕ) :
    (dests.foldl (touchEntry now src) r).dvMap[d]?.map DVCell.route =
      r.dvMap[d]?.map DVCell.route := by
  induction dests generalizing r with
  | nil => rfl
  | cons dest dests ih =>
    refine (ih _).trans ?_
    rcases touchEntry_eq now src r dest with same | ⟨cell, found, touched⟩
    · rw [same]
    · rw [touched, setCell_dvMap]
      split_ifs with here
      · rw [here, found]
        rfl
      · rfl

/-- What is pushed about the destinations of a full table. -/
theorem about_fullTable (r : Router) (d : ℕ) :
    about d r.fullTable = (r.dvMap[d]?.map fun cell => Advert.route d cell.cost).toList := by
  cases found : r.dvMap[d]? with
  | none =>
    refine about_eq_nil fun advert member same => ?_
    obtain ⟨⟨d', cell⟩, entry, rfl⟩ := List.mem_map.mp member
    have found' := Std.ExtTreeMap.mem_toList_iff_getElem?_eq_some.mp entry
    rw [show d' = d from same, found] at found'
    cases found'
  | some cell => exact about_of_nodup (nodup_fullTable r) (mem_fullTable.mpr ⟨cell, found, rfl⟩)

/-! ### A whole PONG -/

section Pong

variable (r : Router) {port time : ℕ}

/-- A loop over the routes adds and removes none. -/
theorem updateRoutes_contains (changed : diff ≠ 0) (d : ℕ) :
    (r.updateRoutes now src rrt diff disconnected).router.dvMap.contains d = r.dvMap.contains d := by
  rw [Std.ExtTreeMap.contains_eq_isSome_getElem?, Std.ExtTreeMap.contains_eq_isSome_getElem?,
    (updateRoutes_entry now src rrt disconnected r changed d).1]
  cases found : r.dvMap[d]? with
  | none => rfl
  | some cell =>
    obtain ⟨cell', next, -⟩ :=
      repriceEntry_cases now src rrt diff disconnected ⟨r, []⟩ d found
    rw [show pongCell now src rrt diff r.directNeighbors d (some cell) = some cell' from next]
    rfl

/-- A PONG with a new round trip time from a neighbour with a route. -/
theorem handlePong_listed (changed : sub32 (sub32 now time) (r.ports port).cost ≠ 0)
    (listed : r.dvMap.contains src = true) (d : ℕ) :
    (r.handlePong now port src time).router.dvMap[d]? =
        pongCell now src (sub32 now time) (sub32 (sub32 now time) (r.ports port).cost)
          (r.connect now port src (sub32 now time)).directNeighbors d r.dvMap[d]? ∧
      about d (r.handlePong now port src time).newPacket =
        pongPush now src (sub32 now time) (sub32 (sub32 now time) (r.ports port).cost)
          (r.connect now port src (sub32 now time)).directNeighbors (!(r.ports port).connected) d
          r.dvMap[d]? := by
  have whole : r.handlePong now port src time =
      (r.connect now port src (sub32 now time)).updateRoutes now src (sub32 now time)
        (sub32 (sub32 now time) (r.ports port).cost) !(r.ports port).connected :=
    if_pos ((updateRoutes_contains (r.connect now port src (sub32 now time)) changed src).trans listed)
  have entry := updateRoutes_entry now src (sub32 now time) (!(r.ports port).connected)
    (r.connect now port src (sub32 now time)) changed d
  rw [show (r.connect now port src (sub32 now time)).dvMap = r.dvMap from rfl, listed,
    Bool.and_true] at entry
  rw [whole]
  exact entry

/-- A PONG with a new round trip time from a neighbour without a route. -/
theorem handlePong_unlisted (changed : sub32 (sub32 now time) (r.ports port).cost ≠ 0)
    (unlisted : r.dvMap.contains src = false) (d : ℕ) :
    (r.handlePong now port src time).router.dvMap[d]? =
        (if d = src then some ⟨src, sub32 now time, now⟩
        else pongCell now src (sub32 now time) (sub32 (sub32 now time) (r.ports port).cost)
          (r.connect now port src (sub32 now time)).directNeighbors d r.dvMap[d]?) ∧
      about d (r.handlePong now port src time).newPacket =
        pongPush now src (sub32 now time) (sub32 (sub32 now time) (r.ports port).cost)
          (r.connect now port src (sub32 now time)).directNeighbors false d r.dvMap[d]? ++
        ((r.handlePong now port src time).router.dvMap[d]?.map
          fun cell => Advert.route d cell.cost).toList := by
  let u := (r.connect now port src (sub32 now time)).updateRoutes now src (sub32 now time)
    (sub32 (sub32 now time) (r.ports port).cost) !(r.ports port).connected
  have absent : ¬ u.router.dvMap.contains src = true := by
    rw [updateRoutes_contains _ changed src]
    exact Bool.eq_false_iff.mp unlisted
  have whole : r.handlePong now port src time =
      ⟨u.router.install src ⟨src, sub32 now time, now⟩,
        u.newPacket ++ (u.router.install src ⟨src, sub32 now time, now⟩).fullTable⟩ := if_neg absent
  have entry := updateRoutes_entry now src (sub32 now time) (!(r.ports port).connected)
    (r.connect now port src (sub32 now time)) changed d
  rw [show (r.connect now port src (sub32 now time)).dvMap = r.dvMap from rfl, unlisted,
    Bool.and_false] at entry
  rw [whole, install_dvMap, entry.1, about_append, entry.2, about_fullTable, install_dvMap, entry.1]
  exact ⟨rfl, rfl⟩

/-- What a PONG with a new round trip time does to an entry. -/
theorem handlePong_dvMap (now port src time : ℕ)
    (changed : sub32 (sub32 now time) (r.ports port).cost ≠ 0) (d : ℕ) :
    (r.handlePong now port src time).router.dvMap[d]? =
      if d = src ∧ r.dvMap[d]? = none then some ⟨src, sub32 now time, now⟩
      else pongCell now src (sub32 now time) (sub32 (sub32 now time) (r.ports port).cost)
        (r.connect now port src (sub32 now time)).directNeighbors d r.dvMap[d]? := by
  by_cases listed : r.dvMap.contains src = true
  · rw [(handlePong_listed r changed listed d).1, if_neg]
    rintro ⟨rfl, absent⟩
    obtain ⟨cell, found⟩ := (Table.contains_iff _).mp listed
    rw [absent] at found
    cases found
  · have unlisted := Bool.eq_false_iff.mpr listed
    have absent := (Table.contains_eq_false_iff _).mp unlisted
    rw [(handlePong_unlisted r changed unlisted d).1]
    by_cases here : d = src
    · subst here
      rw [if_pos rfl, if_pos ⟨rfl, absent⟩]
    · rw [if_neg here, if_neg fun both => here both.1]

/-- The first PONG of a neighbour through which nothing is routed: its own entry is set
unless it is better, the others stay, and every route is pushed once. -/
theorem handlePong_first (now port src time : ℕ) (off : (r.ports port).connected = false) (free : (r.ports port).cost = 0)
    (positive : sub32 now time ≠ 0) (small : sub32 now time < 2 ^ 32)
    (noVia : ∀ (d : ℕ) cell, r.dvMap[d]? = some cell → cell.nextHop ≠ src) (d : ℕ) :
    about d (r.handlePong now port src time).newPacket =
        ((r.handlePong now port src time).router.dvMap[d]?.map
          fun cell => Advert.route d cell.cost).toList ∧
      (r.handlePong now port src time).router.dvMap[d]? =
        match r.dvMap[d]? with
        | none => if d = src then some ⟨src, sub32 now time, now⟩ else none
        | some cell =>
          if d = src ∧ sub32 now time ≤ cell.cost then some ⟨src, sub32 now time, now⟩
          else some cell := by
  have changed : sub32 (sub32 now time) (r.ports port).cost ≠ 0 := by
    rw [free, sub32_of_le (Nat.zero_le _) small]
    exact positive
  have entry : ∀ cell, r.dvMap[d]? = some cell →
      pongCell now src (sub32 now time) (sub32 (sub32 now time) (r.ports port).cost)
        (r.connect now port src (sub32 now time)).directNeighbors d (some cell) =
        if d = src ∧ sub32 now time ≤ cell.cost then some ⟨src, sub32 now time, now⟩
        else some cell := fun cell found => if_neg (noVia d cell found)
  by_cases listed : r.dvMap.contains src = true
  · obtain ⟨route, pushed⟩ := handlePong_listed r changed listed d
    rw [route, pushed, off]
    cases found : r.dvMap[d]? with
    | none =>
      refine ⟨rfl, (if_neg ?_).symm⟩
      rintro rfl
      obtain ⟨cell, found'⟩ := (Table.contains_iff _).mp listed
      rw [found] at found'
      cases found'
    | some cell =>
      refine ⟨?_, entry cell found⟩
      have all : PongNews src (sub32 now time) (!false) d cell := .inr (.inr rfl)
      have next := entry cell found
      split_ifs at next
      · rw [(pongPush_some next).1 all, next]
        rfl
      · rw [(pongPush_some next).1 all, next]
        rfl
  · have unlisted := Bool.eq_false_iff.mpr listed
    have absent := (Table.contains_eq_false_iff _).mp unlisted
    obtain ⟨route, pushed⟩ := handlePong_unlisted r changed unlisted d
    have away : ∀ cell, r.dvMap[d]? = some cell → d ≠ src := by
      rintro cell found rfl
      rw [absent] at found
      cases found
    -- the loop pushes nothing, and the full table behind it everything
    have silent : pongPush now src (sub32 now time) (sub32 (sub32 now time) (r.ports port).cost)
        (r.connect now port src (sub32 now time)).directNeighbors false d r.dvMap[d]? = [] := by
      cases found : r.dvMap[d]? with
      | none => rfl
      | some cell =>
        have here := away cell found
        have next := entry cell found
        rw [if_neg fun better => here better.1] at next
        refine (pongPush_some next).2 ?_
        rintro (via | better | all)
        · exact noVia d cell found via
        · exact here better.1
        · cases all
    refine ⟨by rw [pushed, silent, List.nil_append], ?_⟩
    rw [route]
    cases found : r.dvMap[d]? with
    | none => rfl
    | some cell => rw [if_neg (away cell found), entry cell found]

end Pong

end Router

end ComputerNetworks.Routing
