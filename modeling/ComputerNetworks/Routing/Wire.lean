import ComputerNetworks.Lib.ByteBuffer
import ComputerNetworks.Routing.Announcements

/-!
# DV packets as bytes

What `sendDVUpdate` writes to memory and the pair loop of `recvDV` reads from it. The
size of the packet and the counters of the write loop have 16 bits, and the list of
pairs may be longer. A list is sent as it is when its packet fits a 16-bit size, and
from there on the loop writes behind the block it allocated.
-/

namespace ComputerNetworks.Routing

open Lib

namespace Wire

/-- `dv_table_size`. -/
def dvTableSize (newPacket : List (UInt16 × UInt16)) : UInt16 :=
  UInt16.ofNat (newPacket.length * 4 + 8)

/-- The loop over `new_packet` with its counters `j` and `count`, or `none` if it takes
more than `fuel` tests. -/
def writePairs (newPacket : List (UInt16 × UInt16)) :
    ℕ → UInt16 → UInt16 → Buffer → Option Buffer
  | 0, _, _, _ => none
  | fuel + 1, j, count, b =>
    match newPacket[j.toNat]? with
    | some pair =>
      writePairs newPacket fuel (j + 1) (count + 1 + 1)
        ((b.store16 count.toNat pair.1).store16 (count + 1).toNat pair.2)
    | none => some b

/-- The header: type `DV`, size, source and destination. -/
def writeHeader (routerId toId size : UInt16) (b : Buffer) : Buffer :=
  (((b.store8 0 3).store16 1 size).store16 2 routerId).store16 3 toId

/-- The packet for the port that leads to `toId`, in memory that holds `junk`. -/
def writeDVTable (fuel : ℕ) (routerId toId : UInt16) (junk : ℕ → UInt8)
    (newPacket : List (UInt16 × UInt16)) : Option Buffer :=
  let size := dvTableSize newPacket
  writePairs newPacket fuel 0 4 (writeHeader routerId toId size (.alloc size.toNat junk))

/-- `sendDVUpdate` to the connected ports, given the router behind each and the memory
it gets. All packets are sent with the size `dvTableSize newPacket`. -/
def sendDVUpdate (fuel : ℕ) (routerId : UInt16) (ports : List (UInt16 × (ℕ → UInt8)))
    (newPacket : List (UInt16 × UInt16)) : Option (List Buffer) :=
  ports.mapM fun port => writeDVTable fuel routerId port.1 port.2 newPacket

/-- `source_id` of `recvDV`. -/
def readSource (b : Buffer) : UInt16 := b.load16 2

/-- The pairs that the loop of `recvDV` reads; its counter `i` is `2 * m`. -/
def readPairs (size : UInt16) (b : Buffer) : List (UInt16 × UInt16) :=
  (List.range ((size.toNat / 2 - 4 + 1) / 2)).map fun m =>
    (b.load16 (4 + 2 * m), b.load16 (4 + (2 * m + 1)))

variable {newPacket : List (UInt16 × UInt16)} {b c : Buffer} {fuel : ℕ} {j count : UInt16}
  {routerId toId : UInt16} {junk : ℕ → UInt8}

theorem dvTableSize_toNat (newPacket : List (UInt16 × UInt16)) :
    (dvTableSize newPacket).toNat = (newPacket.length * 4 + 8) % 2 ^ 16 :=
  UInt16.toNat_ofNat'

/-! ### A packet that fits -/

theorem writeHeader_size (size : UInt16) : (writeHeader routerId toId size b).size = b.size := by
  simp [writeHeader]

/-- The header is written inside the block. -/
theorem writeHeader_fits (routerId toId size : UInt16) (room : 8 ≤ b.size) (clean : b.overrun = false) :
    (writeHeader routerId toId size b).overrun = false ∧
      (writeHeader routerId toId size b).load16 2 = routerId := by
  unfold writeHeader
  rw [Buffer.store8_of_lt b (by omega)]
  generalize typed : (⟨b.size, Function.update b.byte 0 3, b.overrun⟩ : Buffer) = c
  have size_ : c.size = b.size := by rw [← typed]
  have clean_ : c.overrun = false := by rw [← typed, clean]
  constructor
  · rw [Buffer.store16_of_lt _ (by simp only [Buffer.store16_size]; omega),
      Buffer.store16_of_lt _ (by simp only [Buffer.store16_size]; omega),
      Buffer.store16_of_lt _ (by omega)]
    exact clean_
  · rw [Buffer.load16_store16_of_ne _ (by simp only [Buffer.store16_size]; omega) (by decide),
      Buffer.load16_store16_self _ (by simp only [Buffer.store16_size]; omega)]

/-- The rest of the loop, from pair `j` on, writes the rest of the pairs behind what is
there already. -/
theorem writePairs_fits (count : UInt16) (fits : newPacket.length ≤ 16381) (size : b.size = newPacket.length * 4 + 8)
    (clean : b.overrun = false) (inside : j.toNat ≤ newPacket.length)
    (place : count.toNat = 4 + 2 * j.toNat) (enough : newPacket.length < j.toNat + fuel) :
    ∃ c, writePairs newPacket fuel j count b = some c ∧ c.overrun = false ∧
      (∀ k < 4 + 2 * j.toNat, c.load16 k = b.load16 k) ∧
      ∀ m pair, j.toNat ≤ m → newPacket[m]? = some pair →
        c.load16 (4 + 2 * m) = pair.1 ∧ c.load16 (4 + (2 * m + 1)) = pair.2 := by
  induction fuel generalizing b j count with
  | zero => omega
  | succ fuel ih =>
    unfold writePairs
    cases here : newPacket[j.toNat]? with
    | none =>
      refine ⟨b, rfl, clean, fun _ _ => rfl, fun m pair le found => ?_⟩
      have short := List.getElem?_eq_none_iff.mp here
      rw [List.getElem?_eq_none (by omega)] at found
      cases found
    | some pair =>
      have more : j.toNat < newPacket.length := (List.getElem?_eq_some_iff.mp here).1
      have next : (j + 1).toNat = j.toNat + 1 := by
        rw [UInt16.toNat_add, UInt16.toNat_one]
        omega
      have second : (count + 1).toNat = 4 + (2 * j.toNat + 1) := by
        rw [UInt16.toNat_add, UInt16.toNat_one]
        omega
      have third : (count + 1 + 1).toNat = 4 + 2 * (j + 1).toNat := by
        rw [UInt16.toNat_add, UInt16.toNat_one]
        omega
      dsimp only
      rw [place, second]
      -- both numbers lie inside the block
      have room : 2 * (4 + 2 * j.toNat) + 1 < b.size := by omega
      have room' : 2 * (4 + (2 * j.toNat + 1)) + 1 <
          (b.store16 (4 + 2 * j.toNat) pair.1).size := by
        rw [Buffer.store16_size]
        omega
      have clean' : ((b.store16 (4 + 2 * j.toNat) pair.1).store16
          (4 + (2 * j.toNat + 1)) pair.2).overrun = false := by
        rw [Buffer.store16_of_lt _ room', Buffer.store16_of_lt _ room]
        exact clean
      obtain ⟨c, wrote, good, before, after⟩ := ih _ (by simpa using size) clean' (by omega)
        third (by omega)
      refine ⟨c, wrote, good, fun k hk => ?_, fun m other le found => ?_⟩
      · rw [before k (by omega), Buffer.load16_store16_of_ne _ room' (by omega),
          Buffer.load16_store16_of_ne _ room (by omega)]
      · rcases Nat.eq_or_lt_of_le le with rfl | later
        · rw [here] at found
          obtain rfl := Option.some.inj found
          constructor
          · rw [before _ (by omega), Buffer.load16_store16_of_ne _ room' (by omega),
              Buffer.load16_store16_self _ room]
          · rw [before _ (by omega), Buffer.load16_store16_self _ room']
        · exact after m other (by omega) found

/-- What is read from a packet that fits is what was written. -/
theorem readPairs_eq (fits : newPacket.length ≤ 16381)
    (content : ∀ m pair, newPacket[m]? = some pair →
      c.load16 (4 + 2 * m) = pair.1 ∧ c.load16 (4 + (2 * m + 1)) = pair.2) :
    readPairs (dvTableSize newPacket) c = newPacket := by
  have count : ((dvTableSize newPacket).toNat / 2 - 4 + 1) / 2 = newPacket.length := by
    rw [dvTableSize_toNat]
    omega
  unfold readPairs
  rw [count]
  apply List.ext_getElem
  · simp
  · intro m hm hm'
    obtain ⟨first, second⟩ := content m newPacket[m] (List.getElem?_eq_getElem hm')
    simp [first, second]

/-- A packet that fits arrives as it was sent. -/
theorem writeDVTable_fits (fits : newPacket.length ≤ 16381) (routerId toId : UInt16)
    (junk : ℕ → UInt8) :
    ∃ c, writeDVTable (newPacket.length + 1) routerId toId junk newPacket = some c ∧
      c.overrun = false ∧ readSource c = routerId ∧
      readPairs (dvTableSize newPacket) c = newPacket := by
  have size : (dvTableSize newPacket).toNat = newPacket.length * 4 + 8 := by
    rw [dvTableSize_toNat]
    omega
  unfold writeDVTable
  dsimp only
  rw [size]
  obtain ⟨clean, source⟩ := writeHeader_fits routerId toId (dvTableSize newPacket)
    (b := .alloc (newPacket.length * 4 + 8) junk) (Nat.le_add_left 8 _) rfl
  obtain ⟨c, wrote, good, before, after⟩ := writePairs_fits (j := 0) 4 fits
    (writeHeader_size _) clean (Nat.zero_le _) rfl (Nat.lt_add_left _ (Nat.lt_succ_self _))
  refine ⟨c, wrote, good, ?_, readPairs_eq fits fun m pair => after m pair (Nat.zero_le m)⟩
  exact (before 2 (by decide)).trans source

/-! ### A packet that does not fit -/

/-- A missed write stays known to the end of the loop. -/
theorem writePairs_overrun (missed : b.overrun = true)
    (wrote : writePairs newPacket fuel j count b = some c) : c.overrun = true := by
  induction fuel generalizing b j count with
  | zero => cases wrote
  | succ fuel ih =>
    unfold writePairs at wrote
    split at wrote
    · exact ih (Buffer.store16_overrun _ (Buffer.store16_overrun _ missed)) wrote
    · cases wrote
      exact missed

/-- A loop that gets to pair 16381 writes it behind the block, as its place is byte 65532
and sizes are multiples of 4 below `2 ^ 16`. -/
theorem writePairs_overruns (long : 16381 < newPacket.length) (size : b.size ≤ 65532)
    (inside : j.toNat ≤ 16381) (place : count.toNat = 4 + 2 * j.toNat)
    (wrote : writePairs newPacket fuel j count b = some c) : c.overrun = true := by
  induction fuel generalizing b j count with
  | zero => cases wrote
  | succ fuel ih =>
    unfold writePairs at wrote
    rw [List.getElem?_eq_getElem (by omega)] at wrote
    dsimp only at wrote
    have next : (j + 1).toNat = j.toNat + 1 := by
      rw [UInt16.toNat_add, UInt16.toNat_one]
      omega
    rcases Nat.eq_or_lt_of_le inside with last | before
    · apply writePairs_overrun _ wrote
      apply Buffer.store16_overrun
      exact Buffer.store16_overrun_of_le _ (by omega)
    · refine ih (by simpa using size) (by omega) ?_ wrote
      rw [UInt16.toNat_add, UInt16.toNat_add, UInt16.toNat_one]
      omega

theorem writeDVTable_overruns (long : 16381 < newPacket.length)
    (wrote : writeDVTable fuel routerId toId junk newPacket = some c) : c.overrun = true := by
  unfold writeDVTable at wrote
  refine writePairs_overruns long ?_ (Nat.zero_le _) rfl wrote
  rw [writeHeader_size]
  change (dvTableSize newPacket).toNat ≤ 65532
  rw [dvTableSize_toNat]
  omega

theorem sendDVUpdate_overruns {port : UInt16 × (ℕ → UInt8)} {ports : List (UInt16 × (ℕ → UInt8))}
    {packets : List Buffer} (long : 16381 < newPacket.length)
    (sent : sendDVUpdate fuel routerId (port :: ports) newPacket = some packets) :
    ∃ c ∈ packets, c.overrun = true := by
  simp only [sendDVUpdate, List.mapM_cons, Option.bind_eq_bind, Option.bind_eq_some_iff] at sent
  obtain ⟨c, wrote, cs, -, same⟩ := sent
  obtain rfl := Option.some.inj same
  exact ⟨c, List.mem_cons_self, writeDVTable_overruns long wrote⟩

/-- From `2 ^ 16` pairs on the counter never gets to the end of the list. -/
theorem writePairs_endless (long : 2 ^ 16 ≤ newPacket.length) (fuel : ℕ) (j count : UInt16)
    (b : Buffer) : writePairs newPacket fuel j count b = none := by
  induction fuel generalizing j count b with
  | zero => rfl
  | succ fuel ih =>
    have more : j.toNat < newPacket.length := j.toNat_lt.trans_le long
    unfold writePairs
    rw [List.getElem?_eq_getElem more]
    exact ih _ _ _

/-! ### The round trip -/

/-- The update ends, stays inside its blocks, and every packet is read as it was meant. -/
def RoundTrips (routerId : UInt16) (ports : List (UInt16 × (ℕ → UInt8)))
    (newPacket : List (UInt16 × UInt16)) : Prop :=
  ∃ fuel packets, sendDVUpdate fuel routerId ports newPacket = some packets ∧
    ∀ c ∈ packets, c.overrun = false ∧ readSource c = routerId ∧
      readPairs (dvTableSize newPacket) c = newPacket

/-- A list makes the round trip exactly when its packet fits a 16-bit size, or nobody is
there to get it. -/
theorem roundTrips_iff (routerId : UInt16) (ports : List (UInt16 × (ℕ → UInt8)))
    (newPacket : List (UInt16 × UInt16)) :
    RoundTrips routerId ports newPacket ↔ ports = [] ∨ newPacket.length ≤ 16381 := by
  constructor
  · rintro ⟨fuel, packets, sent, good⟩
    cases ports with
    | nil => exact .inl rfl
    | cons port ports =>
      refine .inr (not_lt.mp fun long => ?_)
      obtain ⟨c, member, missed⟩ := sendDVUpdate_overruns long sent
      rw [(good c member).1] at missed
      cases missed
  · intro fits
    refine ⟨newPacket.length + 1, ?_⟩
    induction ports with
    | nil => exact ⟨[], rfl, by simp⟩
    | cons port ports ih =>
      have fits := fits.resolve_left (List.cons_ne_nil _ _)
      obtain ⟨c, wrote, good⟩ := writeDVTable_fits fits routerId port.1 port.2
      obtain ⟨cs, sent, rest⟩ := ih (.inr fits)
      refine ⟨c :: cs, ?_, by simpa using ⟨good, rest⟩⟩
      simp only [sendDVUpdate] at sent
      simp only [sendDVUpdate, List.mapM_cons, wrote, sent]
      rfl

/-- A full table with routes to 16382 destinations. -/
def longTable : List (UInt16 × UInt16) :=
  (List.range 16382).map fun d => (UInt16.ofNat (d + 2), 1)

/-- Its size is taken for 0, and the packet is written behind an empty block. -/
theorem longTable_overruns : dvTableSize longTable = 0 ∧
    ¬ RoundTrips 1 [(2, fun _ => 0)] longTable := by
  have length : longTable.length = 16382 := by simp [longTable]
  constructor
  · rw [dvTableSize, length]
    rfl
  · rintro ⟨fuel, packets, sent, good⟩
    obtain ⟨c, member, missed⟩ := sendDVUpdate_overruns (by omega) sent
    rw [(good c member).1] at missed
    cases missed

end Wire

end ComputerNetworks.Routing
