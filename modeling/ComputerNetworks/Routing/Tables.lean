import Mathlib.Algebra.Group.Int.Defs
import Mathlib.Algebra.Group.Nat.Defs
import Mathlib.Data.Finset.Basic

/-!
# The tables of a router and its packets

The data of `RoutingProtocolImpl`. A `std::map` is an ordered finite map; the
`ports` map, whose keys never change after `init`, is a function. Identifiers and
costs are natural numbers, and the places where the source narrows a value to 16
or 32 bits say so.
-/

namespace ComputerNetworks.Routing

/-- A `std::map` with 16-bit keys. -/
abbrev Table (α : Type*) := Std.ExtTreeMap ℕ α

namespace Table

variable {α : Type*} (t : Table α)

theorem getElem?_insert (k : ℕ) (v : α) (a : ℕ) :
    (t.insert k v)[a]? = if a = k then some v else t[a]? := by
  rw [Std.ExtTreeMap.getElem?_insert]
  simp only [Std.LawfulEqCmp.compare_eq_iff_eq, @eq_comm _ a]

theorem getElem?_erase (k a : ℕ) : (t.erase k)[a]? = if a = k then none else t[a]? := by
  rw [Std.ExtTreeMap.getElem?_erase]
  simp only [Std.LawfulEqCmp.compare_eq_iff_eq, @eq_comm _ a]

theorem contains_iff {k : ℕ} : t.contains k = true ↔ ∃ v, t[k]? = some v := by
  rw [Std.ExtTreeMap.contains_eq_isSome_getElem?, Option.isSome_iff_exists]

theorem contains_eq_false_iff {k : ℕ} : t.contains k = false ↔ t[k]? = none := by
  rw [Std.ExtTreeMap.contains_eq_isSome_getElem?, Option.isSome_eq_false_iff, Option.isNone_iff_eq_none]

theorem mem_keys_iff {k : ℕ} : k ∈ t.keys ↔ ∃ v, t[k]? = some v := by
  rw [Std.ExtTreeMap.mem_keys, ← contains_iff, Std.ExtTreeMap.mem_iff_contains]

end Table

/-- `INFINITY_COST`, which stands for an unreachable destination in DV packets. -/
abbrev infinityCost : ℕ := 0xffff

/-- `eProtocolType`. -/
inductive ProtocolType
  | dv
  | ls
  deriving DecidableEq, Repr

/-- What is known of the link behind a port; `toId` is `to` in the source. -/
structure Port where
  toId : ℕ
  cost : ℕ
  updated : ℕ
  connected : Bool
  deriving DecidableEq, Repr

/-- A route: the neighbour to send to, its cost and when it was last confirmed. -/
structure DVCell where
  nextHop : ℕ
  cost : ℕ
  updated : ℕ
  deriving DecidableEq, Repr

/-- The link to a neighbour. -/
structure NNCell where
  cost : ℕ
  port : ℕ
  deriving DecidableEq, Repr

/-- The members of `RoutingProtocolImpl`. The source erases map entries through
`erase(find(..))`; `erasedEnd` records whether such a `find` has ever failed, after
which the behaviour of the program is undefined. -/
structure Router where
  protocolType : ProtocolType
  numPorts : ℕ
  routerId : ℕ
  ports : ℕ → Port
  directNeighbors : Table NNCell
  forwardingTable : Table ℕ
  dvMap : Table DVCell
  erasedEnd : Bool

/-- A pair put into `new_packet`: the cost of a live route, or the news that there is
no route any more. -/
inductive Advert
  | route (dest cost : ℕ)
  | withdrawn (dest : ℕ)
  deriving DecidableEq, Repr

/-- `DVPair`: two 16-bit numbers. A stored cost has 32 bits and is narrowed. -/
def Advert.pair : Advert → ℕ × ℕ
  | route dest cost => (dest, cost % 2 ^ 16)
  | withdrawn dest => (dest, infinityCost)

/-- The destination an advert is about. -/
def Advert.dest : Advert → ℕ
  | route dest _ => dest
  | withdrawn dest => dest

@[simp] theorem Advert.dest_route (dest cost : ℕ) : (route dest cost).dest = dest := rfl

@[simp] theorem Advert.dest_withdrawn (dest : ℕ) : (withdrawn dest).dest = dest := rfl

@[simp] theorem Advert.pair_fst (advert : Advert) : advert.pair.1 = advert.dest := by
  cases advert <;> rfl

/-- A DV packet: the 16-bit size of its header, and the pairs written behind it. -/
structure DVPacket where
  size : ℕ
  source : ℕ
  dest : ℕ
  pairs : List (ℕ × ℕ)
  deriving DecidableEq, Repr

/-- The pairs that the loops of `recvDV` read, as many as the size says. -/
def DVPacket.received (packet : DVPacket) : List (ℕ × ℕ) :=
  packet.pairs.take ((packet.size / 2 - 4 + 1) / 2)

/-- The packets routers exchange, with the header fields that are read. -/
inductive Packet
  | data (source dest : ℕ) (payload : List UInt8)
  | ping (source time : ℕ)
  | pong (source dest time : ℕ)
  | dv (packet : DVPacket)
  deriving DecidableEq

/-- The pairs of a DV packet go no further than its size. They go further when the size, an
`unsigned short`, does not hold what 16382 or more pairs need. -/
def Packet.fits : Packet → Bool
  | .dv packet => packet.pairs.length * 4 + 8 ≤ packet.size
  | _ => true

/-- A call of `sys->send`: a port and a packet. -/
abbrev Send := ℕ × Packet

/-- The difference of two `uint32_t`. -/
def sub32 (a b : ℕ) : ℕ := (((a : ℤ) - b) % 2 ^ 32).toNat

/-- The difference of two small numbers in the right order is exact. -/
theorem sub32_of_le {a b : ℕ} (le : b ≤ a) (small : a < 2 ^ 32) : sub32 a b = a - b := by
  unfold sub32
  omega

/-- A port whose last PONG is more than 15 s old. -/
def Port.expired (now : ℕ) (port : Port) : Bool :=
  port.connected && decide (15000 < sub32 now port.updated)

/-- A port after its expiry. -/
def Port.close (port : Port) : Port := { port with connected := false, cost := 0 }

end ComputerNetworks.Routing
