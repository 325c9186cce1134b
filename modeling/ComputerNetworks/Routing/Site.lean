import ComputerNetworks.Lib.Runs
import ComputerNetworks.Routing.Router

/-!
# A router and its neighbours

A site says which router each port of a router leads to. The router may get, in any
order and at any time, every packet those routers could build, and every alarm: a
packet that is lost or late is one that is not received, or received after others.
-/

namespace ComputerNetworks.Routing

open Lib

/-- The surroundings of a router. No link joins it to itself. -/
structure Site where
  numPorts : ℕ
  routerId : ℕ
  protocolType : ProtocolType
  neighbor : ℕ → Option ℕ
  loopless : ∀ port, neighbor port ≠ some routerId

namespace Site

variable (site : Site)

/-- A packet that claims to be from `source` arrives where `source` is. -/
def joins (port source : ℕ) : Bool :=
  decide (port < site.numPorts ∧ site.neighbor port = some source)

/-- The calls that can be made: the neighbours put their own `router_id` into what
they send, while a DATA packet may come from anywhere. -/
def admits : Event → Bool
  | .recv _ port (.ping source _) _ => site.joins port source
  | .recv _ port (.pong source _ _) _ => site.joins port source
  | .recv _ port (.dv packet) _ => site.joins port packet.source
  | .recv _ _ (.data _ _ _) _ => true
  | .alarm _ _ => true

/-- The router behind a call; `none` when the call cannot be made. -/
def step (r : Router) (event : Event) : Option Router :=
  if site.admits event then some (r.handle event).1 else none

/-- The router after `init`. -/
def start : Router := .init site.numPorts site.routerId site.protocolType

/-- The states the router can reach. -/
def Reaches (r : Router) : Prop := Reachable site.step (fun s => s = site.start) r

variable {site}

theorem step_eq_some {r s : Router} {event : Event} :
    site.step r event = some s ↔ site.admits event = true ∧ (r.handle event).1 = s := by
  simp [step, Option.ite_none_right_eq_some]

theorem joins_iff {port source : ℕ} :
    site.joins port source = true ↔ port < site.numPorts ∧ site.neighbor port = some source := by
  simp [joins]

end Site

end ComputerNetworks.Routing
