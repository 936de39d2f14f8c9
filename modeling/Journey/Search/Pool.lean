import Journey.Search.Engine

/-!
# Pools of Engines

Engines that are kept for reuse.

A use of the pool takes the engine that was returned last, or makes one if none
is idle, and returns it afterwards. A use may itself use the pool, which then
takes another engine. A use that fails does not return its engine.

## Main definitions

* `Pool`: The idle engines.
* `Pool.take`, `Pool.put`: Taking an engine out and returning it.
* `Pool.withEngine`: Doing something with an engine.
-/

namespace Journey

/-- Engines that are kept for reuse, all for one timetable and one policy. -/
structure Pool (α : Type) where
  timetable : Timetable α
  policy : TransferPolicy α
  /-- The idle engines, the one returned last at the front. -/
  idle : List (Engine α)

namespace Pool

variable {α : Type}

/-- A pool without engines. -/
def new (timetable : Timetable α) (policy : TransferPolicy α) : Pool α :=
  { timetable, policy, idle := [] }

/-- The number of idle engines. -/
def idleCount (p : Pool α) : Nat := p.idle.length

/-- Take an engine out of the pool, or make one. -/
def take (p : Pool α) : Engine α × Pool α :=
  match p.idle with
  | engine :: rest => (engine, { p with idle := rest })
  | [] => (Engine.new p.timetable p.policy, p)

/-- Return an engine to the pool. -/
def put (p : Pool α) (engine : Engine α) : Pool α := { p with idle := engine :: p.idle }

/-- Do something with an engine of the pool, and with the pool without that
    engine. The result says whether there still is an engine to return. -/
def withEngine {β : Type} (p : Pool α)
    (use : Engine α → Pool α → Option (Engine α) × Pool α × β) : Pool α × β :=
  let (engine, rest) := p.take
  match use engine rest with
  | (some engine, pool, result) => (pool.put engine, result)
  | (none, pool, result) => (pool, result)

end Pool

end Journey
