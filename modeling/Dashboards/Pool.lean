import Dashboards.Settings

/-!
# The connection pool

The service keeps at most one pool of database connections open. Opening it again gives the pool
that is open already, and closing it when none is open does nothing.
-/

namespace Dashboards

/-- What a pool is opened with. -/
structure PoolOptions where
  address : String
  least : Int
  most : Int
  timeout : Float

namespace PoolOptions

/-- The options for an address, or for the configured database where the address is missing or
empty; without either there are none. -/
def choose? (s : Settings) (address : Option String) : Option PoolOptions :=
  ((address.filter (· ≠ "")).or s.database?).map fun address =>
    ⟨address, s.leastConnections, s.mostConnections, s.commandTimeout⟩

def toValue (o : PoolOptions) : Value :=
  .obj [("dsn", .str o.address), ("min_size", .ofInt o.least), ("max_size", .ofInt o.most),
    ("command_timeout", .ofFloat o.timeout)]

end PoolOptions

/-- A pool that was opened once, and how often it has been closed. -/
structure Pool where
  options : PoolOptions
  closings : Nat

/-- All pools that were ever opened, and the number of the one that is open. -/
structure Pools where
  made : List Pool
  current : Option Nat

namespace Pools

def empty : Pools := ⟨[], none⟩

def missingAddress : String := "DATABASE_URL is not configured"

/-- The number of the open pool, after opening one if there is none. -/
def init (p : Pools) (s : Settings) (address : Option String) : Except String (Nat × Pools) :=
  match p.current with
  | some n => .ok (n, p)
  | none =>
    match PoolOptions.choose? s address with
    | some o =>
      let n := p.made.length
      .ok (n, ⟨p.made ++ [⟨o, 0⟩], some n⟩)
    | none => .error missingAddress

def close (p : Pools) : Pools :=
  match p.current with
  | some n => ⟨p.made.modify n fun pool => { pool with closings := pool.closings + 1 }, none⟩
  | none => p

end Pools

end Dashboards
