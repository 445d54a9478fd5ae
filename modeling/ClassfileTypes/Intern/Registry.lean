import ClassfileTypes.Intern.Table

/-!
# Registries

A registry has a table for each kind of value, made when a value of the kind is
first acquired. While it is disabled it neither finds nor registers anything.

A registry may have a sweeper, which goes through the tables in rounds. It keeps
track of the tables that it has heard of, and purges those whose size has changed
enough. A table that is made between two rounds is pending until the next one ends.
-/

namespace ClassfileTypes.Intern

/-- A table that is swept now and then. -/
structure Tracked (κ : Type) where
  kind : κ
  /-- The size right after the last purge; 0 before any. -/
  lastSize : Nat := 0
deriving DecidableEq, Repr

/-- By how much the size of the table has changed since then. -/
def Tracked.change {κ : Type} (e : Tracked κ) (size : Nat) : Nat :=
  (size - e.lastSize) + (e.lastSize - size)

/-- A registry of values of several kinds. -/
structure Registry (κ ν : Type) where
  config : Config := {}
  enabled : Bool := config.enabled
  /-- The table of each kind that has one, in the order in which they were made. -/
  tables : List (κ × Table ν) := []
  /-- The kinds whose table the sweeper does not keep track of yet. -/
  pending : List κ := []
  /-- What the sweeper keeps track of, while there is one. -/
  sweeper : Option (List (Tracked κ)) := if config.strategy.usesSweeper then some [] else none

/-- What a round of purges did. -/
structure PurgeStats where
  /-- How many tables were looked at. -/
  tables : Nat
  /-- How many of them were left alone, as their size had hardly changed. -/
  skipped : Nat
  /-- How many entries were removed. -/
  removed : Nat
deriving DecidableEq, Repr

namespace Registry

variable {κ ν : Type} [BEq κ]

/-- The table of a kind, empty if it has none yet. -/
def table (r : Registry κ ν) (kind : κ) : Table ν :=
  (r.tables.lookup kind).getD {}

/-- Replaces the table of a kind that has one. -/
def replaceTable (r : Registry κ ν) (kind : κ) (t : Table ν) : Registry κ ν :=
  { r with tables := r.tables.map fun e => if e.1 == kind then (e.1, t) else e }

/-- Adds the table of a kind that has none. If the strategy has a sweeper, it is to hear
of the table. -/
def addTable (r : Registry κ ν) (kind : κ) (t : Table ν) : Registry κ ν :=
  { r with
    tables := r.tables ++ [(kind, t)]
    pending := if r.config.strategy.usesSweeper then r.pending ++ [kind] else r.pending }

/-- Replaces the table of a kind, or adds it. -/
def setTable (r : Registry κ ν) (kind : κ) (t : Table ν) : Registry κ ν :=
  if r.tables.any (·.1 == kind) then r.replaceTable kind t else r.addTable kind t

/-- The live value of a key, or else the one that `make` makes; while the registry is
disabled always the latter. While some values are held for the registry, `alive` tells
of these values who is alive. -/
def acquireWith {m : Type → Type} [Monad m] (alive : List ν → ν → Bool) (r : Registry κ ν)
    (kind : κ) (key : String) (make : m ν) : m (ν × Registry κ ν) :=
  if r.enabled then do
    let (v, t) ← (r.table kind).acquireWith r.config.strategy alive key make
    pure (v, r.setTable kind t)
  else do
    let v ← make
    pure (v, r)

/-- The live value of a key, or else the candidate; while the registry is disabled always
the candidate. It is held all the time, and `alive` tells who is alive then. -/
def acquire (alive : ν → Bool) (r : Registry κ ν) (kind : κ) (key : String) (candidate : ν) :
    ν × Registry κ ν :=
  Id.run (r.acquireWith (fun _ => alive) kind key (pure candidate))

/-- The live value of a key. -/
def find? (alive : ν → Bool) (r : Registry κ ν) (kind : κ) (key : String) : Option ν :=
  if r.enabled then (r.table kind).find? alive key else none

/-- The number of entries of a kind. -/
def count (r : Registry κ ν) (kind : κ) : Nat :=
  (r.table kind).size

/-- The number of kinds that have a table. -/
def kindCount (r : Registry κ ν) : Nat :=
  r.tables.length

/-! ## Purges and sweeps -/

/-- Purges the table of a kind: how many entries it loses. -/
def purgeTable (alive : ν → Bool) (r : Registry κ ν) (kind : κ) : Nat × Registry κ ν :=
  let (removed, t) := (r.table kind).purge alive
  (removed, r.replaceTable kind t)

/-- Purges a tracked table if its size has changed by at least `threshold` since its last
purge, and adds to `stats` what this does. -/
def sweepTable (alive : ν → Bool) (threshold : Nat) (stats : PurgeStats) (e : Tracked κ)
    (r : Registry κ ν) : PurgeStats × Tracked κ × Registry κ ν :=
  if e.change (r.count e.kind) < threshold then
    ({ stats with skipped := stats.skipped + 1 }, e, r)
  else
    let (removed, r) := r.purgeTable alive e.kind
    ({ stats with removed := stats.removed + removed }, { e with lastSize := r.count e.kind }, r)

/-- Goes through tracked tables in turn. -/
def sweepTables (alive : ν → Bool) (threshold : Nat) :
    PurgeStats → List (Tracked κ) → Registry κ ν → PurgeStats × List (Tracked κ) × Registry κ ν
  | stats, [], r => (stats, [], r)
  | stats, e :: es, r =>
      let (stats, e, r) := r.sweepTable alive threshold stats e
      let (stats, es, r) := sweepTables alive threshold stats es r
      (stats, e :: es, r)

/-- A round through the tracked tables: what it did, and what is tracked then. -/
def sweepCycle (alive : ν → Bool) (threshold : Nat) (tracked : List (Tracked κ))
    (r : Registry κ ν) : PurgeStats × List (Tracked κ) × Registry κ ν :=
  sweepTables alive threshold ⟨tracked.length, 0, 0⟩ tracked r

/-- Purges every table, whatever its size was. -/
def purge (alive : ν → Bool) (r : Registry κ ν) : PurgeStats × Registry κ ν :=
  let (stats, _, r) := r.sweepCycle alive 0 (r.tables.map fun e => { kind := e.1 })
  (stats, r)

/-- Moves the pending tables to those that the sweeper keeps track of. -/
def mergePending (r : Registry κ ν) (tracked : List (Tracked κ)) : Registry κ ν :=
  { r with sweeper := some (tracked ++ r.pending.map fun k => { kind := k }), pending := [] }

/-- A round of the sweeper, if there is one: what it did. -/
def sweep (alive : ν → Bool) (r : Registry κ ν) : Option PurgeStats × Registry κ ν :=
  match r.sweeper with
  | some tracked =>
      let (stats, tracked, r) := r.sweepCycle alive r.config.sweepThreshold tracked
      (some stats, r.mergePending tracked)
  | none => (none, r)

/-- Whether there is a sweeper. -/
def hasSweeper (r : Registry κ ν) : Bool :=
  r.sweeper.isSome

/-- Turns the registry on or off. -/
def setEnabled (r : Registry κ ν) (on : Bool) : Registry κ ν :=
  { r with enabled := on }

/-- Stops the sweeper. -/
def shutdown (r : Registry κ ν) : Registry κ ν :=
  { r with sweeper := none }

/-- The outline of the registry: what can be seen without its tables. -/
def outline (r : Registry κ ν) : String :=
  "InternRegistry \x7b enabled: " ++ toString r.enabled ++ ", strategy: " ++
    r.config.strategy.title ++ ", kinds: " ++ toString r.kindCount ++ ", .. \x7d"

end Registry

end ClassfileTypes.Intern
