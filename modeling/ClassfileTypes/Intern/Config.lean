import ClassfileTypes.Text.Blank

/-!
# Configuration of a registry

Whether a registry is enabled at first, how its tables get rid of dead entries,
and when a sweeper looks for them. The environment may disable a registry, by
any value of one variable, and may name the strategy in another.
-/

namespace ClassfileTypes.Intern

/-- How a table gets rid of the entries of dead values. -/
inductive Strategy
  /-- A sweeper purges tables now and then. -/
  | concurrent
  /-- A table purges itself when it has doubled. -/
  | locked
deriving DecidableEq, Repr, Inhabited

namespace Strategy

/-- The name of the strategy. -/
def name : Strategy → String
  | concurrent => "concurrent"
  | locked => "locked"

/-- The name of the strategy as an alternative. -/
def title : Strategy → String
  | concurrent => "Concurrent"
  | locked => "Locked"

/-- The strategy of a name; case and blanks around it do not matter. -/
def ofName? (s : String) : Option Strategy :=
  [concurrent, locked].find? (·.name == Text.fold s)

/-- Whether registries with the strategy have a sweeper. -/
def usesSweeper : Strategy → Bool
  | concurrent => true
  | locked => false

end Strategy

/-- The configuration of a registry. -/
structure Config where
  enabled : Bool := true
  strategy : Strategy := .concurrent
  /-- Milliseconds between two sweeps. -/
  sweepInterval : Nat := 500
  /-- By how much the size of a table changes before it is swept again. -/
  sweepThreshold : Nat := 10000
deriving DecidableEq, Repr, Inhabited

/-- A change to a configuration. -/
inductive Setting
  | enabled (b : Bool)
  | strategy (s : Strategy)
  | sweepInterval (milliseconds : Nat)
  | sweepThreshold (n : Nat)
deriving DecidableEq, Repr

namespace Config

/-- The configuration with one change. -/
def set (c : Config) : Setting → Config
  | .enabled b => { c with enabled := b }
  | .strategy s => { c with strategy := s }
  | .sweepInterval n => { c with sweepInterval := n }
  | .sweepThreshold n => { c with sweepThreshold := n }

/-- The configuration with changes made in order. -/
def setAll (c : Config) (settings : List Setting) : Config :=
  settings.foldl set c

/-- The configuration for the values that two environment variables have, if
they are set: the one disables, the other names the strategy. An unknown name
changes nothing. -/
def ofEnvironment (disabled strategy : Option String) : Config where
  enabled := disabled.isNone
  strategy := (strategy.bind Strategy.ofName?).getD .concurrent

end Config

end ClassfileTypes.Intern
