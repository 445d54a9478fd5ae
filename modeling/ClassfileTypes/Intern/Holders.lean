import ClassfileTypes.Intern.Registry

/-!
# A registry and the holders of its values

Values are objects with an identity, a kind and a content. They are held in named
places, several in each, and are alive as long as some place holds them. A run
is a sequence of steps that acquire values, hold them, let go of them, and look
at the registry. A candidate is made before it is offered, or is a value that a place
holds already, which may be registered under other keys; what is made when it is
needed takes an identity only then. A value that is made or offered is held at
least until its step ends.
-/

namespace ClassfileTypes.Intern

/-- A value with an identity. -/
structure Object where
  identity : Nat
  kind : String
  content : String
deriving DecidableEq, Repr, Inhabited

/-- The places that hold values, and the next free identity. -/
structure Places where
  places : List (String × List Object) := []
  next : Nat := 0

/-- A registry, and the places that hold its values. -/
structure Holders extends Places where
  registry : Registry String Object

/-- A step of a run. Where a place is given, it holds the outcome afterwards, in
place of what it held. -/
inductive Step
  /-- Offers a new value for a key. -/
  | acquire (kind key content : String) (place : Option String)
  /-- Offers the first value of a place for a key. -/
  | offer (source key : String) (place : Option String)
  /-- Makes a new value for a key if it is needed. -/
  | acquireWith (kind key content : String) (place : Option String)
  /-- Makes values if they are needed, for the keys that `label` and a number
  give. Without a place each is let go before the next. -/
  | fill (kind label : String) (first count : Nat) (place : Option String)
  | find (kind key : String) (place : Option String)
  | drop (place : String)
  | copy (source : String) (place : Option String)
  | sameObject (a b : String)
  | count (kind : String)
  | stats
  | purge
  | enable (on : Bool)
  | shutdown
  | describe
  /-- Waits for a round of the sweeper, if there is one. -/
  | sweep
  /-- Waits until the sweeper, if there is one, has been through all tables: in its first
  round it may still hear of some. -/
  | awaitSweep (kind : String)
deriving Repr

/-- What a step answers. -/
inductive Reply
  | acquired (content : String) (isCandidate : Bool)
  | acquiredWith (content : String) (made : Bool)
  | filled (made : Nat)
  | found (content : Option String)
  | dropped (existed : Bool)
  | copied
  | noPlace (name : String)
  | sameObject (b : Bool)
  | count (n : Nat)
  | stats (entries : List (String × Nat))
  | purged (stats : PurgeStats)
  | enabled (on : Bool)
  | sweeper (running : Bool)
  | described (enabled : Bool) (strategy : String) (kinds : Nat) (sweeper : Bool)
      (config : Config) (outline : String)
deriving Repr

namespace Places

/-- What a place holds. -/
def place? (p : Places) (name : String) : Option (List Object) :=
  p.places.lookup name

/-- The first value of a place. -/
def first? (p : Places) (name : String) : Option Object :=
  (p.place? name).bind List.head?

/-- A value is alive when some place holds it. -/
def alive (p : Places) (o : Object) : Bool :=
  p.places.any fun e => e.2.any fun o' => o'.identity == o.identity

/-- A value is alive too while it is one of `kept`. -/
def aliveWith (p : Places) (kept : List Object) (o : Object) : Bool :=
  p.alive o || kept.any fun o' => o'.identity == o.identity

/-- Makes a place hold the given values only, if a place is given. -/
def hold (p : Places) (place : Option String) (os : List Object) : Places :=
  match place with
  | some name => { p with places := (name, os) :: p.places.filter fun e => e.1 != name }
  | none => p

/-- Makes no place of the name. -/
def letGo (p : Places) (name : String) : Places :=
  { p with places := p.places.filter fun e => e.1 != name }

end Places

/-- Makes a value, with the next free identity. -/
def makeObject (kind content : String) : StateM Nat Object := do
  let identity ← get
  set (identity + 1)
  pure ⟨identity, kind, content⟩

namespace Holders

/-- Nothing is held at first. -/
def new (config : Config) : Holders where
  registry := { config := config }

/-- Acquires a value for a key with the given one as the candidate: the value, and
whether it is the candidate. -/
def offer (h : Holders) (key : String) (candidate : Object) : Object × Bool × Holders :=
  let (o, registry) :=
    h.registry.acquire (h.aliveWith [candidate]) candidate.kind key candidate
  (o, o.identity == candidate.identity, { h with registry })

/-- Acquires a value for a key with a new one as the candidate. -/
def acquire (h : Holders) (kind key content : String) : Object × Bool × Holders :=
  let (candidate, next) := (makeObject kind content).run h.next
  { h with next }.offer key candidate

/-- Acquires a value for a key, while `kept` is alive too; one is made if it is
needed: the value, and whether it was made. -/
def acquireWith (h : Holders) (kept : List Object) (kind key content : String) :
    Object × Bool × Holders :=
  let ((o, registry), next) :=
    (h.registry.acquireWith (fun held => h.aliveWith (held ++ kept)) kind key
      (makeObject kind content)).run h.next
  (o, next != h.next, { h with registry, next })

/-- Acquires values for `count` keys in turn: how many were made, and those that
are kept, latest first. -/
def fill (kind label : String) (keep : Bool) :
    (first count : Nat) → (kept : List Object) → Holders → Nat × List Object × Holders
  | _, 0, kept, h => (0, kept, h)
  | first, count + 1, kept, h =>
      let key := label ++ toString first
      let (o, made, h) := h.acquireWith kept kind key key
      let (n, kept, h) := fill kind label keep (first + 1) count (if keep then o :: kept else []) h
      ((if made then n + 1 else n), kept, h)

/-- Changes what is held. -/
def withPlaces (h : Holders) (p : Places) : Holders :=
  { h with toPlaces := p }

/-- A round of the sweeper, if there is one: what it did. -/
def sweep (h : Holders) : Option PurgeStats × Holders :=
  let (stats, registry) := h.registry.sweep h.alive
  (stats, { h with registry })

/-- Takes a step. -/
def step (h : Holders) : Step → Reply × Holders
  | .acquire kind key content place =>
      let (o, isCandidate, h) := h.acquire kind key content
      (.acquired o.content isCandidate, h.withPlaces (h.hold place [o]))
  | .offer source key place =>
      match h.first? source with
      | some candidate =>
          let (o, isCandidate, h) := h.offer key candidate
          (.acquired o.content isCandidate, h.withPlaces (h.hold place [o]))
      | none => (.noPlace source, h)
  | .acquireWith kind key content place =>
      let (o, made, h) := h.acquireWith [] kind key content
      (.acquiredWith o.content made, h.withPlaces (h.hold place [o]))
  | .fill kind label first count place =>
      let (made, kept, h) := fill kind label place.isSome first count [] h
      (.filled made, h.withPlaces (h.hold place kept.reverse))
  | .find kind key place =>
      match h.registry.find? h.alive kind key with
      | some o => (.found o.content, h.withPlaces (h.hold place [o]))
      | none => (.found none, h)
  | .drop name => (.dropped (h.place? name).isSome, h.withPlaces (h.letGo name))
  | .copy source place =>
      match h.place? source with
      | some os => (.copied, h.withPlaces (h.hold place os))
      | none => (.noPlace source, h)
  | .sameObject a b =>
      match h.first? a, h.first? b with
      | none, _ => (.noPlace a, h)
      | some _, none => (.noPlace b, h)
      | some o, some o' => (.sameObject (o.identity == o'.identity), h)
  | .count kind => (.count (h.registry.count kind), h)
  | .stats =>
      let entries := h.registry.tables.map fun e => (e.1, e.2.size)
      (.stats (entries.mergeSort fun a b => a.1 ≤ b.1), h)
  | .purge =>
      let (stats, registry) := h.registry.purge h.alive
      (.purged stats, { h with registry })
  | .enable on => (.enabled on, { h with registry := h.registry.setEnabled on })
  | .shutdown => (.sweeper false, { h with registry := h.registry.shutdown })
  | .describe =>
      let r := h.registry
      (.described r.enabled r.config.strategy.name r.kindCount r.hasSweeper r.config r.outline, h)
  | .sweep =>
      match h.sweep with
      | (some stats, h) => (.purged stats, h)
      | (none, h) => (.sweeper false, h)
  | .awaitSweep kind =>
      let h := h.sweep.2.sweep.2
      (.count (h.registry.count kind), h)

/-- The state after a run. -/
def after (h : Holders) (steps : List Step) : Holders :=
  steps.foldl (fun h s => (h.step s).2) h

/-- The answers to the steps of a run. -/
def run (h : Holders) : List Step → List Reply
  | [] => []
  | s :: ss =>
      let (reply, h) := h.step s
      reply :: h.run ss

end Holders

end ClassfileTypes.Intern
