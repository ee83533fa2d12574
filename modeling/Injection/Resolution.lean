import Injection.Builder
import Injection.Configs

/-!
How requests are answered. A request for a key goes to the container that owns its binding. There the key is marked as
under construction by the thread; if it is marked already, the request fails, so no construction can need itself. A kept
value is handed out again, any other comes from the binding's source, and a provider that fails adds its key to the
trail of the failure.

Providers ask in their turn. What they can ask is a parameter of the definitions below, and `requireWithin` ties the
knot with a bound on how deep constructions nest; `Container.require` gives the bound that is always enough, one more
than all bindings that can be under construction at once.
-/

namespace Injection

/-- A way to have the value under a key in a container. -/
abbrev Lookup := Container → Key → Attempt Failure Value

/-- What a provider gets to ask with: its container, and the key it constructs. -/
structure Handle where
  container : Container
  requester : Option Key

open Attempt

/-! ### Typed requests -/

/-- The value under a key, if it has the key's type. -/
def Lookup.typed (require : Lookup) (c : Container) (k : Key) : Attempt Failure Value := do
  let v ← require c k
  if v.type = k.type then pure v else fail (.because (.mismatch k.type v.type))

/-- What a lazy handle stands for: what it found before, or what its container gives now. -/
def Lazy.get (require : Lookup) (l : Lazy) : Attempt Failure Value := do
  match ← remember l with
  | some v => pure v
  | none =>
    match ← reclaim l with
    | none => fail (.because (.dropped l.key))
    | some cell =>
      closing (.letGo cell.container) do
        let v ← require.typed cell.container cell.key
        keep l v

def Lookup.config (require : Lookup) (c : Container) (type : TypeInfo) : Attempt Failure Value := do
  let configs ← require.typed c .configs
  match (Configs.mk configs.entries).get type with
  | .error e => fail ((Failure.because (.other e.message)).through (.ofType type))
  | .ok (some config) => pure config.value
  | .ok none => fail (.because (.missing (.ofType type)))

theorem Lookup.config_eq (require : Lookup) (c : Container) (type : TypeInfo) :
    require.config c type = (do
      let configs ← require.typed c .configs
      match configs.entries.find? (·.type = type) with
      | some config => pure config.value
      | none => fail (.because (.missing (.ofType type)))) := by
  refine congrArg (require.typed c .configs >>= ·) (funext fun configs => ?_)
  rw [Configs.get_eq, Configs.find?]
  cases configs.entries.find? (·.type = type) <;> rfl

/-- Answers a typed request. An optional one takes for absent only what its own key is missing for, not what a provider
behind the key misses. -/
def Resolver.resolve (require : Lookup) (c : Container) : Resolver → Attempt Failure Resolved
  | value k => return .value (← require.typed c k)
  | deferred type => return .deferred (← postpone c (.ofType type))
  | config type => return .value (← require.config c type)
  | optional inner => do
    match ← outcome (inner.resolve require c) with
    | .ok r => pure (.present r)
    | .error f =>
      if f = .because (.missing inner.dependency.key) then pure .absent else fail f

def Handle.request (require : Lookup) (h : Handle) : Request → Attempt Failure Resolved
  | .resolve r => r.resolve require h.container
  | .untyped k => return .value (← require h.container k)
  | .requester => pure (.requester h.container.label h.requester)

/-- A request made at a container, and not from a provider. -/
def Container.request (require : Lookup) (c : Container) (r : Request) : Attempt Failure Resolved :=
  Handle.request require ⟨c, none⟩ r

/-! ### Eager construction -/

/-- Requires keys one after the other, `done` of `total` being constructed already. -/
def constructAll (require : Lookup) (c : Container) (total : Nat) : Nat → List Key → Attempt BuildError Unit
  | _, [] => pure ()
  | done, k :: ks => do
    tell .debug ("Waiting for " ++ k.text ++ " [" ++ toString done ++ " of " ++ toString total ++ " complete]")
    match ← outcome (require c k) with
    | .ok _ => constructAll require c total (done + 1) ks
    | .error f =>
      tell .error ("Eager construction of " ++ k.text ++ " failed: " ++ f.message)
      fail (.ofFailure f)

/-- The own scoped keys of a container, each after what it needs. -/
def Container.eagerKeys (c : Container) : Except (List LinkError) (List Key) :=
  c.graph.constructionOrder.map fun ks => ks.filter c.graph.isScoped

def Container.initiate (require : Lookup) (c : Container) : Attempt BuildError Unit := do
  match c.eagerKeys with
  | .error es => fail (.link es)
  | .ok ks =>
    tell .debug ("Initializing '" ++ c.label ++ "' with " ++ toString ks.length ++ " scoped bindings")
    constructAll require c ks.length 0 ks
    tell .debug ("All " ++ toString ks.length ++ " scoped bindings of '" ++ c.label ++ "' constructed")

/-- Builds a container, constructs its scoped bindings if asked to, and goes on with it. The container is held in the
meantime, and no longer. What goes wrong with the building is put in terms of the caller's errors. -/
def Builder.buildThen {ε α : Type} (require : Lookup) (wrap : BuildError → ε) (b : Builder) (eager : Bool)
    (next : Container → Attempt ε α) : Attempt ε α := do
  let c ← mapError wrap b.build
  hold c
  closing (.letGo c) do
    if eager then mapError wrap (c.initiate require)
    next c

/-! ### Recipes -/

/-- What a provider run has so far: its notes, the values and the lazy handles it obtained, and the configs it added. -/
structure Progress where
  notes : List Note
  values : List Value
  lazies : List Lazy
  configs : Configs
  deriving DecidableEq, Repr

namespace Progress

def start : Progress := ⟨[], [], [], .empty⟩

def note (p : Progress) (n : Note) : Progress := { p with notes := p.notes ++ [n] }

def take (p : Progress) (r : Resolved) : Progress :=
  { p with
    notes := p.notes ++ [r.note]
    values := p.values ++ r.value?.toList
    lazies := p.lazies ++ r.lazy?.toList }

/-- A lazy handle that was obtained while one of the run's values was made. -/
def inner? (p : Progress) (value index : Nat) : Option Lazy := (p.values[value]?).bind (·.lazies[index]?)

/-- Takes down what a request brings; a failure is noted as well, or ends the run. -/
def pursue (p : Progress) (catches : Bool) (request : Attempt Failure Resolved) : Attempt Failure Progress := do
  match ← outcome request with
  | .ok r => pure (p.take r)
  | .error f => if catches then pure (p.note (.failed f)) else fail f

end Progress

/-- Whether a step that is limited to the first runs concerns a run. -/
def concerns (runs : Option Nat) (run : Nat) : Bool := runs.all (run ≤ ·)

/-- How a provider sees that a container of its own was not built. -/
def BuildError.toFailure (e : BuildError) : Failure := .because (.build e.message)

/-- Builds the child container of a step and asks it. A build that fails ends the run in any case. -/
def Handle.nest (require : Lookup) (h : Handle) (p : Progress) (drafts : List Draft) (eager : Bool) (r : Request)
    (catches : Bool) : Attempt Failure Progress := do
  let b ← ((Builder.below h.container).withLabel "sub").addDrafts drafts
  b.buildThen require BuildError.toFailure eager fun c => p.pursue catches (c.request require r)

/-- A handle that a value of the run brings along. Its use must not have a living container asked that is neither the
provider's own nor above it. What a value brings along leads to the container that made the value, or up from there, or
to one that was built for a single step of its making and is gone. -/
def Handle.innerHandle (h : Handle) (p : Progress) (value index : Nat) : Attempt Failure Lazy :=
  match p.inner? value index with
  | none => Attempt.fail (.because (.other "no such lazy"))
  | some l => do
    if ← leadsUp l h.container then pure l else Attempt.fail (.because (.other "no such lazy"))

/-- Adds a config with a number of its own to those of the run. -/
def Progress.addConfig (p : Progress) (type : TypeInfo) (tag : String) : Attempt Failure Progress := do
  match p.configs.add ⟨type, ← nextSerial, tag⟩ with
  | .error e => Attempt.fail (.because (.other e.message))
  | .ok configs => do
    tell .debug ("Added config " ++ type.name)
    pure { p with configs }

/-- Performs one step in a provider's run of the given number. -/
def Step.perform (require : Lookup) (h : Handle) (run : Nat) (p : Progress) : Step → Attempt Failure Progress
  | .fail message runs => if concerns runs run then Attempt.fail (.because (.other message)) else pure p
  | .panic message runs => if concerns runs run then Attempt.panic message else pure p
  | .pause => pure p
  | .meet gate count => do
    arrive gate
    await gate count
    pure p
  | .ask r none catches => p.pursue catches (h.request require r)
  | .ask r (some path) catches =>
    match h.container.ancestor? path with
    | none => Attempt.fail (.because (.other "no such parent"))
    | some c => p.pursue catches (c.request require r)
  | .use index catches =>
    match p.lazies[index]? with
    | none => Attempt.fail (.because (.other "no such lazy"))
    | some l => p.pursue catches (Resolved.value <$> l.get require)
  | .useInner value index catches => do
    let l ← h.innerHandle p value index
    p.pursue catches (Resolved.value <$> l.get require)
  | .addConfig type tag => p.addConfig type tag
  | .nest drafts eager r catches => h.nest require p drafts eager r catches

def Steps.perform (require : Lookup) (h : Handle) (run : Nat) : Progress → List Step → Attempt Failure Progress
  | p, [] => pure p
  | p, s :: ss => do
    let p ← s.perform require h run p
    Steps.perform require h run p ss

/-- The value that a run makes: one with the serial number and what its requests gave it, or a set of the configs that
the run added. -/
def Recipe.mint (o : Container) (k : Key) (r : Recipe Step) (p : Progress) (serial : Nat) : Attempt Failure Value := do
  if r.makes = .configs then return .configs (← numberConfigs) p.configs.entries
  else return .made r.makes serial (.provided r.tag k o.label p.notes p.lazies)

/-- Carries out the run of a recipe that has the given number. The value is made once all steps succeeded, also when
another one is handed on in its place. -/
def Recipe.carryOut (require : Lookup) (o : Container) (k : Key) (r : Recipe Step) (run : Nat) :
    Attempt Failure Value := do
  let p ← Steps.perform require ⟨o, some k⟩ run .start r.steps
  let serial ← nextSerial
  match r.handsOn with
  | some other => require o other
  | none => r.mint o k p serial

/-- Follows a recipe for the binding of a key: one more run. -/
def Recipe.follow (require : Lookup) (o : Container) (k : Key) (r : Recipe Step) : Attempt Failure Value := do
  r.carryOut require o k (← countRun ⟨o.id, k⟩ r.tag)

/-! ### Bindings and keys -/

/-- Has the source of an own binding give a value. -/
def Container.construct (require : Lookup) (o : Container) (b : Binding) : Attempt Failure Value := do
  tell .debug ("Constructing " ++ b.key.text ++ " in '" ++ o.label ++ "'")
  match b.source with
  | .given v => pure v
  | .recipe r => do
    let v ← mapError (·.through b.key) (r.follow require o b.key)
    note (.succeeded (o.place b) v)
    pure v

/-- The value of an own binding for which a place is kept: the one in the place, or else a new one. -/
def Container.obtain (require : Lookup) (o : Container) (b : Binding) : Attempt Failure Value := do
  match ← acquire (o.place b) with
  | .ready v =>
    tell .trace ("Cache hit for " ++ b.key.text)
    pure v
  | .refused =>
    tell .error ("Resolving " ++ b.key.text ++ " would wait on itself across threads")
    fail (.because (.cyclic b.key))
  | .compute =>
    closing (.release (o.place b)) do
      let v ← o.construct require b
      settle (o.place b) v
      pure v

/-- The value of an own binding, which is under construction from now until it is there. -/
def Container.produce (require : Lookup) (o : Container) (b : Binding) : Attempt Failure Value := do
  if ← enter (o.place b) then
    closing (.leave (o.place b)) <|
      if b.isKept then o.obtain require b else o.construct require b
  else fail (.because (.cyclic b.key))

/-- The value under a key, from the container that owns its binding. -/
def Container.requireWith (require : Lookup) (c : Container) (k : Key) : Attempt Failure Value :=
  match c.owner? k with
  | some (o, b) => do
    let v ← o.produce require b
    note (.answered c k v)
    pure v
  | none => do
    tell .error ("Tried to require an unbound key: " ++ k.text)
    fail (.because (.missing k))

/-- The value under a key, with constructions nesting less deep than the bound. -/
def requireWithin : Nat → Lookup
  | 0, _, _ => throw .exhausted
  | depth + 1, c, k => c.requireWith (requireWithin depth) k

def Container.require : Lookup := fun c k => requireWithin (c.weight + 1) c k

def Container.resolve (c : Container) (r : Request) : Attempt Failure Resolved := c.request Container.require r

/-- The value behind a lazy handle, for use from outside. -/
def Lazy.use (l : Lazy) : Attempt Failure Value := l.get Container.require

/-- Builds a container, and constructs its scoped bindings if asked to. -/
def Builder.finish (b : Builder) (eager : Bool) : Attempt BuildError Container :=
  b.buildThen Container.require id eager pure

end Injection
