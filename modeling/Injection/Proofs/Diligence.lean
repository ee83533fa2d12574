import Injection.Proofs.Additions
import Injection.Proofs.Bookkeeping

/-!
Containers whose providers ask for what they declare, one dependency after the other, each through its own resolver, and
then make a value; a set of configs may be such a value. A resolver is answered when there is a value for it; a lazy handle is obtained in any case, and what
is missing is only a matter for those who need it. So a step of such a provider succeeds as soon as the request that it
makes does.
-/

namespace Injection

/-! ### Containers whose providers ask for what they declare -/

/-- Whether a step asks for no value, and lets the run go on. -/
def Step.isQuiet : Step → Bool
  | .pause => true
  | .meet _ _ => true
  | .ask .requester none _ => true
  | _ => false

/-- The steps ask for the dependencies, each once and in order, through the provider's own handle. -/
inductive Steps.AskFor : List Step → List Dependency → Prop
  | nil : AskFor [] []
  | quiet {step : Step} {steps : List Step} {ds : List Dependency} (h : step.isQuiet = true) (rest : AskFor steps ds) :
      AskFor (step :: steps) ds
  | addConfig (type : TypeInfo) (tag : String) {steps : List Step} {ds : List Dependency} (rest : AskFor steps ds) :
      AskFor (.addConfig type tag :: steps) ds
  | ask (q : Resolver) (catches : Bool) {steps : List Step} {ds : List Dependency} (rest : AskFor steps ds) :
      AskFor (.ask (.resolve q) none catches :: steps) (q.dependency :: ds)

/-- The type of the config that a resolver looks up. -/
def Resolver.config? : Resolver → Option TypeInfo
  | .config type => some type
  | .optional inner => inner.config?
  | _ => none

def Step.config? : Step → Option TypeInfo
  | .ask (.resolve q) _ _ => q.config?
  | _ => none

/-- The types of the configs that own providers look up. -/
def Container.lookedUp (c : Container) : List TypeInfo :=
  c.registry.bindings.flatMap fun b =>
    match b.source with
    | .given _ => []
    | .recipe r => r.steps.filterMap Step.config?

/-- A value of the key's type; and where it is for configs, it has all that are looked up. -/
structure Value.Serves (v : Value) (k : Key) (types : List TypeInfo) : Prop where
  type : v.type = k.type
  configs : k = .configs → ∀ type ∈ types, (v.entries.find? (·.type = type)).isSome

/-- The values that a binding gives: the one that was bound, or those that its recipe makes. -/
def BindingOf.Gives (b : Binding) (v : Value) : Prop :=
  match b.source with
  | .given w => v = w
  | .recipe r => r.Makes v

/-- An instance that needs nothing, or a scoped provider that asks for its dependencies and then makes a value, a set of
configs having one of each type. -/
structure BindingOf.Diligent (b : Binding) : Prop where
  given : ∀ v, b.source = .given v → b.dependencies = []
  isScoped : ∀ r, b.source = .recipe r → b.isScoped = true
  asks : ∀ r, b.source = .recipe r → Steps.AskFor r.steps b.dependencies
  configs : ∀ r, b.source = .recipe r → (Steps.added r.steps).Nodup
  makes : ∀ r, b.source = .recipe r → r.handsOn = none

/-- All own bindings are diligent, and what they give serves those that ask for it. -/
structure Container.Diligent (c : Container) : Prop where
  bindings : ∀ b ∈ c.registry.bindings, b.Diligent
  serves : ∀ b ∈ c.registry.bindings, ∀ v, b.Gives v → v.Serves b.key c.lookedUp

/-! ### Resolvers -/

section Resolvers

variable {me : Thread} {s t : Store} {c : Container} {require : Lookup} {q : Resolver} {turn : Action × Store}

theorem key_of_config? {type : TypeInfo} (h : q.config? = some type) : q.dependency.key = .configs := by
  induction q with
  | config type => rfl
  | optional inner ih => exact ih h
  | _ => cases h

/-- A resolver is answered when there is a value that serves it. -/
theorem eval_resolve_of_ok (hlazy : q.dependency.isLazy = false) {v : Value}
    (hvalue : (require c q.dependency.key).eval me s = (.ok v, t)) (htype : v.type = q.dependency.key.type)
    (hconfigs : ∀ type ∈ q.config?, (v.entries.find? (·.type = type)).isSome) :
    ∃ res, (q.resolve require c).eval me s = (.ok res, t) := by
  have htyped : (require.typed c q.dependency.key).eval me s = (.ok v, t) := by
    rw [Lookup.typed, Attempt.eval_bind, hvalue]
    simp [htype]
  clear hvalue htype
  induction q with
  | value k =>
      change (require.typed c k).eval me s = _ at htyped
      exact ⟨.value v, by rw [Resolver.resolve, Attempt.eval_bind, htyped]; rfl⟩
  | deferred type => cases hlazy
  | config type =>
      change (require.typed c .configs).eval me s = _ at htyped
      obtain ⟨config, hconfig⟩ := Option.isSome_iff_exists.1 (hconfigs type rfl)
      refine ⟨.value config.value, ?_⟩
      rw [Resolver.resolve, Attempt.eval_bind, Lookup.config_eq, Attempt.eval_bind, htyped]
      simp [hconfig]
  | optional inner ih =>
      obtain ⟨res, hres⟩ := ih hlazy hconfigs htyped
      exact ⟨.present res, by rw [Resolver.resolve, Attempt.eval_bind, Attempt.eval_outcome, hres]; rfl⟩

/-- A lazy handle is obtained in any case. -/
theorem eval_resolve_lazy (hlazy : q.dependency.isLazy = true) :
    ∃ res, (q.resolve require c).eval me s = (.ok res, (s.postpone c q.dependency.key).1) := by
  induction q with
  | deferred type => exact ⟨.deferred (s.postpone c (.ofType type)).2, rfl⟩
  | optional inner ih =>
      obtain ⟨res, hres⟩ := ih hlazy
      exact ⟨.present res, by rw [Resolver.resolve, Attempt.eval_bind, Attempt.eval_outcome, hres]; rfl⟩
  | _ => cases hlazy

/-- Where nothing is bound, an optional request finds nothing, and any other says what is missing. -/
theorem eval_resolve_of_missing (hlazy : q.dependency.isLazy = false)
    (hmissing : (require c q.dependency.key).eval me s =
      (.error (.failed (.because (.missing q.dependency.key))), t)) :
    (∃ res, (q.resolve require c).eval me s = (.ok res, t)) ∨ q.dependency.isOptional = false ∧
      (q.resolve require c).eval me s = (.error (.failed (.because (.missing q.dependency.key))), t) := by
  have htyped : (require.typed c q.dependency.key).eval me s =
      (.error (.failed (.because (.missing q.dependency.key))), t) := by
    rw [Lookup.typed, Attempt.eval_bind, hmissing]
  clear hmissing
  induction q with
  | value k =>
      change (require.typed c k).eval me s = _ at htyped
      exact Or.inr ⟨rfl, by rw [Resolver.resolve, Attempt.eval_bind, htyped]⟩
  | deferred type => cases hlazy
  | config type =>
      change (require.typed c .configs).eval me s = _ at htyped
      refine Or.inr ⟨rfl, ?_⟩
      rw [Resolver.resolve, Attempt.eval_bind, Lookup.config_eq, Attempt.eval_bind, htyped]
  | optional inner ih =>
      left
      rcases ih hlazy htyped with ⟨res, hres⟩ | ⟨-, herror⟩
      · exact ⟨.present res, by rw [Resolver.resolve, Attempt.eval_bind, Attempt.eval_outcome, hres]; rfl⟩
      · refine ⟨.absent, ?_⟩
        rw [Resolver.resolve, Attempt.eval_bind, Attempt.eval_outcome, herror]
        simp

end Resolvers

/-! ### Steps -/

section Steps

variable {me : Thread} {s t : Store} {c : Container} {step : Step} {turn : Action × Store} {p p' : Progress}
  {catches : Bool} {request : Attempt Failure Resolved}

theorem eval_pursue_of_ok {res : Resolved} (h : request.eval me s = (.ok res, t)) :
    (p.pursue catches request).eval me s = (.ok (p.take res), t) := by
  rw [Progress.pursue, Attempt.eval_bind, Attempt.eval_outcome, h]
  rfl

theorem weight_of_isQuiet (h : step.isQuiet = true) : step.weight = 0 := by
  cases step <;> first | rfl | cases h

theorem eval_step_of_isQuiet (require : Lookup) (a : Handle) (run : Nat) (p : Progress) (me : Thread) (s : Store)
    (h : step.isQuiet = true) : ∃ p' t, (step.perform require a run p).eval me s = (.ok p', t) ∧ Alike s t := by
  have hsame : Alike s s := ⟨rfl, rfl, rfl, rfl, rfl⟩
  cases step with
  | pause => exact ⟨p, s, rfl, hsame⟩
  | meet gate count =>
      exact ⟨p, s.arrive gate, by simp [Step.perform, Attempt.eval_bind, Except.map], ⟨rfl, rfl, rfl, rfl, rfl⟩⟩
  | ask request path catches =>
      rcases request with _ | _ | _ <;> rcases path with _ | _ <;> cases h
      exact ⟨_, s, rfl, hsame⟩
  | _ => cases h

theorem eval_steps_cons {require : Lookup} {a : Handle} {run : Nat} {steps : List Step} {u : Store} {last : Progress}
    (heval : (step.perform require a run p).eval me s = (.ok p', t))
    (hrest : (Steps.perform require a run p' steps).eval me t = (.ok last, u)) :
    (Steps.perform require a run p (step :: steps)).eval me s = (.ok last, u) := by
  rw [Steps.perform, Attempt.eval_bind, heval]
  exact hrest

/-- A step that succeeds leaves the container where it was. -/
theorem Here.stepped {depth run : Nat} {requester : Option Key} {shun : Nat → Prop}
    (h : Here me (some depth) shun 0 s c) (hp : p.Leads me (some depth) shun s) (hweight : step.weight = 0)
    (heval : (step.perform (requireWithin depth) ⟨c, requester⟩ run p).eval me s = (.ok p', t)) :
    Here me (some depth) shun 0 t c ∧ p'.Leads me (some depth) shun t := by
  have hheeds := heeds_step (sound_requireWithin me depth) (heeds_requireWithin me shun depth) h requester run hp
    (Nat.le_of_eq hweight)
  have hsound := sound_step (sound_requireWithin me depth) h.sheltered.consistent h.near.hasBuilt requester run p step
  obtain ⟨-, -, hheld, -, hresult⟩ := hheeds
  obtain ⟨hconsistent, hevolves, -⟩ := hsound
  rw [heval] at hheld hresult hconsistent hevolves
  exact ⟨h.mono (h.sheltered.mono hconsistent hevolves hheld) hevolves hheld, hresult p' rfl⟩

end Steps

end Injection
