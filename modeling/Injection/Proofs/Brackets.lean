import Injection.Resolution

/-!
The places that requests take and give up. Whatever its providers do, a thread takes a place only within the run for the
place that it took before, and gives it up before that run is over; it puts a value in the place at the very end of the
run. So the places a thread has taken form a stack, and the actions of a request are brackets around it. Where providers
keep to an order, each place of the stack is below those that were taken before it.
-/

namespace Injection

/-- A place that was taken, with the value that was put there. -/
abbrev Hold := Address × Option Value

/-- The run for the place that was taken last is not over. -/
def Running (held : List Hold) : Prop := ∀ hold ∈ held.head?, hold.2 = none

/-- Whether an action has nothing to do with the places. -/
def Action.isApart : Action → Bool
  | acquire _ => false
  | settle _ _ => false
  | release _ => false
  | _ => true

section

variable (below : Address → Address → Prop)

/-- The process of a thread that has taken certain places, the last one first, goes only to places below them, and gives
up all of them in that order. -/
def Process.Follows {α : Type} : Process α → List Hold → Prop
  | done _, held => held = []
  | act (.acquire place) next, held =>
    (Running held ∧ ∀ hold ∈ held, below place hold.1) ∧ (∀ v, (next (.ready v)).Follows held) ∧
      (next .refused).Follows held ∧ (next .compute).Follows ((place, none) :: held)
  | act (.settle place v) next, held => ∃ rest, held = (place, none) :: rest ∧
      (next ()).Follows ((place, some v) :: rest)
  | act (.release place) next, held => ∃ v? rest, held = (place, v?) :: rest ∧ (next ()).Follows rest
  | act _ next, held => ∀ r, (next r).Follows held

/-- An attempt gives up all places that it takes, whichever way it ends, and goes only to places below those that were
taken before it, as long as these are as the scope says. -/
def Attempt.Bracketed {ε α : Type} (scope : List Hold → Prop) (x : Attempt ε α) : Prop :=
  ∀ (β : Type) (next : Except (Stop ε) α → Process β) (held : List Hold), Running held → scope held →
    (∀ result, (next result).Follows below held) → (x.run.bind next).Follows below held

end

variable {below : Address → Address → Prop} {scope inner : List Hold → Prop}

theorem Process.follows_act {α : Type} {a : Action} (ha : a.isApart = true) {next : a.Reply → Process α}
    {held : List Hold} : (act a next).Follows below held ↔ ∀ r, (next r).Follows below held := by
  cases a <;> first | rfl | cases ha

namespace Attempt

variable {ε ε' α β : Type}

protected theorem Bracketed.pure (a : α) : Bracketed below scope (pure a : Attempt ε α) :=
  fun _ _ _ _ _ hnext => hnext _

protected theorem Bracketed.throw (e : Stop ε) : Bracketed below scope (throw e : Attempt ε α) :=
  fun _ _ _ _ _ hnext => hnext _

protected theorem Bracketed.fail (e : ε) : Bracketed below scope (fail e : Attempt ε α) := .throw _

theorem bracketed_perform {a : Action} (ha : a.isApart = true) :
    Bracketed below scope (perform a : Attempt ε a.Reply) :=
  fun _ _ _ _ _ hnext => (Process.follows_act ha).2 fun _ => hnext _

section

variable {x : Attempt ε α}

theorem Bracketed.weaken (hx : Bracketed below inner x) (hscope : ∀ held, scope held → inner held) :
    Bracketed below scope x :=
  fun β next held hheld hin hnext => hx β next held hheld (hscope held hin) hnext

protected theorem Bracketed.bind {f : α → Attempt ε β} (hx : Bracketed below scope x)
    (hf : ∀ a, Bracketed below scope (f a)) : Bracketed below scope (x >>= f) := by
  intro γ next held hheld hin hnext
  show ((x.run.bind (ExceptT.bindCont f)).bind next).Follows below held
  rw [Process.bind_assoc]
  refine hx γ _ held hheld hin fun result => ?_
  cases result with
  | ok a => exact hf a γ next held hheld hin hnext
  | error e => exact hnext _

protected theorem Bracketed.map (f : α → β) (hx : Bracketed below scope x) : Bracketed below scope (f <$> x) := by
  rw [← bind_pure_comp]
  exact hx.bind fun _ => .pure _

protected theorem Bracketed.mapError (f : ε → ε') (hx : Bracketed below scope x) :
    Bracketed below scope (mapError f x) := by
  intro γ next held hheld hin hnext
  show ((x.run.bind _).bind next).Follows below held
  rw [Process.bind_assoc]
  exact hx γ _ held hheld hin fun _ => hnext _

protected theorem Bracketed.outcome (hx : Bracketed below scope x) :
    Bracketed below scope (outcome x : Attempt ε' (Except ε α)) := by
  intro γ next held hheld hin hnext
  show ((x.run.bind _).bind next).Follows below held
  rw [Process.bind_assoc]
  exact hx γ _ held hheld hin fun _ => hnext _

protected theorem Bracketed.closing {last : Action} (hlast : last.isApart = true) (hx : Bracketed below scope x) :
    Bracketed below scope (closing last x) := by
  intro γ next held hheld hin hnext
  show ((x.run.bind _).bind next).Follows below held
  rw [Process.bind_assoc]
  refine hx γ _ held hheld hin fun result => ?_
  exact (Process.follows_act hlast).2 fun _ => hnext _

end

end Attempt

open Attempt

/-! ### Builders -/

section

variable {ε : Type}

theorem bracketed_tell? (e : Option Event) : Bracketed below scope (tell? e : Attempt ε Unit) := by
  cases e with
  | none => exact .pure _
  | some e => exact bracketed_perform rfl

theorem bracketed_tellAll (es : List Event) : Bracketed below scope (tellAll es : Attempt ε Unit) := by
  induction es with
  | nil => exact .pure _
  | cons e es ih => exact (bracketed_perform rfl).bind fun _ => ih

theorem bracketed_addDrafts (b : Builder) (drafts : List Draft) :
    Bracketed below scope (b.addDrafts drafts : Attempt ε Builder) := by
  induction drafts generalizing b with
  | nil => exact .pure _
  | cons draft drafts ih =>
      refine Bracketed.bind ?_ ih
      refine Bracketed.bind ?_ fun _ => (bracketed_tell? _).bind fun _ => .pure _
      unfold BindingOf.make
      split
      · exact (bracketed_perform rfl).bind fun _ => .pure _
      · exact .pure _

theorem bracketed_build (b : Builder) : Bracketed below scope b.build := by
  unfold Builder.build
  split
  · exact .fail _
  · refine (bracketed_perform rfl).bind fun _ => (bracketed_tellAll _).bind fun _ => ?_
    split
    · exact .fail _
    · exact (bracketed_perform rfl).bind fun _ => (bracketed_perform rfl).bind fun _ =>
        (bracketed_perform rfl).bind fun _ => .pure _

end

/-! ### Requests -/

theorem bracketed_pursue {request : Attempt Failure Resolved} (h : Bracketed below scope request) (p : Progress)
    (catches : Bool) : Bracketed below scope (p.pursue catches request) := by
  refine h.outcome.bind fun result => ?_
  split
  · exact .pure _
  · split
    · exact .pure _
    · exact .fail _

/-- The value is put in the place after the run for it, and the place is given up right then. -/
theorem follows_of_taken {x : Attempt Failure Value} {place : Address} {held : List Hold}
    (hx : Bracketed below scope x) (hscope : scope ((place, none) :: held)) {β : Type}
    {next : Except (Stop Failure) Value → Process β} (hnext : ∀ result, (next result).Follows below held) :
    ((closing (.release place) do
      let v ← x
      settle place v
      pure v).run.bind next).Follows below ((place, none) :: held) := by
  show (((x.run.bind (ExceptT.bindCont _)).bind _).bind next).Follows below _
  rw [Process.bind_assoc, Process.bind_assoc]
  refine hx β _ _ (by simp [Running]) hscope fun result => ?_
  cases result with
  | ok v => exact ⟨held, rfl, some v, held, rfl, hnext _⟩
  | error e => exact ⟨none, held, rfl, hnext _⟩

section

variable {require : Lookup} {o c : Container} {b : Binding} {k : Key}

theorem bracketed_typed (h : Bracketed below scope (require c k)) : Bracketed below scope (require.typed c k) := by
  refine h.bind fun v => ?_
  split
  · exact .pure _
  · exact .fail _

theorem bracketed_optional {inner : Resolver} (h : Bracketed below scope (inner.resolve require c)) :
    Bracketed below scope (inner.optional.resolve require c) := by
  refine h.outcome.bind fun result => ?_
  split
  · exact .pure _
  · split
    · exact .pure _
    · exact .fail _

theorem bracketed_steps {h : Handle} {run : Nat} {steps : List Step}
    (hsteps : ∀ step ∈ steps, ∀ p, Bracketed below scope (step.perform require h run p)) (p : Progress) :
    Bracketed below scope (Steps.perform require h run p steps) := by
  induction steps generalizing p with
  | nil => exact .pure _
  | cons step steps ih =>
      exact (hsteps step List.mem_cons_self p).bind fun p => ih (fun s hs => hsteps s (List.mem_cons_of_mem _ hs)) p

theorem bracketed_addConfig (p : Progress) (type : TypeInfo) (tag : String) :
    Bracketed below scope (p.addConfig type tag) := by
  refine (bracketed_perform rfl).bind fun serial => ?_
  split
  · exact .fail _
  · exact (bracketed_perform rfl).bind fun _ => .pure _

theorem bracketed_mint (o : Container) (k : Key) (r : Recipe Step) (p : Progress) (serial : Nat) :
    Bracketed below scope (r.mint o k p serial) := by
  unfold Recipe.mint
  split
  · exact (bracketed_perform rfl).bind fun _ => .pure _
  · exact .pure _

theorem bracketed_construct
    (hsteps : ∀ r, b.source = .recipe r → ∀ step ∈ r.steps, ∀ run p,
      Bracketed below scope (step.perform require ⟨o, some b.key⟩ run p))
    (hhandsOn : ∀ r, b.source = .recipe r → ∀ other ∈ r.handsOn, Bracketed below scope (require o other)) :
    Bracketed below scope (o.construct require b) := by
  refine (bracketed_perform rfl).bind fun _ => ?_
  split
  · exact .pure _
  · next r hsource =>
    refine Bracketed.bind (.mapError _ ?_) fun _ => (bracketed_perform rfl).bind fun _ => .pure _
    refine (bracketed_perform rfl).bind fun run => ?_
    refine (bracketed_steps (fun step hstep => hsteps r hsource step hstep run) .start).bind fun p =>
      (bracketed_perform rfl).bind fun _ => ?_
    split
    · next other hother => exact hhandsOn r hsource other hother
    · exact bracketed_mint o b.key r p _

/-- A place is taken below those that are taken already, and the run for it goes on from there. -/
theorem bracketed_obtain (hrun : Bracketed below inner (o.construct require b))
    (hbelow : ∀ held, scope held → ∀ hold ∈ held, below (o.place b) hold.1)
    (hinner : ∀ held, scope held → inner ((o.place b, none) :: held)) :
    Bracketed below scope (o.obtain require b) := by
  intro γ next held hheld hin hnext
  have hrest {x : Attempt Failure Value} (hx : Bracketed below scope x) : (x.run.bind next).Follows below held :=
    hx γ next held hheld hin hnext
  refine ⟨⟨hheld, hbelow held hin⟩, fun v => ?_, ?_, ?_⟩
  · exact hrest ((bracketed_perform rfl).bind fun _ => .pure v)
  · exact hrest ((bracketed_perform rfl).bind fun _ => .fail _)
  · exact follows_of_taken hrun (hinner held hin) hnext

theorem bracketed_produce (hkept : Bracketed below scope (o.obtain require b))
    (hmade : Bracketed below scope (o.construct require b)) : Bracketed below scope (o.produce require b) := by
  refine (bracketed_perform rfl).bind fun entered => ?_
  split
  · refine .closing rfl ?_
    split
    · exact hkept
    · exact hmade
  · exact .fail _

theorem bracketed_requireWith
    (h : ∀ o b, c.owner? k = some (o, b) → Bracketed below scope (o.produce require b)) :
    Bracketed below scope (c.requireWith require k) := by
  unfold Container.requireWith
  split
  · next o b howner => exact (h o b howner).bind fun _ => (bracketed_perform rfl).bind fun _ => .pure _
  · exact (bracketed_perform rfl).bind fun _ => .fail _

end

/-! ### Requests of any providers -/

/-- Every request for a key gives up all places that it takes, and keeps to the order. -/
def Lookup.Bracketed (below : Address → Address → Prop) (scope : List Hold → Prop) (require : Lookup) : Prop :=
  ∀ c k, Attempt.Bracketed below scope (require c k)

section Lookup

variable {require : Lookup} (hrequire : require.Bracketed below scope)
include hrequire

theorem bracketed_get (l : Lazy) : Bracketed below scope (l.get require) := by
  refine (bracketed_perform rfl).bind fun found => ?_
  split
  · exact .pure _
  · refine (bracketed_perform rfl).bind fun cell => ?_
    split
    · exact .fail _
    · exact .closing rfl ((bracketed_typed (hrequire _ _)).bind fun _ => bracketed_perform rfl)

theorem bracketed_resolve (c : Container) (r : Resolver) :
    Bracketed below scope (r.resolve require c) := by
  induction r with
  | value k => exact (bracketed_typed (hrequire c k)).bind fun _ => .pure _
  | deferred type => exact (bracketed_perform rfl).bind fun _ => .pure _
  | config type =>
      rw [Resolver.resolve, Lookup.config_eq]
      refine Bracketed.bind ?_ fun _ => .pure _
      refine (bracketed_typed (hrequire c .configs)).bind fun _ => ?_
      split
      · exact .pure _
      · exact .fail _
  | optional inner ih => exact bracketed_optional ih

theorem bracketed_request (h : Handle) (r : Request) :
    Bracketed below scope (h.request require r) := by
  cases r with
  | resolve r => exact bracketed_resolve hrequire h.container r
  | untyped k => exact (hrequire h.container k).bind fun _ => .pure _
  | requester => exact .pure _

theorem bracketed_constructAll (c : Container) (total done : Nat) (ks : List Key) :
    Bracketed below scope (constructAll require c total done ks) := by
  induction ks generalizing done with
  | nil => exact .pure _
  | cons k ks ih =>
      refine (bracketed_perform rfl).bind fun _ => (hrequire c k).outcome.bind fun result => ?_
      split
      · exact ih (done + 1)
      · exact (bracketed_perform rfl).bind fun _ => .fail _

theorem bracketed_initiate (c : Container) : Bracketed below scope (c.initiate require) := by
  unfold Container.initiate
  split
  · exact .fail _
  · exact (bracketed_perform rfl).bind fun _ => (bracketed_constructAll hrequire _ _ _ _).bind fun _ =>
      bracketed_perform rfl

theorem bracketed_buildThen {ε α : Type} (wrap : BuildError → ε) (b : Builder) (eager : Bool)
    {next : Container → Attempt ε α} (hnext : ∀ c, Bracketed below scope (next c)) :
    Bracketed below scope (b.buildThen require wrap eager next) := by
  refine ((bracketed_build b).mapError wrap).bind fun c => (bracketed_perform rfl).bind fun _ => .closing rfl ?_
  split
  · exact ((bracketed_initiate hrequire c).mapError wrap).bind fun _ => hnext c
  · exact hnext c

omit hrequire in
theorem bracketed_innerHandle (h : Handle) (p : Progress) (value index : Nat) :
    Bracketed below scope (h.innerHandle p value index) := by
  unfold Handle.innerHandle
  split
  · exact .fail _
  · refine (bracketed_perform rfl).bind fun leads => ?_
    split
    · exact .pure _
    · exact .fail _

theorem bracketed_step (h : Handle) (run : Nat) (p : Progress) (step : Step) :
    Bracketed below scope (step.perform require h run p) := by
  cases step with
  | fail message runs =>
      rw [Step.perform]
      split
      · exact .fail _
      · exact .pure _
  | panic message runs =>
      rw [Step.perform]
      split
      · exact .throw _
      · exact .pure _
  | pause => exact .pure _
  | meet gate count => exact (bracketed_perform rfl).bind fun _ => (bracketed_perform rfl).bind fun _ => .pure _
  | ask r path catches =>
      cases path with
      | none => exact bracketed_pursue (bracketed_request hrequire h r) p catches
      | some path =>
          rw [Step.perform]
          split
          · exact .fail _
          · exact bracketed_pursue (bracketed_request hrequire _ r) p catches
  | use index catches =>
      rw [Step.perform]
      split
      · exact .fail _
      · exact bracketed_pursue ((bracketed_get hrequire _).map _) p catches
  | useInner value index catches =>
      exact (bracketed_innerHandle h p value index).bind fun l =>
        bracketed_pursue ((bracketed_get hrequire l).map _) p catches
  | addConfig type tag => exact bracketed_addConfig p type tag
  | nest drafts eager r catches =>
      refine (bracketed_addDrafts _ drafts).bind fun b => bracketed_buildThen hrequire _ b eager fun c => ?_
      exact bracketed_pursue (bracketed_request hrequire _ r) p catches

theorem bracketed_construct_any (o : Container) (b : Binding) :
    Bracketed below scope (o.construct require b) :=
  bracketed_construct (fun _ _ step _ run p => bracketed_step hrequire _ run p step) fun _ _ other _ => hrequire o other

end Lookup

/-- However deep constructions may nest, every request gives up all places that it takes. -/
theorem bracketed_requireWithin (depth : Nat) : (requireWithin depth).Bracketed (fun _ _ => True) fun _ => True := by
  induction depth with
  | zero => exact fun _ _ => .throw _
  | succ depth ih =>
      intro c k
      refine bracketed_requireWith fun o b _ => ?_
      have hconstruct := bracketed_construct_any ih o b
      exact bracketed_produce (bracketed_obtain hconstruct (fun _ _ _ _ => trivial) fun _ _ => trivial) hconstruct

theorem bracketed_require : Lookup.Bracketed (fun _ _ => True) (fun _ => True) Container.require :=
  fun c k => bracketed_requireWithin (c.weight + 1) c k

end Injection
