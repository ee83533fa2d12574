import Injection.Resolution
import Injection.Proofs.Consistency
import Injection.Proofs.Registering

/-!
Values of the types that their keys promise. Values lose their type on the way through providers, places and lazy
handles, and only the key asked for gives it back. Bindings that are made of typed values and typed providers keep what
their keys promise, however they are changed afterwards; so do the processes of all requests, as long as the store holds
in its places and handles only what was promised there. No typed request then finds a value of another type.
-/

namespace Injection

/-! ### Bindings -/

/-- The bindings of typed values and typed providers, and what these become when they are named, kept, set against others
or given more dependencies. A typed provider makes a value of its own or hands on another one of the same type. The same
goes for all bindings of the containers that it builds. -/
inductive BindingOf.Customary : {given : Type} → (given → TypeInfo) → BindingOf given Step → Prop
  | ofValue {given : Type} {type : given → TypeInfo} (v : given) : Customary type (.ofValue (type v) v)
  | provider {given : Type} {type : given → TypeInfo} (r : Recipe Step)
      (typed : ∀ k, r.handsOn = some k → k.type = r.makes)
      (nested : ∀ drafts eager request catches, .nest drafts eager request catches ∈ r.steps →
        ∀ draft ∈ drafts, Customary Sample.type draft) : Customary type (.provider r)
  | factory {given : Type} {type : given → TypeInfo} (r : Recipe Step)
      (typed : ∀ k, r.handsOn = some k → k.type = r.makes)
      (nested : ∀ drafts eager request catches, .nest drafts eager request catches ∈ r.steps →
        ∀ draft ∈ drafts, Customary Sample.type draft) (dependencies : List Dependency) (isScoped : Bool) :
      Customary type (.factory (.ofType r.makes) dependencies isScoped r)
  | named {given : Type} {type : given → TypeInfo} {b : BindingOf given Step} (h : Customary type b)
      (qualifier : String) : Customary type (b.named qualifier)
  | keeping {given : Type} {type : given → TypeInfo} {b : BindingOf given Step} (h : Customary type b) :
      Customary type b.keeping
  | withPolicy {given : Type} {type : given → TypeInfo} {b : BindingOf given Step} (h : Customary type b)
      (policy : Policy) : Customary type (b.withPolicy policy)
  | dependingOn {given : Type} {type : given → TypeInfo} {b : BindingOf given Step} (h : Customary type b)
      (dependencies : List Dependency) : Customary type (b.dependingOn dependencies)

/-- All bindings that a step brings into being are customary. -/
def Step.Customary (step : Step) : Prop :=
  ∀ drafts eager request catches, step = .nest drafts eager request catches →
    ∀ draft ∈ drafts, draft.Customary Sample.type

/-- The source of a binding keeps what the key promises, and so do the bindings that it brings into being. -/
structure BindingOf.Honest {given : Type} (type : given → TypeInfo) (b : BindingOf given Step) : Prop where
  given : ∀ v, b.source = .given v → type v = b.key.type
  product : ∀ r, b.source = .recipe r → r.product = b.key.type
  steps : ∀ r, b.source = .recipe r → ∀ step ∈ r.steps, step.Customary

theorem Recipe.product_eq_makes {r : Recipe Step} (h : ∀ k, r.handsOn = some k → k.type = r.makes) :
    r.product = r.makes := by
  unfold product
  cases hhands : r.handsOn with
  | none => rfl
  | some k => exact h k hhands

theorem BindingOf.Customary.honest {given : Type} {type : given → TypeInfo} {b : BindingOf given Step}
    (h : b.Customary type) : b.Honest type := by
  induction h with
  | ofValue v =>
      constructor
      · rintro _ ⟨⟩
        rfl
      all_goals rintro _ ⟨⟩
  | provider r typed nested | factory r typed nested =>
      constructor
      · rintro _ ⟨⟩
      · rintro _ ⟨⟩
        exact Recipe.product_eq_makes typed
      · rintro _ ⟨⟩ step hstep drafts eager request catches rfl
        exact nested drafts eager request catches hstep
  | named _ _ ih | keeping _ ih | withPolicy _ _ ih | dependingOn _ _ ih => exact ⟨ih.given, ih.product, ih.steps⟩

theorem BindingOf.Honest.realize {draft : Draft} (h : draft.Honest Sample.type) (serial : Nat) :
    (draft.realize serial).Honest Value.type := by
  unfold BindingOf.realize
  split
  · next sample hsource =>
    constructor
    · rintro _ ⟨⟩
      exact h.given sample hsource
    all_goals rintro _ ⟨⟩
  · next r hsource =>
    constructor
    · rintro _ ⟨⟩
    · rintro _ ⟨⟩
      exact h.product r hsource
    · rintro _ ⟨⟩
      exact h.steps r hsource

/-- The container and its ancestors have honest bindings only. -/
def Container.Honest (c : Container) : Prop := ∀ a, c.Reaches a → ∀ b ∈ a.registry.bindings, b.Honest Value.type

theorem Container.Honest.of_reaches {c a : Container} (h : c.Honest) (hreaches : c.Reaches a) : a.Honest :=
  fun d hd => h d (hreaches.trans hd)

/-- The builder has honest bindings and parents only. -/
structure Builder.Honest (b : Builder) : Prop where
  bindings : ∀ binding ∈ b.registry.bindings, binding.Honest Value.type
  parents : ∀ p ∈ b.parents, p.Honest

namespace Builder.Honest

variable {b : Builder}

theorem add (h : b.Honest) {binding : Binding} (hbinding : binding.Honest Value.type) : (b.add binding).Honest := by
  unfold Builder.add Builder.tryAdd
  rcases hregister : b.registry.register binding with e | registry
  · exact ⟨h.bindings, h.parents⟩
  · refine ⟨fun c hc => ?_, h.parents⟩
    exact (Registry.mem_of_register hregister hc).elim (fun heq => heq ▸ hbinding) (h.bindings c)

theorem foldl_add (h : b.Honest) (bindings : List Binding) (hbindings : ∀ b ∈ bindings, b.Honest Value.type) :
    (bindings.foldl Builder.add b).Honest := by
  induction bindings generalizing b with
  | nil => exact h
  | cons binding bindings ih =>
      obtain ⟨hbinding, hbindings⟩ := List.forall_mem_cons.1 hbindings
      exact ih (h.add hbinding) hbindings

theorem withLabel (h : b.Honest) (label : String) : (b.withLabel label).Honest := ⟨h.bindings, h.parents⟩

theorem below {c : Container} (h : c.Honest) : (Builder.below c).Honest :=
  ⟨fun _ hb => (List.not_mem_nil hb).elim, List.forall_mem_singleton.2 h⟩

end Builder.Honest

/-! ### What is asked, and what comes back -/

def Reason.isMismatch : Reason → Bool
  | mismatch _ _ => true
  | _ => false

/-- The failure comes down to a value of another type than was asked for, whatever providers have passed it on. -/
def Failure.isMismatch (f : Failure) : Bool := f.reason.isMismatch

def BuildError.isMismatch : BuildError → Bool
  | provider _ cause => cause.isMismatch
  | request f => f.isMismatch
  | _ => false

theorem BuildError.isMismatch_toFailure (e : BuildError) : e.toFailure.isMismatch = false := rfl

theorem BuildError.isMismatch_ofFailure (f : Failure) : (ofFailure f).isMismatch = f.isMismatch := by
  obtain ⟨_ | ⟨k, ks⟩, reason⟩ := f <;> rfl

/-- What a typed request brings is of the type asked for. -/
def Resolver.Fulfilled : Resolver → Resolved → Prop
  | value k, .value v => v.type = k.type
  | deferred type, .deferred l => l.key = .ofType type
  | config type, .value v => v.type = type
  | optional _, .absent => True
  | optional inner, .present r => inner.Fulfilled r
  | _, _ => False

def Request.Fulfilled : Request → Resolved → Prop
  | resolve resolver, r => resolver.Fulfilled r
  | untyped k, .value v => v.type = k.type
  | requester, .requester _ _ => True
  | _, _ => False

/-! ### Processes -/

/-- What is remembered for good keeps what the keys promise. -/
def Happening.Honest : Happening → Prop
  | built c => c.Honest
  | succeeded place v => v.type = place.key.type
  | answered _ k v => v.type = k.type
  | used _ k v => v.type = k.type
  | _ => True

section

variable (types : Nat → TypeInfo)

/-- A thread puts only what was promised in places and handles, the handles being for values of certain types. -/
def Action.Honest : Action → Prop
  | settle place v => v.type = place.key.type
  | postpone c _ => c.Honest
  | keep l v => v.type = types l.id
  | note h => h.Honest
  | _ => True

/-- What a thread relies on when it looks at places and handles. -/
def Action.Answered : (a : Action) → a.Reply → Prop
  | acquire place, .ready v => v.type = place.key.type
  | postpone _ k, l => l.key = k
  | remember l, some v => v.type = types l.id
  | reclaim l, some cell => cell.container.Honest ∧ cell.key.type = types l.id
  | keep l _, v => v.type = types l.id
  | _, _ => True

/-- As long as it is answered as it relies on, a process is honest in all that it does, and its result is as it should
be. -/
def Process.Honest {α : Type} (post : α → Prop) : Process α → Prop
  | done a => post a
  | act a next => a.Honest types ∧ ∀ r, a.Answered types r → (next r).Honest post

/-- A value that satisfies the postcondition, or an error that is one of the fine ones, or no result. -/
def Stop.Passes {ε α : Type} (fine : ε → Prop) (post : α → Prop) : Except (Stop ε) α → Prop
  | .ok a => post a
  | .error (.failed e) => fine e
  | .error _ => True

def Attempt.Honest {ε α : Type} (fine : ε → Prop) (post : α → Prop) (x : Attempt ε α) : Prop :=
  x.run.Honest types (Stop.Passes fine post)

end

variable {types : Nat → TypeInfo}

namespace Process.Honest

variable {α β : Type} {p : Process α} {post mid : α → Prop}

protected theorem bind {post : β → Prop} (hp : p.Honest types mid) {f : α → Process β}
    (hf : ∀ a, mid a → (f a).Honest types post) : (p.bind f).Honest types post := by
  induction p with
  | done a => exact hf a hp
  | act a next ih => exact ⟨hp.1, fun r hr => ih r (hp.2 r hr)⟩

end Process.Honest

namespace Attempt.Honest

variable {ε ε' α β : Type} {fine : ε → Prop} {fine' : ε' → Prop} {post post' mid : α → Prop} {x : Attempt ε α}

protected theorem pure {a : α} (h : post a) : Honest types fine post (pure a : Attempt ε α) := h

protected theorem fail {e : ε} (h : fine e) : Honest types fine post (Attempt.fail e : Attempt ε α) := h

protected theorem panic (message : String) : Honest types fine post (Attempt.panic message : Attempt ε α) := trivial

theorem perform (a : Action) (ha : a.Honest types) :
    Honest types fine (a.Answered types) (Attempt.perform a : Attempt ε a.Reply) := ⟨ha, fun _ hr => hr⟩

protected theorem bind {post : β → Prop} (hx : Honest types fine mid x) {f : α → Attempt ε β}
    (hf : ∀ a, mid a → Honest types fine post (f a)) : Honest types fine post (x >>= f) := by
  refine Process.Honest.bind hx fun result hresult => ?_
  rcases result with (e | message | _) | a
  · exact hresult
  · trivial
  · trivial
  · exact hf a hresult

theorem weaken (hx : Honest types fine post x) (himp : ∀ a, post a → post' a) : Honest types fine post' x := by
  have hbind : Honest types fine post' (x >>= pure) := hx.bind himp
  rwa [bind_pure] at hbind

protected theorem map {f : α → β} {post : β → Prop} (hx : Honest types fine (fun a => post (f a)) x) :
    Honest types fine post (f <$> x) := by
  rw [← bind_pure_comp]
  exact hx.bind fun _ ha => ha

protected theorem mapError {f : ε → ε'} (hx : Honest types fine post x) (hf : ∀ e, fine e → fine' (f e)) :
    Honest types fine' post (Attempt.mapError f x) := by
  refine Process.Honest.bind hx fun result hresult => ?_
  rcases result with (e | message | _) | a
  · exact hf e hresult
  · trivial
  · trivial
  · exact hresult

protected theorem outcome (hx : Honest types fine post x) :
    Honest types fine' (fun r => (∀ a, r = .ok a → post a) ∧ ∀ e, r = .error e → fine e)
      (Attempt.outcome x : Attempt ε' (Except ε α)) := by
  refine Process.Honest.bind hx fun result hresult => ?_
  rcases result with (e | message | _) | a
  · exact ⟨nofun, by rintro _ ⟨⟩; exact hresult⟩
  · trivial
  · trivial
  · exact ⟨by rintro _ ⟨⟩; exact hresult, nofun⟩

protected theorem closing {last : Action} (hlast : last.Honest types) (hx : Honest types fine post x) :
    Honest types fine post (Attempt.closing last x) :=
  Process.Honest.bind hx fun _ hresult => ⟨hlast, fun _ _ => hresult⟩

end Attempt.Honest

open Attempt

/-! ### Builders -/

section Builders

variable {ε : Type} {fine : ε → Prop}

theorem honest_tell (level : Level) (message : String) :
    Attempt.Honest types fine (fun _ => True) (tell level message : Attempt ε Unit) :=
  .perform (.tell _) trivial

theorem honest_tell? (e : Option Event) : Attempt.Honest types fine (fun _ => True) (tell? e : Attempt ε Unit) := by
  cases e with
  | none => exact .pure trivial
  | some e => exact honest_tell _ _

theorem honest_tellAll (es : List Event) :
    Attempt.Honest types fine (fun _ => True) (tellAll es : Attempt ε Unit) := by
  induction es with
  | nil => exact .pure trivial
  | cons e es ih => exact (honest_tell _ _).bind fun _ _ => ih

theorem honest_make {draft : Draft} (h : draft.Honest Sample.type) :
    Attempt.Honest types fine (·.Honest Value.type) (draft.make : Attempt ε Binding) := by
  unfold BindingOf.make
  split
  · exact .bind (.perform .nextSerial trivial) fun serial _ => .pure (h.realize serial)
  · exact .pure (h.realize 0)

theorem honest_addDrafts {b : Builder} (hb : b.Honest) {drafts : List Draft}
    (hdrafts : ∀ draft ∈ drafts, draft.Honest Sample.type) :
    Attempt.Honest types fine Builder.Honest (b.addDrafts drafts : Attempt ε Builder) := by
  induction drafts generalizing b with
  | nil => exact .pure hb
  | cons draft drafts ih =>
      obtain ⟨hdraft, hdrafts⟩ := List.forall_mem_cons.1 hdrafts
      have hadd : Attempt.Honest types fine Builder.Honest (b.addDraft draft : Attempt ε Builder) :=
        (honest_make hdraft).bind fun binding hbinding => (honest_tell? _).bind fun _ _ => .pure (hb.add hbinding)
      exact hadd.bind fun b hb => ih hb hdrafts

theorem honest_build {b : Builder} (hb : b.Honest) :
    Attempt.Honest types (·.isMismatch = false) Container.Honest b.build := by
  unfold Builder.build
  split
  · exact .fail rfl
  · refine (honest_tell _ _).bind fun _ _ => (honest_tellAll _).bind fun _ _ => ?_
    split
    · exact .fail rfl
    · next graph _ =>
      have hbuilt (id : Nat) : Container.Honest ⟨id, b.label, b.registry, b.parents, graph⟩ := by
        intro a hreaches
        cases hreaches with
        | refl => exact hb.bindings
        | up hparent hrest => exact hb.parents _ hparent a hrest
      exact (honest_tell _ _).bind fun _ _ => .bind (.perform .nextIdentity trivial) fun id _ =>
        .bind (.perform (.note (.built _)) (hbuilt id)) fun _ _ => .pure (hbuilt id)

end Builders

/-! ### Requests -/

theorem honest_pursue {request : Attempt Failure Resolved} {post : Resolved → Prop}
    (h : Attempt.Honest types (·.isMismatch = false) post request) (p : Progress) (catches : Bool) :
    Attempt.Honest types (·.isMismatch = false) (fun _ => True) (p.pursue catches request) := by
  refine h.outcome.bind fun result hresult => ?_
  split
  · exact .pure trivial
  · next f =>
    split
    · exact .pure trivial
    · exact .fail (hresult.2 f rfl)

/-- Requests for keys of honest containers give values of the keys' types, and do not fail for a value of another one. -/
def Lookup.Honest (types : Nat → TypeInfo) (require : Lookup) : Prop :=
  ∀ c k, c.Honest → Attempt.Honest types (·.isMismatch = false) (fun v => v.type = k.type) (require c k)

section Lookup

variable {require : Lookup} (hrequire : require.Honest types) {c : Container}
include hrequire

theorem honest_typed (hc : c.Honest) (k : Key) :
    Attempt.Honest types (·.isMismatch = false) (fun v => v.type = k.type) (require.typed c k) := by
  refine (hrequire c k hc).bind fun v hv => ?_
  split
  · exact .pure hv
  · next hother => exact absurd hv hother

theorem honest_config (hc : c.Honest) (type : TypeInfo) :
    Attempt.Honest types (·.isMismatch = false) (fun v => v.type = type) (require.config c type) := by
  rw [Lookup.config_eq]
  refine (honest_typed hrequire hc .configs).bind fun v _ => ?_
  split
  · next config hfind =>
    have hconfig : config.type = type := by simpa using List.find?_some hfind
    exact .pure hconfig
  · exact .fail rfl

theorem honest_get (l : Lazy) :
    Attempt.Honest types (·.isMismatch = false) (fun v => v.type = types l.id) (l.get require) := by
  refine .bind (.perform (.remember l) trivial) fun found hfound => ?_
  split
  · exact .pure hfound
  · refine .bind (.perform (.reclaim l) trivial) fun cell hcell => ?_
    split
    · exact .fail rfl
    · refine .closing trivial ((honest_typed hrequire hcell.1 _).bind fun v hv => ?_)
      exact .perform (.keep l v) (hv.trans hcell.2)

theorem honest_resolve (hc : c.Honest) (r : Resolver) :
    Attempt.Honest types (·.isMismatch = false) r.Fulfilled (r.resolve require c) := by
  induction r with
  | value k => exact (honest_typed hrequire hc k).bind fun _ hv => .pure hv
  | deferred type => exact .bind (.perform (.postpone c (.ofType type)) hc) fun l hl => .pure hl
  | config type => exact (honest_config hrequire hc type).bind fun _ hv => .pure hv
  | optional inner ih =>
      refine ih.outcome.bind fun result hresult => ?_
      split
      · next r => exact .pure (hresult.1 r rfl)
      · next f =>
        split
        · exact .pure trivial
        · exact .fail (hresult.2 f rfl)

theorem honest_request (hc : c.Honest) (requester : Option Key) (r : Request) :
    Attempt.Honest types (·.isMismatch = false) r.Fulfilled (Handle.request require ⟨c, requester⟩ r) := by
  cases r with
  | resolve r => exact honest_resolve hrequire hc r
  | untyped k => exact (hrequire c k hc).bind fun _ hv => .pure hv
  | requester => exact .pure trivial

theorem honest_constructAll (hc : c.Honest) (total done : Nat) (ks : List Key) :
    Attempt.Honest types (·.isMismatch = false) (fun _ => True) (constructAll require c total done ks) := by
  induction ks generalizing done with
  | nil => exact .pure trivial
  | cons k ks ih =>
      refine (honest_tell _ _).bind fun _ _ => (hrequire c k hc).outcome.bind fun result hresult => ?_
      split
      · exact ih (done + 1)
      · next f =>
        have hf := (BuildError.isMismatch_ofFailure f).trans (hresult.2 f rfl)
        exact (honest_tell _ _).bind fun _ _ => .fail hf

theorem honest_initiate (hc : c.Honest) :
    Attempt.Honest types (·.isMismatch = false) (fun _ => True) (c.initiate require) := by
  unfold Container.initiate
  split
  · exact .fail rfl
  · exact (honest_tell _ _).bind fun _ _ => (honest_constructAll hrequire hc _ _ _).bind fun _ _ => honest_tell _ _

theorem honest_buildThen {ε α : Type} {fine : ε → Prop} {post : α → Prop} {wrap : BuildError → ε}
    (hwrap : ∀ e, e.isMismatch = false → fine (wrap e)) {b : Builder} (hb : b.Honest) (eager : Bool)
    {next : Container → Attempt ε α} (hnext : ∀ c, c.Honest → Attempt.Honest types fine post (next c)) :
    Attempt.Honest types fine post (b.buildThen require wrap eager next) := by
  refine ((honest_build hb).mapError hwrap).bind fun c hc =>
    .bind (.perform (.hold c) trivial) fun _ _ => .closing trivial ?_
  split
  · exact ((honest_initiate hrequire hc).mapError hwrap).bind fun _ _ => hnext c hc
  · exact hnext c hc

/-! ### Recipes -/

omit hrequire in
theorem honest_innerHandle (h : Handle) (p : Progress) (value index : Nat) :
    Attempt.Honest types (·.isMismatch = false) (fun _ => True) (h.innerHandle p value index) := by
  unfold Handle.innerHandle
  split
  · exact .fail rfl
  · refine .bind (.perform (.leadsUp _ _) trivial) fun yes _ => ?_
    split
    · exact .pure trivial
    · exact .fail rfl

omit hrequire in
theorem honest_addConfig (p : Progress) (type : TypeInfo) (tag : String) :
    Attempt.Honest types (·.isMismatch = false) (fun _ => True) (p.addConfig type tag) := by
  refine .bind (.perform .nextSerial trivial) fun serial _ => ?_
  split
  · exact .fail rfl
  · exact (honest_tell _ _).bind fun _ _ => .pure trivial

omit hrequire in
theorem honest_mint (c : Container) (k : Key) (r : Recipe Step) (p : Progress) (serial : Nat) :
    Attempt.Honest types (·.isMismatch = false) (fun v => v.type = r.makes) (r.mint c k p serial) := by
  unfold Recipe.mint
  split
  · next hmakes => exact .bind (.perform .numberConfigs trivial) fun _ _ => .pure hmakes.symm
  · exact .pure rfl

theorem honest_step (hc : c.Honest) (requester : Option Key) (run : Nat) (p : Progress) {step : Step}
    (hstep : step.Customary) : Attempt.Honest types (·.isMismatch = false) (fun _ => True)
      (step.perform require ⟨c, requester⟩ run p) := by
  cases step with
  | fail message runs =>
      rw [Step.perform]
      split
      · exact .fail rfl
      · exact .pure trivial
  | panic message runs =>
      rw [Step.perform]
      split
      · exact .panic message
      · exact .pure trivial
  | pause => exact .pure trivial
  | meet gate count =>
      exact .bind (.perform (.arrive gate) trivial) fun _ _ =>
        .bind (.perform (.await gate count) trivial) fun _ _ => .pure trivial
  | ask r path catches =>
      cases path with
      | none => exact honest_pursue (honest_request hrequire hc requester r) p catches
      | some path =>
          rw [Step.perform]
          split
          · exact .fail rfl
          · next a ha =>
            have hreaches := Container.reaches_of_ancestor? ha
            exact honest_pursue (honest_request hrequire (hc.of_reaches hreaches) none r) p catches
  | use index catches =>
      rw [Step.perform]
      split
      · exact .fail rfl
      · next l _ =>
        have hvalue : Attempt.Honest types (·.isMismatch = false) (fun _ => True)
            (Resolved.value <$> l.get require) := .map ((honest_get hrequire l).weaken fun _ _ => trivial)
        exact honest_pursue hvalue p catches
  | useInner value index catches =>
      refine (honest_innerHandle _ p value index).bind fun l _ => ?_
      have hvalue : Attempt.Honest types (·.isMismatch = false) (fun _ => True)
          (Resolved.value <$> l.get require) := .map ((honest_get hrequire l).weaken fun _ _ => trivial)
      exact honest_pursue hvalue p catches
  | addConfig type tag => exact honest_addConfig p type tag
  | nest drafts eager r catches =>
      have hdrafts := hstep drafts eager r catches rfl
      have hbelow := (Builder.Honest.below hc).withLabel "sub"
      rw [Step.perform, Handle.nest]
      refine (honest_addDrafts hbelow fun draft hd => (hdrafts draft hd).honest).bind fun b hb => ?_
      exact honest_buildThen hrequire (fun e _ => e.isMismatch_toFailure) hb eager fun d hd =>
        honest_pursue (honest_request hrequire hd none r) p catches

theorem honest_steps (hc : c.Honest) (requester : Option Key) (run : Nat) (p : Progress) {steps : List Step}
    (hsteps : ∀ step ∈ steps, step.Customary) : Attempt.Honest types (·.isMismatch = false) (fun _ => True)
      (Steps.perform require ⟨c, requester⟩ run p steps) := by
  induction steps generalizing p with
  | nil => exact .pure trivial
  | cons step steps ih =>
      obtain ⟨hstep, hsteps⟩ := List.forall_mem_cons.1 hsteps
      exact (honest_step hrequire hc requester run p hstep).bind fun p _ => ih p hsteps

theorem honest_carryOut (hc : c.Honest) (k : Key) {r : Recipe Step} (hsteps : ∀ step ∈ r.steps, step.Customary)
    (run : Nat) :
    Attempt.Honest types (·.isMismatch = false) (fun v => v.type = r.product) (r.carryOut require c k run) := by
  refine (honest_steps hrequire hc _ run .start hsteps).bind fun p _ =>
    .bind (.perform .nextSerial trivial) fun serial _ => ?_
  unfold Recipe.product
  split
  · next other hother =>
    rw [hother]
    exact hrequire c other hc
  · next hnone =>
    rw [hnone]
    exact honest_mint c k r p serial

variable {b : Binding} (hb : b.Honest Value.type)
include hb

theorem honest_construct (hc : c.Honest) :
    Attempt.Honest types (·.isMismatch = false) (fun v => v.type = b.key.type) (c.construct require b) := by
  refine (honest_tell _ _).bind fun _ _ => ?_
  split
  · next v hsource => exact .pure (hb.given v hsource)
  · next r hsource =>
    have hrun (run : Nat) := honest_carryOut hrequire hc b.key (hb.steps r hsource) run
    rw [hb.product r hsource] at hrun
    have hfollow : Attempt.Honest types (·.isMismatch = false) (fun v => v.type = b.key.type)
        (r.follow require c b.key) := .bind (.perform (.countRun _ _) trivial) fun run _ => hrun run
    refine (hfollow.mapError fun f hf => hf).bind fun v hv => ?_
    exact .bind (.perform (.note (.succeeded (c.place b) v)) hv) fun _ _ => .pure hv

theorem honest_obtain (hc : c.Honest) :
    Attempt.Honest types (·.isMismatch = false) (fun v => v.type = b.key.type) (c.obtain require b) := by
  refine .bind (.perform (.acquire _) trivial) fun grant hgrant => ?_
  split
  · exact (honest_tell _ _).bind fun _ _ => .pure hgrant
  · exact (honest_tell _ _).bind fun _ _ => .fail rfl
  · refine .closing trivial ((honest_construct hrequire hb hc).bind fun v hv => ?_)
    exact .bind (.perform (.settle (c.place b) v) hv) fun _ _ => .pure hv

theorem honest_produce (hc : c.Honest) :
    Attempt.Honest types (·.isMismatch = false) (fun v => v.type = b.key.type) (c.produce require b) := by
  refine .bind (.perform (.enter _) trivial) fun entered _ => ?_
  split
  · refine .closing trivial ?_
    split
    · exact honest_obtain hrequire hb hc
    · exact honest_construct hrequire hb hc
  · exact .fail rfl

end Lookup

theorem honest_requireWithin (types : Nat → TypeInfo) (depth : Nat) : (requireWithin depth).Honest types := by
  induction depth with
  | zero => exact fun _ _ _ => trivial
  | succ depth ih =>
      intro c k hc
      change Attempt.Honest types _ _ (c.requireWith (requireWithin depth) k)
      unfold Container.requireWith
      split
      · next o b howner =>
        obtain rfl := Container.key_of_owner? howner
        obtain ⟨hreaches, hlookup⟩ := Container.owner?_spec howner
        have hb := hc o hreaches b (List.mem_of_find?_eq_some hlookup)
        refine (honest_produce ih hb (hc.of_reaches hreaches)).bind fun v hv => ?_
        exact .bind (.perform (.note (.answered c _ v)) hv) fun _ _ => .pure hv
      · exact (honest_tell _ _).bind fun _ _ => .fail rfl

theorem honest_require (types : Nat → TypeInfo) : Lookup.Honest types Container.require :=
  fun c k => honest_requireWithin types (c.weight + 1) c k

end Injection
