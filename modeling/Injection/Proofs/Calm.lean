import Injection.Proofs.Lineage
import Injection.Proofs.Registering
import Injection.Resolution

/-!
Providers that do not panic. Nothing else does: as long as the recipes that requests come to have no step that panics,
and none within the containers that they build, every attempt gives a value, fails or comes to the end of its depth.
Requests come to the bindings of a container and of its ancestors, and to those that lazy handles lead to.
-/

namespace Injection

/-! ### Recipes -/

mutual

/-- Whether a step cannot panic, nor any recipe of the bindings that it brings into being. -/
def Step.isCalm : Step → Bool
  | .panic _ _ => false
  | .nest drafts _ _ _ => Drafts.areCalm drafts
  | _ => true

def Steps.areCalm : List Step → Bool
  | [] => true
  | s :: ss => s.isCalm && Steps.areCalm ss

def Drafts.areCalm : List (BindingOf Sample Step) → Bool
  | [] => true
  | ⟨_, .given _, _, _, _⟩ :: drafts => Drafts.areCalm drafts
  | ⟨_, .recipe ⟨_, _, steps, _⟩, _, _, _⟩ :: drafts => Steps.areCalm steps && Drafts.areCalm drafts

end

/-- Whether the provider of a binding cannot panic. -/
def BindingOf.isCalm {given : Type} (b : BindingOf given Step) : Bool :=
  match b.source with
  | .given _ => true
  | .recipe r => Steps.areCalm r.steps

/-- No provider of the container or of an ancestor panics. -/
def Container.Calm (c : Container) : Prop := ∀ a, c.Reaches a → ∀ b ∈ a.registry.bindings, b.isCalm = true

/-- No provider of what a builder has gathered panics, nor any of its parents and their ancestors. -/
structure Builder.Calm (b : Builder) : Prop where
  bindings : ∀ binding ∈ b.registry.bindings, binding.isCalm = true
  parents : ∀ p ∈ b.parents, p.Calm

/-- All lazy handles lead to containers whose providers do not panic. -/
def Store.Calm (s : Store) : Prop := ∀ id cell, s.cells id = some cell → cell.container.Calm

theorem Container.Calm.of_reaches {c a : Container} (h : c.Calm) (hreaches : c.Reaches a) : a.Calm :=
  fun d hd => h d (hreaches.trans hd)

theorem Store.Calm.congr {s t : Store} (h : s.Calm) (hcells : t.cells = s.cells) : t.Calm :=
  fun id cell hcell => h id cell (hcells ▸ hcell)

theorem Store.Calm.setCell {s t : Store} (h : s.Calm) {id : Nat} {cell : Cell} (hcell : cell.container.Calm)
    (hcells : t.cells = setAt s.cells id (some cell)) : t.Calm := by
  intro id' cell' hcell'
  rw [hcells] at hcell'
  by_cases hid : id' = id
  · rw [hid, setAt_self] at hcell'
    exact Option.some.inj hcell' ▸ hcell
  · rw [setAt_of_ne _ _ hid] at hcell'
    exact h id' cell' hcell'

theorem Drafts.areCalm_cons (draft : Draft) (drafts : List Draft) :
    Drafts.areCalm (draft :: drafts) = (draft.isCalm && Drafts.areCalm drafts) := by
  obtain ⟨k, _ | ⟨makes, tag, steps, handsOn⟩, dependencies, policy, isScoped⟩ := draft <;>
    simp [Drafts.areCalm, BindingOf.isCalm]

theorem BindingOf.isCalm_realize (draft : Draft) (serial : Nat) : (draft.realize serial).isCalm = draft.isCalm := by
  obtain ⟨k, _ | r, dependencies, policy, isScoped⟩ := draft <;> rfl

theorem Builder.Calm.add {b : Builder} (h : b.Calm) {binding : Binding} (hbinding : binding.isCalm = true) :
    (b.add binding).Calm := by
  unfold Builder.add Builder.tryAdd
  rcases hregister : b.registry.register binding with e | registry
  · exact ⟨h.bindings, h.parents⟩
  · refine ⟨fun c hc => ?_, h.parents⟩
    exact (Registry.mem_of_register hregister hc).elim (fun heq => heq ▸ hbinding) (h.bindings c)

/-! ### Attempts -/

/-- An attempt that does not panic and leaves all lazy handles calm. A value that it gives satisfies the
postcondition. -/
structure Stays {ε α : Type} (me : Thread) (s : Store) (x : Attempt ε α) (post : α → Prop) : Prop where
  calm : (x.eval me s).2.Calm
  unpanicked : ∀ message, (x.eval me s).1 ≠ .error (.panicked message)
  result : ∀ a, (x.eval me s).1 = .ok a → post a

/-- The attempt stays calm from wherever all lazy handles are. -/
def Attempt.Calm {ε α : Type} (post : α → Prop) (x : Attempt ε α) : Prop := ∀ me s, s.Calm → Stays me s x post

namespace Attempt.Calm

variable {ε ε' α β : Type} {post mid : α → Prop} {x : Attempt ε α}

protected theorem pure {a : α} (h : post a) : Calm post (pure a : Attempt ε α) := by
  refine fun me s hs => ⟨hs, nofun, ?_⟩
  rintro _ ⟨⟩
  exact h

protected theorem fail (e : ε) : Calm post (Attempt.fail e : Attempt ε α) := fun _ _ hs => ⟨hs, nofun, nofun⟩

/-- An action that changes no lazy handle. -/
theorem perform {a : Action} (hcells : ∀ me s, (a.after me s).cells = s.cells) :
    Calm (fun _ => True) (Attempt.perform a : Attempt ε a.Reply) :=
  fun me s hs => ⟨hs.congr (hcells me s), nofun, fun _ _ => trivial⟩

protected theorem bind {post : β → Prop} {f : α → Attempt ε β} (hx : Calm mid x) (hf : ∀ a, mid a → Calm post (f a)) :
    Calm post (x >>= f) := by
  intro me s hs
  obtain ⟨hcalm, hunpanicked, hresult⟩ := hx me s hs
  rcases heval : x.eval me s with ⟨e | a, t⟩ <;> rw [heval] at hcalm hunpanicked hresult
  · have hbind : (x >>= f).eval me s = (.error e, t) := by rw [eval_bind, heval]
    refine ⟨?_, ?_, ?_⟩ <;> rw [hbind]
    · exact hcalm
    · exact fun message heq => hunpanicked message (congrArg Except.error (Except.error.inj heq))
    · nofun
  · have hbind : (x >>= f).eval me s = (f a).eval me t := by rw [eval_bind, heval]
    obtain ⟨hcalm, hunpanicked, hresult⟩ := hf a (hresult a rfl) me t hcalm
    exact ⟨hbind ▸ hcalm, hbind ▸ hunpanicked, hbind ▸ hresult⟩

protected theorem map {f : α → β} (hx : Calm mid x) : Calm (fun _ => True) (f <$> x) := by
  rw [← bind_pure_comp]
  exact hx.bind fun _ _ => .pure trivial

protected theorem outcome (hx : Calm post x) : Calm (fun _ => True) (Attempt.outcome x : Attempt ε' (Except ε α)) := by
  intro me s hs
  obtain ⟨hcalm, hunpanicked, -⟩ := hx me s hs
  rcases heval : x.eval me s with ⟨(e | m | _) | a, t⟩ <;> rw [heval] at hcalm hunpanicked
  case error.panicked => exact absurd rfl (hunpanicked m)
  all_goals
    refine ⟨?_, ?_, fun _ _ => trivial⟩ <;> rw [eval_outcome, heval]
    · exact hcalm
    · simp

protected theorem mapError (f : ε → ε') (hx : Calm post x) : Calm post (Attempt.mapError f x) := by
  intro me s hs
  obtain ⟨hcalm, hunpanicked, hresult⟩ := hx me s hs
  rcases heval : x.eval me s with ⟨(e | m | _) | a, t⟩ <;> rw [heval] at hcalm hunpanicked hresult
  case error.panicked => exact absurd rfl (hunpanicked m)
  case ok =>
    have hpost : post a := hresult a rfl
    refine ⟨?_, ?_, ?_⟩ <;> rw [eval_mapError, heval]
    · exact hcalm
    · simp [Except.mapError]
    · simpa [Except.mapError] using hpost
  all_goals
    refine ⟨?_, ?_, ?_⟩ <;> rw [eval_mapError, heval]
    · exact hcalm
    · simp [Except.mapError, Stop.map]
    · simp [Except.mapError]

/-- A last action that changes no lazy handle. -/
protected theorem closing {last : Action} (hcells : ∀ me s, (last.after me s).cells = s.cells) (hx : Calm post x) :
    Calm post (Attempt.closing last x) := by
  intro me s hs
  obtain ⟨hcalm, hunpanicked, hresult⟩ := hx me s hs
  refine ⟨?_, ?_, ?_⟩ <;> rw [eval_closing]
  · exact hcalm.congr (hcells me _)
  · exact hunpanicked
  · exact hresult

end Attempt.Calm

open Attempt

/-! ### Actions -/

section Actions

variable {ε : Type}

theorem calm_tell (level : Level) (message : String) :
    Attempt.Calm (fun _ => True) (tell level message : Attempt ε Unit) := .perform fun _ _ => rfl

theorem calm_tell? (e : Option Event) : Attempt.Calm (fun _ => True) (tell? e : Attempt ε Unit) := by
  cases e with
  | none => exact .pure trivial
  | some e => exact calm_tell _ _

theorem calm_tellAll (es : List Event) : Attempt.Calm (fun _ => True) (tellAll es : Attempt ε Unit) := by
  induction es with
  | nil => exact .pure trivial
  | cons e es ih => exact (calm_tell _ _).bind fun _ _ => ih

theorem calm_enter (place : Address) : Attempt.Calm (fun _ => True) (enter place : Attempt ε Bool) := by
  refine .perform fun me s => ?_
  change (s.enter me place).1.cells = s.cells
  unfold Store.enter
  split <;> rfl

theorem calm_acquire (place : Address) : Attempt.Calm (fun _ => True) (acquire place : Attempt ε Grant) := by
  refine .perform fun me s => ?_
  rw [Action.after, Action.performAlone, Action.perform]
  rcases s.slots.acquire me place with ⟨slots, _ | grant⟩ <;> rfl

theorem calm_await (gate : String) (count : Nat) :
    Attempt.Calm (fun _ => True) (await gate count : Attempt ε Unit) :=
  .perform fun me s => congrArg (fun outcome => outcome.2.cells) (eval_await (ε := ε) gate count me s)

theorem calm_remember (l : Lazy) : Attempt.Calm (fun _ => True) (remember l : Attempt ε (Option Value)) := by
  refine .perform fun me s => ?_
  change (s.remember l).1.cells = s.cells
  unfold Store.remember
  split
  · rfl
  · split <;> rfl

theorem calm_postpone {c : Container} (hc : c.Calm) (k : Key) :
    Attempt.Calm (fun _ => True) (postpone c k : Attempt ε Lazy) :=
  fun _ s hs =>
    have hcell : (Cell.mk c k none).container.Calm := hc
    ⟨Store.Calm.setCell (t := (s.postpone c k).1) hs hcell rfl, nofun, fun _ _ => trivial⟩

theorem calm_reclaim (l : Lazy) :
    Attempt.Calm (fun found => ∀ cell ∈ found, cell.container.Calm) (reclaim l : Attempt ε (Option Cell)) := by
  intro me s hs
  refine ⟨?_, nofun, ?_⟩ <;> rw [eval_reclaim, Store.reclaim]
  · split
    · exact hs
    · split <;> exact hs.congr rfl
  · split
    · rintro _ ⟨⟩ cell hcell
      cases hcell
    · next cell hcell =>
      split
      · rintro _ ⟨⟩ cell' hcell'
        exact Option.some.inj hcell' ▸ hs l.id cell hcell
      · rintro _ ⟨⟩ cell' hcell'
        cases hcell'

theorem calm_keep (l : Lazy) (v : Value) : Attempt.Calm (fun _ => True) (keep l v : Attempt ε Value) := by
  intro me s hs
  refine ⟨?_, nofun, fun _ _ => trivial⟩
  rw [eval_keep, Store.keep]
  split
  · exact hs
  · next cell hcell =>
    have hkept : { cell with found := some (cell.found.getD v) }.container.Calm := hs l.id cell hcell
    exact hs.setCell hkept rfl

end Actions

/-! ### Builders -/

section Builders

variable {ε : Type} {b : Builder}

theorem calm_make {draft : Draft} (h : draft.isCalm = true) :
    Attempt.Calm (fun binding => binding.isCalm = true) (draft.make : Attempt ε Binding) := by
  unfold BindingOf.make
  split
  · refine .bind (.perform (a := .nextSerial) fun _ _ => rfl) fun serial _ => .pure ?_
    exact (draft.isCalm_realize serial).trans h
  · exact .pure ((draft.isCalm_realize 0).trans h)

theorem calm_addDrafts (hb : b.Calm) {drafts : List Draft} (hdrafts : Drafts.areCalm drafts = true) :
    Attempt.Calm Builder.Calm (b.addDrafts drafts : Attempt ε Builder) := by
  induction drafts generalizing b with
  | nil => exact .pure hb
  | cons draft drafts ih =>
      rw [Drafts.areCalm_cons, Bool.and_eq_true] at hdrafts
      have hadd : Attempt.Calm Builder.Calm (b.addDraft draft : Attempt ε Builder) :=
        (calm_make hdrafts.1).bind fun binding hbinding => (calm_tell? _).bind fun _ _ => .pure (hb.add hbinding)
      exact hadd.bind fun b hb => ih hb hdrafts.2

theorem calm_build (hb : b.Calm) : Attempt.Calm Container.Calm b.build := by
  unfold Builder.build
  split
  · exact .fail _
  · refine (calm_tell _ _).bind fun _ _ => (calm_tellAll _).bind fun _ _ => ?_
    split
    · exact .fail _
    · next graph _ =>
      refine (calm_tell _ _).bind fun _ _ => .bind (.perform (a := .nextIdentity) fun _ _ => rfl) fun id _ => ?_
      refine .bind (.perform (a := .note _) fun _ _ => rfl) fun _ _ => .pure ?_
      intro a hreaches
      cases hreaches with
      | refl => exact hb.bindings
      | up hparent hrest => exact hb.parents _ hparent a hrest

end Builders

/-! ### Requests -/

/-- Requests for keys of calm containers stay calm. -/
def Lookup.Calm (require : Lookup) : Prop := ∀ c k, c.Calm → Attempt.Calm (fun _ => True) (require c k)

theorem calm_pursue {request : Attempt Failure Resolved} {post : Resolved → Prop} (h : Attempt.Calm post request)
    (p : Progress) (catches : Bool) : Attempt.Calm (fun _ => True) (p.pursue catches request) := by
  refine h.outcome.bind fun result _ => ?_
  split
  · exact .pure trivial
  · split
    · exact .pure trivial
    · exact .fail _

theorem calm_innerHandle (h : Handle) (p : Progress) (value index : Nat) :
    Attempt.Calm (fun _ => True) (h.innerHandle p value index) := by
  unfold Handle.innerHandle
  split
  · exact .fail _
  · refine .bind (.perform (a := .leadsUp _ _) fun _ _ => rfl) fun yes _ => ?_
    split
    · exact .pure trivial
    · exact .fail _

theorem calm_addConfig (p : Progress) (type : TypeInfo) (tag : String) :
    Attempt.Calm (fun _ => True) (p.addConfig type tag) := by
  refine .bind (.perform (a := .nextSerial) fun _ _ => rfl) fun serial _ => ?_
  split
  · exact .fail _
  · exact (calm_tell _ _).bind fun _ _ => .pure trivial

theorem calm_mint (c : Container) (k : Key) (r : Recipe Step) (p : Progress) (serial : Nat) :
    Attempt.Calm (fun _ => True) (r.mint c k p serial) := by
  unfold Recipe.mint
  split
  · exact .bind (.perform (a := .numberConfigs) fun _ _ => rfl) fun _ _ => .pure trivial
  · exact .pure trivial

section Lookup

variable {require : Lookup} (hrequire : require.Calm) {c : Container}
include hrequire

theorem calm_typed (hc : c.Calm) (k : Key) : Attempt.Calm (fun _ => True) (require.typed c k) := by
  refine (hrequire c k hc).bind fun v _ => ?_
  split
  · exact .pure trivial
  · exact .fail _

theorem calm_get (l : Lazy) : Attempt.Calm (fun _ => True) (l.get require) := by
  refine (calm_remember l).bind fun found _ => ?_
  split
  · exact .pure trivial
  · refine (calm_reclaim l).bind fun cell? hcell => ?_
    split
    · exact .fail _
    · next cell =>
      refine .closing (fun _ _ => rfl) ((calm_typed hrequire (hcell cell rfl) _).bind fun v _ => ?_)
      exact calm_keep l v

theorem calm_resolve (hc : c.Calm) (r : Resolver) : Attempt.Calm (fun _ => True) (r.resolve require c) := by
  induction r with
  | value k => exact (calm_typed hrequire hc k).bind fun _ _ => .pure trivial
  | deferred type => exact (calm_postpone hc _).bind fun _ _ => .pure trivial
  | config type =>
      rw [Resolver.resolve, Lookup.config_eq]
      refine ((calm_typed hrequire hc .configs).bind fun configs _ =>
        show Attempt.Calm (fun _ => True) _ from ?_).bind fun _ _ => .pure trivial
      split
      · exact .pure trivial
      · exact .fail _
  | optional inner ih =>
      refine ih.outcome.bind fun result _ => ?_
      split
      · exact .pure trivial
      · split
        · exact .pure trivial
        · exact .fail _

theorem calm_request (hc : c.Calm) (requester : Option Key) (r : Request) :
    Attempt.Calm (fun _ => True) (Handle.request require ⟨c, requester⟩ r) := by
  cases r with
  | resolve r => exact calm_resolve hrequire hc r
  | untyped k => exact (hrequire c k hc).bind fun _ _ => .pure trivial
  | requester => exact .pure trivial

theorem calm_constructAll (hc : c.Calm) (total done : Nat) (ks : List Key) :
    Attempt.Calm (fun _ => True) (constructAll require c total done ks) := by
  induction ks generalizing done with
  | nil => exact .pure trivial
  | cons k ks ih =>
      refine (calm_tell _ _).bind fun _ _ => (hrequire c k hc).outcome.bind fun result _ => ?_
      split
      · exact ih (done + 1)
      · exact (calm_tell _ _).bind fun _ _ => .fail _

theorem calm_initiate (hc : c.Calm) : Attempt.Calm (fun _ => True) (c.initiate require) := by
  unfold Container.initiate
  split
  · exact .fail _
  · exact (calm_tell _ _).bind fun _ _ => (calm_constructAll hrequire hc _ _ _).bind fun _ _ => calm_tell _ _

theorem calm_buildThen {ε α : Type} (wrap : BuildError → ε) {b : Builder} (hb : b.Calm) (eager : Bool)
    {next : Container → Attempt ε α} {post : α → Prop} (hnext : ∀ c, c.Calm → Attempt.Calm post (next c)) :
    Attempt.Calm post (b.buildThen require wrap eager next) := by
  refine ((calm_build hb).mapError wrap).bind fun c hc =>
    .bind (.perform (a := .hold c) fun _ _ => rfl) fun _ _ => .closing (fun _ _ => rfl) ?_
  split
  · exact ((calm_initiate hrequire hc).mapError wrap).bind fun _ _ => hnext c hc
  · exact hnext c hc

/-! ### Recipes -/

theorem calm_step (hc : c.Calm) (requester : Option Key) (run : Nat) (p : Progress) {step : Step}
    (hstep : step.isCalm = true) : Attempt.Calm (fun _ => True) (step.perform require ⟨c, requester⟩ run p) := by
  cases step with
  | fail message runs =>
      rw [Step.perform]
      split
      · exact .fail _
      · exact .pure trivial
  | panic message runs => cases hstep
  | pause => exact .pure trivial
  | meet gate count =>
      exact .bind (.perform (a := .arrive gate) fun _ _ => rfl) fun _ _ =>
        (calm_await gate count).bind fun _ _ => .pure trivial
  | ask r path catches =>
      cases path with
      | none => exact calm_pursue (calm_request hrequire hc requester r) p catches
      | some path =>
          rw [Step.perform]
          split
          · exact .fail _
          · next a ha =>
            have hreaches := Container.reaches_of_ancestor? ha
            exact calm_pursue (calm_request hrequire (hc.of_reaches hreaches) none r) p catches
  | use index catches =>
      rw [Step.perform]
      split
      · exact .fail _
      · next l _ => exact calm_pursue (calm_get hrequire l).map p catches
  | useInner value index catches =>
      exact (calm_innerHandle _ p value index).bind fun l _ => calm_pursue (calm_get hrequire l).map p catches
  | addConfig type tag => exact calm_addConfig p type tag
  | nest drafts eager r catches =>
      have hbelow : ((Builder.below c).withLabel "sub").Calm :=
        ⟨fun _ hb => (List.not_mem_nil hb).elim, List.forall_mem_singleton.2 hc⟩
      rw [Step.perform, Handle.nest]
      refine (calm_addDrafts hbelow (by simpa [Step.isCalm] using hstep)).bind fun b hb => ?_
      exact calm_buildThen hrequire _ hb eager fun d hd => calm_pursue (calm_request hrequire hd none r) p catches

theorem calm_steps (hc : c.Calm) (requester : Option Key) (run : Nat) (p : Progress) {steps : List Step}
    (hsteps : Steps.areCalm steps = true) :
    Attempt.Calm (fun _ => True) (Steps.perform require ⟨c, requester⟩ run p steps) := by
  induction steps generalizing p with
  | nil => exact .pure trivial
  | cons step steps ih =>
      rw [Steps.areCalm, Bool.and_eq_true] at hsteps
      exact (calm_step hrequire hc requester run p hsteps.1).bind fun p _ => ih p hsteps.2

theorem calm_carryOut (hc : c.Calm) (k : Key) {r : Recipe Step} (hsteps : Steps.areCalm r.steps = true) (run : Nat) :
    Attempt.Calm (fun _ => True) (r.carryOut require c k run) := by
  refine (calm_steps hrequire hc _ run .start hsteps).bind fun p _ =>
    .bind (.perform (a := .nextSerial) fun _ _ => rfl) fun serial _ => ?_
  split
  · exact hrequire c _ hc
  · exact calm_mint c k r p serial

variable {b : Binding} (hb : b.isCalm = true)
include hb

theorem calm_construct (hc : c.Calm) : Attempt.Calm (fun _ => True) (c.construct require b) := by
  refine (calm_tell _ _).bind fun _ _ => ?_
  split
  · exact .pure trivial
  · next r hsource =>
    have hsteps : Steps.areCalm r.steps = true := by simpa [BindingOf.isCalm, hsource] using hb
    have hfollow : Attempt.Calm (fun _ => True) (r.follow require c b.key) :=
      .bind (.perform (a := .countRun _ _) fun _ _ => rfl) fun run _ => calm_carryOut hrequire hc b.key hsteps run
    exact (hfollow.mapError _).bind fun v _ => .bind (.perform (a := .note _) fun _ _ => rfl) fun _ _ => .pure trivial

theorem calm_obtain (hc : c.Calm) : Attempt.Calm (fun _ => True) (c.obtain require b) := by
  refine (calm_acquire _).bind fun grant _ => ?_
  split
  · exact (calm_tell _ _).bind fun _ _ => .pure trivial
  · exact (calm_tell _ _).bind fun _ _ => .fail _
  · refine .closing (fun _ _ => rfl) ((calm_construct hrequire hb hc).bind fun v _ => ?_)
    exact .bind (.perform (a := .settle _ _) fun _ _ => rfl) fun _ _ => .pure trivial

theorem calm_produce (hc : c.Calm) : Attempt.Calm (fun _ => True) (c.produce require b) := by
  refine (calm_enter _).bind fun entered _ => ?_
  split
  · refine .closing (fun _ _ => rfl) ?_
    split
    · exact calm_obtain hrequire hb hc
    · exact calm_construct hrequire hb hc
  · exact .fail _

end Lookup

theorem calm_requireWithin (depth : Nat) : (requireWithin depth).Calm := by
  induction depth with
  | zero => exact fun _ _ _ _ _ hs => ⟨hs, nofun, nofun⟩
  | succ depth ih =>
      intro c k hc
      change Attempt.Calm _ (c.requireWith (requireWithin depth) k)
      unfold Container.requireWith
      split
      · next o b howner =>
        obtain ⟨hreaches, hlookup⟩ := Container.owner?_spec howner
        refine (calm_produce ih (hc o hreaches b ?_) (hc.of_reaches hreaches)).bind fun v _ => ?_
        · exact List.mem_of_find?_eq_some hlookup
        · exact .bind (.perform (a := .note _) fun _ _ => rfl) fun _ _ => .pure trivial
      · exact (calm_tell _ _).bind fun _ _ => .fail _

theorem calm_require : Lookup.Calm Container.require := fun c k => calm_requireWithin (c.weight + 1) c k

theorem calm_finish {b : Builder} (hb : b.Calm) (eager : Bool) : Attempt.Calm Container.Calm (b.finish eager) :=
  calm_buildThen calm_require id hb eager fun _ hc => .pure hc

end Injection
