import Injection.Proofs.Bookkeeping

/-!
The trail of a failure. Providers pass the failures of their requests on as they are, or catch them. So what a request
fails for arose at one turn, and all that was done after it was to get out; and the trail that the failure has gathered
on the way up is what the request had under construction when its reason arose, outermost first.
-/

namespace Injection

/-! ### Where reasons arise -/

/-- Whether an action only gives something up that was taken before. -/
def Action.isWayOut : Action → Bool
  | leave _ => true
  | release _ => true
  | letGo _ => true
  | _ => false

/-- A step of a provider's run fails by itself, not through a request: it is to give up, asks at an ancestor or with a
handle that is not there or leads elsewhere, adds a config of a type that there is one of, or cannot build its child
container. -/
def Step.GivesUp (require : Lookup) (me : Thread) (h : Handle) (run : Nat) (p : Progress) (s : Store)
    (reason : Reason) : Step → Prop
  | .fail message runs => concerns runs run = true ∧ reason = .other message
  | .ask _ (some path) _ => h.container.ancestor? path = none ∧ reason = .other "no such parent"
  | .use index _ => p.lazies[index]? = none ∧ reason = .other "no such lazy"
  | .useInner value index _ =>
    (∀ l ∈ p.inner? value index, s.leadsUp l h.container = false) ∧ reason = .other "no such lazy"
  | .addConfig type _ =>
    (p.configs.find? type).isSome = true ∧ reason = .other (ConfigError.duplicate type).message
  | .nest drafts eager _ _ => ∃ (b : Builder) (e : BuildError) (t u : Store),
      (((Builder.below h.container).withLabel "sub").addDrafts drafts : Attempt Failure Builder).eval me s =
        (.ok b, t) ∧ (b.buildThen require id eager pure).eval me t = (.error (.failed e), u) ∧ reason = .build e.message
  | _ => False

/-- Of the steps of a run, some succeed, and the next one gives up. -/
inductive Steps.GiveUp (require : Lookup) (me : Thread) (h : Handle) (run : Nat) (reason : Reason) :
    Progress → Store → List Step → Prop
  | here {p : Progress} {s : Store} {step : Step} {steps : List Step} (now : step.GivesUp require me h run p s reason) :
      GiveUp require me h run reason p s (step :: steps)
  | later {p p' : Progress} {s t : Store} {step : Step} {steps : List Step}
      (succeeds : (step.perform require h run p).eval me s = (.ok p', t))
      (rest : GiveUp require me h run reason p' t steps) : GiveUp require me h run reason p s (step :: steps)

/-- A run of a provider: of which own binding, how deep constructions may nest in it, and the store it begins in. -/
structure Run where
  owner : Container
  binding : Binding
  recipe : Recipe Step
  depth : Nat
  start : Store

namespace Run

def place (run : Run) : Address := run.owner.place run.binding

/-- The turn that the run begins with. -/
def beginning (run : Run) : Action × Store := (.countRun run.place run.recipe.tag, run.start)

def number (run : Run) : Nat := (run.start.countRun run.place run.recipe.tag).2

/-- The store that the steps of the run find. -/
def entry (run : Run) : Store := (run.start.countRun run.place run.recipe.tag).1

def attempt (run : Run) : Attempt Failure Value :=
  run.recipe.carryOut (requireWithin run.depth) run.owner run.binding.key run.number

/-- The run belongs to a binding of a container that was built. -/
structure Real (run : Run) : Prop where
  hasBuilt : run.start.HasBuilt run.owner
  lookup : run.owner.registry.lookup run.binding.key = some run.binding
  source : run.binding.source = .recipe run.recipe

/-- The run fails by itself. -/
def GivesUp (run : Run) (me : Thread) (reason : Reason) : Prop :=
  Steps.GiveUp (requireWithin run.depth) me ⟨run.owner, some run.binding.key⟩ run.number reason .start run.entry
    run.recipe.steps

end Run

/-- After these turns, and not before, there is a reason to fail. -/
inductive Raises (me : Thread) : List (Action × Store) → Reason → Prop
  /-- A key was asked for that nothing is bound under. -/
  | missing {earlier : List (Action × Store)} {s : Store} {c : Container} {k : Key} (hasBuilt : s.HasBuilt c)
      (unbound : c.owner? k = none) :
      Raises me (earlier ++ [(.tell ⟨.error, "Tried to require an unbound key: " ++ k.text⟩, s)]) (.missing k)
  /-- The configs were obtained, and there is none of the type. -/
  | unset {earlier : List (Action × Store)} {s : Store} {c : Container} {configs : Value} {type : TypeInfo}
      (unset : configs.entries.find? (·.type = type) = none) :
      Raises me (earlier ++ [(.note (.answered c .configs configs), s)]) (.missing (.ofType type))
  /-- The thread tried to go into what it was constructing. -/
  | cyclic {earlier : List (Action × Store)} {s : Store} {place : Address} (inside : place ∈ s.building me) :
      Raises me (earlier ++ [(.enter place, s)]) (.cyclic place.key)
  /-- A value was obtained that is of another type than its key. -/
  | mismatch {earlier : List (Action × Store)} {s : Store} {c : Container} {k : Key} {v : Value}
      (differ : v.type ≠ k.type) : Raises me (earlier ++ [(.note (.answered c k v), s)]) (.mismatch k.type v.type)
  /-- The container of a lazy handle could not be taken hold of. -/
  | dropped {earlier : List (Action × Store)} {s : Store} {l : Lazy} (gone : (s.reclaim l).2 = none) :
      Raises me (earlier ++ [(.reclaim l, s)]) (.dropped l.key)
  /-- The run of a provider came to a step that gave up. -/
  | own {earlier : List (Action × Store)} {run : Run} {reason : Reason} (real : run.Real)
      (givesUp : run.GivesUp me reason) :
      Raises me (earlier ++ run.beginning :: run.attempt.turns me run.entry) reason

/-- Within some turns, while certain places and at last this one are under construction, a run begins that fails. -/
def Passes (me : Thread) (turns : List (Action × Store)) (around : List Address) (place : Address) (f : Failure) :
    Prop :=
  ∃ (run : Run) (earlier later : List (Action × Store)), turns = earlier ++ run.beginning :: later ∧ run.Real ∧
    run.place = place ∧ run.start.building me = around ++ [place] ∧
    (run.attempt.eval me run.entry).1 = .error (.failed f)

/-- Turns in two parts, of which the second only gets out. Of what was under construction in between, the trail of a
failure tells all that had been gone into since the beginning, and each of these constructions failed for the rest. -/
structure Parts (me : Thread) (s : Store) (turns : List (Action × Store)) (f : Failure)
    (before after : List (Action × Store)) (opened : List Address) : Prop where
  turns : turns = before ++ after
  building : (s.reached me before).building me = s.building me ++ opened
  trail : f.trail = opened.map (·.key)
  passed : ∀ outer place inner, opened = outer ++ place :: inner →
    Passes me before (s.building me ++ outer) place ⟨inner.map (·.key), f.reason⟩
  out : ∀ turn ∈ after, turn.1.isWayOut = true

/-- The trail of a failure is what was under construction when its reason arose. -/
def Traced (me : Thread) (s : Store) (turns : List (Action × Store)) (f : Failure) : Prop :=
  ∃ before after opened, Raises me before f.reason ∧ Parts me s turns f before after opened

variable {me : Thread} {s t : Store} {turns : List (Action × Store)} {f : Failure} {reason : Reason}

theorem Steps.GiveUp.ne_cyclic {require : Lookup} {h : Handle} {run : Nat} {p : Progress} {steps : List Step}
    (hgiveUp : Steps.GiveUp require me h run reason p s steps) (k : Key) : reason ≠ .cyclic k := by
  induction hgiveUp with
  | @here p s step steps hnow =>
      rintro rfl
      unfold Step.GivesUp at hnow
      split at hnow
      · cases hnow.2
      · cases hnow.2
      · cases hnow.2
      · cases hnow.2
      · cases hnow.2
      · obtain ⟨_, _, _, _, -, -, hreason⟩ := hnow
        cases hreason
      · exact hnow
  | later _ _ ih => exact ih

theorem Store.reached_append (s : Store) (me : Thread) (turns turns' : List (Action × Store)) :
    s.reached me (turns ++ turns') = (s.reached me turns).reached me turns' := by
  rcases List.eq_nil_or_concat turns' with rfl | ⟨front, last, rfl⟩
  · rw [List.append_nil]
    rfl
  · simp [reached, ← List.append_assoc]

theorem Store.reached_refused {place : Address} (hplace : place ∈ t.building me) (s : Store) :
    s.reached me (turns ++ [(.enter place, t)]) = t.note (.refused place) := by
  have hrefused : t.enter me place = (t.note (.refused place), false) := if_pos hplace
  simp [reached, Action.after, Action.performAlone, Action.perform, hrefused]

theorem Raises.after (h : Raises me turns reason) (first : List (Action × Store)) :
    Raises me (first ++ turns) reason := by
  cases h with
  | missing hbuilt hunbound => exact List.append_assoc .. ▸ .missing hbuilt hunbound
  | unset hunset => exact List.append_assoc .. ▸ .unset hunset
  | cyclic hinside => exact List.append_assoc .. ▸ .cyclic hinside
  | mismatch hdiffer => exact List.append_assoc .. ▸ .mismatch hdiffer
  | dropped hgone => exact List.append_assoc .. ▸ .dropped hgone
  | own hreal hgivesUp => exact List.append_assoc .. ▸ .own hreal hgivesUp

theorem Passes.after {around : List Address} {place : Address} (h : Passes me turns around place f)
    (first : List (Action × Store)) : Passes me (first ++ turns) around place f := by
  obtain ⟨run, earlier, later, rfl, h⟩ := h
  exact ⟨run, first ++ earlier, later, (List.append_assoc ..).symm, h⟩

/-- Nothing is under construction that was not before. -/
theorem Parts.whole (hbuilding : (s.reached me turns).building me = s.building me) :
    Parts me s turns (.because reason) turns [] [] where
  turns := (List.append_nil _).symm
  building := hbuilding.trans (List.append_nil _).symm
  trail := rfl
  passed outer place inner hopened := by simp at hopened
  out := List.forall_mem_nil _

/-- What has come after the beginning belongs to the first part, and what only gets out to the second one. -/
theorem Parts.amid {before after first last : List (Action × Store)} {opened : List Address}
    (h : Parts me t turns f before after opened) (hfirst : s.reached me first = t)
    (hbuilding : t.building me = s.building me) (hlast : ∀ turn ∈ last, turn.1.isWayOut = true) :
    Parts me s (first ++ turns ++ last) f (first ++ before) (after ++ last) opened where
  turns := by rw [h.turns]; simp
  building := by rw [Store.reached_append, hfirst, h.building, hbuilding]
  trail := h.trail
  passed outer place inner hopened := hbuilding ▸ (h.passed outer place inner hopened).after first
  out := List.forall_mem_append.2 ⟨h.out, hlast⟩

namespace Traced

/-- What arises right at the end, when nothing is under construction that was not before. -/
theorem of_raises (h : Raises me turns reason) (hbuilding : (s.reached me turns).building me = s.building me) :
    Traced me s turns (.because reason) :=
  ⟨turns, [], [], h, .whole hbuilding⟩

theorem amid (h : Traced me t turns f) {first last : List (Action × Store)} (hfirst : s.reached me first = t)
    (hbuilding : t.building me = s.building me) (hlast : ∀ turn ∈ last, turn.1.isWayOut = true) :
    Traced me s (first ++ turns ++ last) f := by
  obtain ⟨before, after, opened, hraises, hparts⟩ := h
  exact ⟨_, _, _, hraises.after first, hparts.amid hfirst hbuilding hlast⟩

theorem later (h : Traced me t turns f) {first : List (Action × Store)} (hfirst : s.reached me first = t)
    (hbuilding : t.building me = s.building me) : Traced me s (first ++ turns) f :=
  List.append_nil (first ++ turns) ▸ h.amid hfirst hbuilding (List.forall_mem_nil _)

/-- What was under construction when a reason arose that says so is on the trail, unless it was under construction
already at the beginning. -/
theorem mem_of_cyclic (h : Traced me s turns f) {k : Key} (hcyclic : f.reason = .cyclic k) :
    k ∈ (s.building me).map (·.key) ++ f.trail := by
  obtain ⟨before, after, opened, hraises, hparts⟩ := h
  rw [hparts.trail, ← List.map_append, ← hparts.building]
  rw [hcyclic] at hraises
  cases hraises with
  | cyclic hinside =>
      rw [Store.reached_refused hinside]
      exact List.mem_map_of_mem hinside
  | own _ hgivesUp => exact absurd rfl (hgivesUp.ne_cyclic k)

end Traced

/-! ### Attempts that pass on failures -/

section Traces

variable {α β : Type} {own own' : Failure → Prop} {x : Attempt Failure α}

/-- An attempt that fails does so by itself, or its failure has the trail that it should have. -/
def Traces (me : Thread) (s : Store) (x : Attempt Failure α) (own : Failure → Prop) : Prop :=
  ∀ f t, x.eval me s = (.error (.failed f), t) → own f ∨ Traced me s (x.turns me s) f

namespace Traces

theorem of_own (h : ∀ f t, x.eval me s = (.error (.failed f), t) → own f) : Traces me s x own :=
  fun f t heval => .inl (h f t heval)

protected theorem pure {a : α} : Traces me s (pure a : Attempt Failure α) own := of_own nofun

protected theorem perform {a : Action} : Traces me s (Attempt.perform a : Attempt Failure a.Reply) own := of_own nofun

protected theorem fail {f : Failure} (h : own f) : Traces me s (Attempt.fail f : Attempt Failure α) own := by
  refine of_own ?_
  rintro _ _ ⟨⟩
  exact h

theorem mono (h : Traces me s x own) (himp : ∀ f, own f → own' f) : Traces me s x own' :=
  fun f t heval => (h f t heval).imp_left (himp f)

/-- One attempt after another, where the end of the first can also be the reason to fail. -/
theorem raising {g : α → Attempt Failure β} {mid : α → Store → Prop} (hx : Traces me s x own)
    (hsound : Sound me s x mid) (hg : ∀ a t, x.eval me s = (.ok a, t) → Consistent me t → Evolves me s t → mid a t →
      Traces me t (g a) own ∨ ∃ reason, g a = Attempt.fail (.because reason) ∧ Raises me (x.turns me s) reason) :
    Traces me s (x >>= g) own := by
  intro f u heval
  rw [Attempt.eval_bind] at heval
  rw [Attempt.turns_bind]
  obtain ⟨ht, hevolves, hmid⟩ := hsound
  have hreached := x.eval_eq_reached me s
  rcases hfirst : x.eval me s with ⟨e | a, t⟩ <;> rw [hfirst] at heval ht hevolves hmid hreached
  · cases heval
    simpa using hx f _ hfirst
  · rcases hg a t hfirst ht hevolves (hmid a rfl) with hnext | ⟨reason, hfail, hraises⟩
    · exact (hnext f u heval).imp_right fun htraced => htraced.later hreached.symm hevolves.building
    · simp only [hfail, Attempt.fail, Attempt.turns_throw, List.append_nil] at heval ⊢
      cases heval
      exact .inr (.of_raises hraises (hreached ▸ hevolves.building))

protected theorem bind {g : α → Attempt Failure β} {mid : α → Store → Prop} (hx : Traces me s x own)
    (hsound : Sound me s x mid)
    (hg : ∀ a t, x.eval me s = (.ok a, t) → Consistent me t → Evolves me s t → mid a t → Traces me t (g a) own) :
    Traces me s (x >>= g) own :=
  hx.raising hsound fun a t heval ht hevolves hmid => .inl (hg a t heval ht hevolves hmid)

/-- The failure of an attempt is passed on as it is, or caught; nothing else is done about the outcome. -/
theorem handled {g : Except Failure α → Attempt Failure β} (hx : Traces me s x own)
    (hg : ∀ result, (∃ b, g result = pure b) ∨ ∃ f, result = .error f ∧ g result = Attempt.fail f) :
    Traces me s (Attempt.outcome x >>= g) own := by
  intro f u heval
  have hturns (result : Except Failure α) (t : Store) : (g result).turns me t = [] := by
    rcases hg result with ⟨b, hb⟩ | ⟨f, -, hf⟩
    · rw [hb, Attempt.turns_pure]
    · rw [hf, Attempt.fail, Attempt.turns_throw]
  have hpass {result : Except Failure α} {t : Store} (h : (g result).eval me t = (.error (.failed f), u)) :
      result = .error f := by
    rcases hg result with ⟨b, hb⟩ | ⟨f', rfl, hf⟩
    · rw [hb] at h
      cases h
    · rw [hf] at h
      cases h
      rfl
  rw [Attempt.turns_bind_of_nil hturns, Attempt.turns_outcome]
  rw [Attempt.eval_bind, Attempt.eval_outcome] at heval
  rcases hfirst : x.eval me s with ⟨(e | message | _) | a, t⟩ <;> rw [hfirst] at heval
  · cases hpass heval
    exact hx f t hfirst
  · cases heval
  · cases heval
  · cases hpass heval

theorem closing {last : Action} (hx : Traces me s x own) (hlast : last.isWayOut = true) :
    Traces me s (Attempt.closing last x) own := by
  intro f u heval
  rw [Attempt.eval_closing] at heval
  obtain ⟨hfailed, -⟩ := Prod.mk.inj heval
  refine (hx f _ (Prod.ext hfailed rfl)).imp_right fun htraced => ?_
  have hamid : Traced me s ([] ++ x.turns me s ++ [(last, (x.eval me s).2)]) f :=
    htraced.amid rfl rfl (by simpa using hlast)
  rw [Attempt.turns_closing]
  exact hamid

protected theorem map {f : α → β} {mid : α → Store → Prop} (hx : Traces me s x own) (hsound : Sound me s x mid) :
    Traces me s (f <$> x) own := by
  rw [← bind_pure_comp]
  exact hx.bind hsound fun _ _ _ _ _ _ => .pure

end Traces

end Traces

end Injection
