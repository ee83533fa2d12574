import Injection.Proofs.Construction
import Injection.Proofs.Moments

/-!
The turns of a request, one by one. A request is over at once where nothing answers for its key, where the key is under
construction, and where a value is there; otherwise the turns of one run of the recipe stand between the way in and the
way out. Only the last turn on the way in starts a run, and after a run that failed the binding is only given up.
-/

namespace Injection

/-! ### Stores along the way -/

/-- The store after some turns that began in a store. -/
def Store.reached (s : Store) (me : Thread) (turns : List (Action × Store)) : Store :=
  (turns.getLast?.map fun turn => turn.1.after me turn.2).getD s

theorem Process.alone_eq_reached {α : Type} (me : Thread) (p : Process α) (s : Store) :
    (p.alone me s).2 = s.reached me (p.turns me s) := by
  induction p generalizing s with
  | done a => rfl
  | act a next ih =>
      have hrest : (alone me (act a next) s).2 = _ := ih (a.performAlone me s).1 (a.performAlone me s).2
      rw [hrest, turns, Store.reached, Store.reached]
      rcases (next (a.performAlone me s).1).turns me (a.performAlone me s).2 with _ | ⟨turn, turns⟩ <;> rfl

/-- The turns of an attempt lead to its end. -/
theorem Attempt.eval_eq_reached {ε α : Type} (x : Attempt ε α) (me : Thread) (s : Store) :
    (x.eval me s).2 = s.reached me (x.turns me s) :=
  x.run.alone_eq_reached me s

/-! ### The turns of a construction -/

open Attempt

variable {me : Thread} {s t : Store} {c o : Container} {b : Binding} {r : Recipe Step} {require : Lookup}

/-- What is told of a construction. -/
def constructing (o : Container) (b : Binding) : Event :=
  ⟨.debug, "Constructing " ++ b.key.text ++ " in '" ++ o.label ++ "'"⟩

/-- The store in which the recipe of an own binding may be followed. -/
def Store.entered (s : Store) (me : Thread) (o : Container) (b : Binding) : Store :=
  let s := (s.enter me (o.place b)).1
  if b.isKept then { s with slots := (s.slots.acquire me (o.place b)).1 } else s

theorem Store.building_entered (hplace : o.place b ∉ s.building me) :
    (s.entered me o b).building me = s.building me ++ [o.place b] := by
  simp only [entered, enter_of_not_mem hplace]
  split <;> exact setAt_self _ _ _

theorem Store.history_entered (hplace : o.place b ∉ s.building me) :
    (s.entered me o b).history = .entered (o.place b) :: s.history := by
  simp only [entered, enter_of_not_mem hplace]
  split <;> rfl

/-- The turns of a construction up to the start of the run. -/
def Store.wayIn (s : Store) (me : Thread) (o : Container) (b : Binding) (r : Recipe Step) : List (Action × Store) :=
  (.enter (o.place b), s) :: ((if b.isKept then [(.acquire (o.place b), (s.enter me (o.place b)).1)] else []) ++
    [(.tell (constructing o b), s.entered me o b),
      (.countRun (o.place b) r.tag, (s.entered me o b).tell (constructing o b))])

/-- The turns of a construction after the end of the run. -/
def Store.wayOut (t : Store) (o : Container) (b : Binding) :
    Except (Stop Failure) Value → List (Action × Store)
  | .ok v =>
    let told := t.note (.succeeded (o.place b) v)
    let settled := { told with slots := told.slots.settle (o.place b) v }
    (.note (.succeeded (o.place b) v), t) ::
      if b.isKept then
        [(.settle (o.place b) v, told), (.release (o.place b), settled),
          (.leave (o.place b), { settled with slots := settled.slots.release (o.place b) })]
      else [(.leave (o.place b), told)]
  | .error _ =>
    if b.isKept then
      [(.release (o.place b), t), (.leave (o.place b), { t with slots := t.slots.release (o.place b) })]
    else [(.leave (o.place b), t)]

theorem turns_construct_recipe (hsource : b.source = .recipe r) :
    (o.construct require b).turns me s =
      let run := r.carryOut require o b.key (s.started o b r).2
      (.tell (constructing o b), s) :: (.countRun (o.place b) r.tag, s.tell (constructing o b)) ::
        (run.turns me (s.started o b r).1 ++
          match run.eval me (s.started o b r).1 with
          | (.ok v, t) => [(.note (.succeeded (o.place b) v), t)]
          | (.error _, _) => []) := by
  simp only [Container.construct, hsource, Recipe.follow, turns_bind, eval_bind, eval_tell, eval_mapError,
    turns_mapError, eval_countRun, Store.started, Container.place]
  rcases (r.carryOut require o b.key _).eval me _ with ⟨_ | v, t⟩ <;> rfl

/-- Between the way in and the way out of a construction are the turns of one run. -/
theorem turns_produce_recipe (require : Lookup) (hplace : o.place b ∉ s.building me) (hsource : b.source = .recipe r)
    (hslot : s.slots.slot (o.place b) = .vacant) (hedges : s.slots.edges = []) :
    (o.produce require b).turns me s =
      let run := r.carryOut require o b.key (s.opened me o b r).2
      s.wayIn me o b r ++ run.turns me (s.opened me o b r).1 ++
        (run.eval me (s.opened me o b r).1).2.wayOut o b (run.eval me (s.opened me o b r).1).1 := by
  have henter : s.enter me (o.place b) = ((s.enter me (o.place b)).1, true) := by rw [Store.enter_of_not_mem hplace]
  have hslots : (s.enter me (o.place b)).1.slots = s.slots := by rw [Store.enter_of_not_mem hplace]; rfl
  rw [Container.produce, turns_bind, eval_enter, henter]
  by_cases hkept : b.isKept
  · simp only [if_true, hkept, turns_closing, eval_closing, Container.obtain, turns_bind, eval_bind, eval_acquire, hslots,
      Slots.acquire_vacant hslot hedges, eval_construct_recipe hsource, turns_construct_recipe hsource, Store.opened,
      Store.wayIn, Store.entered, Store.wayOut]
    rcases (r.carryOut require o b.key _).eval me _ with ⟨_ | v, t⟩ <;>
      simp only [List.cons_append, List.append_assoc, List.nil_append, List.append_nil] <;> rfl
  · simp only [if_true, if_neg hkept, turns_closing, eval_construct_recipe hsource,
      turns_construct_recipe hsource, Store.opened, Store.wayIn, Store.entered, Store.wayOut]
    rcases (r.carryOut require o b.key _).eval me _ with ⟨_ | v, t⟩ <;>
      simp only [List.cons_append, List.append_assoc, List.nil_append, List.append_nil] <;> rfl

/-- A request notes the answer after the construction, if there is one. -/
theorem turns_requireWith (howner : c.owner? b.key = some (o, b)) :
    (c.requireWith require b.key).turns me s = (o.produce require b).turns me s ++
      match (o.produce require b).eval me s with
      | (.ok v, t) => [(.note (.answered c b.key v), t)]
      | (.error _, _) => [] := by
  simp only [Container.requireWith, howner, turns_bind]
  rcases (o.produce require b).eval me s with ⟨_ | v, t⟩ <;> rfl

theorem turns_requireWith_missing {k : Key} (howner : c.owner? k = none) :
    (c.requireWith require k).turns me s = [(.tell ⟨.error, "Tried to require an unbound key: " ++ k.text⟩, s)] := by
  simp only [Container.requireWith, howner]
  rfl

theorem turns_produce_refused (hplace : o.place b ∈ s.building me) :
    (o.produce require b).turns me s = [(.enter (o.place b), s)] := by
  have henter : s.enter me (o.place b) = (s.note (.refused (o.place b)), false) := if_pos hplace
  rw [Container.produce, turns_bind, eval_enter, henter]
  rfl

/-- Where no run is needed, no run starts. -/
theorem turns_produce_given {v : Value} (hplace : o.place b ∉ s.building me) (hsource : b.source = .given v) :
    (o.produce require b).turns me s =
      [(.enter (o.place b), s), (.tell (constructing o b), (s.enter me (o.place b)).1),
        (.leave (o.place b), (s.enter me (o.place b)).1.tell (constructing o b))] := by
  have henter : s.enter me (o.place b) = ((s.enter me (o.place b)).1, true) := by rw [Store.enter_of_not_mem hplace]
  have hkept : b.isKept = false := BindingOf.isKept_of_isInstance (BindingOf.isInstance_of_given hsource)
  rw [Container.produce, turns_bind, eval_enter, henter]
  simp only [if_true, hkept, turns_closing, Container.construct, hsource]
  rfl

theorem turns_produce_ready {v : Value} (hplace : o.place b ∉ s.building me) (hkept : b.isKept = true)
    (hslot : s.slots.slot (o.place b) = .ready v) (hedges : s.slots.edges = []) :
    (o.produce require b).turns me s =
      [(.enter (o.place b), s), (.acquire (o.place b), (s.enter me (o.place b)).1),
        (.tell ⟨.trace, "Cache hit for " ++ b.key.text⟩, (s.enter me (o.place b)).1),
        (.leave (o.place b), (s.enter me (o.place b)).1.tell ⟨.trace, "Cache hit for " ++ b.key.text⟩)] := by
  have henter : s.enter me (o.place b) = ((s.enter me (o.place b)).1, true) := by rw [Store.enter_of_not_mem hplace]
  have hacquire : (s.enter me (o.place b)).1.slots.acquire me (o.place b) =
      ((s.enter me (o.place b)).1.slots, some (.ready v)) := by
    rw [Store.enter_of_not_mem hplace]
    exact Slots.acquire_ready hslot hedges
  rw [Container.produce, turns_bind, eval_enter, henter]
  simp only [if_true, hkept, turns_closing, Container.obtain, turns_bind, eval_bind, eval_acquire, hacquire]
  rfl

/-! ### The turns of other requests -/

section Requests

variable {ε ε' α β : Type} {q : Resolver}

theorem Stop.map_id (e : Stop ε) : e.map id = e := by
  cases e <;> rfl

/-- An error in the same terms. -/
theorem Attempt.eval_mapError_id (x : Attempt ε α) (me : Thread) (s : Store) :
    (mapError id x).eval me s = x.eval me s := by
  rw [eval_mapError]
  rcases x.eval me s with ⟨e | a, t⟩
  · simp [Except.mapError, Stop.map_id]
  · rfl

/-- What comes after an attempt and takes no turn makes no difference to the turns. -/
theorem Attempt.turns_bind_of_nil {x : Attempt ε α} {f : α → Attempt ε β} (hf : ∀ a t, (f a).turns me t = []) :
    (x >>= f).turns me s = x.turns me s := by
  rw [turns_bind]
  rcases x.eval me s with ⟨_ | a, t⟩ <;> simp [hf]

theorem turns_typed (k : Key) : (require.typed c k).turns me s = (require c k).turns me s :=
  Attempt.turns_bind_of_nil fun v t => by split <;> rfl

/-- A resolver for a value takes the turns of the request for its key. -/
theorem turns_resolve (hlazy : q.dependency.isLazy = false) :
    (q.resolve require c).turns me s = (require c q.dependency.key).turns me s := by
  induction q with
  | value k => exact (Attempt.turns_bind_of_nil fun _ _ => rfl).trans (turns_typed k)
  | deferred type => cases hlazy
  | config type =>
      refine (Attempt.turns_bind_of_nil fun _ _ => rfl).trans ?_
      exact (Attempt.turns_bind_of_nil fun v t => by split <;> rfl).trans (turns_typed .configs)
  | optional inner ih =>
      refine (Attempt.turns_bind_of_nil fun result t => ?_).trans ((Attempt.turns_outcome _ me s).trans (ih hlazy))
      split
      · rfl
      · split <;> rfl

theorem turns_resolve_lazy (hlazy : q.dependency.isLazy = true) :
    (q.resolve require c).turns me s = [(.postpone c q.dependency.key, s)] := by
  induction q with
  | deferred type => rfl
  | optional inner ih =>
      refine (Attempt.turns_bind_of_nil fun result t => ?_).trans ((Attempt.turns_outcome _ me s).trans (ih hlazy))
      split
      · rfl
      · split <;> rfl
  | _ => cases hlazy

theorem turns_pursue (p : Progress) (catches : Bool) (request : Attempt Failure Resolved) :
    (p.pursue catches request).turns me s = request.turns me s := by
  refine (Attempt.turns_bind_of_nil fun result t => ?_).trans (Attempt.turns_outcome _ me s)
  split
  · rfl
  · split <;> rfl

end Requests

end Injection
