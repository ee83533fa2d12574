import Injection.Proofs.Consistency
import Injection.Resolution

/-!
One construction by a thread that is alone, from the outside. A binding is refused, handed out as it is, found in its
place, or provided by one run of its recipe; in the last case the store is first opened for the run and closed after it,
and only the place of the binding is touched on the way in and on the way out.
-/

namespace Injection

/-! ### In and out -/

theorem Store.eraseLast_append (places : List Address) (place : Address) :
    eraseLast (places ++ [place]) place = places := by
  simp [eraseLast]

@[simp] theorem Store.history_note (s : Store) (e : Happening) : (s.note e).history = e :: s.history := rfl

@[simp] theorem Store.cells_note (s : Store) (e : Happening) : (s.note e).cells = s.cells := rfl

/-- The store after a visit to a place that needed no provider run, and that was told of. -/
def Store.passed (s : Store) (me : Thread) (place : Address) (e : Event) : Store :=
  ((s.enter me place).1.tell e).leave me place

/-- The store after the start of a provider run for an own binding, and the number of the run. -/
def Store.started (s : Store) (o : Container) (b : Binding) (r : Recipe Step) : Store × Nat :=
  (s.tell ⟨.debug, "Constructing " ++ b.key.text ++ " in '" ++ o.label ++ "'"⟩).countRun (o.place b) r.tag

/-- The store as a provider run for an own binding finds it, and the number of the run. -/
def Store.opened (s : Store) (me : Thread) (o : Container) (b : Binding) (r : Recipe Step) : Store × Nat :=
  let s := (s.enter me (o.place b)).1
  let s := if b.isKept then { s with slots := (s.slots.acquire me (o.place b)).1 } else s
  s.started o b r

/-- The store after a run has been brought to its end. -/
def Store.closed (s : Store) (me : Thread) (o : Container) (b : Binding) : Except (Stop Failure) Value → Store
  | .ok v =>
    let s := s.note (.succeeded (o.place b) v)
    let s := if b.isKept then { s with slots := (s.slots.settle (o.place b) v).release (o.place b) } else s
    s.leave me (o.place b)
  | .error _ =>
    let s := if b.isKept then { s with slots := s.slots.release (o.place b) } else s
    s.leave me (o.place b)

variable {me : Thread} {s t : Store} {o : Container} {b : Binding} {r : Recipe Step}

namespace Slots

theorem acquire_vacant {slots : Slots} {place : Address} (hslot : slots.slot place = .vacant) (hedges : slots.edges = []) :
    slots.acquire me place = (⟨setAt slots.slot place (.computing me), []⟩, some .compute) := by
  simp [acquire, hslot, hedges, WaitEdge.stopWaiting]

theorem acquire_ready {slots : Slots} {place : Address} {v : Value} (hslot : slots.slot place = .ready v)
    (hedges : slots.edges = []) : slots.acquire me place = (slots, some (.ready v)) := by
  obtain ⟨slot, edges⟩ := slots
  obtain rfl : edges = [] := hedges
  obtain hslot : slot place = .ready v := hslot
  simp [acquire, hslot, WaitEdge.stopWaiting]

theorem release_settle {slots : Slots} {place : Address} {v : Value} (hedges : slots.edges = []) :
    (slots.settle place v).release place = ⟨setAt slots.slot place (.ready v), []⟩ := by
  simp [settle, release, hedges, WaitEdge.freeWaiters]

theorem release_computing {slots : Slots} {place : Address} {t : Thread} (hslot : slots.slot place = .computing t)
    (hedges : slots.edges = []) : slots.release place = ⟨setAt slots.slot place .vacant, []⟩ := by
  simp [release, hslot, hedges, WaitEdge.freeWaiters]

end Slots

/-! ### The four ways of a construction -/

section Eval

variable {require : Lookup}

open Attempt

theorem Store.enter_of_not_mem {place : Address} (hplace : place ∉ s.building me) :
    s.enter me place =
      ({ s.note (.entered place) with building := setAt s.building me (s.building me ++ [place]) }, true) := by
  rw [enter, if_neg hplace]

theorem eval_produce_refused (hplace : o.place b ∈ s.building me) :
    (o.produce require b).eval me s = (.error (.failed (.because (.cyclic b.key))), s.note (.refused (o.place b))) := by
  have henter : s.enter me (o.place b) = (s.note (.refused (o.place b)), false) := if_pos hplace
  simp [Container.produce, eval_bind, henter]

theorem eval_construct_given {v : Value} (hsource : b.source = .given v) :
    (o.construct require b).eval me s =
      (.ok v, s.tell ⟨.debug, "Constructing " ++ b.key.text ++ " in '" ++ o.label ++ "'"⟩) := by
  simp [Container.construct, hsource, Except.map]

theorem eval_construct_recipe (hsource : b.source = .recipe r) :
    (o.construct require b).eval me s =
      match (r.carryOut require o b.key (s.started o b r).2).eval me (s.started o b r).1 with
      | (.ok v, t) => (.ok v, t.note (.succeeded (o.place b) v))
      | (.error e, t) => (.error (e.map (·.through b.key)), t) := by
  simp only [Container.construct, hsource, Recipe.follow, eval_bind, eval_tell, eval_mapError, eval_countRun,
    Store.started, Container.place]
  rcases (r.carryOut require o b.key _).eval me _ with ⟨_ | v, t⟩ <;> rfl

theorem eval_produce_given {v : Value} (hplace : o.place b ∉ s.building me) (hsource : b.source = .given v) :
    (o.produce require b).eval me s =
      (.ok v, s.passed me (o.place b) ⟨.debug, "Constructing " ++ b.key.text ++ " in '" ++ o.label ++ "'"⟩) := by
  have hkept : b.isKept = false := BindingOf.isKept_of_isInstance (BindingOf.isInstance_of_given hsource)
  have henter : (s.enter me (o.place b)).2 = true := by rw [Store.enter_of_not_mem hplace]
  simp [Container.produce, eval_bind, eval_closing, hkept, henter, eval_construct_given hsource, Store.passed]

theorem eval_produce_ready {v : Value} (hplace : o.place b ∉ s.building me) (hkept : b.isKept = true)
    (hslot : s.slots.slot (o.place b) = .ready v) (hedges : s.slots.edges = []) :
    (o.produce require b).eval me s =
      (.ok v, s.passed me (o.place b) ⟨.trace, "Cache hit for " ++ b.key.text⟩) := by
  have henter : s.enter me (o.place b) = ((s.enter me (o.place b)).1, true) := by rw [Store.enter_of_not_mem hplace]
  have hacquire : (s.enter me (o.place b)).1.slots.acquire me (o.place b) =
      ((s.enter me (o.place b)).1.slots, some (.ready v)) := by
    rw [Store.enter_of_not_mem hplace]
    exact Slots.acquire_ready hslot hedges
  rw [Container.produce, eval_bind, eval_enter, henter]
  simp [Container.obtain, eval_bind, eval_closing, hkept, eval_acquire, hacquire, Except.map, Store.passed]

theorem eval_produce_recipe (require : Lookup) (hplace : o.place b ∉ s.building me) (hsource : b.source = .recipe r)
    (hslot : s.slots.slot (o.place b) = .vacant) (hedges : s.slots.edges = []) :
    (o.produce require b).eval me s =
      match (r.carryOut require o b.key (s.opened me o b r).2).eval me (s.opened me o b r).1 with
      | (.ok v, t) => (.ok v, t.closed me o b (.ok v))
      | (.error e, t) => (.error (e.map (·.through b.key)), t.closed me o b (.error e)) := by
  have henter : s.enter me (o.place b) = ((s.enter me (o.place b)).1, true) := by rw [Store.enter_of_not_mem hplace]
  have hslots : (s.enter me (o.place b)).1.slots = s.slots := by rw [Store.enter_of_not_mem hplace]; rfl
  rw [Container.produce, eval_bind, eval_enter, henter]
  by_cases hkept : b.isKept
  · simp only [if_true, hkept, eval_closing, Container.obtain, eval_bind, eval_acquire, hslots,
      Slots.acquire_vacant hslot hedges, eval_construct_recipe hsource, Store.opened]
    rcases (r.carryOut require o b.key _).eval me _ with ⟨_ | v, t⟩ <;> simp [Store.closed, hkept]
  · simp only [if_true, if_neg hkept, eval_closing, eval_construct_recipe hsource, Store.opened]
    rcases (r.carryOut require o b.key _).eval me _ with ⟨_ | v, t⟩ <;> simp [Store.closed, hkept]

/-- A request is answered with what the owner of the key produces. -/
theorem eval_requireWith {c : Container} (howner : c.owner? b.key = some (o, b)) :
    (c.requireWith require b.key).eval me s =
      match (o.produce require b).eval me s with
      | (.ok v, t) => (.ok v, t.note (.answered c b.key v))
      | (.error e, t) => (.error e, t) := by
  simp only [Container.requireWith, howner, eval_bind]
  rcases (o.produce require b).eval me s with ⟨_ | v, t⟩ <;> simp

theorem eval_requireWith_missing {c : Container} {k : Key} (howner : c.owner? k = none) :
    (c.requireWith require k).eval me s =
      (.error (.failed (.because (.missing k))), s.tell ⟨.error, "Tried to require an unbound key: " ++ k.text⟩) := by
  simp [Container.requireWith, howner, eval_bind]

end Eval

/-! ### What a construction touches -/

section Touches

open Happening

/-- What is told of the end of a run. -/
def ending (place : Address) : Except (Stop Failure) Value → List Happening
  | .ok v => [succeeded place v]
  | .error _ => []

/-- What a run that has ended leaves in the place of a binding whose value is kept. -/
def remains : Except (Stop Failure) Value → Slot
  | .ok v => .ready v
  | .error _ => .vacant

theorem history_opened (hplace : o.place b ∉ s.building me) :
    (s.opened me o b r).1.history = [began (o.place b), entered (o.place b)] ++ s.history := by
  simp only [Store.opened, Store.started, Store.countRun, Store.enter_of_not_mem hplace]
  split <;> rfl

theorem building_opened (hplace : o.place b ∉ s.building me) :
    (s.opened me o b r).1.building me = s.building me ++ [o.place b] := by
  simp only [Store.opened, Store.started, Store.countRun, Store.enter_of_not_mem hplace]
  split <;> exact setAt_self _ _ _

theorem slots_opened (hplace : o.place b ∉ s.building me) (hslot : s.slots.slot (o.place b) = .vacant)
    (hedges : s.slots.edges = []) :
    (s.opened me o b r).1.slots =
      if b.isKept then ⟨setAt s.slots.slot (o.place b) (.computing me), []⟩ else s.slots := by
  simp only [Store.opened, Store.started, Store.countRun, Store.enter_of_not_mem hplace]
  split
  · exact congrArg Prod.fst (Slots.acquire_vacant hslot hedges)
  · rfl

theorem history_closed (result : Except (Stop Failure) Value) :
    (t.closed me o b result).history = ending (o.place b) result ++ t.history := by
  cases result <;> simp only [Store.closed] <;> split <;> rfl

theorem building_closed (hbuilding : t.building me = s.building me ++ [o.place b])
    (result : Except (Stop Failure) Value) : (t.closed me o b result).building me = s.building me := by
  cases result <;> simp only [Store.closed] <;> split <;>
    simp [Store.leave, Store.note, hbuilding, Store.eraseLast_append]

theorem slots_closed (hslot : b.isKept = true → t.slots.slot (o.place b) = .computing me)
    (hedges : t.slots.edges = []) (result : Except (Stop Failure) Value) :
    (t.closed me o b result).slots =
      if b.isKept then ⟨setAt t.slots.slot (o.place b) (remains result), []⟩ else t.slots := by
  cases result with
  | ok v =>
      simp only [Store.closed]
      split
      · exact Slots.release_settle hedges
      · rfl
  | error e =>
      simp only [Store.closed]
      split
      · next hkept => exact Slots.release_computing (hslot hkept) hedges
      · rfl

theorem building_passed {place : Address} (hplace : place ∉ s.building me) (e : Event) :
    (s.passed me place e).building me = s.building me := by
  simp [Store.passed, Store.enter_of_not_mem hplace, Store.tell, Store.leave, Store.eraseLast_append]

theorem cells_passed {place : Address} (hplace : place ∉ s.building me) (e : Event) :
    (s.passed me place e).cells = s.cells := by
  rw [Store.passed, Store.enter_of_not_mem hplace]
  rfl

theorem touches_passed {place : Address} (h : Consistent me s) (hplace : place ∉ s.building me) (e : Event) :
    Touches me place [entered place] s (s.passed me place e) where
  history := by rw [Store.passed, Store.enter_of_not_mem hplace]; rfl
  concerns := by simp
  asked := by simp
  identities := by rw [Store.passed, Store.enter_of_not_mem hplace]; rfl
  cells := cells_passed hplace e
  slot p _ := by rw [Store.passed, Store.enter_of_not_mem hplace]; rfl
  unwaited := by
    rw [Store.passed, Store.enter_of_not_mem hplace]
    exact h.unwaited
  building p _ := by rw [building_passed hplace]
  nodup := building_passed hplace e ▸ h.nodup

theorem touches_opened (h : Consistent me s) (hplace : o.place b ∉ s.building me)
    (hslot : s.slots.slot (o.place b) = .vacant) :
    Touches me (o.place b) [began (o.place b), entered (o.place b)] s (s.opened me o b r).1 where
  history := history_opened hplace
  concerns := by simp
  asked := by simp
  identities := by
    simp only [Store.opened, Store.started, Store.countRun, Store.enter_of_not_mem hplace]
    split <;> rfl
  cells := by
    simp only [Store.opened, Store.started, Store.countRun, Store.enter_of_not_mem hplace]
    split <;> rfl
  slot p hp := by
    rw [slots_opened hplace hslot h.unwaited]
    split
    · exact setAt_of_ne _ _ hp
    · rfl
  unwaited := by
    rw [slots_opened hplace hslot h.unwaited]
    split
    · rfl
    · exact h.unwaited
  building p hp := by simp [building_opened hplace, hp]
  nodup := by
    rw [building_opened hplace]
    exact List.nodup_append.2 ⟨h.nodup, List.nodup_singleton _, fun q hq p hp hqp =>
      hplace (List.mem_singleton.1 hp ▸ hqp ▸ hq)⟩

theorem touches_closed (h : Consistent me t) (hslot : b.isKept = true → t.slots.slot (o.place b) = .computing me)
    (hbuilding : t.building me = s.building me ++ [o.place b]) (result : Except (Stop Failure) Value) :
    Touches me (o.place b) (ending (o.place b) result) t (t.closed me o b result) where
  history := history_closed result
  concerns := by cases result <;> simp [ending]
  asked := by cases result <;> simp [ending]
  identities := by cases result <;> simp only [Store.closed] <;> split <;> rfl
  cells := by cases result <;> simp only [Store.closed] <;> split <;> rfl
  slot p hp := by
    rw [slots_closed hslot h.unwaited]
    split
    · exact setAt_of_ne _ _ hp
    · rfl
  unwaited := by
    rw [slots_closed hslot h.unwaited]
    split
    · rfl
    · exact h.unwaited
  building p hp := by
    rw [building_closed hbuilding, hbuilding]
    simp [hp]
  nodup := by
    rw [building_closed hbuilding]
    exact (List.nodup_append.1 (hbuilding ▸ h.nodup)).1

end Touches

/-! ### Consistency -/

section Consistency

open Happening

/-- A place that may be opened for a run: its binding is an own one, not under construction, and without a value. -/
structure Openable (me : Thread) (s : Store) (o : Container) (b : Binding) (r : Recipe Step) : Prop where
  hasBuilt : s.HasBuilt o
  lookup : o.registry.lookup b.key = some b
  source : b.source = .recipe r
  place : o.place b ∉ s.building me
  slot : s.slots.slot (o.place b) = .vacant

namespace Openable

theorem owns (h : Openable me s o b r) : o.Owns (o.place b) b := ⟨rfl, h.lookup⟩

theorem isInstance (h : Openable me s o b r) : b.isInstance = false := BindingOf.isInstance_of_recipe h.source

theorem chronicled (h : Openable me s o b r) (hs : Consistent me s) :
    Chronicled (o.place b) b none (s.chronicle (o.place b)) := by
  have hsettled := hs.settled o (o.place b) b h.hasBuilt h.owns
  rwa [h.slot] at hsettled

theorem touches (h : Openable me s o b r) (hs : Consistent me s) :
    Touches me (o.place b) [began (o.place b), entered (o.place b)] s (s.opened me o b r).1 :=
  touches_opened hs h.place h.slot

theorem consistent (h : Openable me s o b r) (hs : Consistent me s) : Consistent me (s.opened me o b r).1 := by
  have hmem : o.place b ∈ (s.opened me o b r).1.building me := by
    rw [building_opened h.place]
    exact List.mem_append_right _ (List.mem_singleton_self _)
  have hvalue : ((s.opened me o b r).1.slots.slot (o.place b)).value? = none := by
    rw [slots_opened h.place h.slot hs.unwaited]
    split <;> simp [h.slot, Slot.value?]
  refine (h.touches hs).consistent hs h.hasBuilt h.owns (fun _ => ⟨h.isInstance, hvalue⟩)
    (fun t hslot => ⟨?_, hmem⟩) ?_ (by simp)
  · rw [slots_opened h.place h.slot hs.unwaited] at hslot
    split at hslot
    · simp only [setAt_self] at hslot
      exact (Slot.computing.inj hslot).symm
    · rw [h.slot] at hslot
      cases hslot
  · -- a visit that is under way looks like one that failed
    rw [hvalue, (h.touches hs).chronicle]
    exact .failed h.isInstance (h.chronicled hs)

variable (h : Openable me s o b r) (hs : Consistent me s) (ht : Consistent me t)
  (hrun : Evolves me (s.opened me o b r).1 t)
include h hs hrun

theorem frozen : t.building me = s.building me ++ [o.place b] ∧
    (t.slots.slot (o.place b) = if b.isKept then .computing me else .vacant) ∧
    t.chronicle (o.place b) = began (o.place b) :: entered (o.place b) :: s.chronicle (o.place b) := by
  have hbuilding := building_opened (r := r) h.place
  obtain ⟨hslot, hchronicle⟩ := hrun.frozen (o.place b) (by rw [hbuilding]; simp)
  refine ⟨hrun.building.trans hbuilding, hslot.trans ?_, hchronicle.trans (h.touches hs).chronicle⟩
  rw [slots_opened h.place h.slot hs.unwaited]
  split
  · exact setAt_self _ _ _
  · exact h.slot

theorem slot_of_isKept (hkept : b.isKept = true) : t.slots.slot (o.place b) = .computing me := by
  rw [(h.frozen hs hrun).2.1, if_pos hkept]

theorem not_mem_closed (result : Except (Stop Failure) Value) : o.place b ∉ (t.closed me o b result).building me := by
  rw [building_closed (h.frozen hs hrun).1]
  exact h.place

include ht

theorem touches_closed (result : Except (Stop Failure) Value) :
    Touches me (o.place b) (ending (o.place b) result) t (t.closed me o b result) :=
  Injection.touches_closed ht (h.slot_of_isKept hs hrun) (h.frozen hs hrun).1 result

theorem slot_closed (result : Except (Stop Failure) Value) :
    (t.closed me o b result).slots.slot (o.place b) = if b.isKept then remains result else .vacant := by
  have hslot := (h.frozen hs hrun).2.1
  rw [slots_closed (h.slot_of_isKept hs hrun) ht.unwaited]
  split
  · exact setAt_self _ _ _
  · next hkept => rw [hslot, if_neg hkept]

/-- The chronicle of a binding whose run has succeeded, once the request for it is answered. -/
theorem chronicle_answered {c : Container} {v : Value} (howner : c.owner? b.key = some (o, b)) :
    ((t.closed me o b (.ok v)).note (answered c b.key v)).chronicle (o.place b) = answered c b.key v ::
      succeeded (o.place b) v :: began (o.place b) :: entered (o.place b) :: s.chronicle (o.place b) := by
  have hconcerns : (answered c b.key v).concerns (o.place b) = true := concerns_answered.2 ⟨o, b, howner, rfl⟩
  rw [Store.chronicle_note hconcerns, (h.touches_closed hs ht hrun (.ok v)).chronicle, (h.frozen hs hrun).2.2]
  rfl

/-- No handle on the binding finds anything by the run, which would lead it back into the construction. -/
theorem unresolved (result : Except (Stop Failure) Value) {id : Nat} {cell : Cell} (hcell : s.cells id = some cell)
    (hfound : cell.found = none) (howner : cell.container.owner? cell.key = some (o, b)) :
    (t.closed me o b result).cells id = some cell := by
  rw [(h.touches_closed hs ht hrun result).cells]
  refine hrun.unresolved id cell (by rw [(h.touches hs).cells, hcell]) hfound ⟨o, b, howner, ?_⟩
  rw [building_opened h.place]
  exact List.mem_append_right _ (List.mem_singleton_self _)

theorem of_failed (e : Stop Failure) :
    Consistent me (t.closed me o b (.error e)) ∧ Evolves me s (t.closed me o b (.error e)) := by
  have htouches := h.touches_closed hs ht hrun (.error e)
  have hslot : (t.closed me o b (.error e)).slots.slot (o.place b) = .vacant := by
    rw [h.slot_closed hs ht hrun]
    split <;> rfl
  have hbuilt : t.HasBuilt o := hrun.hasBuilt ((h.touches hs).mem h.hasBuilt)
  refine ⟨htouches.consistent ht hbuilt h.owns ?_ ?_ ?_ ?_, ?_⟩
  · exact fun hmem => absurd hmem (h.not_mem_closed hs hrun _)
  · intro owner hcomputing
    rw [hslot] at hcomputing
    cases hcomputing
  · rw [hslot, htouches.chronicle, (h.frozen hs hrun).2.2]
    exact .failed h.isInstance (h.chronicled hs)
  · simp [ending]
  · exact (h.touches hs).evolves_around hrun htouches h.place (by rw [h.slot]; rfl)
      (building_closed (h.frozen hs hrun).1 _)

theorem of_succeeded {c : Container} {v : Value} (hc : t.HasBuilt c) (howner : c.owner? b.key = some (o, b))
    (htyped : o.Typed → v.type = b.key.type) :
    Consistent me ((t.closed me o b (.ok v)).note (.answered c b.key v)) ∧
      Evolves me s ((t.closed me o b (.ok v)).note (.answered c b.key v)) := by
  have hconcerns : (answered c b.key v).concerns (o.place b) = true :=
    concerns_answered.2 ⟨o, b, howner, rfl⟩
  have htouches := (h.touches_closed hs ht hrun (.ok v)).note hconcerns fun c' k' v' heq => by cases heq; exact hc
  have hslot : ((t.closed me o b (.ok v)).note (.answered c b.key v)).slots.slot (o.place b) =
      if b.isKept then .ready v else .vacant := h.slot_closed hs ht hrun (.ok v)
  have hbuilt : t.HasBuilt o := hrun.hasBuilt ((h.touches hs).mem h.hasBuilt)
  refine ⟨htouches.consistent ht hbuilt h.owns ?_ ?_ ?_ ?_, ?_⟩
  · exact fun hmem => absurd hmem (h.not_mem_closed hs hrun (.ok v))
  · intro owner hcomputing
    rw [hslot] at hcomputing
    split at hcomputing <;> cases hcomputing
  · rw [hslot, htouches.chronicle, (h.frozen hs hrun).2.2]
    split
    · next hkept => exact .kept c b.key v hkept (h.chronicled hs)
    · next hkept => exact .made c b.key v h.isInstance (by simpa using hkept) (h.chronicled hs)
  · intro hall w hw
    simp only [ending, List.mem_cons, List.not_mem_nil, or_false, reduceCtorEq, false_or,
      Happening.succeeded.injEq] at hw
    exact hw.2 ▸ htyped hall
  · exact (h.touches hs).evolves_around hrun htouches h.place (by rw [h.slot]; rfl)
      (building_closed (h.frozen hs hrun).1 (.ok v))

end Openable

/-- A request that is answered with what is there leaves the store consistent. -/
theorem consistent_of_found {c : Container} {v : Value} (hs : Consistent me s) (hc : s.HasBuilt c)
    (howner : c.owner? b.key = some (o, b)) (hplace : o.place b ∉ s.building me)
    (hfound : b.source = .given v ∨ s.slots.slot (o.place b) = .ready v) (e : Event) :
    Consistent me ((s.passed me (o.place b) e).note (answered c b.key v)) ∧
      Evolves me s ((s.passed me (o.place b) e).note (answered c b.key v)) := by
  obtain ⟨hreaches, hlookup⟩ := Container.owner?_spec howner
  have hown : o.Owns (o.place b) b := ⟨rfl, hlookup⟩
  have ho : s.HasBuilt o := hs.hasBuilt_of_reaches hc hreaches
  have hsettled := hs.settled o (o.place b) b ho hown
  have hconcerns : (answered c b.key v).concerns (o.place b) = true :=
    concerns_answered.2 ⟨o, b, howner, rfl⟩
  have htouches := (touches_passed hs hplace e).note hconcerns fun c' k' v' heq => by cases heq; exact hc
  have hbuilding := building_passed hplace e
  have hslots : ((s.passed me (o.place b) e).note (answered c b.key v)).slots = s.slots := by
    rw [Store.passed, Store.enter_of_not_mem hplace]
    rfl
  have hout : o.place b ∉ (s.passed me (o.place b) e).building me := hbuilding ▸ hplace
  refine ⟨htouches.consistent hs ho hown (fun hmem => absurd hmem hout) ?_ ?_ (by simp),
    htouches.evolves hplace (by rw [hslots]) hbuilding⟩
  · intro t hcomputing
    exact absurd (hs.computing _ t (hslots ▸ hcomputing)).2 hplace
  · rw [htouches.chronicle, hslots]
    rcases hfound with hgiven | hready
    · rcases hvalue : (s.slots.slot (o.place b)).value? with _ | w
      · exact .given c b.key v hgiven (hvalue ▸ hsettled)
      · have hkept := hsettled.isKept w hvalue
        rw [BindingOf.isKept_of_isInstance (BindingOf.isInstance_of_given hgiven)] at hkept
        cases hkept
    · rw [hready] at hsettled ⊢
      exact .again c b.key v hsettled

end Consistency

end Injection
