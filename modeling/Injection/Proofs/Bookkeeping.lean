import Injection.Proofs.Termination

/-!
What a request leaves behind. Whichever way it ends, with a value, an error or a panic, and in the middle of whatever
else it was made, what is under construction and what is in the places are as they were, but for the values that it had
to construct. A request that failed has put nothing in the place of its key, so the next one tries again.
-/

namespace Injection

variable {me : Thread} {s t : Store} {c o : Container} {b : Binding} {k : Key}

/-! ### Requests that fail -/

section Failed

variable {require : Lookup} (hsound : require.Sound me) (hs : Consistent me s) (hc : s.HasBuilt c)
  (howner : c.owner? b.key = some (o, b))
include hsound hs hc howner

/-- Only what is provided can fail, while there is no value in its place, and none is put there. -/
theorem slot_of_failed {e : Stop Failure} (hfailed : ((c.requireWith require b.key).eval me s).1 = .error e) :
    b.isInstance = false ∧ (s.slots.slot (o.place b)).value? = none ∧
      ((c.requireWith require b.key).eval me s).2.slots.slot (o.place b) = s.slots.slot (o.place b) := by
  obtain ⟨hreaches, hlookup⟩ := Container.owner?_spec howner
  have ho : s.HasBuilt o := hs.hasBuilt_of_reaches hc hreaches
  have hown : o.Owns (o.place b) b := ⟨rfl, hlookup⟩
  by_cases hplace : o.place b ∈ s.building me
  · obtain ⟨hprovided, hvalue⟩ := hs.provided_of_mem_building ho hown hplace
    exact ⟨hprovided, hvalue, by rw [eval_requireWith howner, eval_produce_refused hplace]; rfl⟩
  rcases hsource : b.source with v | r
  · rw [eval_requireWith howner, eval_produce_given hplace hsource] at hfailed
    cases hfailed
  rcases hs.slot_of_not_mem hplace with hslot | ⟨v, hslot⟩
  · have hopenable : Openable me s o b r := ⟨ho, hlookup, hsource, hplace, hslot⟩
    obtain ⟨ht, hrun, -⟩ := sound_carryOut hsound (hopenable.consistent hs) ((hopenable.touches hs).mem ho) b.key r
      (s.opened me o b r).2
    rw [eval_requireWith howner, eval_produce_recipe require hplace hsource hslot hs.unwaited] at hfailed ⊢
    rcases heval : (r.carryOut require o b.key (s.opened me o b r).2).eval me (s.opened me o b r).1 with ⟨e | v, t⟩ <;>
      rw [heval] at ht hrun hfailed
    · refine ⟨hopenable.isInstance, by rw [hslot]; rfl, ?_⟩
      refine (hopenable.slot_closed hs ht hrun (.error e)).trans ?_
      rw [hslot]
      split <;> rfl
    · cases hfailed
  · have hsettled := hs.settled o _ b ho hown
    rw [hslot] at hsettled
    rw [eval_requireWith howner, eval_produce_ready hplace (hsettled.isKept v rfl) hslot hs.unwaited] at hfailed
    cases hfailed

/-- What is provided and has no value yet is provided by a run of its own. -/
theorem began_of_vacant (hprovided : b.isInstance = false) (hvalue : (s.slots.slot (o.place b)).value? = none)
    (hplace : o.place b ∉ s.building me) : ∃ new,
      ((c.requireWith require b.key).eval me s).2.history = new ++ s.history ∧ .began (o.place b) ∈ new := by
  obtain ⟨hreaches, hlookup⟩ := Container.owner?_spec howner
  have ho : s.HasBuilt o := hs.hasBuilt_of_reaches hc hreaches
  obtain ⟨r, hsource⟩ : ∃ r, b.source = .recipe r := by
    rcases hsource : b.source with v | r
    · rw [BindingOf.isInstance_of_given hsource] at hprovided
      cases hprovided
    · exact ⟨r, rfl⟩
  have hslot : s.slots.slot (o.place b) = .vacant := by
    refine (hs.slot_of_not_mem hplace).resolve_right fun ⟨v, hready⟩ => ?_
    rw [hready] at hvalue
    cases hvalue
  have hopenable : Openable me s o b r := ⟨ho, hlookup, hsource, hplace, hslot⟩
  obtain ⟨ht, hrun, -⟩ := sound_carryOut hsound (hopenable.consistent hs) ((hopenable.touches hs).mem ho) b.key r
    (s.opened me o b r).2
  rw [eval_requireWith howner, eval_produce_recipe require hplace hsource hslot hs.unwaited]
  obtain ⟨later, hlater⟩ := hrun.history
  rw [history_opened hplace] at hlater
  rcases heval : (r.carryOut require o b.key (s.opened me o b r).2).eval me (s.opened me o b r).1 with ⟨e | v, t⟩ <;>
    rw [heval] at hlater
  · refine ⟨later ++ [.began (o.place b), .entered (o.place b)], ?_, by simp⟩
    simp [history_closed, ending, show t.history = _ from hlater.symm]
  · refine ⟨.answered c b.key v :: .succeeded (o.place b) v :: later ++ [.began (o.place b), .entered (o.place b)], ?_,
      by simp⟩
    simp [history_closed, ending, show t.history = _ from hlater.symm]

end Failed

/-! ### Moments of sessions -/

namespace Session

/-- The store between the commands of a session with one thread, while certain containers are held. -/
inductive Idle : Store → Prop
  | after (cmds : List Command) (hsingle : ∀ c ∈ cmds, c.isSingle = true) (held : List Container)
      (hheld : ∀ c ∈ held, (empty.execAll cmds).2.store.HasBuilt c) :
      Idle { (empty.execAll cmds).2.store with held }

/-- An action that belongs to something that a thread is asked for, with the store it is performed in. -/
inductive Occurs (s : Store) (turn : Action × Store) : Prop
  | require (c : Container) (hc : ∃ d ∈ s.held, d.Reaches c) (k : Key)
      (h : turn ∈ (c.require k).turns Task.mainThread s)
  | resolve (c : Container) (hc : ∃ d ∈ s.held, d.Reaches c) (r : Request)
      (h : turn ∈ (c.resolve r).turns Task.mainThread s)
  | use (l : Lazy) (h : turn ∈ l.use.turns Task.mainThread s)
  | finish (b : Builder) (hb : b.Proper s) (eager : Bool) (h : turn ∈ (b.finish eager).turns Task.mainThread s)

/-- A store in which a request for a key may be made: between commands, or in the middle of what was asked for. -/
inductive Moment : Store → Prop
  | idle {s : Store} (h : Idle s) : Moment s
  | busy {s t : Store} {a : Action} (h : Idle s) (hturn : Occurs s (a, t)) (ha : a.isRequest = true) : Moment t

theorem Idle.sheltered (h : Idle s) : Sheltered Task.mainThread s := by
  obtain ⟨cmds, hsingle, held, hheld⟩ := h
  exact (orderly_execAll orderly_empty hsingle).sheltered hheld

theorem Idle.building (h : Idle s) : s.building Task.mainThread = [] := by
  obtain ⟨cmds, hsingle, held, -⟩ := h
  exact (orderly_execAll orderly_empty hsingle).idle

theorem Occurs.allowed {turn : Action × Store} (h : Occurs s turn) (hs : Sheltered Task.mainThread s) :
    Allowed Task.mainThread (fun _ => False) turn.1 turn.2 := by
  cases h with
  | require c hc k h => exact (hs.heeds_require hc k).turns turn h
  | resolve c hc r h => exact (hs.heeds_resolve hc r).turns turn h
  | use l h => exact (hs.heeds_use l).turns turn h
  | finish b hb eager h => exact (hs.heeds_finish hb eager).turns turn h

theorem Moment.sheltered (h : Moment s) : Sheltered Task.mainThread s := by
  cases h with
  | idle h => exact h.sheltered
  | busy h hturn ha => exact (hturn.allowed h.sheltered).sheltered ha

theorem Moment.consistent (h : Moment s) : Consistent Task.mainThread s := h.sheltered.consistent

end Session

/-! ### Requests begin at moments -/

namespace Attempt

variable {ε ε' α β : Type} {x : Attempt ε α}

/-- The first action of an attempt is of the kind that moments are told by. -/
def Begins (me : Thread) (s : Store) (x : Attempt ε α) : Prop :=
  ∃ a rest, x.turns me s = (a, s) :: rest ∧ a.isRequest = true

theorem begins_perform {a : Action} (ha : a.isRequest = true) :
    Begins me s (Attempt.perform a : Attempt ε a.Reply) := ⟨a, [], rfl, ha⟩

namespace Begins

protected theorem bind (h : x.Begins me s) (f : α → Attempt ε β) : (x >>= f).Begins me s := by
  obtain ⟨a, rest, hturns, ha⟩ := h
  exact ⟨a, _, by rw [turns_bind, hturns, List.cons_append], ha⟩

protected theorem outcome (h : x.Begins me s) : Begins me s (Attempt.outcome x : Attempt ε' (Except ε α)) := by
  obtain ⟨a, rest, hturns, ha⟩ := h
  exact ⟨a, rest, by rw [turns_outcome, hturns], ha⟩

end Begins

end Attempt

theorem begins_requireWith (require : Lookup) (c : Container) (k : Key) : (c.requireWith require k).Begins me s := by
  unfold Container.requireWith
  split
  · next o b _ => exact ⟨.enter (o.place b), _, rfl, rfl⟩
  · exact ⟨.tell ⟨.error, _⟩, _, rfl, rfl⟩

theorem begins_get (require : Lookup) (l : Lazy) : (l.get require).Begins me s :=
  (Attempt.begins_perform (a := .remember l) rfl).bind _

/-- Every typed request begins at a moment, if requests for keys do. -/
theorem begins_resolve {require : Lookup} (hrequire : ∀ c k, (require c k).Begins me s) (c : Container)
    (r : Resolver) : (r.resolve require c).Begins me s := by
  have htyped (k : Key) : (require.typed c k).Begins me s := (hrequire c k).bind _
  induction r with
  | value k => exact (htyped k).bind _
  | deferred type => exact (Attempt.begins_perform (a := .postpone c (.ofType type)) rfl).bind _
  | config type => exact ((htyped .configs).bind _).bind _
  | optional inner ih => exact ih.outcome.bind _

/-! ### What is left behind -/

/-- What a request for a key at a container leaves behind when it ends with a result in a store. -/
structure Restores (me : Thread) (s : Store) (c : Container) (k : Key) (result : Except (Stop Failure) Value)
    (t : Store) : Prop where
  building : t.building me = s.building me
  ready : ∀ p v, s.slots.slot p = .ready v → t.slots.slot p = .ready v
  computing : ∀ p owner, s.slots.slot p = .computing owner → t.slots.slot p = .computing owner
  others : ∀ p, (∀ owner, s.slots.slot p ≠ .computing owner) →
    t.slots.slot p = .vacant ∨ ∃ v, t.slots.slot p = .ready v
  unwaited : t.slots.edges = []
  failed : ∀ e, result = .error e → ∀ o b, c.owner? k = some (o, b) →
    t.slots.slot (o.place b) = s.slots.slot (o.place b)

/-- At a store, a request for a key that a binding of a container answers for begins a run of the provider. -/
def RunsAnew (me : Thread) (s : Store) (o : Container) (b : Binding) : Prop :=
  ∀ c, s.HasBuilt c → c.owner? b.key = some (o, b) → ∃ new,
    ((c.require b.key).eval me s).2.history = new ++ s.history ∧ .began (o.place b) ∈ new

theorem restores (hs : Consistent me s) (hc : s.HasBuilt c) (k : Key) :
    Restores me s c k ((c.require k).eval me s).1 ((c.require k).eval me s).2 := by
  obtain ⟨ht, hevolves, -⟩ := sound_require me s c k hs hc
  refine ⟨hevolves.building, hevolves.ready, fun p owner hslot => ?_, fun p hp => ?_, ht.unwaited, ?_⟩
  · exact (hevolves.frozen p (hs.computing p owner hslot).2).1.trans hslot
  · rcases hslot : ((c.require k).eval me s).2.slots.slot p with _ | owner | v
    · exact Or.inl rfl
    · have hmem : p ∈ s.building me := hevolves.building ▸ (ht.computing p owner hslot).2
      exact absurd ((hevolves.frozen p hmem).1.symm.trans hslot) (hp owner)
    · exact Or.inr ⟨v, rfl⟩
  · intro e hfailed o b howner
    obtain rfl := Container.key_of_owner? howner
    exact (slot_of_failed (sound_requireWithin me c.weight) hs hc howner hfailed).2.2

theorem runsAnew (hs : Consistent me s) (hprovided : b.isInstance = false)
    (hvalue : (s.slots.slot (o.place b)).value? = none) (hplace : o.place b ∉ s.building me) : RunsAnew me s o b :=
  fun c hc howner => began_of_vacant (sound_requireWithin me c.weight) hs hc howner hprovided hvalue hplace

/-- Whenever a request for a key may be made, it restores what it found; and once it has failed, the provider of the key
runs anew for a later one, as long as the place is as it was left and the key is not under construction. -/
theorem Session.restores_of_moment (h : Moment s) (hc : s.HasBuilt c) (k : Key) :
    Restores Task.mainThread s c k ((c.require k).eval Task.mainThread s).1 ((c.require k).eval Task.mainThread s).2 ∧
      ∀ e, ((c.require k).eval Task.mainThread s).1 = .error e → ∀ o b, c.owner? k = some (o, b) →
        ∀ u, Moment u → o.place b ∉ u.building Task.mainThread →
          u.slots.slot (o.place b) = ((c.require k).eval Task.mainThread s).2.slots.slot (o.place b) →
            RunsAnew Task.mainThread u o b := by
  refine ⟨restores h.consistent hc k, fun e hfailed o b howner u hu hplace hslot => ?_⟩
  obtain rfl := Container.key_of_owner? howner
  obtain ⟨hprovided, hvalue, hleft⟩ :=
    slot_of_failed (sound_requireWithin _ c.weight) h.consistent hc howner hfailed
  exact runsAnew hu.consistent hprovided (by rw [hslot]; exact (congrArg Slot.value? hleft).trans hvalue) hplace

namespace Ouroboros

theorem idle_hatched : Session.Idle hatched := .after hatching (by decide) [nest] (by simpa using hasBuilt_nest)

end Ouroboros

open Ouroboros in
/-- While the snake is under construction, a request for it fails and changes nothing; when it is not, one runs anew. -/
theorem Session.restores_biting : ∃ s, Moment s ∧ s.building Task.mainThread = [⟨0, .ofType snake⟩] ∧
    ((nest.require (.ofType snake)).eval Task.mainThread s).1 = .error (.failed (.because (.cyclic (.ofType snake)))) ∧
    Restores Task.mainThread s nest (.ofType snake) ((nest.require (.ofType snake)).eval Task.mainThread s).1
      ((nest.require (.ofType snake)).eval Task.mainThread s).2 ∧
    RunsAnew Task.mainThread hatched nest (snakeDraft.realize 0) := by
  -- the seventh action of a request for the snake goes into the construction once more
  have hturn := List.mem_of_getElem? (rfl :
    ((nest.require (.ofType snake)).turns Task.mainThread hatched)[6]? = some (.enter _, _))
  have hmoment := Moment.busy idle_hatched (.require nest ⟨nest, List.mem_cons_self, .refl nest⟩ _ hturn) rfl
  have h := restores_of_moment hmoment (c := nest) (List.mem_of_getLast? rfl) (.ofType snake)
  exact ⟨_, hmoment, rfl, rfl, h.1,
    h.2 _ rfl nest _ rfl hatched (.idle idle_hatched) List.not_mem_nil rfl⟩

end Injection
