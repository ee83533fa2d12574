import Injection.Proofs.Bookkeeping
import Injection.Proofs.Calm
import Injection.Proofs.ConstructionOrder
import Injection.Proofs.Memoization

/-!
Eager building is all or the first failure. A container that has just been linked has nothing under construction, so
whatever else is, no request for one of its own keys is refused; it fails through the provider of the key or not at all.
Eager building requires the own scoped keys one after the other, tells of it, and stops at the first that fails.
-/

namespace Injection

/-! ### What is told does not matter -/

/-- The store in which other events have been told. -/
def Store.telling (s : Store) (es : List Event) : Store := { s with events := es }

/-- No action depends on what was told. -/
theorem Action.performAlone_telling (me : Thread) (a : Action) (s : Store) (es : List Event) :
    ∃ es', a.performAlone me (s.telling es) = ((a.performAlone me s).1, (a.performAlone me s).2.telling es') := by
  cases a with
  | tell e => exact ⟨e :: es, rfl⟩
  | enter place =>
      refine ⟨es, ?_⟩
      by_cases hplace : place ∈ s.building me <;>
        simp [performAlone, perform, Store.enter, Store.telling, hplace, Store.note]
  | acquire place =>
      refine ⟨es, ?_⟩
      simp only [performAlone, perform, Store.telling]
      rcases s.slots.acquire me place with ⟨slots, _ | grant⟩ <;> rfl
  | remember l =>
      refine ⟨es, ?_⟩
      simp only [performAlone, perform, Store.remember, Store.telling]
      rcases s.cells l.id with _ | ⟨container, key, _ | v⟩ <;> rfl
  | reclaim l =>
      refine ⟨es, ?_⟩
      simp only [performAlone, perform, Store.reclaim, Store.telling, Store.isAlive]
      rcases s.cells l.id with _ | cell
      · rfl
      · by_cases halive : (Container.lineage s.held).any (·.id == cell.container.id) <;> simp [halive, Store.hold]
  | keep l v =>
      refine ⟨es, ?_⟩
      simp only [performAlone, perform, Store.keep, Store.telling]
      rcases s.cells l.id with _ | cell <;> rfl
  | await gate count =>
      refine ⟨es, ?_⟩
      by_cases hwaits : s.gates gate < count <;> simp [performAlone, perform, Store.telling, hwaits]
  | _ => exact ⟨es, rfl⟩

theorem Process.alone_telling {α : Type} (me : Thread) (p : Process α) (s : Store) (es : List Event) :
    ∃ es', p.alone me (s.telling es) = ((p.alone me s).1, (p.alone me s).2.telling es') := by
  induction p generalizing s es with
  | done a => exact ⟨es, rfl⟩
  | act a next ih =>
      obtain ⟨es', hperform⟩ := a.performAlone_telling me s es
      simp only [alone, hperform]
      exact ih _ _ es'

theorem Attempt.eval_telling {ε α : Type} (x : Attempt ε α) (me : Thread) (s : Store) (es : List Event) :
    ∃ es', x.eval me (s.telling es) = ((x.eval me s).1, (x.eval me s).2.telling es') :=
  x.run.alone_telling me s es

/-! ### Required one after the other -/

/-- Requires keys one after the other, and does nothing else. -/
def Container.requireEach (c : Container) : List Key → Attempt Failure Unit
  | [] => pure ()
  | k :: ks => do
    let _ ← c.require k
    c.requireEach ks

section Each

variable {me : Thread} {s t : Store} {c : Container}

theorem eval_requireEach_cons (k : Key) (ks : List Key) :
    (c.requireEach (k :: ks)).eval me s =
      match (c.require k).eval me s with
      | (.ok _, t) => (c.requireEach ks).eval me t
      | (.error e, t) => (.error e, t) := by
  rw [Container.requireEach, Attempt.eval_bind]
  rcases (c.require k).eval me s with ⟨_ | _, _⟩ <;> rfl

/-- Where it stops short, there is a first key that is not answered. -/
theorem exists_of_requireEach_eq_error {ks : List Key} {e : Stop Failure}
    (h : (c.requireEach ks).eval me s = (.error e, t)) : ∃ before k after u, ks = before ++ k :: after ∧
      (c.requireEach before).eval me s = (.ok (), u) ∧ (c.require k).eval me u = (.error e, t) := by
  induction ks generalizing s with
  | nil => cases h
  | cons k ks ih =>
      rw [eval_requireEach_cons] at h
      rcases heval : (c.require k).eval me s with ⟨e' | v, u⟩ <;> rw [heval] at h
      · cases h
        exact ⟨[], k, ks, s, rfl, rfl, heval⟩
      · obtain ⟨before, k', after, u', rfl, hbefore, hlast⟩ := ih h
        refine ⟨k :: before, k', after, u', rfl, ?_, hlast⟩
        rw [eval_requireEach_cons, heval]
        exact hbefore

/-- Where it comes to its end, all keys are answered. -/
theorem Here.required {ks : List Key} (h : Here me none (fun _ => False) 0 s c)
    (heval : (c.requireEach ks).eval me s = (.ok (), t)) :
    Here me none (fun _ => False) 0 t c ∧ Evolves me s t ∧ ∀ k ∈ ks, ∃ v, .answered c k v ∈ t.history := by
  induction ks generalizing s with
  | nil =>
      cases heval
      exact ⟨h, .refl me _, nofun⟩
  | cons k ks ih =>
      have hsound := sound_require me s c k h.sheltered.consistent h.near.hasBuilt
      have hheld := (heeds_require me (fun _ => False) s c k h).held
      obtain ⟨hconsistent, hevolves, hresult⟩ := hsound
      rw [eval_requireEach_cons] at heval
      rcases hrequire : (c.require k).eval me s with ⟨e | v, u⟩ <;>
        rw [hrequire] at heval hconsistent hevolves hresult hheld
      · cases heval
      · have hnext := h.mono (h.sheltered.mono hconsistent hevolves hheld) hevolves hheld
        obtain ⟨hhere, hrest, hanswered⟩ := ih hnext heval
        obtain ⟨o, b, rfl, hreturns⟩ := (hresult v rfl).returns
        exact ⟨hhere, hevolves.trans hrest, List.forall_mem_cons.2 ⟨⟨v, hrest.mem hreturns.told⟩, hanswered⟩⟩

/-- Constructing keys is requiring them and telling of it. -/
theorem eval_constructAll (c : Container) (total done : Nat) (ks : List Key) (me : Thread) (s : Store)
    (es : List Event) : ∃ es', (constructAll Container.require c total done ks).eval me (s.telling es) =
      (((c.requireEach ks).eval me s).1.mapError (.map .ofFailure),
        ((c.requireEach ks).eval me s).2.telling es') := by
  induction ks generalizing s es done with
  | nil => exact ⟨es, rfl⟩
  | cons k ks ih =>
      obtain ⟨es', hrequire⟩ := (c.require k).eval_telling me s
        (⟨.debug, "Waiting for " ++ k.text ++ " [" ++ toString done ++ " of " ++ toString total ++ " complete]"⟩ :: es)
      rw [eval_requireEach_cons, constructAll, Attempt.eval_bind, Attempt.eval_tell]
      simp only [Store.tell, Store.telling, Attempt.eval_bind, Attempt.eval_outcome] at hrequire ⊢
      rw [hrequire]
      rcases (c.require k).eval me s with ⟨(f | message | _) | v, u⟩
      · exact ⟨_ :: es', rfl⟩
      · exact ⟨es', rfl⟩
      · exact ⟨es', rfl⟩
      · exact ih (done + 1) u es'

theorem eval_initiate {ks : List Key} (hkeys : c.eagerKeys = .ok ks) (me : Thread) (s : Store) :
    ∃ es, (c.initiate Container.require).eval me s =
      (((c.requireEach ks).eval me s).1.mapError (.map .ofFailure), ((c.requireEach ks).eval me s).2.telling es) := by
  rw [Container.initiate, hkeys]
  obtain ⟨es, hall⟩ := eval_constructAll c ks.length 0 ks me s (_ :: s.events)
  rw [Attempt.eval_bind, Attempt.eval_tell]
  simp only [Store.tell, Store.telling, Attempt.eval_bind] at hall ⊢
  rw [hall]
  rcases (c.requireEach ks).eval me s with ⟨e | v, u⟩
  · exact ⟨es, rfl⟩
  · exact ⟨_ :: es, rfl⟩

end Each

section Finish

variable {me : Thread} {s t : Store} {b : Builder} {c : Container}

theorem eval_finish_of_error {e : Stop BuildError} (hbuild : b.build.eval me s = (.error e, t)) (eager : Bool) :
    (b.finish eager).eval me s = (.error e, t) := by
  rw [Builder.finish, Builder.buildThen, Attempt.eval_bind, Attempt.eval_mapError_id, hbuild]

/-- What eager building comes to, by what requiring the keys comes to while the container is held. -/
theorem eval_finish_of_ok {ks : List Key} (hbuild : b.build.eval me s = (.ok c, t)) (hkeys : c.eagerKeys = .ok ks) :
    ∃ es, (b.finish true).eval me s =
      (((c.requireEach ks).eval me (t.hold c)).1.mapError (.map .ofFailure) |>.map fun _ => c,
        (((c.requireEach ks).eval me (t.hold c)).2.letGo c).telling es) := by
  obtain ⟨es, hinitiate⟩ := eval_initiate hkeys me (t.hold c)
  refine ⟨es, ?_⟩
  rw [Builder.finish, Builder.buildThen, Attempt.eval_bind, Attempt.eval_mapError_id, hbuild]
  simp only [Attempt.eval_bind, Attempt.eval_hold, Attempt.eval_closing, if_true, Attempt.eval_mapError_id, hinitiate]
  rcases (c.requireEach ks).eval me (t.hold c) with ⟨e | v, u⟩ <;> rfl

end Finish

/-! ### A container that has just been linked -/

/-- A container that is asked for its keys for the first time: nothing of it is under construction. -/
structure Fresh (me : Thread) (s : Store) (c : Container) : Prop where
  here : Here me none (fun _ => False) 0 s c
  idle : ∀ p ∈ s.building me, p.container ≠ c.id

section Fresh

variable {me : Thread} {s t : Store} {c : Container} {b : Binding} {ks : List Key}

theorem Fresh.place (h : Fresh me s c) (b : Binding) : c.place b ∉ s.building me :=
  fun hmem => h.idle _ hmem rfl

theorem Fresh.required (h : Fresh me s c) (heval : (c.requireEach ks).eval me s = (.ok (), t)) :
    Fresh me t c ∧ ∀ k ∈ ks, ∃ v, .answered c k v ∈ t.history := by
  obtain ⟨hhere, hevolves, hanswered⟩ := h.here.required heval
  exact ⟨⟨hhere, hevolves.building ▸ h.idle⟩, hanswered⟩

/-- Whatever is under construction when a container is built, nothing of it is. -/
theorem Sheltered.fresh (hs : Sheltered me s) {b : Builder} (hb : b.Proper s) (hbuild : b.build.eval me s = (.ok c, t)) :
    Fresh me (t.hold c) c := by
  have hheeds : Heeds me (fun _ => False) s b.build _ := heeds_build hs b
  obtain ⟨-, -, hheld, -, hnew⟩ := hheeds
  obtain ⟨hconsistent, hevolves, hbuilt⟩ := sound_build hs.consistent hb
  rw [hbuild] at hheld hnew hconsistent hevolves hbuilt
  refine ⟨Here.hold (hs.mono hconsistent hevolves hheld) (near_anywhere (hbuilt c rfl)), fun p hp heq => ?_⟩
  have hp : p ∈ s.building me := hevolves.building ▸ hp
  obtain ⟨o, _, ho, hown, -⟩ := hs.consistent.underway p hp
  have hlt := hs.consistent.numbered o ho
  have hle := (hnew c rfl).1
  rw [hown.1, heq] at hlt
  omega

theorem Fresh.settled (h : Fresh me s c) (hb : b ∈ c.registry.bindings) :
    Chronicled (c.place b) b (s.slots.slot (c.place b)).value? (s.chronicle (c.place b)) :=
  h.here.sheltered.consistent.settled c _ b h.here.near.hasBuilt
    ⟨rfl, Registry.lookup_of_mem (h.here.sheltered.consistent.distinct c h.here.near.hasBuilt) hb⟩

/-- A provider that has succeeded, where the value is kept, has succeeded once. -/
theorem countP_isSuccess_eq_one {history : List Happening} (hkept : KeptOnce history c b)
    (hmem : ∃ v, .succeeded (c.place b) v ∈ history) : history.countP (·.isSuccess (c.place b)) = 1 := by
  have hnone {past : List Happening} (hpast : ∀ w, .succeeded (c.place b) w ∉ past) :
      past.countP (·.isSuccess (c.place b)) = 0 := by
    refine List.countP_eq_zero.2 fun e he hsuccess => ?_
    obtain ⟨w, hw⟩ := any_isSuccess_iff.1 (List.any_eq_true.2 ⟨e, he, hsuccess⟩)
    exact hpast w hw
  obtain ⟨v, hv⟩ := hmem
  obtain ⟨later, earlier, hhistory⟩ := List.append_of_mem hv
  -- a success before this one would have had this one after it
  have hearlier (w : Value) : .succeeded (c.place b) w ∉ earlier := by
    intro hw
    obtain ⟨between, before, rfl⟩ := List.append_of_mem hw
    refine (hkept.last (later ++ .succeeded (c.place b) v :: between) w before ?_).2 v (by simp)
    rw [hhistory, List.append_assoc, List.cons_append]
  have hlater := hkept.last later v earlier hhistory
  rw [hhistory, List.countP_append, hnone hlater.2, List.countP_cons, hnone hearlier]
  simp [Happening.isSuccess]

/-- What an own key was answered with is vouched for. -/
theorem Fresh.vouches (h : Fresh me s c) (hb : b ∈ c.registry.bindings) {v : Value}
    (hanswered : .answered c b.key v ∈ s.history) : s.Vouches c b v := by
  have hs := h.here.sheltered.consistent
  have hbuilt := h.here.near.hasBuilt
  exact hs.vouches ((hs.linked c hbuilt).owner?_own (Registry.lookup_of_mem (hs.distinct c hbuilt) hb)) hanswered

/-- Once all keys of bindings whose values are kept are answered, all providers of these have succeeded, each once. -/
theorem Fresh.complete (h : Fresh me s c)
    (hanswered : ∀ b ∈ c.registry.bindings, b.isKept = true → ∃ v, .answered c b.key v ∈ s.history) :
    s.constructedCount c = c.keptKeys.length ∧
      ∀ b ∈ c.registry.bindings, b.isKept = true → s.history.countP (·.isSuccess (c.place b)) = 1 := by
  constructor
  · rw [Store.constructedCount, List.countP_eq_length]
    intro k hk
    obtain ⟨b, hb, rfl⟩ := List.mem_map.1 hk
    obtain ⟨hb, hkept⟩ := List.mem_filter.1 hb
    exact Slots.isReady_iff.2 ((hanswered b hb hkept).imp fun v hv => ((h.vouches hb hv).kept hkept).1)
  · exact fun b hb hkept => countP_isSuccess_eq_one (keptOnce h.here.sheltered.consistent (h.settled hb) hkept)
      ((hanswered b hb hkept).imp fun v hv => (((h.vouches hb hv).kept hkept).2 v).2 rfl)

/-- A request for an own key can only fail through its provider: nothing is refused, and nothing is missing. -/
theorem Fresh.failed (h : Fresh me s c) (hlookup : c.registry.lookup b.key = some b) {e : Stop Failure}
    (hfailed : (c.require b.key).eval me s = (.error e, t)) : ∃ r cause, b.source = .recipe r ∧
      ((r.carryOut (requireWithin c.weight) c b.key (s.opened me c b r).2).eval me (s.opened me c b r).1).1 =
        .error cause ∧ e = cause.map (·.through b.key) := by
  have hs := h.here.sheltered.consistent
  have hc := h.here.near.hasBuilt
  have howner := (hs.linked c hc).owner?_own hlookup
  have hrequire : (c.requireWith (requireWithin c.weight) b.key).eval me s = (.error e, t) := hfailed
  obtain ⟨hprovided, hvalue, -⟩ :=
    slot_of_failed (sound_requireWithin me c.weight) hs hc howner (congrArg Prod.fst hrequire)
  rcases hsource : b.source with v | r
  · rw [BindingOf.isInstance_of_given hsource] at hprovided
    cases hprovided
  have hslot : s.slots.slot (c.place b) = .vacant := by
    refine (hs.slot_of_not_mem (h.place b)).resolve_right fun ⟨v, hready⟩ => ?_
    rw [hready] at hvalue
    cases hvalue
  rw [eval_requireWith howner, eval_produce_recipe _ (h.place b) hsource hslot hs.unwaited] at hrequire
  rcases hrun : (r.carryOut (requireWithin c.weight) c b.key (s.opened me c b r).2).eval me (s.opened me c b r).1 with
    ⟨cause | v, u⟩ <;> rw [hrun] at hrequire
  · exact ⟨r, cause, rfl, congrArg Prod.fst hrun, by cases hrequire; rfl⟩
  · cases hrequire

end Fresh

/-! ### All or the first failure -/

/-- Keys are required one after the other up to one whose provider fails, and that is required last. -/
structure FailsAt (me : Thread) (s : Store) (c : Container) (before : List Key) (product : Key) (cause : Failure)
    (u v : Store) : Prop where
  answered : (c.requireEach before).eval me s = (.ok (), u)
  failed : (c.require product).eval me u = (.error (.failed (cause.through product)), v)
  provider : ∃ b r, c.registry.lookup product = some b ∧ b.isKept = true ∧ b.source = .recipe r ∧
    let started := u.opened me c b r
    ((r.carryOut (requireWithin c.weight) c product started.2).eval me started.1).1 = .error (.failed cause)

/-- What eager building ends with, begun in a store with a container that was linked and the own scoped keys. -/
structure AllOrFirst (me : Thread) (s : Store) (c : Container) (ks : List Key)
    (result : Except (Stop BuildError) Container) (t : Store) : Prop where
  keys : ∀ k, k ∈ ks ↔ ∃ b, c.registry.lookup k = some b ∧ b.isScoped = true
  ok_iff : result = .ok c ↔ ((c.requireEach ks).eval me s).1 = .ok ()
  all : ∀ d, result = .ok d → d = c ∧ t.constructedCount c = c.keptKeys.length ∧
    ∀ b ∈ c.registry.bindings, b.isKept = true → t.history.countP (·.isSuccess (c.place b)) = 1
  /-- The last that happened besides what is told is the request that failed, and then the container is let go. -/
  first : ∀ e, result = .error e → ∃ before product after cause u v es, ks = before ++ product :: after ∧
    e = .failed (.provider product cause) ∧ FailsAt me s c before product cause u v ∧ t = (v.letGo c).telling es

theorem Container.Linked.eagerKeys {c : Container} (h : c.Linked) :
    c.graph.constructionOrder = .ok c.graph.walk.order ∧
      c.eagerKeys = .ok (c.graph.walk.order.filter c.graph.isScoped) ∧
      ∀ k, k ∈ c.graph.walk.order.filter c.graph.isScoped ↔
        ∃ b, c.registry.lookup k = some b ∧ b.isScoped = true := by
  have hall := Graph.listsAll_walk h
  refine ⟨hall.order, by rw [Container.eagerKeys, hall.order]; rfl, fun k => ?_⟩
  rw [List.mem_filter, hall.mem_iff, Registry.contains, Graph.isScoped, h.own?]
  rcases c.registry.lookup k with _ | b <;> simp

theorem Fresh.allOrFirst {me : Thread} {s t : Store} {c : Container} {ks : List Key} {es : List Event}
    {result : Except (Stop BuildError) Container} (h : Fresh me s c)
    (hkeys : ∀ k, k ∈ ks ↔ ∃ b, c.registry.lookup k = some b ∧ b.isScoped = true)
    (hresult : result = (((c.requireEach ks).eval me s).1.mapError (.map .ofFailure)).map fun _ => c)
    (hstore : t = (((c.requireEach ks).eval me s).2.letGo c).telling es)
    (hended : result ≠ .error .exhausted) (hcalm : ∀ message, result ≠ .error (.panicked message)) :
    AllOrFirst me s c ks result t := by
  rcases heval : (c.requireEach ks).eval me s with ⟨e | ⟨⟩, v⟩ <;> rw [heval] at hresult hstore <;> subst hresult hstore
  case ok =>
    obtain ⟨hfresh, hanswered⟩ := h.required heval
    have hcomplete := hfresh.complete fun b hb hkept => hanswered b.key <| (hkeys b.key).2
      ⟨b, Registry.lookup_of_mem (h.here.sheltered.consistent.distinct c h.here.near.hasBuilt) hb,
        (Bool.and_eq_true_iff.1 hkept).1⟩
    refine ⟨hkeys, by simp [heval, Except.mapError, Except.map], ?_, fun _ h => nomatch h⟩
    rintro _ ⟨⟩
    exact ⟨rfl, hcomplete⟩
  case error =>
    refine ⟨hkeys, by simp [heval, Except.mapError, Except.map], nofun, ?_⟩
    rintro _ ⟨⟩
    obtain ⟨before, product, after, u, rfl, hbefore, hlast⟩ := exists_of_requireEach_eq_error heval
    obtain ⟨b, hlookup, hscoped⟩ := (hkeys product).1 (by simp)
    obtain rfl := Registry.key_of_lookup hlookup
    obtain ⟨r, cause, hsource, hrun, rfl⟩ := (h.required hbefore).1.failed hlookup hlast
    have hkept : b.isKept = true := by
      rw [BindingOf.isKept, hscoped, BindingOf.isInstance_of_recipe hsource]
      rfl
    rcases cause with cause | message | _
    · exact ⟨before, b.key, after, cause, u, v, es, rfl, rfl,
        ⟨hbefore, hlast, b, r, hlookup, hkept, hsource, hrun⟩, rfl⟩
    · exact absurd rfl (hcalm message)
    · exact absurd rfl hended

/-- Whenever a thread may ask for something, also in the middle of constructions, it may build a container eagerly. If no
provider panics, and if linking succeeds, all own scoped keys are constructed, or the provider of the first that is not
is what the building fails for. -/
theorem Session.allOrFirst_of_moment {s : Store} (h : Moment s) {b : Builder} (hb : b.Proper s)
    (hown : ∀ binding ∈ b.registry.bindings, binding.isCalm = true)
    (hbuilt : ∀ d, s.HasBuilt d → ∀ binding ∈ d.registry.bindings, binding.isCalm = true) :
    (∀ e t, b.build.eval Task.mainThread s = (.error e, t) → (b.finish true).eval Task.mainThread s = (.error e, t)) ∧
      ∀ c t, b.build.eval Task.mainThread s = (.ok c, t) → ∃ order, c.graph.constructionOrder = .ok order ∧
        AllOrFirst Task.mainThread (t.hold c) c (order.filter c.graph.isScoped)
          ((b.finish true).eval Task.mainThread s).1 ((b.finish true).eval Task.mainThread s).2 := by
  refine ⟨fun e t hbuild => eval_finish_of_error hbuild true, fun c t hbuild => ?_⟩
  have hs := h.sheltered
  have hfresh := hs.fresh hb hbuild
  have hended := (hs.heeds_finish hb true).ended
  have hcontainer {d : Container} (hd : s.HasBuilt d) : d.Calm :=
    fun a hreaches => hbuilt a (hs.consistent.hasBuilt_of_reaches hd hreaches)
  have hcells : s.Calm := fun id cell hcell => hcontainer (hs.consistent.cells id cell hcell).2.1
  have hcalm := calm_finish ⟨hown, fun p hp => hcontainer (hb.parents p hp)⟩ true Task.mainThread s hcells
  obtain ⟨horder, hkeys, hmem⟩ :=
    (hfresh.here.sheltered.consistent.linked c hfresh.here.near.hasBuilt).eagerKeys
  obtain ⟨es, heval⟩ := eval_finish_of_ok hbuild hkeys
  exact ⟨_, horder, hfresh.allOrFirst hmem (congrArg Prod.fst heval) (congrArg Prod.snd heval) hended hcalm.unpanicked⟩

namespace Ouroboros

def egg : TypeInfo := ⟨2, "Egg", .number⟩

def mouse : TypeInfo := ⟨3, "Mouse", .number⟩

/-- The store in which the snake tries to bite. -/
def biting : Store :=
  (((nest.require (.ofType snake)).turns Session.Task.mainThread hatched)[6]?.map Prod.snd).getD .empty

theorem moment_biting : Session.Moment biting :=
  have hturn := List.mem_of_getElem? (rfl :
    ((nest.require (.ofType snake)).turns Session.Task.mainThread hatched)[6]? = some (.enter _, biting))
  .busy idle_hatched (.require nest ⟨nest, List.mem_cons_self, .refl nest⟩ _ hturn) rfl

/-- An egg, and a mouse that looks for the snake. -/
def brood : Builder where
  label := "brood"
  registry :=
    ⟨[(BindingOf.provider ⟨mouse, "", [.ask (.untyped (.ofType snake)) none false], none⟩).keeping,
      (BindingOf.provider ⟨egg, "", [.pause], none⟩).keeping]⟩
  parents := [nest]
  rejected := []

theorem proper_brood : brood.Proper biting :=
  ⟨by decide, List.forall_mem_singleton.2 (List.mem_of_getLast? rfl)⟩

theorem calm_biting : ∀ d, biting.HasBuilt d → ∀ binding ∈ d.registry.bindings, binding.isCalm = true := by
  have hhistory : biting.history =
      [.began ⟨0, .ofType snake⟩, .entered ⟨0, .ofType snake⟩, .built nest] := rfl
  intro d hd binding hbinding
  rw [Store.HasBuilt, hhistory] at hd
  obtain rfl : d = nest := by simpa using hd
  obtain rfl := List.mem_singleton.1 hbinding
  rfl

end Ouroboros

open Ouroboros in
/-- In the middle of the bite the egg is laid, but the mouse does not find the snake. -/
theorem Session.allOrFirst_brood : ∃ c t, brood.build.eval Session.Task.mainThread biting = (.ok c, t) ∧
    AllOrFirst Session.Task.mainThread (t.hold c) c [.ofType egg, .ofType mouse]
      ((brood.finish true).eval Session.Task.mainThread biting).1
      ((brood.finish true).eval Session.Task.mainThread biting).2 ∧
    ((brood.finish true).eval Session.Task.mainThread biting).1 =
      .error (.failed (.provider (.ofType mouse) (.because (.cyclic (.ofType snake))))) := by
  obtain ⟨-, hbuilt⟩ := allOrFirst_of_moment moment_biting proper_brood (by decide) calm_biting
  obtain ⟨order, horder, hall⟩ := hbuilt _ _ rfl
  obtain rfl : [.ofType egg, .ofType mouse] = order := Except.ok.inj horder
  exact ⟨_, _, rfl, hall, rfl⟩

end Injection
