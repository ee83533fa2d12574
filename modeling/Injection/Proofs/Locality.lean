import Injection.Proofs.Bookkeeping
import Injection.Proofs.Ownership

/-!
Requests for keys that other containers own. A container that is asked for a key of another one does what the owner would
do if it were asked: it comes to the same result by the same constructions, and the provider of the key is shown the
owner, not the container that was asked. What the owner does not reach is left alone on the way: the container that was
asked, its other parents, and all that was built below the owner before.
-/

namespace Injection

variable {me : Thread} {s : Store} {c o : Container} {b : Binding} {k : Key}

/-- A store in which it is noted what value a container was given for a key, if it was given one. -/
def Store.told (t : Store) (c : Container) (k : Key) : Except (Stop Failure) Value → Store
  | .ok v => t.note (.answered c k v)
  | .error _ => t

/-- A container that is asked for a key leaves it to the owner. -/
structure LeavesTo (me : Thread) (s : Store) (c o : Container) (k : Key) : Prop where
  /-- Asking the owner comes to the same. Only who was asked is noted otherwise. -/
  same : ∃ (result : Except (Stop Failure) Value) (t : Store), (c.require k).eval me s = (result, t.told c k result) ∧
    (o.require k).eval me s = (result, t.told o k result)
  /-- A provider that has to be run, and may be, is run for the owner and for the key, and its result is the result. -/
  run : ∀ b r, o.registry.lookup k = some b → b.source = .recipe r → o.place b ∉ s.building me →
    (s.slots.slot (o.place b)).value? = none →
      let started := s.opened me o b r
      let carryOut : Attempt Failure Value := r.carryOut (requireWithin c.weight) o k started.2
      ((c.require k).eval me s).1 = ((carryOut.eval me started.1).1).mapError (·.map (·.through k)) ∧
        ∀ turn ∈ carryOut.turns me started.1, turn ∈ (c.require k).turns me s
  /-- What was built, and is neither the owner nor an ancestor of it, is left alone. -/
  spared : ∀ d, s.HasBuilt d → ¬ o.Reaches d → ∀ k',
    ((c.require k).eval me s).2.slots.slot ⟨d.id, k'⟩ = s.slots.slot ⟨d.id, k'⟩ ∧
      ((c.require k).eval me s).2.chronicle ⟨d.id, k'⟩ = s.chronicle ⟨d.id, k'⟩ ∧
      ∀ turn ∈ (c.require k).turns me s, turn.1 ≠ .enter ⟨d.id, k'⟩

/-- The numbers of containers that were built and that one does not reach. -/
def Store.beyond (s : Store) (o : Container) (id : Nat) : Prop := ∃ d, s.HasBuilt d ∧ ¬ o.Reaches d ∧ d.id = id

theorem Consistent.not_beyond (hs : Consistent me s) (ho : s.HasBuilt o) {a : Container} (hreaches : o.Reaches a) :
    ¬ s.beyond o a.id := by
  rintro ⟨d, hd, hnot, hid⟩
  obtain rfl := hs.unique d a hd (hs.hasBuilt_of_reaches ho hreaches) hid
  exact hnot hreaches

/-- What a request leads to is what the owner produces, and the note of the answer. -/
theorem eval_require_eq_told {depth : Nat} (howner : c.owner? b.key = some (o, b)) :
    (c.requireWith (requireWithin depth) b.key).eval me s =
      let produced := (o.produce (requireWithin depth) b).eval me s
      (produced.1, produced.2.told c b.key produced.1) := by
  rw [eval_requireWith howner]
  rcases (o.produce (requireWithin depth) b).eval me s with ⟨e | v, t⟩ <;> rfl

namespace Sheltered

variable (hs : Sheltered me s) (halive : ∃ d ∈ s.held, d.Reaches c)
include hs halive

theorem produce_ended (howner : c.owner? b.key = some (o, b)) :
    ((o.produce (requireWithin c.weight) b).eval me s).1 ≠ .error .exhausted := by
  have hended : ((c.requireWith (requireWithin c.weight) b.key).eval me s).1 ≠ .error .exhausted :=
    (hs.heeds_require halive b.key).ended
  rwa [eval_require_eq_told howner] at hended

/-- Requests on behalf of the owner do not come to what it does not reach. -/
theorem heeds_owner (howner : c.owner? b.key = some (o, b)) :
    Heeds me (s.beyond o) s (c.require b.key) fun _ _ => True := by
  have hreaches := (Container.owner?_spec howner).1
  have hhere := hs.here halive
  have hc := hhere.near.hasBuilt
  have ho := hs.consistent.hasBuilt_of_reaches hc hreaches
  have hslack : o.slack (s.building me) < c.weight + 1 := by
    have howner : o.slack (s.building me) ≤ c.slack (s.building me) :=
      Container.slack_le_of_reaches hs.consistent.family hc hreaches
    have := Container.slack_le (s.building me) c
    omega
  refine heeds_answer (sound_requireWithin me c.weight) (heeds_requireWithin me _ c.weight) ⟨hs, ⟨ho, ?_, ?_, ?_⟩, ?_⟩
    hc howner
  · rintro _ ⟨⟩
    exact hslack
  · exact fun a ha => hs.consistent.not_beyond ho ha
  · rintro _ ⟨d, hd, -, rfl⟩
    exact hs.consistent.numbered d hd
  · exact (hhere.of_reaches hreaches).alive

theorem leavesTo (heffective : c.effective? k = some o) : LeavesTo me s c o k := by
  have hc := (hs.here halive).near.hasBuilt
  have hrooted := hs.consistent.rooted hc
  obtain ⟨b, hlookup, howner, -⟩ := hrooted.owner?_of_effective? heffective
  obtain rfl := Container.key_of_owner? howner
  have hreaches := (Container.owner?_spec howner).1
  have ho := hs.consistent.hasBuilt_of_reaches hc hreaches
  have howner' : o.owner? b.key = some (o, b) := (hs.consistent.linked o ho).owner?_own hlookup
  have halive' : ∃ d ∈ s.held, d.Reaches o := halive.imp fun _ => And.imp_right (·.trans hreaches)
  constructor
  case same =>
    have hproduce :
        (o.produce (requireWithin c.weight) b).eval me s = (o.produce (requireWithin o.weight) b).eval me s :=
      eval_produce_eq (hs.produce_ended halive howner) (hs.produce_ended halive' howner')
    refine ⟨_, _, eval_require_eq_told howner, ?_⟩
    rw [hproduce]
    exact eval_require_eq_told howner'
  case run =>
    intro b' r hlookup' hsource hplace hvalue
    obtain rfl := Option.some.inj (hlookup.symm.trans hlookup')
    have hslot : s.slots.slot (o.place b) = .vacant := by
      refine (hs.consistent.slot_of_not_mem hplace).resolve_right fun ⟨v, hready⟩ => ?_
      rw [hready] at hvalue
      cases hvalue
    refine ⟨?_, fun turn hturn => ?_⟩
    · refine (congrArg Prod.fst (eval_require_eq_told howner)).trans ?_
      dsimp only
      rw [eval_produce_recipe _ hplace hsource hslot hs.consistent.unwaited]
      rcases (r.carryOut (requireWithin c.weight) o b.key _).eval me _ with ⟨e | v, t⟩ <;> rfl
    · exact mem_turns_requireWith howner ⟨ho, hlookup, hsource, hplace, hslot⟩ hs.consistent.unwaited hturn
  case spared =>
    intro d hd hnot k'
    have hheeds := hs.heeds_owner halive howner
    have hbeyond : s.beyond o (Address.container ⟨d.id, k'⟩) := ⟨d, hd, hnot, rfl⟩
    refine ⟨(hheeds.shunned _ hbeyond).1, (hheeds.shunned _ hbeyond).2, fun turn hturn heq => ?_⟩
    exact ((hheeds.turns turn hturn).entering _ heq).1 hbeyond

end Sheltered

/-- Whenever a container may be asked for a key in sight, it leaves it to the container whose binding is in effect. -/
theorem Session.leavesTo_of_moment (h : Moment s) (halive : ∃ d ∈ s.held, d.Reaches c)
    (heffective : c.effective? k = some o) : LeavesTo Task.mainThread s c o k :=
  h.sheltered.leavesTo halive heffective

namespace Spring

def water : TypeInfo := ⟨1, "Water", .number⟩

def bucket : TypeInfo := ⟨2, "Bucket", .number⟩

/-- Water that comes in a bucket if there is one, and is kept. -/
def waterDraft : Draft :=
  (BindingOf.provider ⟨water, "", [.ask (.resolve (.optional (.value (.ofType bucket)))) none false], none⟩).keeping

def bucketDraft : Draft := (BindingOf.provider ⟨bucket, "", [], none⟩).keeping

/-- The run that builds a spring, and a village with a bucket below it. -/
def settling : List Command :=
  [.newBuilder "b" none, .add "b" waterDraft .given, .build "b" "spring" false, .child "spring" "c",
    .add "c" bucketDraft .given, .build "c" "village" false]

def spring : Container :=
  ⟨0, "container", ⟨[waterDraft.realize 0]⟩, [], Graph.assemble ⟨[waterDraft.realize 0]⟩ []⟩

def village : Container :=
  let registry : Registry := ⟨[bucketDraft.realize 0]⟩
  ⟨1, "container", registry, [spring], Graph.assemble registry (Graph.inherited registry [spring])⟩

def settled : Store := { (Session.empty.execAll settling).2.store with held := [village] }

theorem hasBuilt_village : (Session.empty.execAll settling).2.store.HasBuilt village :=
  List.mem_of_getElem? (rfl : (Session.empty.execAll settling).2.store.history[0]? = some (.built village))

theorem idle_settled : Session.Idle settled :=
  .after settling (by decide) [village] (by simpa using hasBuilt_village)

end Spring

open Spring in
/-- The village has a bucket, but the spring gives its water without. -/
theorem Session.leavesTo_spring : village.effective? (.ofType water) = some spring ∧
    LeavesTo Task.mainThread settled village spring (.ofType water) ∧
    (∃ v, ((village.require (.ofType water)).eval Task.mainThread settled).1 = .ok v) ∧
    ((village.require (.ofType water)).eval Task.mainThread settled).2.slots.slot ⟨1, .ofType bucket⟩ = .vacant := by
  have hleaves := leavesTo_of_moment (.idle idle_settled) ⟨village, List.mem_cons_self, .refl village⟩
    (rfl : village.effective? (.ofType water) = some spring)
  have hnot : ¬ spring.Reaches village := fun hreaches => absurd hreaches.sizeOf_le (by decide)
  exact ⟨rfl, hleaves, ⟨_, rfl⟩, (hleaves.spared village hasBuilt_village hnot (.ofType bucket)).1⟩

end Injection
