import Injection.Proofs.Interleaving
import Injection.Proofs.Ownership
import Injection.Proofs.Refusal
import Injection.Proofs.Supply

/-!
Threads that come upon each other without being refused. What providers need at once, if they ask for nothing but what
they declare, is beneath what they construct, and since linking found no circle, being beneath is an order of the places.
So such threads only go down, however many of them ask the containers at once, and none of them is refused.
-/

namespace Injection

open Attempt

/-! ### The order of needs -/

/-- The binding of the one place is needed at once by that of the other, by itself or through more bindings. -/
def Container.Beneath (cs : List Container) (p q : Address) : Prop :=
  ∃ c ∈ cs, ∃ d ∈ cs, c.id = q.container ∧ d.id = p.container ∧ Relation.TransGen Container.Needs (c, q.key) (d, p.key)

namespace Builds

variable {s : Store} {cs : List Container}

theorem isStrictOrder_beneath (h : Builds s cs) : IsStrictOrder Address (Container.Beneath cs) where
  irrefl p := by
    rintro ⟨c, hc, d, hd, hcid, hdid, hpath⟩
    obtain rfl := h.family.unique c d hc hd (hcid.trans hdid.symm)
    exact (h.rooted hc).not_circular hpath
  trans p q r := by
    rintro ⟨c, hc, d, hd, hcid, hdid, hpath⟩ ⟨c', hc', d', hd', hcid', hdid', hpath'⟩
    obtain rfl := h.family.unique c d' hc hd' (hcid.trans hdid'.symm)
    exact ⟨c', hc', d, hd, hcid', hdid, hpath'.trans hpath⟩

end Builds

/-! ### Requests that go down -/

section

variable {below : Address → Address → Prop} {scope : List Hold → Prop} {require : Lookup} {o : Container} {b : Binding}

theorem bracketed_plain {r : Resolver} (hplain : r.isPlain = true)
    (h : r.dependency.isLazy = false → Bracketed below scope (require o r.dependency.key)) :
    Bracketed below scope (r.resolve require o) := by
  induction r with
  | value k => exact (bracketed_typed (h rfl)).bind fun _ => .pure _
  | deferred type => exact (bracketed_perform rfl).bind fun _ => .pure _
  | config type => cases hplain
  | optional inner ih => exact bracketed_optional (ih hplain h)

variable (h : ∀ d ∈ b.dependencies, d.isLazy = false → Bracketed below scope (require o d.key))
include h

theorem bracketed_declared {step : Step} (hstep : step.Declared b.dependencies) (requester : Option Key) (run : Nat)
    (p : Progress) : Bracketed below scope (step.perform require ⟨o, requester⟩ run p) := by
  rcases hstep.cases with rfl | ⟨gate, count, rfl⟩ | ⟨type, tag, rfl⟩ | ⟨r, catches, rfl, hplain, hdeclared⟩
  · exact .pure p
  · exact (bracketed_perform rfl).bind fun _ => (bracketed_perform rfl).bind fun _ => .pure p
  · exact bracketed_addConfig p type tag
  · exact bracketed_pursue (bracketed_plain hplain (h r.dependency hdeclared)) p catches

/-- A faithful provider stays within the scope if its needs do. -/
theorem bracketed_faithful (hfaithful : b.Faithful) : Bracketed below scope (o.construct require b) := by
  refine bracketed_construct ?_ ?_
  · intro r hsource step hstep run p
    exact bracketed_declared h (hfaithful.steps r hsource step hstep) _ run p
  · intro r hsource other hother
    exact h _ (hfaithful.handsOn r hsource other hother) rfl

end

namespace Container

/-- Whatever was taken is above the place that a request for the key goes to. -/
def IsUnder (cs : List Container) (c : Container) (k : Key) (held : List Hold) : Prop :=
  ∀ o b, c.owner? k = some (o, b) → ∀ hold ∈ held, Beneath cs (o.place b) hold.1

/-- Whatever was taken is the place or above it. -/
def IsWithin (cs : List Container) (place : Address) (held : List Hold) : Prop :=
  ∀ hold ∈ held, hold.1 = place ∨ Beneath cs place hold.1

variable {s : Store} {cs : List Container} {c o : Container} {b : Binding}

/-- What a binding needs at once is under all that is within its place. -/
theorem IsWithin.isUnder (h : Builds s cs) (ho : o ∈ cs) (hlookup : o.registry.lookup b.key = some b) {d : Dependency}
    (hd : d ∈ b.dependencies) (hlazy : d.isLazy = false) {held : List Hold} (hheld : IsWithin cs (o.place b) held) :
    IsUnder cs o d.key held := by
  intro a b' howner hold hhold
  have ha : a ∈ cs := h.family.of_reaches ho (owner?_spec howner).1
  have hneeds : Needs (o, b.key) (a, b'.key) :=
    ⟨b, b', hlookup, ⟨d, hd, (key_of_owner? howner).symm, hlazy⟩, key_of_owner? howner ▸ howner⟩
  have hbeneath : Beneath cs (a.place b') (o.place b) := ⟨o, ho, a, ha, rfl, rfl, .single hneeds⟩
  rcases hheld hold hhold with heq | habove
  · exact heq ▸ hbeneath
  · exact h.isStrictOrder_beneath.trans _ _ _ hbeneath habove

/-- Requests at containers with faithful providers only go down, by induction on the depth that constructions may nest
to. -/
theorem bracketed_requireWithin_faithful (h : Builds s cs) (depth : Nat) (hc : c ∈ cs) (hfaithful : c.Faithful)
    (k : Key) : Bracketed (Beneath cs) (IsUnder cs c k) (requireWithin depth c k) := by
  induction depth generalizing c k with
  | zero => exact .throw _
  | succ depth ih =>
      refine bracketed_requireWith fun o b howner => ?_
      obtain ⟨hreaches, hlookup⟩ := owner?_spec howner
      have ho : o ∈ cs := h.family.of_reaches hc hreaches
      have hb : b ∈ o.registry.bindings := List.mem_of_find?_eq_some hlookup
      obtain rfl := key_of_owner? howner
      have hconstruct : Bracketed (Beneath cs) (IsWithin cs (o.place b)) (o.construct (requireWithin depth) b) := by
        refine bracketed_faithful (fun d hd hlazy => ?_) (hfaithful o hreaches b hb)
        exact (ih ho (hfaithful.of_reaches hreaches) d.key).weaken fun held => IsWithin.isUnder h ho hlookup hd hlazy
      refine bracketed_produce (bracketed_obtain hconstruct ?_ ?_) (hconstruct.weaken ?_)
      · intro held hunder
        exact hunder o b howner
      · intro held hunder
        exact List.forall_mem_cons.2 ⟨.inl rfl, fun hold hhold => .inr (hunder o b howner hold hhold)⟩
      · intro held hunder hold hhold
        exact .inr (hunder o b howner hold hhold)

end Container

/-- Asks for keys at containers one after the other, whatever comes of each. -/
def requireEach : List (Container × Key) → Attempt Failure Unit
  | [] => pure ()
  | (c, k) :: asks => do
    let _ ← (outcome (c.require k) : Attempt Failure (Except Failure Value))
    requireEach asks

theorem bracketed_requireEach {s : Store} {cs : List Container} (h : Builds s cs) {asks : List (Container × Key)}
    (hasks : ∀ ask ∈ asks, ask.1 ∈ cs ∧ ask.1.Faithful) :
    Bracketed (Container.Beneath cs) (· = []) (requireEach asks) := by
  induction asks with
  | nil => exact .pure _
  | cons ask asks ih =>
      obtain ⟨⟨hc, hfaithful⟩, hasks⟩ := List.forall_mem_cons.1 hasks
      refine Bracketed.bind (.outcome ?_) fun _ => ih hasks
      refine (Container.bracketed_requireWithin_faithful h _ hc hfaithful ask.2).weaken fun held hheld o b _ => ?_
      rw [hheld]
      exact fun hold hhold => nomatch hhold

/-! ### Teams that are not refused -/

/-- No thread is about to be told that waiting would never end. -/
def Team.Unrefused {α : Type} (s : Team α) : Prop :=
  ∀ m place next, s.threads m = .act (.acquire place) next → (s.store.slots.acquire m place).2 ≠ some .refused

/-- Threads that ask for keys at containers, each for some of them one after the other. -/
def Team.asking (store : Store) (asks : Thread → List (Container × Key)) : Team (Except (Stop Failure) Unit) :=
  ⟨store, fun t => (requireEach (asks t)).run⟩

theorem Follow.unrefused {α : Type} {below : Address → Address → Prop} [IsStrictOrder Address below] {s : Team α}
    {c : Crew} (h : Follow below s c) (hlowering : Crew.Lowering below c) : s.Unrefused := by
  intro m place next hp hrefused
  obtain ⟨turns, v, rest, held, hdescending, hslots, -, top, rfl, looking, -⟩ := h.exists_looking hp
  have hlowering := hlowering.after turns hdescending
  rw [← h.slots, ← hslots] at hrefused
  obtain ⟨owner, hslot, hnone⟩ := Crew.startWaiting_of_acquire hrefused
  exact hlowering.nested.startWaiting_isSome hlowering.steady hlowering.awaited top looking hslot hnone

/-- Threads that ask faithful containers for keys are never refused, and they go to the places as a crew does that only
goes down. -/
theorem Team.unrefused_asking {s : Store} {cs : List Container} (h : Builds s cs)
    {asks : Thread → List (Container × Key)} (hasks : ∀ t, ∀ ask ∈ asks t, ask.1 ∈ cs ∧ ask.1.Faithful) {store : Store}
    (hslots : store.slots = .empty) (order : List Thread) :
    ((asking store asks).after order).Unrefused ∧
      ∃ moves, Crew.Descending (Container.Beneath cs) .empty moves ∧
        (Crew.empty.after moves).slots = ((asking store asks).after order).store.slots := by
  have := h.isStrictOrder_beneath
  have hfollows (t : Thread) : (requireEach (asks t)).run.Follows (Container.Beneath cs) [] :=
    (bracketed_requireEach h (hasks t)).follows rfl
  obtain ⟨moves, hdescending, hfollow⟩ :=
    (Follow.of_follows (c := .empty) hfollows hslots.symm fun _ => rfl).exists_after order
  exact ⟨hfollow.unrefused (Crew.lowering_empty.after moves hdescending), moves, hdescending, hfollow.slots⟩

namespace Crew

/-- In every order of turns a thread is refused only where waiting is hopeless; and if threads only go to places below
all those that they are computing, no call comes back refused. That is how threads go whose providers ask for nothing but
what they declare, in containers that linked. -/
theorem hopeless_of_refused :
    (∀ turns m v rest, (empty.after turns).visits m = v :: rest → v.stage.isLooking = true →
      ((empty.after turns).slots.acquire m v.place).2 = some .refused → Hopeless (empty.after turns) m v.place) ∧
    (∀ (below : Address → Address → Prop) [IsStrictOrder Address below] (turns : List (Thread × Move)),
      Descending below empty turns → ∀ call place, .answered call place .refused ∉ (empty.after turns).deeds) ∧
    ∀ (s : Store) (cs : List Container), Builds s cs → IsStrictOrder Address (Container.Beneath cs) ∧
      ∀ asks : Thread → List (Container × Key), (∀ t, ∀ ask ∈ asks t, ask.1 ∈ cs ∧ ask.1.Faithful) →
        ∀ (store : Store) (order : List Thread), store.slots = .empty →
          let team := (Team.asking store asks).after order
          team.Unrefused ∧
            ∃ moves, Descending (Container.Beneath cs) empty moves ∧ (empty.after moves).slots = team.store.slots := by
  refine ⟨?hopeless, ?lowering, ?faithful⟩
  case hopeless => exact fun turns m v rest top looking hrefused => hopeless_of_acquire turns top looking hrefused
  case lowering => exact fun below _ turns hdescending => (lowering_empty.after turns hdescending).unrefused
  case faithful =>
    intro s cs hbuilds
    exact ⟨hbuilds.isStrictOrder_beneath,
      fun asks hasks store order hslots => Team.unrefused_asking hbuilds hasks hslots order⟩

namespace Crossing

/-- Containers that were built earlier keep the lower places. -/
def IsEarlier (p q : Address) : Prop := p.container < q.container

instance isStrictOrder_isEarlier : IsStrictOrder Address IsEarlier where
  irrefl _ := Nat.lt_irrefl _
  trans _ _ _ := Nat.lt_trans

/-- The place of one key in a container. -/
def placeIn (container : Nat) : Address := ⟨container, .configs⟩

/-- One thread computes a value above, the other one below, and then the first one wants the value below. -/
def descent : List (Thread × Move) :=
  [(1, .call (placeIn 1)), (1, .look), (2, .call (placeIn 0)), (2, .look), (1, .call (placeIn 0)), (1, .look)]

/-- After that the second thread comes for the value above. -/
def crossing : List (Thread × Move) := descent ++ [(2, .call (placeIn 1))]

theorem descending_descent : Descending IsEarlier empty descent := by
  refine ⟨?_, ?_, ?_, ?_, ?inner, ?_, trivial⟩ <;> intro place h v hv hcomputing
  case inner =>
    have hplaces : [placeIn 0, placeIn 1] = [place, placeIn 1] := congrArg (fun s => (s.visits 1).map (·.place)) h
    obtain rfl := (List.cons.inj hplaces).1
    obtain rfl := List.mem_singleton.1 hv
    exact Nat.zero_lt_one
  -- the other turns are looks, which begin no call, or calls of a thread that computes nothing
  · nomatch hv
  · exact nomatch (show 1 = 2 from congrArg Crew.calls h)
  · nomatch hv
  · exact nomatch (show 2 = 3 from congrArg Crew.calls h)
  · exact nomatch (show 3 = 4 from congrArg Crew.calls h)

open Clockwork in
theorem builds_container : ∃ s, Builds s [container] :=
  ⟨_, .build (.start .empty) 0 ⟨"container", container.registry, [], []⟩ (by simp) rfl⟩

end Crossing

open Clockwork Crossing in
theorem hopeless_crossing : Hopeless (empty.after crossing) 2 (placeIn 1) ∧
    (∀ call place, .answered call place .refused ∉ (empty.after descent).deeds) ∧
    ∀ order, ((Team.asking .empty fun _ => [(container, .ofType app)]).after order).Unrefused := by
  obtain ⟨hopeless, lowering, faithful⟩ := hopeless_of_refused
  obtain ⟨s, hbuilds⟩ := builds_container
  refine ⟨?_, lowering IsEarlier descent descending_descent, fun order => ?_⟩
  · exact hopeless crossing 2 ⟨3, placeIn 1, .arriving⟩ [⟨1, placeIn 0, .computing⟩] rfl rfl rfl
  · have hasks : ∀ ask ∈ [(container, Key.ofType app)], ask.1 ∈ [container] ∧ ask.1.Faithful := by
      simpa using faithful_container
    exact ((faithful s [container] hbuilds).2 _ (fun _ => hasks) .empty order rfl).1

end Crew

end Injection
