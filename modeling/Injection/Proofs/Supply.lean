import Injection.Proofs.Additions
import Injection.Proofs.Lineage
import Injection.Proofs.Memoization

/-!
What is in sight can be had. If the providers of a container and of its ancestors only ask for what they declare, linking
has seen all that can go wrong: a request for a key in sight then gives a value of the key's type, in every state that a
session with one thread comes to, and nothing is refused and no provider fails on the way. Constructions cannot meet
again, because each of them needs the next at once and linking found no circle; they nest no deeper than there are places.
-/

namespace Injection

open Happening

/-! ### Providers that keep to what they declare -/

/-- A request for values by key or for handles on them, each of which may be missing. -/
def Resolver.isPlain : Resolver → Bool
  | value _ => true
  | deferred _ => true
  | config _ => false
  | optional inner => inner.isPlain

/-- A step that asks the provider's own handle for something declared, or asks for nothing. -/
def Step.Declared (dependencies : List Dependency) : Step → Prop
  | .ask (.resolve r) none _ => r.isPlain = true ∧ r.dependency ∈ dependencies
  | .pause => True
  | .meet _ _ => True
  | .addConfig _ _ => True
  | _ => False

theorem Step.Declared.cases {dependencies : List Dependency} {step : Step} (h : step.Declared dependencies) :
    step = .pause ∨ (∃ gate count, step = .meet gate count) ∨ (∃ type tag, step = .addConfig type tag) ∨
      ∃ r catches, step = .ask (.resolve r) none catches ∧ r.isPlain = true ∧ r.dependency ∈ dependencies := by
  cases step with
  | pause => exact .inl rfl
  | meet gate count => exact .inr (.inl ⟨gate, count, rfl⟩)
  | addConfig type tag => exact .inr (.inr (.inl ⟨type, tag, rfl⟩))
  | ask r path catches =>
      cases r <;> cases path <;> first | exact .inr (.inr (.inr ⟨_, catches, rfl, h⟩)) | cases h
  | _ => cases h

/-- A binding that makes values of its key's type, asks for nothing that it does not declare, and where it makes configs
has one of each type. -/
structure BindingOf.Faithful (b : Binding) : Prop where
  typed : b.Typed
  steps : ∀ r, b.source = .recipe r → ∀ step ∈ r.steps, step.Declared b.dependencies
  configs : ∀ r, b.source = .recipe r → (Steps.added r.steps).Nodup
  handsOn : ∀ r, b.source = .recipe r → ∀ other ∈ r.handsOn, .required other ∈ b.dependencies

def Container.Faithful (c : Container) : Prop := ∀ a, c.Reaches a → ∀ b ∈ a.registry.bindings, b.Faithful

theorem Container.Faithful.typed {c : Container} (h : c.Faithful) : c.Typed := fun a ha b hb => (h a ha b hb).typed

theorem Container.Faithful.of_reaches {c a : Container} (h : c.Faithful) (hreaches : c.Reaches a) : a.Faithful :=
  fun d hd => h d (hreaches.trans hd)

/-! ### Needs across containers -/

/-- An own binding of one container needs at once what an own binding of that container or of an ancestor supplies. -/
def Container.Needs (x y : Container × Key) : Prop :=
  ∃ b b', x.1.registry.lookup x.2 = some b ∧ (∃ d ∈ b.dependencies, d.key = y.2 ∧ d.isLazy = false) ∧
    x.1.owner? y.2 = some (y.1, b')

namespace Container.Rooted

variable {x y : Container × Key}

/-- A need leads to an ancestor, or is one that linking has seen. -/
theorem of_needs (h : x.1.Rooted) (hneeds : Needs x y) :
    x.1.Reaches y.1 ∧ (sizeOf y.1 < sizeOf x.1 ∨ y.1 = x.1 ∧ x.1.graph.Needs x.2 y.2) := by
  obtain ⟨c, k⟩ := x
  obtain ⟨o, k'⟩ := y
  obtain ⟨b, b', hlookup, ⟨d, hd, hkey, hlazy⟩, howner⟩ := hneeds
  obtain rfl : d.key = k' := hkey
  refine ⟨(owner?_spec howner).1, ?_⟩
  rcases h.linked.reaches_of_owner? howner with ⟨rfl, hown⟩ | ⟨p, hp, hreaches⟩
  · refine Or.inr ⟨rfl, ⟨b.key, b.dependencies, b.isScoped⟩, ?_, d, hd, rfl, hlazy, ?_, ?_⟩
    · exact h.linked.own?_of_lookup hlookup
    · exact contains_of_owner? (by rw [howner]; rfl)
    · rw [h.linked.own?_of_lookup hown]
      rfl
  · exact Or.inl (Nat.lt_of_le_of_lt hreaches.sizeOf_le (sizeOf_lt_of_mem_parents hp))

theorem of_transGen_needs (h : x.1.Rooted) (hpath : Relation.TransGen Needs x y) :
    x.1.Reaches y.1 ∧ (sizeOf y.1 < sizeOf x.1 ∨ y.1 = x.1 ∧ Relation.TransGen x.1.graph.Needs x.2 y.2) := by
  induction hpath with
  | single hneeds => exact (h.of_needs hneeds).imp_right (Or.imp_right fun ⟨heq, hneeds⟩ => ⟨heq, .single hneeds⟩)
  | tail _ hneeds ih =>
      obtain ⟨hreaches, hsmaller⟩ := ih
      obtain ⟨hreaches', hsmaller'⟩ := (h.of_reaches hreaches).of_needs hneeds
      refine ⟨hreaches.trans hreaches', ?_⟩
      rcases hsmaller with hlt | ⟨heq, hpath⟩
      · exact Or.inl (Nat.lt_of_le_of_lt hreaches'.sizeOf_le hlt)
      · rcases hsmaller' with hlt' | ⟨heq', hneeds'⟩
        · exact Or.inl (heq ▸ hlt')
        · exact Or.inr ⟨heq'.trans heq, hpath.tail (heq ▸ hneeds')⟩

/-- No own binding needs itself, across all containers. -/
theorem not_circular (h : x.1.Rooted) : ¬ Relation.TransGen Needs x x := by
  intro hpath
  rcases (h.of_transGen_needs hpath).2 with hlt | ⟨-, hpath⟩
  · exact Nat.lt_irrefl _ hlt
  · exact h.linked.not_circular x.2 hpath

end Container.Rooted

/-! ### Nothing goes wrong -/

/-- The start of a provider run for a place. -/
def Happening.isBeginning (place : Address) : Happening → Bool
  | began p => p = place
  | _ => false

/-- From one store to the other nothing was refused, and every provider run that began gave a value. -/
def Smooth (s t : Store) : Prop :=
  ∃ new, t.history = new ++ s.history ∧ (∀ p, refused p ∉ new) ∧
    ∀ p, new.countP (·.isBeginning p) = new.countP (·.isSuccess p)

theorem Smooth.refl (s : Store) : Smooth s s := ⟨[], rfl, by simp, by simp⟩

theorem Smooth.trans {s t u : Store} (h : Smooth s t) (h' : Smooth t u) : Smooth s u := by
  obtain ⟨new, hhistory, hrefused, hcount⟩ := h
  obtain ⟨new', hhistory', hrefused', hcount'⟩ := h'
  refine ⟨new' ++ new, ?_, ?_, ?_⟩
  · rw [hhistory', hhistory, List.append_assoc]
  · intro p
    simpa using ⟨hrefused' p, hrefused p⟩
  · intro p
    rw [List.countP_append, List.countP_append, hcount p, hcount' p]

theorem Smooth.of_history_eq {s t : Store} (h : t.history = s.history) : Smooth s t := ⟨[], h, by simp, by simp⟩

/-- An attempt gives a value, and nothing goes wrong on the way. -/
structure Supplies {ε α : Type} (me : Thread) (s : Store) (x : Attempt ε α) : Prop where
  result : ∃ a, (x.eval me s).1 = .ok a
  smooth : Smooth s (x.eval me s).2

namespace Supplies

variable {me : Thread} {s t : Store} {ε α β : Type} {x : Attempt ε α}

theorem of_eval {a : α} (heval : x.eval me s = (.ok a, t)) (hsmooth : Smooth s t) : Supplies me s x := by
  refine ⟨⟨a, ?_⟩, ?_⟩ <;> rw [heval]
  exact hsmooth

protected theorem pure (a : α) : Supplies me s (pure a : Attempt ε α) := of_eval rfl (.refl s)

protected theorem bind {f : α → Attempt ε β} {mid : α → Store → Prop} (h : Supplies me s x) (hx : Sound me s x mid)
    (hf : ∀ a t, Consistent me t → Evolves me s t → mid a t → Supplies me t (f a)) : Supplies me s (x >>= f) := by
  obtain ⟨hconsistent, hevolves, hresult⟩ := hx
  obtain ⟨⟨a, ha⟩, hsmooth⟩ := h
  have hbind : (x >>= f).eval me s = (f a).eval me (x.eval me s).2 := by
    rw [Attempt.eval_bind]
    rcases heval : x.eval me s with ⟨_ | b, t⟩ <;> rw [heval] at ha <;> cases ha
    rfl
  obtain ⟨⟨b, hb⟩, hsmooth'⟩ := hf a _ hconsistent hevolves (hresult a ha)
  exact of_eval (Prod.ext (by rw [hbind, hb]) (by rw [hbind])) (hsmooth.trans hsmooth')

end Supplies

section Run

variable {me : Thread} {require : Lookup} {o : Container} {b : Binding}

/-- What a provider of the binding may rely on while it is run: the values of all needs that are in sight can be had, and
where nothing is in sight a request says so. -/
structure Provided (me : Thread) (require : Lookup) (o : Container) (b : Binding) (s : Store) : Prop where
  values : ∀ t, Consistent me t → Evolves me s t → ∀ d ∈ b.dependencies, d.isLazy = false →
    o.graph.contains d.key = true → Supplies me t (require o d.key)
  missing : ∀ t k, o.graph.contains k = false →
    ((require o k).eval me t).1 = .error (.failed (.because (.missing k))) ∧
      ((require o k).eval me t).2.history = t.history

theorem Provided.mono {s t : Store} (h : Provided me require o b s) (hevolves : Evolves me s t) :
    Provided me require o b t :=
  ⟨fun u hu htu => h.values u hu (hevolves.trans htu), h.missing⟩

variable (hrequire : require.Sound me) (htyped : o.Typed)
include hrequire htyped

theorem supplies_typed {s : Store} (h : Consistent me s) (ho : s.HasBuilt o) {k : Key}
    (hvalue : Supplies me s (require o k)) : Supplies me s (require.typed o k) := by
  refine hvalue.bind (hrequire s o k h ho) fun v t _ _ hv => ?_
  rw [if_pos (hv.2 htyped)]
  exact .pure v

omit hrequire htyped in
theorem eval_typed_of_missing {s : Store} {k : Key}
    (hmissing : ((require o k).eval me s).1 = .error (.failed (.because (.missing k))) ∧
      ((require o k).eval me s).2.history = s.history) :
    ((require.typed o k).eval me s).1 = .error (.failed (.because (.missing k))) ∧
      ((require.typed o k).eval me s).2.history = s.history := by
  rcases heval : (require o k).eval me s with ⟨e | v, t⟩ <;> rw [heval] at hmissing
  · rw [Lookup.typed, Attempt.eval_bind, heval]
    exact hmissing
  · cases hmissing.1

/-- A plain request for something that `o` sees, or that may be missing, is answered; any other is told that nothing is
bound. -/
theorem supplies_resolve (r : Resolver) (hplain : r.isPlain = true) {s : Store} (h : Consistent me s) (ho : s.HasBuilt o)
    (hvalue : r.dependency.isLazy = false → o.graph.contains r.dependency.key = true →
      Supplies me s (require o r.dependency.key))
    (hmissing : ∀ k, o.graph.contains k = false →
      ((require o k).eval me s).1 = .error (.failed (.because (.missing k))) ∧
        ((require o k).eval me s).2.history = s.history) :
    Supplies me s (r.resolve require o) ∨
      o.graph.contains r.dependency.key = false ∧ r.dependency.isOptional = false ∧
        ((r.resolve require o).eval me s).1 = .error (.failed (.because (.missing r.dependency.key))) ∧
          ((r.resolve require o).eval me s).2.history = s.history := by
  induction r with
  | value k =>
      by_cases hsight : o.graph.contains k = true
      · left
        exact (supplies_typed hrequire htyped h ho (hvalue rfl hsight)).bind (sound_typed hrequire h ho k)
          fun v t _ _ _ => .pure _
      · have hnone : o.graph.contains k = false := by simpa using hsight
        refine Or.inr ⟨hnone, rfl, ?_⟩
        have htyped := eval_typed_of_missing (hmissing k hnone)
        rcases heval : (require.typed o k).eval me s with ⟨e | v, t⟩ <;> rw [heval] at htyped
        · obtain ⟨herror, hhistory⟩ := htyped
          cases herror
          rw [Resolver.resolve, Attempt.eval_bind, heval]
          exact ⟨rfl, hhistory⟩
        · cases htyped.1
  | deferred type =>
      left
      exact .of_eval (t := (s.postpone o (.ofType type)).1) (by
        rw [Resolver.resolve, Attempt.eval_bind, Attempt.eval_postpone]
        rfl) (.of_history_eq rfl)
  | config type => cases hplain
  | optional inner ih =>
      left
      rcases heval : (inner.resolve require o).eval me s with ⟨e | r, t⟩
      · rcases ih hplain hvalue with ⟨⟨r, hr⟩, -⟩ | ⟨-, -, herror, hhistory⟩
        · rw [heval] at hr
          cases hr
        · rw [heval] at herror hhistory
          cases herror
          refine .of_eval (a := .absent) (t := t) ?_ (.of_history_eq hhistory)
          rw [Resolver.resolve, Attempt.eval_bind, Attempt.eval_outcome, heval]
          simp
      · rcases ih hplain hvalue with ⟨-, hsmooth⟩ | ⟨-, -, herror, -⟩
        · rw [heval] at hsmooth
          refine .of_eval (a := .present r) (t := t) ?_ hsmooth
          rw [Resolver.resolve, Attempt.eval_bind, Attempt.eval_outcome, heval]
          rfl
        · rw [heval] at herror
          cases herror

omit hrequire htyped in
theorem supplies_pursue {request : Attempt Failure Resolved} {s : Store} (h : Supplies me s request) (p : Progress)
    (catches : Bool) : Supplies me s (p.pursue catches request) := by
  obtain ⟨⟨r, hr⟩, hsmooth⟩ := h
  rcases heval : request.eval me s with ⟨e | r', t⟩ <;> rw [heval] at hr hsmooth
  · cases hr
  · refine .of_eval (a := p.take r') (t := t) ?_ hsmooth
    rw [Progress.pursue, Attempt.eval_bind, Attempt.eval_outcome, heval]
    rfl

omit hrequire htyped in
theorem supplies_addConfig {p : Progress} (s : Store) {type : TypeInfo} (hnew : type ∉ p.configs.types) (tag : String) :
    Supplies me s (p.addConfig type tag) :=
  .of_eval (eval_addConfig hnew tag) (.of_history_eq rfl)

omit hrequire htyped in
theorem supplies_mint (s : Store) (o : Container) (k : Key) (r : Recipe Step) (p : Progress) (serial : Nat) :
    Supplies me s (r.mint o k p serial) := by
  unfold Recipe.mint
  split
  · exact .of_eval (t := s.nextIdentity.1) rfl (.of_history_eq rfl)
  · exact .pure _

variable (hlinked : o.Linked) {k : Key} (hlookup : o.registry.lookup k = some b)
include hlinked hlookup

theorem supplies_step {s : Store} (h : Consistent me s) (ho : s.HasBuilt o) (hprovided : Provided me require o b s)
    {step : Step} (hstep : step.Declared b.dependencies) (requester : Option Key) (run : Nat) {p : Progress}
    (hnew : ∀ type ∈ step.added?, type ∉ p.configs.types) :
    Supplies me s (step.perform require ⟨o, requester⟩ run p) := by
  rcases hstep.cases with rfl | ⟨gate, count, rfl⟩ | ⟨type, tag, rfl⟩ | ⟨r, catches, rfl, hplain, hdeclared⟩
  · exact .pure p
  · have harrive : Supplies me s (Attempt.arrive gate : Attempt Failure Unit) :=
      .of_eval (Attempt.eval_arrive gate me s) (.of_history_eq rfl)
    refine harrive.bind (sound_arrive h gate) fun _ t ht _ _ => ?_
    have hawait : Supplies me t (Attempt.await gate count : Attempt Failure Unit) :=
      .of_eval (Attempt.eval_await gate count me t) (.of_history_eq rfl)
    exact hawait.bind (sound_await ht gate count) fun _ _ _ _ _ => .pure p
  · exact supplies_addConfig s (hnew type rfl) tag
  · refine supplies_pursue ?_ p catches
    rcases supplies_resolve hrequire htyped r hplain h ho (hprovided.values s h (.refl me s) r.dependency hdeclared)
      (hprovided.missing s) with hsupplies | ⟨hnone, hrequired, -⟩
    · exact hsupplies
    · rcases hlinked.in_sight hlookup hdeclared with hsight | hoptional
      · rw [hnone] at hsight
        cases hsight
      · rw [hrequired] at hoptional
        cases hoptional

theorem supplies_steps {s : Store} (h : Consistent me s) (ho : s.HasBuilt o) (hprovided : Provided me require o b s)
    {steps : List Step} (hsteps : ∀ step ∈ steps, step.Declared b.dependencies) (requester : Option Key) (run : Nat)
    {p : Progress} (hconfigs : (p.configs.types ++ Steps.added steps).Nodup) :
    Supplies me s (Steps.perform require ⟨o, requester⟩ run p steps) := by
  induction steps generalizing s p with
  | nil => exact .pure p
  | cons step steps ih =>
      have hstep := supplies_step hrequire htyped hlinked hlookup h ho hprovided (hsteps step List.mem_cons_self)
        requester run (Steps.not_mem_of_nodup hconfigs)
      refine hstep.bind (sound_step hrequire h ho requester run p step).evaluated fun q t ht hst hq => ?_
      exact ih ht (hst.hasBuilt ho) (hprovided.mono hst) (fun step hmem => hsteps step (List.mem_cons_of_mem _ hmem))
        (nodup_of_step hconfigs hq.2)

/-- A faithful provider succeeds when its needs can be had. -/
theorem supplies_carryOut {s : Store} (h : Consistent me s) (ho : s.HasBuilt o)
    (hprovided : Provided me require o b s) (hfaithful : b.Faithful) {r : Recipe Step} (hsource : b.source = .recipe r)
    (run : Nat) : Supplies me s (r.carryOut require o k run) := by
  have hsteps := supplies_steps hrequire htyped hlinked hlookup h ho hprovided (hfaithful.steps r hsource) (some k)
    run (p := .start) (hfaithful.configs r hsource)
  refine hsteps.bind (sound_steps hrequire h ho (some k) run .start r.steps) fun p t ht hst _ => ?_
  have hserial : Supplies me t (Attempt.nextSerial : Attempt Failure Nat) :=
    .of_eval (Attempt.eval_nextSerial me t) (.of_history_eq rfl)
  refine hserial.bind (sound_nextSerial ht) fun serial u hu htu _ => ?_
  split
  · next other hother =>
    have hdeclared := hfaithful.handsOn r hsource other (by simp [hother])
    refine hprovided.values u hu (hst.trans htu) _ hdeclared rfl ?_
    exact (hlinked.in_sight hlookup hdeclared).resolve_right (by simp [Dependency.required])
  · exact supplies_mint u o k r p serial

end Run

/-! ### Requests -/

section Require

variable {me : Thread} {s : Store} {o c : Container} {b : Binding} {require : Lookup}

/-- A construction that finds its value, or runs a provider which succeeds. -/
theorem supplies_requireWith (h : Consistent me s) (hc : s.HasBuilt c)
    (howner : c.owner? b.key = some (o, b)) (hplace : o.place b ∉ s.building me)
    (hrun : ∀ r, Openable me s o b r → ∀ run, Supplies me (s.opened me o b r).1 (r.carryOut require o b.key run)) :
    Supplies me s (c.requireWith require b.key) := by
  obtain ⟨hreaches, hlookup⟩ := Container.owner?_spec howner
  have ho : s.HasBuilt o := h.hasBuilt_of_reaches hc hreaches
  have hsettled := h.settled o (o.place b) b ho ⟨rfl, hlookup⟩
  have hpassed (e : Event) (v : Value) : Smooth s ((s.passed me (o.place b) e).note (answered c b.key v)) :=
    ⟨[answered c b.key v, entered (o.place b)], by rw [Store.passed, Store.enter_of_not_mem hplace]; rfl, by simp,
      fun p => rfl⟩
  rcases hsource : b.source with v | r
  · exact .of_eval (by rw [eval_requireWith howner, eval_produce_given hplace hsource]) (hpassed _ v)
  rcases hslot : s.slots.slot (o.place b) with _ | owner | v
  · have hopenable : Openable me s o b r := ⟨ho, hlookup, hsource, hplace, hslot⟩
    obtain ⟨⟨v, hv⟩, new, hhistory, hrefused, hcount⟩ := hrun r hopenable (s.opened me o b r).2
    have hproduce := eval_produce_recipe require hplace hsource hslot h.unwaited
    rcases heval : (r.carryOut require o b.key (s.opened me o b r).2).eval me (s.opened me o b r).1 with ⟨e | w, t⟩
    · rw [heval] at hv
      cases hv
    · rw [heval] at hproduce hhistory
      refine .of_eval (by rw [eval_requireWith howner, hproduce]) ⟨answered c b.key w :: succeeded (o.place b) w ::
        (new ++ [began (o.place b), entered (o.place b)]), ?_, by simpa using hrefused, fun p => ?_⟩
      · rw [Store.history_note, history_closed, hhistory, history_opened hplace]
        simp [ending]
      · simp only [List.countP_cons, List.countP_append, List.countP_nil, hcount p]
        by_cases hp : o.place b = p <;> simp [isBeginning, isSuccess, hp]
  · exact absurd (h.computing _ owner hslot).2 hplace
  · rw [hslot] at hsettled
    exact .of_eval (by
      rw [eval_requireWith howner, eval_produce_ready hplace (hsettled.isKept v rfl) hslot h.unwaited]) (hpassed _ v)

/-- What a request relies on: no key can come up again below it, and there is room for all constructions it can nest. -/
structure Ready (me : Thread) (s : Store) (c : Container) (k : Key) (depth : Nat) (room : List Address) : Prop where
  /-- What is under construction needs what is asked for, but not the other way round. -/
  stack : ∀ p ∈ s.building me, p ∈ room ∧ ∃ o, s.HasBuilt o ∧ o.id = p.container ∧
    ∀ a b, c.owner? k = some (a, b) → Relation.TransGen Container.Needs (o, p.key) (a, k)
  places : ∀ a, c.Reaches a → ∀ b ∈ a.registry.bindings, a.place b ∈ room
  depth : room.length < depth + (s.building me).length

namespace Ready

variable {depth : Nat} {room : List Address} {k : Key}

theorem depth_pos (h : Ready me s c k depth room) (hs : Consistent me s) : 0 < depth := by
  have hle := (List.subperm_of_subset hs.nodup fun p hp => (h.stack p hp).1).length_le
  have hlt := h.depth
  omega

theorem not_mem (h : Ready me s c b.key depth room) (hs : Consistent me s) (ho : s.HasBuilt o)
    (howner : c.owner? b.key = some (o, b)) : o.place b ∉ s.building me := by
  intro hmem
  obtain ⟨-, o', ho', hid, hneeds⟩ := h.stack _ hmem
  obtain rfl := hs.unique o' o ho' ho hid
  exact (hs.rooted ho').not_circular (hneeds o' b howner)

theorem depth_pos_below {r : Recipe Step} (h : Ready me s c b.key (depth + 1) room) (hs : Consistent me s)
    (hopenable : Openable me s o b r) (howner : c.owner? b.key = some (o, b)) : 0 < depth := by
  have hbuilding := building_opened (r := r) hopenable.place
  have hsubset : (s.opened me o b r).1.building me ⊆ room := by
    intro p hp
    rw [hbuilding] at hp
    rcases List.mem_append.1 hp with hp | hp
    · exact (h.stack p hp).1
    · obtain rfl := List.mem_singleton.1 hp
      exact h.places o (Container.owner?_spec howner).1 b (List.mem_of_find?_eq_some hopenable.lookup)
  have hle := (List.subperm_of_subset (hopenable.consistent hs).nodup hsubset).length_le
  have hlt := h.depth
  rw [hbuilding, List.length_append, List.length_singleton] at hle
  omega

/-- What the provider of a binding needs is asked for with room left. -/
theorem below {t : Store} {r : Recipe Step} (h : Ready me s c b.key (depth + 1) room) (hs : Consistent me s)
    (hopenable : Openable me s o b r) (hrun : Evolves me (s.opened me o b r).1 t)
    (howner : c.owner? b.key = some (o, b)) {d : Dependency} (hd : d ∈ b.dependencies) (hlazy : d.isLazy = false) :
    Ready me t o d.key depth room := by
  have hbuilding : t.building me = s.building me ++ [o.place b] :=
    hrun.building.trans (building_opened hopenable.place)
  have hmono {a : Container} (ha : s.HasBuilt a) : t.HasBuilt a := hrun.hasBuilt ((hopenable.touches hs).mem ha)
  have hreaches := (Container.owner?_spec howner).1
  have hneeds {a : Container} {b' : Binding} (ha : o.owner? d.key = some (a, b')) :
      Container.Needs (o, b.key) (a, d.key) :=
    ⟨b, b', hopenable.lookup, ⟨d, hd, rfl, hlazy⟩, ha⟩
  constructor
  case stack =>
    intro p hp
    rw [hbuilding] at hp
    rcases List.mem_append.1 hp with hp | hp
    · obtain ⟨hroom, a, ha, hid, hpath⟩ := h.stack p hp
      refine ⟨hroom, a, hmono ha, hid, ?_⟩
      intro a' b' howner'
      exact (hpath o b howner).tail (hneeds howner')
    · obtain rfl := List.mem_singleton.1 hp
      have hb := List.mem_of_find?_eq_some hopenable.lookup
      refine ⟨h.places o hreaches b hb, o, hmono hopenable.hasBuilt, rfl, ?_⟩
      intro a' b' howner'
      exact .single (hneeds howner')
  case places =>
    intro a ha
    exact h.places a (hreaches.trans ha)
  case depth =>
    have hlt := h.depth
    rw [hbuilding, List.length_append, List.length_singleton]
    omega

end Ready

/-- A request for a key in sight is answered, by induction on the depth that constructions may nest to. -/
theorem supplies_requireWithin (depth : Nat) (room : List Address) (h : Consistent me s) (hc : s.HasBuilt c)
    (hfaithful : c.Faithful) {k : Key} (hsight : c.graph.contains k = true) (hready : Ready me s c k depth room) :
    Supplies me s (requireWithin depth c k) := by
  induction depth generalizing s c k with
  | zero => exact absurd (hready.depth_pos h) (Nat.lt_irrefl 0)
  | succ depth ih =>
      obtain ⟨o, b, howner⟩ := (h.linked c hc).owner?_isSome hsight
      obtain rfl := Container.key_of_owner? howner
      obtain ⟨hreaches, hlookup⟩ := Container.owner?_spec howner
      have ho : s.HasBuilt o := h.hasBuilt_of_reaches hc hreaches
      have hfaithful' := hfaithful.of_reaches hreaches
      refine supplies_requireWith h hc howner (hready.not_mem h ho howner) ?_
      intro r hopenable run
      have hopened := hopenable.consistent h
      have ho' : (s.opened me o b r).1.HasBuilt o := (hopenable.touches h).mem ho
      refine supplies_carryOut (sound_requireWithin me depth) hfaithful'.typed (h.linked o ho) hlookup hopened ho' ?_
        (hfaithful' o (.refl o) b (List.mem_of_find?_eq_some hlookup)) hopenable.source run
      constructor
      · intro t ht hrun d hd hlazy hsight
        exact ih ht (hrun.hasBuilt ho') hfaithful' hsight (hready.below h hopenable hrun howner hd hlazy)
      · intro t k hnone
        obtain ⟨depth, rfl⟩ := Nat.exists_eq_add_of_lt (hready.depth_pos_below h hopenable howner)
        have hnone' : o.owner? k = none := by
          rcases howner' : o.owner? k with _ | owner
          · rfl
          · rw [Container.contains_of_owner? (by rw [howner']; rfl)] at hnone
            cases hnone
        rw [show 0 + depth + 1 = depth + 1 by omega, requireWithin, eval_requireWith_missing hnone']
        exact ⟨rfl, rfl⟩

theorem supplies_require (h : Consistent me s) (hidle : s.building me = []) (hc : s.HasBuilt c)
    (hfaithful : c.Faithful) {k : Key} (hsight : c.graph.contains k = true) :
    Supplies me s (Container.require c k) := by
  apply supplies_requireWithin (c.weight + 1) (Container.places (Container.lineage [c])) h hc hfaithful hsight
  constructor
  case stack => simp [hidle]
  case places =>
    intro a ha b hb
    exact Container.place_mem_places h.family hc ha hb
  case depth =>
    have hle := Container.length_places_le_weight c
    rw [hidle, List.length_nil]
    omega

end Require

/-- In every state that a session with one thread comes to, whatever is held then, a key that a faithful container sees
can be had: the request gives a value of the key's type, and so does the typed request. -/
theorem Session.require_of_faithful (cmds : List Command) (hsingle : ∀ cmd ∈ cmds, cmd.isSingle = true)
    (held : List Container) (c : Container) (hc : (Session.empty.execAll cmds).2.store.HasBuilt c)
    (hfaithful : c.Faithful) (k : Key) (hsight : c.graph.contains k = true) :
    let s := { (Session.empty.execAll cmds).2.store with held }
    ∃ v, ((Container.require c k).eval Task.mainThread s).1 = .ok v ∧ v.type = k.type ∧
      ((Container.require.typed c k).eval Task.mainThread s).1 = .ok v ∧
      Smooth s ((Container.require c k).eval Task.mainThread s).2 := by
  intro s
  have horderly := orderly_execAll orderly_empty hsingle
  have hs : Consistent Task.mainThread s :=
    (⟨rfl, rfl, rfl, rfl, rfl⟩ : Alike (Session.empty.execAll cmds).2.store s).consistent horderly.consistent
  obtain ⟨⟨v, hv⟩, hsmooth⟩ := supplies_require hs horderly.idle hc hfaithful hsight
  have htype := ((sound_require Task.mainThread s c k hs hc).result v hv).2 hfaithful.typed
  refine ⟨v, hv, htype, ?_, hsmooth⟩
  rcases heval : (Container.require c k).eval Task.mainThread s with ⟨e | w, t⟩ <;> rw [heval] at hv <;> cases hv
  rw [Lookup.typed, Attempt.eval_bind, heval]
  simp [htype]

namespace Clockwork

def calendar : TypeInfo := ⟨2, "Calendar", .number⟩

def app : TypeInfo := ⟨3, "App", .record "App"⟩

/-- An application that needs the clock, may do without a calendar, and looks itself up later. -/
def appDraft : Draft :=
  (BindingOf.provider ⟨app, "",
    [.ask (.resolve (.value (.ofType clock))) none false,
      .ask (.resolve (.optional (.value (.ofType calendar)))) none false, .ask (.resolve (.deferred app)) none false],
    none⟩).dependingOn
    [.required (.ofType clock), (Dependency.required (.ofType calendar)).optional, .deferred (.ofType app)]

def container : Container :=
  let registry : Registry := ⟨[clockDraft.realize 0, appDraft.realize 0]⟩
  ⟨0, "container", registry, [], Graph.assemble registry []⟩

/-- The run that builds the container. -/
def building : List Command :=
  [.newBuilder "b" none, .add "b" clockDraft .given, .add "b" appDraft .given, .build "b" "c" false]

theorem hasBuilt_container : (Session.empty.execAll building).2.store.HasBuilt container :=
  List.mem_of_getLast? (rfl : (Session.empty.execAll building).2.store.history.getLast? = some (.built container))

theorem faithful_container : container.Faithful := by
  intro a ha b hb
  cases ha with
  | up hparent _ => cases hparent
  | refl =>
      rcases List.mem_cons.1 hb with rfl | hb
      · refine ⟨rfl, ?_, by rintro r ⟨⟩; decide, ?_⟩ <;> rintro r ⟨⟩ <;> simp
      · obtain rfl := List.mem_singleton.1 hb
        refine ⟨rfl, ?_, by rintro r ⟨⟩; decide, ?_⟩ <;> rintro r ⟨⟩ <;>
          simp [Step.Declared, Resolver.isPlain, Resolver.dependency, appDraft, BindingOf.realize, BindingOf.provider,
            BindingOf.dependingOn, BindingOf.withSource]

end Clockwork

open Clockwork in
theorem Session.require_app :
    ∃ v, ((Container.require container (.ofType app)).eval Task.mainThread
      { (Session.empty.execAll building).2.store with held := [container] }).1 = .ok v ∧ v.type = app := by
  obtain ⟨v, hv, htype, -⟩ := require_of_faithful building (by decide) [container] container hasBuilt_container
    faithful_container (.ofType app) rfl
  exact ⟨v, hv, htype⟩

end Injection
