import Injection.Proofs.Conduct
import Injection.Proofs.Depth
import Injection.Proofs.Passages
import Injection.Proofs.Runs

/-!
Every request comes to an end. What providers declare does not matter, only what they ask for: a construction that goes
into a binding leaves less to go into, for it and for all that it asks, since what is under construction is refused. So
no request reaches the end of its depth when it begins with more of it than all bindings together weigh.
-/

namespace Injection

variable {me : Thread} {s t : Store} {shun : Nat → Prop}

/-! ### The moments of a construction -/

theorem Roomy.leave (h : Roomy me s) (place : Address) : Roomy me (s.leave me place) := by
  have hsub : ((s.leave me place).building me).Sublist (s.building me) := by
    simpa [Store.leave, Store.eraseLast] using
      List.reverse_sublist.2 (List.erase_sublist (a := place) (l := (s.building me).reverse))
  exact ⟨h.nodup.sublist hsub, hsub.length_le.trans h.length⟩

/-- An attempt does only what is allowed, and there is room for what is under construction when it is over. -/
structure Cautious {ε α : Type} (me : Thread) (shun : Nat → Prop) (s : Store) (x : Attempt ε α) : Prop where
  turns : ∀ turn ∈ x.turns me s, Allowed me shun turn.1 turn.2
  roomy : Roomy me (x.eval me s).2

namespace Cautious

variable {ε ε' α β : Type} {x : Attempt ε α}

protected theorem pure {a : α} (h : Roomy me s) : Cautious me shun s (pure a : Attempt ε α) :=
  ⟨List.forall_mem_nil _, h⟩

protected theorem fail {e : ε} (h : Roomy me s) : Cautious me shun s (Attempt.fail e : Attempt ε α) :=
  ⟨List.forall_mem_nil _, h⟩

protected theorem bind {f : α → Attempt ε β} (hx : Cautious me shun s x)
    (hf : ∀ a t, Roomy me t → Cautious me shun t (f a)) : Cautious me shun s (x >>= f) := by
  obtain ⟨hturns, hroomy⟩ := hx
  rcases heval : x.eval me s with ⟨e | a, t⟩ <;> rw [heval] at hroomy <;> constructor
  · simpa [Attempt.turns_bind, heval] using hturns
  · rwa [Attempt.eval_bind, heval]
  · rw [Attempt.turns_bind, heval]
    exact List.forall_mem_append.2 ⟨hturns, (hf a t hroomy).turns⟩
  · rw [Attempt.eval_bind, heval]
    exact (hf a t hroomy).roomy

theorem after {a : Action} {r : a.Reply} {f : a.Reply → Attempt ε β} (ha : Allowed me shun a s)
    (hperform : a.performAlone me s = (r, t)) (hf : Cautious me shun t (f r)) :
    Cautious me shun s (Attempt.perform a >>= f) := by
  have heval : (Attempt.perform a : Attempt ε a.Reply).eval me s = (.ok r, t) := by
    rw [Attempt.eval_perform, hperform]
  constructor
  · rw [Attempt.turns_bind, heval, Attempt.turns_perform]
    exact List.forall_mem_cons.2 ⟨ha, hf.turns⟩
  · rw [Attempt.eval_bind, heval]
    exact hf.roomy

protected theorem closing {last : Action} (hx : Cautious me shun s x) (hlast : last.isRequest = false)
    (hroomy : ∀ t, Roomy me t → Roomy me (last.after me t)) : Cautious me shun s (Attempt.closing last x) := by
  constructor
  · rw [Attempt.turns_closing]
    exact List.forall_mem_append.2 ⟨hx.turns, by simpa using hx.roomy.allowed hlast⟩
  · rw [Attempt.eval_closing]
    exact hroomy _ hx.roomy

protected theorem mapError (f : ε → ε') (hx : Cautious me shun s x) : Cautious me shun s (Attempt.mapError f x) := by
  constructor
  · rw [Attempt.turns_mapError]
    exact hx.turns
  · rw [Attempt.eval_mapError]
    exact hx.roomy

end Cautious

variable {require : Lookup} {o c : Container} {b : Binding} {r : Recipe Step}

theorem cautious_construct (h : Roomy me s)
    (hrun : ∀ r, b.source = .recipe r →
      Cautious me shun (s.started o b r).1 (r.carryOut require o b.key (s.started o b r).2)) :
    Cautious me shun s (o.construct require b) := by
  have htold (e : Event) : Roomy me (s.tell e) := h.congr rfl rfl
  refine .after (h.allowed rfl) rfl ?_
  split
  · exact .pure (htold _)
  · next r hsource =>
    refine .bind (.mapError _ (.after ((htold _).allowed rfl) rfl (hrun r hsource))) fun v t ht => ?_
    exact .after (ht.allowed rfl) rfl (.pure (ht.congr rfl rfl))

theorem Action.performAlone_acquire {place : Address} {slots : Slots} {grant : Grant}
    (h : s.slots.acquire me place = (slots, some grant)) :
    (Action.acquire place).performAlone me s = (grant, { s with slots }) := by
  simp [performAlone, perform, h]

/-- A value is in the place, or the recipe gives it. -/
theorem cautious_obtain (h : Roomy me s) (hedges : s.slots.edges = [])
    (hslot : s.slots.slot (o.place b) = .vacant ∨ ∃ v, s.slots.slot (o.place b) = .ready v)
    (hconstruct : s.slots.slot (o.place b) = .vacant →
      Cautious me shun { s with slots := (s.slots.acquire me (o.place b)).1 } (o.construct require b)) :
    Cautious me shun s (o.obtain require b) := by
  rcases hslot with hslot | ⟨v, hslot⟩
  · have hacquire : s.slots.acquire me (o.place b) = _ := Slots.acquire_vacant hslot hedges
    specialize hconstruct hslot
    rw [hacquire] at hconstruct
    refine .after (h.allowed rfl) (Action.performAlone_acquire hacquire) (.closing ?_ rfl fun t ht => ?_)
    · refine hconstruct.bind fun v t ht => ?_
      exact .after (ht.allowed rfl) rfl (.pure (ht.congr rfl rfl))
    · exact ht.congr rfl rfl
  · refine .after (h.allowed rfl) (Action.performAlone_acquire (Slots.acquire_ready hslot hedges)) ?_
    exact .after (h.allowed rfl) rfl (.pure (h.congr rfl rfl))

theorem Consistent.slot_of_not_mem (hs : Consistent me s) {place : Address} (hplace : place ∉ s.building me) :
    s.slots.slot place = .vacant ∨ ∃ v, s.slots.slot place = .ready v := by
  rcases hslot : s.slots.slot place with _ | owner | v
  · exact Or.inl rfl
  · exact absurd (hs.computing _ owner hslot).2 hplace
  · exact Or.inr ⟨v, rfl⟩

/-- Between the way in and the way out there is room for the binding besides all that was under construction before. -/
theorem cautious_produce (hs : Sheltered me s) (ho : s.HasBuilt o) (hlookup : o.registry.lookup b.key = some b)
    (halive : ∃ d ∈ s.held, d.Reaches o) (hout : ¬ shun o.id)
    (hrun : ∀ r, Openable me s o b r →
      Cautious me shun (s.opened me o b r).1 (r.carryOut require o b.key (s.opened me o b r).2)) :
    Cautious me shun s (o.produce require b) := by
  have hown : o.Owns (o.place b) b := ⟨rfl, hlookup⟩
  have henter : Allowed me shun (.enter (o.place b)) s :=
    ⟨hs.roomy, fun _ => hs, by rintro _ ⟨⟩; exact ⟨hout, o, b, ho, hown⟩⟩
  by_cases hplace : o.place b ∈ s.building me
  · have hperform : (Action.enter (o.place b)).performAlone me s = (false, s.note (.refused (o.place b))) := by
      simp [Action.performAlone, Action.perform, Store.enter, hplace]
    exact .after henter hperform (.fail (hs.roomy.congr rfl rfl))
  have hentered := Store.enter_of_not_mem hplace
  have hperform : (Action.enter (o.place b)).performAlone me s = (true, (s.enter me (o.place b)).1) := by
    simp [Action.performAlone, Action.perform, hentered]
  have hroomy : Roomy me (s.enter me (o.place b)).1 := by
    have hbuilding : (s.enter me (o.place b)).1.building me = s.building me ++ [o.place b] := by
      rw [hentered]
      exact setAt_self _ _ _
    have hheld : (s.enter me (o.place b)).1.held = s.held := by rw [hentered]; rfl
    refine roomy_of_places hs.consistent.family (hheld ▸ hs.held) ?_ (hs.places hlookup halive hbuilding hheld)
    rw [hbuilding]
    exact List.nodup_append.2 ⟨hs.consistent.nodup, List.nodup_singleton _, fun q hq p hp hqp =>
      hplace (List.mem_singleton.1 hp ▸ hqp ▸ hq)⟩
  have hleave (t : Store) (ht : Roomy me t) : Roomy me ((Action.leave (o.place b)).after me t) := ht.leave _
  refine .after henter hperform (.closing ?_ rfl hleave)
  have hslots : (s.enter me (o.place b)).1.slots = s.slots := by rw [hentered]; rfl
  have hsettled := hs.consistent.settled o _ b ho hown
  have hopened (r : Recipe Step) (hsource : b.source = .recipe r) (hslot : s.slots.slot (o.place b) = .vacant) :=
    hrun r ⟨ho, hlookup, hsource, hplace, hslot⟩
  by_cases hkept : b.isKept
  · rw [if_pos hkept]
    refine cautious_obtain hroomy (hslots ▸ hs.consistent.unwaited) ?_ fun hslot => ?_
    · exact hslots ▸ hs.consistent.slot_of_not_mem hplace
    · refine cautious_construct (hroomy.congr rfl rfl) fun r hsource => ?_
      have := hopened r hsource (hslots ▸ hslot)
      simpa only [Store.opened, if_pos hkept] using this
  · rw [if_neg hkept]
    refine cautious_construct hroomy fun r hsource => ?_
    have hslot : s.slots.slot (o.place b) = .vacant := by
      rcases hs.consistent.slot_of_not_mem hplace with hslot | ⟨v, hslot⟩
      · exact hslot
      · rw [hslot] at hsettled
        exact absurd (hsettled.isKept v rfl) hkept
    have := hopened r hsource hslot
    simpa only [Store.opened, if_neg hkept] using this

/-- A request that a container answers for goes into the binding first. -/
theorem enter_mem_turns (me : Thread) (s : Store) {require : Lookup} (howner : c.owner? b.key = some (o, b)) :
    (.enter (o.place b), s) ∈ (c.requireWith require b.key).turns me s := by
  rw [Container.requireWith, howner]
  exact List.mem_cons_self

/-- What happens while a recipe is carried out happens in the request that it is carried out for. -/
theorem mem_turns_requireWith {turn : Action × Store} (howner : c.owner? b.key = some (o, b))
    (hopenable : Openable me s o b r) (hedges : s.slots.edges = [])
    (h : turn ∈ (r.carryOut require o b.key (s.opened me o b r).2).turns me (s.opened me o b r).1) :
    turn ∈ (c.requireWith require b.key).turns me s := by
  rw [turns_requireWith howner, turns_produce_recipe require hopenable.place hopenable.source hopenable.slot hedges]
  exact List.mem_append_left _ (List.mem_append_left _ (List.mem_append_right _ h))

/-! ### What a construction spares -/

@[simp] theorem Store.held_opened (s : Store) (me : Thread) (o : Container) (b : Binding) (r : Recipe Step) :
    (s.opened me o b r).1.held = s.held := by
  simp only [opened, started, countRun, enter]
  split <;> split <;> rfl

@[simp] theorem Store.held_closed (t : Store) (me : Thread) (o : Container) (b : Binding)
    (result : Except (Stop Failure) Value) : (t.closed me o b result).held = t.held := by
  cases result <;> simp only [closed] <;> split <;> rfl

@[simp] theorem Store.held_passed (s : Store) (me : Thread) (place : Address) (e : Event) :
    (s.passed me place e).held = s.held := by
  simp only [passed, enter]
  split <;> rfl

/-- The same containers are held, and the places of the containers that are to be shunned are left alone. -/
structure Spares (shun : Nat → Prop) (s t : Store) : Prop where
  held : t.held = s.held
  shunned : ∀ p : Address, shun p.container → t.slots.slot p = s.slots.slot p ∧ t.chronicle p = s.chronicle p

theorem Spares.trans {u : Store} (h : Spares shun s t) (h' : Spares shun t u) : Spares shun s u :=
  ⟨h'.held.trans h.held, fun p hp =>
    ⟨(h'.shunned p hp).1.trans (h.shunned p hp).1, (h'.shunned p hp).2.trans (h.shunned p hp).2⟩⟩

theorem Touches.spares {place : Address} {new : List Happening} (h : Touches me place new s t)
    (hheld : t.held = s.held) (hplace : ¬ shun place.container) : Spares shun s t :=
  ⟨hheld, fun p hp => have hne : p ≠ place := fun heq => hplace (heq ▸ hp)
    ⟨h.slot p hne, h.chronicle_of_ne hne⟩⟩

theorem Here.opened {depth : Nat} (h : Here me (some (depth + 1)) shun 0 s o) (hopenable : Openable me s o b r) :
    Here me (some depth) shun (Steps.weight r.steps) (s.opened me o b r).1 o := by
  have hs := h.sheltered
  have htouches := hopenable.touches hs.consistent
  have hbuilding := building_opened (r := r) hopenable.place
  have hheld := Store.held_opened s me o b r
  refine ⟨⟨hopenable.consistent hs.consistent, ?_, hs.places hopenable.lookup h.alive hbuilding hheld⟩,
    ⟨htouches.mem h.near.hasBuilt, ?_, h.near.apart, ?_⟩, ?_⟩
  · rw [hheld]
    exact fun c hc => htouches.mem (hs.held c hc)
  · rintro _ ⟨⟩
    have hfits := h.near.fits (depth + 1) rfl
    have hslack := Container.slack_enter hs.consistent.family h.near.hasBuilt
      (List.mem_of_find?_eq_some hopenable.lookup) hopenable.place
    have hweight : b.weight = 1 + Steps.weight r.steps := by rw [BindingOf.weight, hopenable.source]
    rw [hbuilding]
    omega
  · rw [htouches.identities]
    exact h.near.old
  · rw [hheld]
    exact h.alive

section Lookup

variable {depth : Nat} (hsound : require.Sound me) (hheeds : require.Heeds me (some depth) shun)
include hsound hheeds

/-- The run of a recipe, in the store that is opened for it. -/
theorem heeds_run (h : Here me (some (depth + 1)) shun 0 s o) (hopenable : Openable me s o b r) :
    Heeds me shun (s.opened me o b r).1 (r.carryOut require o b.key (s.opened me o b r).2) fun _ _ => True :=
  heeds_carryOut hsound hheeds (h.opened hopenable) b.key (Nat.le_refl _) _

theorem cautious_answer (h : Here me (some (depth + 1)) shun 0 s o) (howner : c.owner? b.key = some (o, b)) :
    Cautious me shun s (c.requireWith require b.key) := by
  rw [Container.requireWith, howner]
  refine .bind (cautious_produce h.sheltered h.near.hasBuilt (Container.owner?_spec howner).2 h.alive
    (h.near.apart o (.refl o)) ?_) fun v t ht => .after (ht.allowed rfl) rfl (.pure (ht.congr rfl rfl))
  intro r hopenable
  have hopened := h.opened hopenable
  have hrun := heeds_run hsound hheeds h hopenable
  have hend := sound_carryOut hsound hopened.sheltered.consistent hopened.near.hasBuilt b.key r (s.opened me o b r).2
  exact ⟨hrun.turns, (hopened.sheltered.mono hend.consistent hend.evolves hrun.held).roomy⟩

/-- A request that a container answers for that requests may come to, by the four ways of a construction. Where the
request is made does not matter. -/
theorem heeds_answer (h : Here me (some (depth + 1)) shun 0 s o) (hc : s.HasBuilt c)
    (howner : c.owner? b.key = some (o, b)) : Heeds me shun s (c.requireWith require b.key) fun _ _ => True := by
  have hs := h.sheltered.consistent
  have hlookup := (Container.owner?_spec howner).2
  have hout : ¬ shun (o.place b).container := h.near.apart o (.refl o)
  have hconcerns (v : Value) : (Happening.answered c b.key v).concerns (o.place b) = true :=
    Happening.concerns_answered.2 ⟨o, b, howner, rfl⟩
  have hasked {u : Store} (v : Value) (hc : u.HasBuilt c) (c' : Container) (k' : Key) (v' : Value)
      (heq : Happening.answered c b.key v = .answered c' k' v') : u.HasBuilt c' := by
    cases heq
    exact hc
  suffices hend : Spares shun s ((c.requireWith require b.key).eval me s).2 ∧
      ((c.requireWith require b.key).eval me s).1 ≠ .error .exhausted from
    ⟨(cautious_answer hsound hheeds h howner).turns, hend.2, hend.1.held, hend.1.shunned, fun _ _ => trivial⟩
  by_cases hplace : o.place b ∈ s.building me
  · rw [eval_requireWith howner, eval_produce_refused hplace]
    exact ⟨⟨rfl, fun p _ => ⟨rfl, List.filter_cons_of_neg (by simp)⟩⟩, by simp⟩
  have hpassed (v : Value) (e : Event) : Spares shun s ((s.passed me (o.place b) e).note (.answered c b.key v)) :=
    ((touches_passed hs hplace e).note (hconcerns v) (hasked v hc)).spares (Store.held_passed s me _ e) hout
  rcases hsource : b.source with v | r
  · rw [eval_requireWith howner, eval_produce_given hplace hsource]
    exact ⟨hpassed v _, by simp⟩
  rcases hs.slot_of_not_mem hplace with hslot | ⟨v, hslot⟩
  · have hopenable : Openable me s o b r := ⟨h.near.hasBuilt, hlookup, hsource, hplace, hslot⟩
    have hopened := h.opened hopenable
    have htouches := hopenable.touches hs
    have hrun := heeds_run hsound hheeds h hopenable
    have hrun' := sound_carryOut hsound hopened.sheltered.consistent hopened.near.hasBuilt b.key r (s.opened me o b r).2
    obtain ⟨-, hended, hheld, hshunned, -⟩ := hrun
    obtain ⟨ht, hevolves, -⟩ := hrun'
    rw [eval_requireWith howner, eval_produce_recipe require hplace hsource hslot hs.unwaited]
    rcases heval : (r.carryOut require o b.key (s.opened me o b r).2).eval me (s.opened me o b r).1 with ⟨e | v, t⟩ <;>
      rw [heval] at hended hheld hshunned ht hevolves
    all_goals
      have hin : Spares shun s t := (htouches.spares (Store.held_opened s me o b r) hout).trans ⟨hheld, hshunned⟩
    · have hlast := hopenable.touches_closed hs ht hevolves (.error e)
      refine ⟨hin.trans (hlast.spares (Store.held_closed ..) hout), ?_⟩
      cases e <;> simp_all [Stop.map]
    · have hct : t.HasBuilt c := hevolves.hasBuilt (htouches.mem hc)
      have hlast := (hopenable.touches_closed hs ht hevolves (.ok v)).note (hconcerns v) (hasked v hct)
      exact ⟨hin.trans (hlast.spares (Store.held_closed ..) hout), by simp⟩
  · have hsettled := hs.settled o (o.place b) b h.near.hasBuilt ⟨rfl, hlookup⟩
    rw [hslot] at hsettled
    rw [eval_requireWith howner, eval_produce_ready hplace (hsettled.isKept v rfl) hslot hs.unwaited]
    exact ⟨hpassed v _, by simp⟩

theorem heeds_requireWith (h : Here me (some (depth + 1)) shun 0 s c) (k : Key) :
    Heeds me shun s (c.requireWith require k) fun _ _ => True := by
  rcases howner : c.owner? k with _ | ⟨o, b⟩
  · rw [Container.requireWith, howner]
    exact (heeds_tell h.sheltered _ _).bind h.sheltered (sound_tell h.sheltered.consistent _ _)
      fun _ _ _ _ _ _ _ => .fail _
  · obtain rfl := Container.key_of_owner? howner
    exact heeds_answer hsound hheeds (h.of_reaches (Container.owner?_spec howner).1) h.near.hasBuilt howner

end Lookup

theorem heeds_requireWithin (me : Thread) (shun : Nat → Prop) (depth : Nat) :
    (requireWithin depth).Heeds me (some depth) shun := by
  induction depth with
  | zero => exact fun s c k h => absurd (h.near.fits 0 rfl) (Nat.not_lt_zero _)
  | succ depth ih => exact fun s c k h => heeds_requireWith (sound_requireWithin me depth) ih h k

/-- A request has depth enough when it begins with more than all bindings of the container and its ancestors weigh. -/
theorem Here.within {bound : Option Nat} (h : Here me bound shun 0 s c) {depth : Nat} (hdepth : c.weight < depth) :
    Here me (some depth) shun 0 s c :=
  ⟨h.sheltered, ⟨h.near.hasBuilt, by rintro _ ⟨⟩; exact Nat.lt_of_le_of_lt (Container.slack_le _ c) hdepth,
    h.near.apart, h.near.old⟩, h.alive⟩

theorem heeds_require (me : Thread) (shun : Nat → Prop) : Container.require.Heeds me none shun :=
  fun s c k h => heeds_requireWithin me shun (c.weight + 1) s c k (h.within (Nat.lt_succ_self _))

/-! ### Every request ends -/

/-- An attempt comes to an end: with a value, an error or a panic. Nothing is under construction twice on the way, and
never more than there are own bindings of containers that are alive at that moment. -/
structure Ends {ε α : Type} (me : Thread) (s : Store) (x : Attempt ε α) : Prop where
  ended : (x.eval me s).1 ≠ .error .exhausted
  roomy : ∀ turn ∈ x.turns me s, Roomy me turn.2

theorem Heeds.ends {ε α : Type} {x : Attempt ε α} {post : α → Store → Prop} (h : Heeds me shun s x post) :
    Ends me s x :=
  ⟨h.ended, fun turn hturn => (h.turns turn hturn).roomy⟩

/-- Whatever a thread may ask for ends: at a container that is alive, with a lazy handle or of a builder. More depth
than the bound of requests makes no difference, so the bound is none. -/
structure Responsive (me : Thread) (s : Store) : Prop where
  require : ∀ c, (∃ d ∈ s.held, d.Reaches c) → ∀ k, Ends me s (c.require k) ∧
    ∀ depth > c.weight, (requireWithin depth c k).eval me s = (c.require k).eval me s
  resolve : ∀ c, (∃ d ∈ s.held, d.Reaches c) → ∀ r, Ends me s (c.resolve r)
  use : ∀ l : Lazy, Ends me s l.use
  finish : ∀ b : Builder, b.Proper s → ∀ eager, Ends me s (b.finish eager)

theorem near_anywhere (hc : s.HasBuilt c) : Near me none (fun _ => False) 0 s c :=
  ⟨hc, nofun, fun _ _ h => h, nofun⟩

theorem Sheltered.here (hs : Sheltered me s) (halive : ∃ d ∈ s.held, d.Reaches c) :
    Here me none (fun _ => False) 0 s c := by
  obtain ⟨d, hd, hreaches⟩ := halive
  exact ⟨hs, near_anywhere (hs.consistent.hasBuilt_of_reaches (hs.held d hd) hreaches), d, hd, hreaches⟩

namespace Sheltered

variable (hs : Sheltered me s)
include hs

theorem heeds_require (hc : ∃ d ∈ s.held, d.Reaches c) (k : Key) :
    Heeds me (fun _ => False) s (c.require k) fun _ _ => True :=
  Injection.heeds_require me _ s c k (hs.here hc)

theorem heeds_resolve (hc : ∃ d ∈ s.held, d.Reaches c) (r : Request) :
    Heeds me (fun _ => False) s (c.resolve r) fun r t => ∀ l ∈ r.lazy?, Leads me none (fun _ => False) t l :=
  heeds_request (sound_require me) (Injection.heeds_require me _) (hs.here hc) none r

theorem heeds_use (l : Lazy) : Heeds me (fun _ => False) s l.use fun _ _ => True :=
  heeds_get (sound_require me) (Injection.heeds_require me _) hs
    fun cell hcell _ _ => near_anywhere (hs.consistent.cells l.id cell hcell).2.1

theorem heeds_finish {b : Builder} (hb : b.Proper s) (eager : Bool) :
    Heeds me (fun _ => False) s (b.finish eager) fun _ _ => True := by
  have hnext (t : Store) (d : Container) (_ : Here me none (fun _ => False) 0 t d) (_ : Evolves me s t) :
      Heeds me (fun _ => False) t (pure d : Attempt BuildError Container) fun _ _ => True := .pure trivial
  have hnext' (t : Store) (d : Container) (ht : Consistent me t) (_ : t.HasBuilt d) :
      Sound me t (pure d : Attempt BuildError Container) fun _ _ => True := .pure ht trivial
  exact heeds_buildThen (sound_require me) (Injection.heeds_require me _) hs hb
    (fun _ _ _ _ hd _ _ _ => near_anywhere hd) id eager hnext hnext' fun _ _ _ _ => trivial

/-- Also in the middle of constructions. -/
theorem responsive : Responsive me s where
  require c hc k := by
    have hheeds := hs.heeds_require hc k
    exact ⟨hheeds.ends, fun depth hdepth => foretells_requireWithin hdepth c k me s hheeds.ended⟩
  resolve c hc r := (hs.heeds_resolve hc r).ends
  use l := (hs.heeds_use l).ends
  finish b hb eager := (hs.heeds_finish hb eager).ends

end Sheltered

theorem Session.Orderly.sheltered {s : Session} (h : s.Orderly) {held : List Container}
    (hheld : ∀ c ∈ held, s.store.HasBuilt c) : Sheltered Task.mainThread { s.store with held } where
  consistent := Alike.consistent (s := s.store) ⟨rfl, rfl, rfl, rfl, rfl⟩ h.consistent
  held := hheld
  building p hp := by
    change p ∈ s.store.building Task.mainThread at hp
    rw [h.idle] at hp
    cases hp

/-- Whatever commands a session with one thread has carried out, and whichever of the containers that were built
somebody holds: all that can be asked for then ends. -/
theorem Session.responsive_execAll (cmds : List Command) (hsingle : ∀ c ∈ cmds, c.isSingle = true)
    (held : List Container) (hheld : ∀ c ∈ held, (Session.empty.execAll cmds).2.store.HasBuilt c) :
    Responsive Task.mainThread { (Session.empty.execAll cmds).2.store with held } :=
  ((orderly_execAll orderly_empty hsingle).sheltered hheld).responsive

namespace Ouroboros

def snake : TypeInfo := ⟨1, "Snake", .number⟩

/-- A snake that gets hold of its tail, and bites. -/
def snakeDraft : Draft :=
  BindingOf.provider ⟨snake, "", [.ask (.resolve (.deferred snake)) none false, .use 0 true], none⟩

def hatching : List Command := [.newBuilder "b" none, .add "b" snakeDraft .given, .build "b" "c" false]

def nest : Container :=
  ⟨0, "container", ⟨[snakeDraft.realize 0]⟩, [], Graph.assemble ⟨[snakeDraft.realize 0]⟩ []⟩

def hatched : Store := { (Session.empty.execAll hatching).2.store with held := [nest] }

theorem hasBuilt_nest : (Session.empty.execAll hatching).2.store.HasBuilt nest := List.mem_of_getLast? rfl

end Ouroboros

open Ouroboros in
/-- The snake cannot bite its tail, but it is there. -/
theorem Session.responsive_hatched : Responsive Task.mainThread hatched ∧
    ∃ v, ((nest.require (.ofType snake)).eval Task.mainThread hatched).1 = .ok v :=
  ⟨responsive_execAll hatching (by decide) [nest] (by simpa using hasBuilt_nest), _, rfl⟩

end Injection
