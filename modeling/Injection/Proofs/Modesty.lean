import Injection.Proofs.Completion

/-!
Providers that ask for nothing but what they declare, and use no lazy handles. A request for a key that finds all kept
values that the key leads to runs only such of these providers that the key leads to as well, and whose values are not
kept: they pass values on. A request for a key whose value is to be kept, and that finds all else, runs the provider of
the key besides, and the others only within that run.
-/

namespace Injection

open Relation

/-! ### Provider runs among the turns -/

/-- The own key of a container for which an action starts a provider run. -/
def Action.began? (id : Nat) : Action → Option Key
  | countRun p _ => if p.container = id then some p.key else none
  | _ => none

theorem Action.began?_eq_some {id : Nat} {a : Action} {k : Key} :
    a.began? id = some k ↔ ∃ tag, a = .countRun ⟨id, k⟩ tag := by
  cases a with
  | countRun p tag =>
      obtain ⟨container, key⟩ := p
      simp only [began?, Option.ite_none_right_eq_some, Option.some.injEq, countRun.injEq, Address.mk.injEq]
      constructor
      · rintro ⟨rfl, rfl⟩
        exact ⟨tag, ⟨rfl, rfl⟩, rfl⟩
      · rintro ⟨_, ⟨rfl, rfl⟩, rfl⟩
        exact ⟨rfl, rfl⟩
  | _ => simp [began?]

/-- The own keys whose providers run, in the order of their starts. -/
def Container.runs (c : Container) (turns : List (Action × Store)) : List Key :=
  turns.filterMap (·.1.began? c.id)

@[simp] theorem Container.runs_append (c : Container) (turns turns' : List (Action × Store)) :
    c.runs (turns ++ turns') = c.runs turns ++ c.runs turns' := List.filterMap_append

theorem Container.runs_eq_nil {c : Container} {turns : List (Action × Store)} :
    c.runs turns = [] ↔ ∀ turn ∈ turns, turn.1.began? c.id = none := List.filterMap_eq_nil_iff

/-- Nothing is ever forgotten. -/
theorem Action.history_after (me : Thread) (a : Action) (s : Store) : s.history <:+ (a.after me s).history := by
  cases a with
  | note h => exact List.suffix_cons _ _
  | countRun p tag => exact List.suffix_cons _ _
  | enter place =>
      change s.history <:+ (s.enter me place).1.history
      unfold Store.enter
      split <;> exact List.suffix_cons _ _
  | acquire place =>
      rw [after, performAlone, perform]
      rcases s.slots.acquire me place with ⟨slots, _ | grant⟩ <;> exact List.suffix_refl _
  | remember l =>
      change s.history <:+ (s.remember l).1.history
      unfold Store.remember
      split
      · exact List.suffix_refl _
      · split
        · exact List.suffix_cons _ _
        · exact List.suffix_refl _
  | reclaim l =>
      change s.history <:+ (s.reclaim l).1.history
      unfold Store.reclaim
      split
      · exact List.suffix_refl _
      · split <;> exact List.suffix_refl _
  | keep l v =>
      change s.history <:+ (s.keep l v).1.history
      unfold Store.keep
      split
      · exact List.suffix_refl _
      · exact List.suffix_cons _ _
  | await gate count =>
      rw [after, performAlone, perform]
      by_cases hwaits : s.gates gate < count <;> simp [hwaits]
  | _ => exact List.suffix_refl _

theorem Process.history_alone {α : Type} (me : Thread) (p : Process α) (s : Store) :
    s.history <:+ (p.alone me s).2.history := by
  induction p generalizing s with
  | done a => exact List.suffix_refl _
  | act a next ih => exact (a.history_after me s).trans (ih _ _)

theorem Process.history_of_mem_turns {α : Type} {me : Thread} {p : Process α} {s : Store} {turn : Action × Store}
    (h : turn ∈ p.turns me s) :
    s.history <:+ turn.2.history ∧ (turn.1.after me turn.2).history <:+ (p.alone me s).2.history := by
  induction p generalizing s with
  | done a => cases h
  | act a next ih =>
      rcases List.mem_cons.1 h with rfl | h
      · exact ⟨List.suffix_refl _, history_alone me _ _⟩
      · exact (ih _ h).imp_left (a.history_after me s).trans

/-- No provider of a container that is to be shunned runs, since that would be remembered. -/
theorem Heeds.runs_eq_nil {ε α : Type} {me : Thread} {s : Store} {c : Container} {x : Attempt ε α}
    {post : α → Store → Prop} (h : Heeds me (· = c.id) s x post) : c.runs (x.turns me s) = [] := by
  refine Container.runs_eq_nil.2 fun turn hturn => Option.eq_none_iff_forall_ne_some.2 fun k hk => ?_
  obtain ⟨tag, htag⟩ := Action.began?_eq_some.1 hk
  obtain ⟨hbefore, hafter⟩ := Process.history_of_mem_turns hturn
  rw [htag] at hafter
  have hchronicle : (x.eval me s).2.chronicle ⟨c.id, k⟩ = s.chronicle ⟨c.id, k⟩ := (h.shunned _ rfl).2
  have hle := (hbefore.filter (·.concerns ⟨c.id, k⟩)).length_le
  have hlt := (hafter.filter (·.concerns ⟨c.id, k⟩)).length_le
  change (List.filter _ (.began ⟨c.id, k⟩ :: turn.2.history)).length ≤ ((x.eval me s).2.chronicle ⟨c.id, k⟩).length at hlt
  rw [hchronicle, List.filter_cons_of_pos (by simp), List.length_cons, Store.chronicle] at hlt
  omega

/-! ### Providers that ask for what they declare -/

/-- The dependency that a request is for, if it is for a value or a handle. -/
def Request.dependency? : Request → Option Dependency
  | .resolve q => some q.dependency
  | .untyped k => some (.required k)
  | .requester => none

/-- Whether a step asks for nothing but the dependencies, and uses no lazy handle. -/
def Step.isModest (dependencies : List Dependency) : Step → Bool
  | .ask r _ _ => r.dependency?.all (· ∈ dependencies)
  | .use _ _ => false
  | .useInner _ _ _ => false
  | .nest _ _ _ _ => false
  | _ => true

/-- Whether a provider asks for nothing but what it declares, also when it hands on a value. -/
def BindingOf.isModest (b : Binding) : Bool :=
  match b.source with
  | .given _ => true
  | .recipe r => r.steps.all (·.isModest b.dependencies) && r.handsOn.all (.required · ∈ b.dependencies)

theorem Step.weight_of_isModest {ds : List Dependency} {step : Step} (h : step.isModest ds = true) :
    step.weight = 0 := by
  cases step <;> first | rfl | cases h

theorem weight_of_isModest {ds : List Dependency} {steps : List Step} (h : ∀ step ∈ steps, step.isModest ds = true) :
    Steps.weight steps = 0 := by
  induction steps with
  | nil => rfl
  | cons step steps ih =>
      obtain ⟨hstep, hsteps⟩ := List.forall_mem_cons.1 h
      rw [Steps.weight, Step.weight_of_isModest hstep, ih hsteps]

theorem Container.mem_keptKeys {c : Container} {k : Key} :
    k ∈ c.keptKeys ↔ ∃ b ∈ c.registry.bindings, b.isKept = true ∧ b.key = k := by
  simp [keptKeys, and_assoc]

theorem Container.key_mem_keptKeys {c : Container} {b : Binding} (hdistinct : c.registry.keys.Nodup)
    (hb : b ∈ c.registry.bindings) : b.key ∈ c.keptKeys ↔ b.isKept = true := by
  rw [mem_keptKeys]
  constructor
  · rintro ⟨b', hb', hkept, heq⟩
    have hlookup := Registry.lookup_of_mem hdistinct hb'
    rw [heq, Registry.lookup_of_mem hdistinct hb] at hlookup
    exact Option.some.inj hlookup ▸ hkept
  · exact fun hkept => ⟨b, hb, hkept, rfl⟩

section Needs

variable {r : Registry} {b : Binding} {k : Key}

theorem Registry.contains_of_needs {d : Key} (h : r.Needs k d) : r.contains k = true ∧ r.contains d = true := by
  obtain ⟨b, hlookup, -, hcontains⟩ := h
  exact ⟨by rw [contains, hlookup]; rfl, hcontains⟩

/-- What a dependency leads to is needed by the binding that declares it, if it is an own key. -/
theorem Registry.transGen_of_dependency (hlookup : r.lookup b.key = some b) {d : Dependency} (hd : d ∈ b.dependencies)
    (hlazy : d.isLazy = false) (hk : r.contains k = true) (h : ReflTransGen r.Needs d.key k) :
    TransGen r.Needs b.key k := by
  have hneeds (hcontains : r.contains d.key = true) : r.Needs b.key d.key :=
    ⟨b, hlookup, ⟨d, hd, rfl, hlazy⟩, hcontains⟩
  rcases h.cases_head with heq | ⟨m, hm, hrest⟩
  · exact .single (heq ▸ hneeds (heq ▸ hk))
  · exact .head' (hneeds (contains_of_needs hm).1) (.head hm hrest)

end Needs

/-! ### Runs of certain providers only -/

section RunsOnly

variable {ε ε' α β : Type} {me : Thread} {c : Container} {P Q : Key → Prop} {s t : Store}

/-- During an attempt, the only own providers that run are those of certain keys, within all that was under construction
before, and the places of values that are kept stay as they are. -/
structure RunsOnly (me : Thread) (c : Container) (P : Key → Prop) (s : Store) (x : Attempt ε α) : Prop where
  runs : ∀ turn ∈ x.turns me s, ∀ k ∈ turn.1.began? c.id, P k ∧ s.building me ⊆ turn.2.building me
  slots : ∀ k ∈ c.keptKeys, (x.eval me s).2.slots.slot ⟨c.id, k⟩ = s.slots.slot ⟨c.id, k⟩

namespace RunsOnly

variable {x : Attempt ε α}

/-- Another attempt that takes the same turns comes to the same store. -/
theorem congr (h : RunsOnly me c P s x) {y : Attempt ε' β} (hturns : y.turns me s = x.turns me s) :
    RunsOnly me c P s y where
  runs := hturns ▸ h.runs
  slots := by
    rw [y.eval_eq_reached, hturns, ← x.eval_eq_reached]
    exact h.slots

theorem mono (h : RunsOnly me c P s x) (himp : ∀ k, P k → Q k) : RunsOnly me c Q s x :=
  ⟨fun turn hturn k hk => (h.runs turn hturn k hk).imp_left (himp k), h.slots⟩

theorem of_runs_eq_nil (hruns : c.runs (x.turns me s) = [])
    (hslots : ∀ k ∈ c.keptKeys, (x.eval me s).2.slots.slot ⟨c.id, k⟩ = s.slots.slot ⟨c.id, k⟩) :
    RunsOnly me c P s x where
  runs turn hturn k hk := by
    rw [Container.runs_eq_nil.1 hruns turn hturn] at hk
    cases hk
  slots := hslots

theorem of_turns_eq_nil (h : x.turns me s = []) : RunsOnly me c P s x :=
  of_runs_eq_nil (by rw [h]; rfl) fun k _ => by rw [x.eval_eq_reached, h]; rfl

theorem of_heeds {post : α → Store → Prop} (h : Heeds me (· = c.id) s x post) : RunsOnly me c P s x :=
  of_runs_eq_nil h.runs_eq_nil fun _ _ => (h.shunned _ rfl).1

theorem perform {a : Action} (hrun : a.began? c.id = none) (hslots : (a.after me s).slots = s.slots) :
    RunsOnly me c P s (Attempt.perform a : Attempt ε a.Reply) :=
  of_runs_eq_nil (Container.runs_eq_nil.2 (by simpa using hrun)) fun _ _ => by
    rw [Attempt.eval_perform, ← Action.after, hslots]

protected theorem bind {f : α → Attempt ε β} (hx : RunsOnly me c P s x)
    (hf : ∀ a t, x.eval me s = (.ok a, t) → s.building me ⊆ t.building me ∧ RunsOnly me c P t (f a)) :
    RunsOnly me c P s (x >>= f) := by
  obtain ⟨hruns, hslots⟩ := hx
  rcases heval : x.eval me s with ⟨e | a, t⟩ <;> rw [heval] at hslots <;> constructor
  · simpa [Attempt.turns_bind, heval] using hruns
  · rwa [Attempt.eval_bind, heval]
  · rw [Attempt.turns_bind, heval]
    refine List.forall_mem_append.2 ⟨hruns, fun turn hturn k hk => ?_⟩
    obtain ⟨hbuilding, hrest⟩ := hf a t heval
    exact (hrest.runs turn hturn k hk).imp_right (List.Subset.trans hbuilding)
  · rw [Attempt.eval_bind, heval]
    exact fun k hk => ((hf a t heval).2.slots k hk).trans (hslots k hk)

end RunsOnly

end RunsOnly

/-! ### Requests of own providers -/

section Requests

variable {me : Thread} {c o : Container} {b : Binding} {s t : Store} {depth : Nat}

/-- The values that are to be kept are there for all own keys with the property. -/
def Container.Stocked (c : Container) (P : Key → Prop) (s : Store) : Prop :=
  ∀ k ∈ c.keptKeys, P k → ∃ v, s.slots.slot ⟨c.id, k⟩ = .ready v

theorem Container.Stocked.mono {P : Key → Prop} (h : c.Stocked P s) (hevolves : Evolves me s t) : c.Stocked P t :=
  fun k hk hP => (h k hk hP).imp fun v => hevolves.ready _ v

/-- Of the own providers, a request for a key that finds all kept values that the key leads to runs only such that the
key leads to, and whose values are not kept. -/
def Frugal (me : Thread) (c : Container) (depth : Nat) : Prop :=
  ∀ (s : Store) (k : Key), Here me (some depth) (fun _ => False) 0 s c →
    c.Stocked (ReflTransGen c.registry.Needs k) s →
      RunsOnly me c (fun j => j ∉ c.keptKeys ∧ c.registry.contains j = true ∧ ReflTransGen c.registry.Needs k j) s
        (requireWithin depth c k)

/-- The own keys whose values are not kept and that a key needs, also through others. -/
def Container.Passing (c : Container) (k j : Key) : Prop := j ∉ c.keptKeys ∧ TransGen c.registry.Needs k j

section Run

variable (hfrugal : Frugal me c depth) (hlookup : c.registry.lookup b.key = some b)
include hfrugal hlookup

theorem runsOnly_dependency (h : Here me (some depth) (fun _ => False) 0 s c)
    (hstocked : c.Stocked (TransGen c.registry.Needs b.key) s) {d : Dependency} (hd : d ∈ b.dependencies)
    (hlazy : d.isLazy = false) : RunsOnly me c (c.Passing b.key) s (requireWithin depth c d.key) := by
  have hneeds {k : Key} (hk : c.registry.contains k = true) (hleads : ReflTransGen c.registry.Needs d.key k) :
      TransGen c.registry.Needs b.key k := Registry.transGen_of_dependency hlookup hd hlazy hk hleads
  refine (hfrugal s d.key h fun k hk hleads => hstocked k hk (hneeds ?_ hleads)).mono fun k hk => ?_
  · obtain ⟨b', hb', -, rfl⟩ := Container.mem_keptKeys.1 hk
    exact Registry.contains_iff.2 (List.mem_map_of_mem hb')
  · exact ⟨hk.1, hneeds hk.2.1 hk.2.2⟩

/-- What an ancestor is asked for runs no own provider. -/
theorem runsOnly_request (h : Here me (some depth) (fun _ => False) 0 s c)
    (hstocked : c.Stocked (TransGen c.registry.Needs b.key) s) {a : Container} (hreaches : c.Reaches a)
    (requester : Option Key) {r : Request} (hr : ∀ d ∈ r.dependency?, d ∈ b.dependencies) :
    RunsOnly me c (c.Passing b.key) s (Handle.request (requireWithin depth) ⟨a, requester⟩ r) := by
  by_cases ha : a = c
  · subst ha
    cases r with
    | resolve q =>
        have hd : q.dependency ∈ b.dependencies := hr _ rfl
        rcases hlazy : q.dependency.isLazy with _ | _
        · exact (runsOnly_dependency hfrugal hlookup h hstocked hd hlazy).congr (turns_resolve hlazy)
        · have hpostpone : RunsOnly me a (a.Passing b.key) s
              (Attempt.postpone a q.dependency.key : Attempt Failure Lazy) := .perform rfl rfl
          exact hpostpone.congr (turns_resolve_lazy hlazy)
    | untyped k =>
        have hd : .required k ∈ b.dependencies := hr _ rfl
        exact (runsOnly_dependency hfrugal hlookup h hstocked hd rfl).congr (Attempt.turns_bind_of_nil fun _ _ => rfl)
    | requester => exact .of_turns_eq_nil rfl
  · exact .of_heeds (heeds_request (sound_requireWithin me depth) (heeds_requireWithin me _ depth)
      (h.above hreaches ha) requester r)

omit hfrugal hlookup in
theorem runsOnly_addConfig (s : Store) (p : Progress) (type : TypeInfo) (tag : String) :
    RunsOnly me c P s (p.addConfig type tag) := by
  refine .bind (.perform (a := .nextSerial) rfl rfl) ?_
  rintro serial _ ⟨⟩
  refine ⟨List.Subset.refl _, ?_⟩
  split
  · exact .of_turns_eq_nil rfl
  · refine .bind (.perform (a := .tell _) rfl rfl) ?_
    rintro _ _ ⟨⟩
    exact ⟨List.Subset.refl _, .of_turns_eq_nil rfl⟩

omit hfrugal hlookup in
theorem runsOnly_mint (s : Store) (o : Container) (k : Key) (r : Recipe Step) (p : Progress) (serial : Nat) :
    RunsOnly me c P s (r.mint o k p serial) := by
  unfold Recipe.mint
  split
  · refine .bind (.perform (a := .numberConfigs) rfl rfl) ?_
    rintro id _ ⟨⟩
    exact ⟨List.Subset.refl _, .of_turns_eq_nil rfl⟩
  · exact .of_turns_eq_nil rfl

theorem runsOnly_step (h : Here me (some depth) (fun _ => False) 0 s c)
    (hstocked : c.Stocked (TransGen c.registry.Needs b.key) s) (requester : Option Key) (run : Nat) (p : Progress)
    {step : Step} (hmodest : step.isModest b.dependencies = true) :
    RunsOnly me c (c.Passing b.key) s (step.perform (requireWithin depth) ⟨c, requester⟩ run p) := by
  cases step with
  | fail message runs =>
      rw [Step.perform]
      split <;> exact .of_turns_eq_nil rfl
  | panic message runs =>
      rw [Step.perform]
      split <;> exact .of_turns_eq_nil rfl
  | pause => exact .of_turns_eq_nil rfl
  | meet gate count =>
      refine .bind (.perform (a := .arrive gate) rfl rfl) fun _ t ht => ⟨?_, ?_⟩
      · cases ht
        exact List.Subset.refl _
      · refine .bind (.perform (a := .await gate count) rfl ?_) fun _ u hu => ⟨?_, .of_turns_eq_nil rfl⟩
        · exact congrArg (fun outcome => outcome.2.slots) (Attempt.eval_await (ε := Failure) gate count me t)
        · obtain rfl : t = u := congrArg Prod.snd ((Attempt.eval_await gate count me t).symm.trans hu)
          exact List.Subset.refl _
  | ask r path catches =>
      have hr : ∀ d ∈ r.dependency?, d ∈ b.dependencies := by
        simpa [Step.isModest, Option.all_eq_true] using hmodest
      cases path with
      | none => exact (runsOnly_request hfrugal hlookup h hstocked (.refl c) requester hr).congr (turns_pursue p _ _)
      | some path =>
          rw [Step.perform]
          split
          · exact .of_turns_eq_nil rfl
          · next a ha =>
            exact (runsOnly_request hfrugal hlookup h hstocked (Container.reaches_of_ancestor? ha) none hr).congr
              (turns_pursue p _ _)
  | use index catches => cases hmodest
  | useInner value index catches => cases hmodest
  | addConfig type tag => exact runsOnly_addConfig s p type tag
  | nest drafts eager r catches => cases hmodest

theorem runsOnly_steps (h : Here me (some depth) (fun _ => False) 0 s c)
    (hstocked : c.Stocked (TransGen c.registry.Needs b.key) s) (requester : Option Key) (run : Nat) {p : Progress}
    (hp : p.Leads me (some depth) (fun _ => False) s) {steps : List Step}
    (hmodest : ∀ step ∈ steps, step.isModest b.dependencies = true) :
    RunsOnly me c (c.Passing b.key) s (Steps.perform (requireWithin depth) ⟨c, requester⟩ run p steps) := by
  induction steps generalizing s p with
  | nil => exact .of_turns_eq_nil rfl
  | cons step steps ih =>
      obtain ⟨hstep, hsteps⟩ := List.forall_mem_cons.1 hmodest
      refine (runsOnly_step hfrugal hlookup h hstocked requester run p hstep).bind fun p' t ht => ?_
      have hevolves := (sound_step (sound_requireWithin me depth) h.sheltered.consistent h.near.hasBuilt requester run p
        step).evolves
      rw [ht] at hevolves
      obtain ⟨hhere, hp'⟩ := h.stepped hp (Step.weight_of_isModest hstep) ht
      exact ⟨hevolves.building ▸ List.Subset.refl _, ih hhere (hstocked.mono hevolves) hp' hsteps⟩

/-- In the run of an own provider that finds what it needs only providers that pass values on run. -/
theorem runsOnly_carryOut {weight : Nat} (h : Here me (some depth) (fun _ => False) weight s c)
    (hstocked : c.Stocked (TransGen c.registry.Needs b.key) s) {r : Recipe Step} (hsource : b.source = .recipe r)
    (hmodest : b.isModest = true) (run : Nat) :
    RunsOnly me c (c.Passing b.key) s (r.carryOut (requireWithin depth) c b.key run) := by
  obtain ⟨hsteps, hhandsOn⟩ : (∀ step ∈ r.steps, step.isModest b.dependencies = true) ∧
      ∀ other ∈ r.handsOn, .required other ∈ b.dependencies := by
    simpa [BindingOf.isModest, hsource, Option.all_eq_true] using hmodest
  have hhere := h.lighten (Nat.zero_le _)
  have hleads : Progress.start.Leads me (some depth) (fun _ => False) s := nofun
  refine (runsOnly_steps hfrugal hlookup hhere hstocked (some b.key) run hleads hsteps).bind fun p t ht => ?_
  have hsound := sound_steps (sound_requireWithin me depth) hhere.sheltered.consistent hhere.near.hasBuilt (some b.key)
    run .start r.steps
  have hheeds := heeds_steps (sound_requireWithin me depth) (heeds_requireWithin me (fun _ => False) depth) hhere
    (some b.key) run hleads (Nat.le_of_eq (weight_of_isModest hsteps))
  obtain ⟨hconsistent, hevolves, -⟩ := hsound
  have hheld := hheeds.held
  rw [ht] at hconsistent hevolves hheld
  refine ⟨hevolves.building ▸ List.Subset.refl _, .bind (.perform (a := .nextSerial) rfl rfl) ?_⟩
  rintro serial _ ⟨⟩
  refine ⟨List.Subset.refl _, ?_⟩
  have halike : Alike t t.nextSerial.1 := ⟨rfl, rfl, rfl, rfl, rfl⟩
  split
  · next other hother =>
    have hlast := hhere.mono (hhere.sheltered.mono (halike.consistent hconsistent) (hevolves.trans halike.evolves) hheld)
      (hevolves.trans halike.evolves) hheld
    exact runsOnly_dependency hfrugal hlookup hlast (hstocked.mono (hevolves.trans halike.evolves))
      (hhandsOn other hother) rfl
  · exact runsOnly_mint _ c b.key r p _

end Run

/-! ### Constructions of own bindings -/

section Openable

variable {r : Recipe Step}

theorem runs_wayIn (s : Store) (me : Thread) (c : Container) (b : Binding) (r : Recipe Step) :
    c.runs (s.wayIn me c b r) = [b.key] := by
  by_cases hkept : b.isKept = true <;> simp [Container.runs, Action.began?, Container.place, Store.wayIn, hkept]

theorem runs_wayOut (t : Store) (c : Container) (b : Binding) (result : Except (Stop Failure) Value) :
    c.runs (t.wayOut c b result) = [] := by
  by_cases hkept : b.isKept = true <;> rcases result with e | v <;>
    simp [Container.runs, Action.began?, Store.wayOut, hkept]

theorem building_of_mem_wayIn (hplace : c.place b ∉ s.building me) {turn : Action × Store}
    (hturn : turn ∈ s.wayIn me c b r) {k : Key} (hk : k ∈ turn.1.began? c.id) :
    k = b.key ∧ turn.2.building me = s.building me ++ [c.place b] := by
  rw [Store.wayIn, ← List.cons_append, List.mem_append] at hturn
  rcases hturn with hturn | hturn
  · split at hturn <;> simp only [List.mem_cons, List.not_mem_nil, or_false] at hturn
    · rcases hturn with rfl | rfl <;> cases hk
    · obtain rfl := hturn
      cases hk
  · simp only [List.mem_cons, List.not_mem_nil, or_false] at hturn
    rcases hturn with rfl | rfl
    · cases hk
    · obtain ⟨tag, htag⟩ := Action.began?_eq_some.1 hk
      cases htag
      exact ⟨rfl, Store.building_entered hplace⟩

/-- A request for an own key runs the provider of the key, and others only within that run and for certain keys. -/
structure Encloses (me : Thread) (c : Container) (P : Key → Prop) (s : Store) (b : Binding)
    (x : Attempt Failure Value) : Prop where
  runs : ∃ inner, c.runs (x.turns me s) = b.key :: inner ∧ ∀ k ∈ inner, P k
  turns : ∀ turn ∈ x.turns me s, ∀ k ∈ turn.1.began? c.id,
    k = b.key ∧ turn.2.building me = s.building me ++ [c.place b] ∨
      P k ∧ s.building me ++ [c.place b] ⊆ turn.2.building me
  slots : ∀ k ∈ c.keptKeys, k ≠ b.key → (x.eval me s).2.slots.slot ⟨c.id, k⟩ = s.slots.slot ⟨c.id, k⟩

theorem Container.Stocked.opened {P : Key → Prop} (h : c.Stocked P s) (hs : Consistent me s)
    (hopenable : Openable me s c b r) : c.Stocked P (s.opened me c b r).1 := by
  intro k hk hP
  obtain ⟨v, hv⟩ := h k hk hP
  have hne : (⟨c.id, k⟩ : Address) ≠ c.place b := by
    intro heq
    rw [heq, hopenable.slot] at hv
    cases hv
  exact ⟨v, ((hopenable.touches hs).slot _ hne).trans hv⟩

theorem encloses (hfrugal : Frugal me c depth) (h : Here me (some (depth + 1)) (fun _ => False) 0 s c)
    (howner : c.owner? b.key = some (c, b)) (hopenable : Openable me s c b r)
    (hstocked : c.Stocked (TransGen c.registry.Needs b.key) s) (hmodest : b.isModest = true) :
    Encloses me c (c.Passing b.key) s b (c.requireWith (requireWithin depth) b.key) := by
  have hs := h.sheltered.consistent
  have hopened := h.opened hopenable
  have hrun := runsOnly_carryOut hfrugal hopenable.lookup hopened (hstocked.opened hs hopenable) hopenable.source hmodest
    (s.opened me c b r).2
  obtain ⟨ht, hevolves, -⟩ := sound_carryOut (sound_requireWithin me depth) hopened.sheltered.consistent
    hopened.near.hasBuilt b.key r (s.opened me c b r).2
  have heval := eval_produce_recipe (requireWithin depth) hopenable.place hopenable.source hopenable.slot hs.unwaited
  obtain ⟨tail, hturns, htail⟩ : ∃ tail, (c.requireWith (requireWithin depth) b.key).turns me s =
      s.wayIn me c b r ++ (r.carryOut (requireWithin depth) c b.key _).turns me (s.opened me c b r).1 ++ tail ∧
        c.runs tail = [] := by
    rw [turns_requireWith howner,
      turns_produce_recipe _ hopenable.place hopenable.source hopenable.slot hs.unwaited, List.append_assoc]
    refine ⟨_, rfl, ?_⟩
    rw [Container.runs_append, runs_wayOut, List.nil_append]
    split <;> rfl
  constructor
  case runs =>
    refine ⟨_, by rw [hturns, Container.runs_append, Container.runs_append, runs_wayIn, htail, List.append_nil]; rfl,
      fun k hk => ?_⟩
    obtain ⟨turn, hturn, hk⟩ := List.mem_filterMap.1 hk
    exact (hrun.runs turn hturn k hk).1
  case turns =>
    intro turn hturn k hk
    rw [hturns] at hturn
    rcases List.mem_append.1 hturn with hturn | hturn
    · rcases List.mem_append.1 hturn with hturn | hturn
      · exact .inl (building_of_mem_wayIn hopenable.place hturn hk)
      · exact .inr (building_opened (r := r) hopenable.place ▸ hrun.runs turn hturn k hk)
    · rw [Container.runs_eq_nil.1 htail turn hturn] at hk
      cases hk
  case slots =>
    intro k hk hne
    have hne : (⟨c.id, k⟩ : Address) ≠ c.place b := fun heq => hne (congrArg Address.key heq)
    have hbefore := (hopenable.touches hs).slot _ hne
    rw [eval_requireWith howner, heval]
    have hslots := hrun.slots k hk
    rcases hresult : (r.carryOut (requireWithin depth) c b.key (s.opened me c b r).2).eval me (s.opened me c b r).1 with
      ⟨e | v, t⟩ <;> rw [hresult] at ht hevolves hslots
    · exact ((hopenable.touches_closed hs ht hevolves (.error e)).slot _ hne).trans (hslots.trans hbefore)
    · exact ((hopenable.touches_closed hs ht hevolves (.ok v)).slot _ hne).trans (hslots.trans hbefore)

end Openable

/-- A request that finds a value where it is. -/
theorem runs_of_answered {require : Lookup} {place : Address} {v : Value} {e : Event}
    (howner : c.owner? b.key = some (o, b)) (hplace : place ∉ s.building me)
    (heval : (o.produce require b).eval me s = (.ok v, s.passed me place e))
    (hruns : c.runs ((o.produce require b).turns me s) = []) :
    c.runs ((c.requireWith require b.key).turns me s) = [] ∧
      ((c.requireWith require b.key).eval me s).2.slots = s.slots := by
  rw [turns_requireWith howner, eval_requireWith howner, heval, Container.runs_append, hruns]
  refine ⟨rfl, ?_⟩
  rw [Store.passed, Store.enter_of_not_mem hplace]
  rfl

section Own

variable (hfrugal : Frugal me c depth) (h : Here me (some (depth + 1)) (fun _ => False) 0 s c)
  (howner : c.owner? b.key = some (c, b)) (hmodest : b.isModest = true)
include hfrugal h howner hmodest

/-- A request for an own key runs no own provider and puts nothing in a place, or it runs the one that is asked for. -/
theorem runs_own (hstocked : c.Stocked (TransGen c.registry.Needs b.key) s) :
    (c.runs ((c.requireWith (requireWithin depth) b.key).turns me s) = [] ∧
        ((c.requireWith (requireWithin depth) b.key).eval me s).2.slots = s.slots) ∨
      (∃ r, Openable me s c b r) ∧
        Encloses me c (c.Passing b.key) s b (c.requireWith (requireWithin depth) b.key) := by
  have hs := h.sheltered.consistent
  by_cases hplace : c.place b ∈ s.building me
  · left
    rw [turns_requireWith howner, eval_requireWith howner, turns_produce_refused hplace, eval_produce_refused hplace]
    exact ⟨rfl, rfl⟩
  have hlookup := (Container.owner?_spec howner).2
  rcases hsource : b.source with v | r
  · refine .inl (runs_of_answered howner hplace (eval_produce_given hplace hsource) ?_)
    rw [turns_produce_given hplace hsource]
    rfl
  rcases hs.slot_of_not_mem hplace with hslot | ⟨v, hslot⟩
  · have hopenable : Openable me s c b r := ⟨h.near.hasBuilt, hlookup, hsource, hplace, hslot⟩
    exact .inr ⟨⟨r, hopenable⟩, encloses hfrugal h howner hopenable hstocked hmodest⟩
  · have hsettled := hs.settled c (c.place b) b h.near.hasBuilt ⟨rfl, hlookup⟩
    rw [hslot] at hsettled
    have hkept := hsettled.isKept v rfl
    refine .inl (runs_of_answered howner hplace (eval_produce_ready hplace hkept hslot hs.unwaited) ?_)
    rw [turns_produce_ready hplace hkept hslot hs.unwaited]
    rfl

end Own

theorem frugal (me : Thread) (hmodest : ∀ b ∈ c.registry.bindings, b.isModest = true) (depth : Nat) :
    Frugal me c depth := by
  induction depth with
  | zero => exact fun s k h _ => absurd (h.near.fits 0 rfl) (Nat.not_lt_zero _)
  | succ depth ih =>
      intro s k h hstocked
      change RunsOnly me c _ s (c.requireWith (requireWithin depth) k)
      rcases howner : c.owner? k with _ | ⟨o, b⟩
      · refine .of_runs_eq_nil ?_ fun _ _ => ?_
        · rw [turns_requireWith_missing howner]
          rfl
        · rw [eval_requireWith_missing howner]
          rfl
      obtain rfl := Container.key_of_owner? howner
      obtain ⟨hreaches, hlookup⟩ := Container.owner?_spec howner
      by_cases ho : o = c
      case neg =>
        exact .of_heeds (heeds_answer (sound_requireWithin me depth) (heeds_requireWithin me _ depth)
          (h.above hreaches ho) h.near.hasBuilt howner)
      subst ho
      have hb := List.mem_of_find?_eq_some hlookup
      have hstocked' : o.Stocked (TransGen o.registry.Needs b.key) s :=
        fun k hk hleads => hstocked k hk hleads.to_reflTransGen
      rcases runs_own ih h howner (hmodest b hb) hstocked' with ⟨hruns, hslots⟩ | ⟨⟨r, hopenable⟩, hencloses⟩
      · exact .of_runs_eq_nil hruns fun _ _ => by rw [hslots]
      -- a value that is kept would be there
      have hkey : b.key ∉ o.keptKeys := by
        intro hk
        obtain ⟨v, hv⟩ := hstocked b.key hk .refl
        exact Slot.noConfusion (hopenable.slot.symm.trans hv)
      refine ⟨fun turn hturn k hk => ?_, fun k hk => hencloses.slots k hk fun heq => hkey (heq ▸ hk)⟩
      rcases hencloses.turns turn hturn k hk with ⟨rfl, hbuilding⟩ | ⟨⟨hpassing, hleads⟩, hbuilding⟩
      · refine ⟨⟨hkey, ?_, .refl⟩, hbuilding ▸ List.subset_append_left _ _⟩
        rw [Registry.contains, hlookup]
        rfl
      · refine ⟨⟨hpassing, ?_, hleads.to_reflTransGen⟩, fun p hp => hbuilding (List.mem_append_left _ hp)⟩
        obtain ⟨m, -, hneeds⟩ := TransGen.tail'_iff.1 hleads
        exact (Registry.contains_of_needs hneeds).2

end Requests

end Injection
