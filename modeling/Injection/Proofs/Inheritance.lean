import Injection.Proofs.Configs
import Injection.Proofs.Handover
import Injection.Proofs.Ownership

/-!
Configs below the container that brings them. A set of configs is given as one value, so a thread that asks for a config
goes into the place of the set and comes out with it, whatever it is constructing and whatever other threads do. What it
finds there depends on nothing but the set that is in effect for the container that it asks, and the container is the one
it asks from outside, or the one that owns the binding whose provider asks.
-/

namespace Injection

open Attempt

/-! ### Processes that go straight to their ends -/

namespace Process

variable {α β : Type} {p q : Process α} {result : α} {n : Nat}

/-- A process comes to its result in so many actions. None of them has to wait, and it does not matter how any of them is
answered. -/
inductive Straight (result : α) : Nat → Process α → Prop
  | done : Straight result 0 (done result)
  | act {n : Nat} {a : Action} {next : a.Reply → Process α} (ready : ∀ me s, (a.perform me s).2 ≠ none)
      (h : ∀ r, Straight result n (next r)) : Straight result (n + 1) (act a next)

/-- A process begins with an action, and if that is answered as expected, it comes straight to its result. -/
def Expects (p : Process α) (a : Action) (r : a.Reply) (result : α) (n : Nat) : Prop :=
  ∃ next, p = act a next ∧ (next r).Straight result n

theorem Straight.bind {m : Nat} (h : p.Straight result n) {f : α → Process β} {b : β}
    (hf : (f result).Straight b m) : (p.bind f).Straight b (n + m) := by
  induction h with
  | done => exact (Nat.zero_add m).symm ▸ hf
  | @act n a next ready h ih => exact (Nat.succ_add n m).symm ▸ .act ready ih

theorem Expects.bind {a : Action} {r : a.Reply} {m : Nat} (h : p.Expects a r result n) {f : α → Process β} {b : β}
    (hf : (f result).Straight b m) : (p.bind f).Expects a r b (n + m) := by
  obtain ⟨next, rfl, hnext⟩ := h
  exact ⟨fun r => (next r).bind f, rfl, hnext.bind hf⟩

end Process

namespace Household

variable {α : Type} {w v : Household} {me : Thread} {p q : Process α} {result : α} {n : Nat}

/-- A part of a process comes to just one result. At any time the thread needs at most so many turns more. -/
structure EndsIn (w : Household) (me : Thread) (p : Process α) (result : α) (turns : Nat) : Prop where
  only : ∀ {a v}, Pursues me Anything p w (.done a) v → a = result
  soon : ∀ {q v}, Pursues me Anything p w q v →
    ∃ n ≤ turns, Pursues me Anything p w (.done result) (v.after (List.replicate n me))

theorem Pursues.straight {others : Household → Household → Prop} (h : Pursues me others p w q v)
    (hp : p.Straight result n) : ∃ m ≤ n, q.Straight result m := by
  induction h with
  | start => exact ⟨n, Nat.le_refl n, hp⟩
  | act _ _ ih =>
      obtain ⟨m, hm, _ | ⟨_, hnext⟩⟩ := ih
      exact ⟨_, Nat.le_of_succ_le hm, hnext _⟩
  | wait _ _ ih => exact ih
  | others _ _ _ _ ih => exact ih

theorem Pursues.finishes {others : Household → Household → Prop} (h : Pursues me others p w q v)
    (hq : q.Straight result n) : Pursues me others p w (.done result) (v.after (List.replicate n me)) := by
  induction hq generalizing v with
  | done => exact h
  | act ready _ ih =>
      obtain ⟨r, hreply⟩ := Option.ne_none_iff_exists'.1 (ready me v.store)
      exact ih r (h.act hreply)

/-- If it is certain how the first action is answered, it is certain how the part ends. -/
theorem EndsIn.of_expects {a : Action} {r : a.Reply} (hw : w.Faces me p) (hp : p.Expects a r result n)
    (hreply : ∀ v next, w.Leads v → v.team.threads me = .act a next → (a.perform me v.store).2 = some r) :
    w.EndsIn me p result (n + 1) := by
  obtain ⟨next, rfl, hnext⟩ := hp
  obtain ⟨rest, hthread⟩ := hw.before
  have hsure {v : Household} (h : Pursues me Anything (.act a next) w (.act a next) v) :
      (a.perform me v.store).2 = some r := hreply v _ h.leads (h.threads hthread)
  -- the thread waits for its first action, or it has the expected reply and nothing makes a difference any more
  have hcases {q : Process α} {v : Household} (h : Pursues me Anything (.act a next) w q v) :
      q = .act a next ∨ ∃ m ≤ n, q.Straight result m := by
    rcases h.acted hw with heq | ⟨u, r', -, hu, hr', hrest⟩
    · exact .inl heq
    · obtain rfl : r = r' := Option.some.inj ((hsure hu).symm.trans hr')
      exact .inr (hrest.straight hnext)
  constructor
  case only =>
    intro a v h
    rcases hcases h with heq | ⟨m, -, hdone⟩
    · cases heq
    · cases hdone
      rfl
  case soon =>
    intro q v h
    rcases hcases h with rfl | ⟨m, hm, hq⟩
    · exact ⟨n + 1, Nat.le_refl _, (h.act (hsure h)).finishes hnext⟩
    · exact ⟨m, Nat.le_succ_of_le hm, h.finishes hq⟩

end Household

/-! ### Requests for what is given -/

section

variable {require : Lookup} {c o : Container} {b : Binding} {k : Key} {x : Value} {type : TypeInfo}

theorem Attempt.expects_bind {ε α β : Type} {y : Attempt ε α} {f : α → Attempt ε β} {a : Action} {r : a.Reply} {v : α}
    {result : Except (Stop ε) β} {n m : Nat} (hy : y.run.Expects a r (.ok v) n) (hf : (f v).run.Straight result m) :
    (y >>= f).run.Expects a r result (n + m) := hy.bind hf

/-- Who goes where a value is given says what it is about and comes out with it. -/
theorem expects_produce (require : Lookup) (o : Container) (hgiven : b.source = .given x) :
    (o.produce require b).run.Expects (.enter (o.place b)) true (.ok x) 2 := by
  have hkept : ¬ b.isKept = true := by simp [BindingOf.isKept, BindingOf.isInstance, hgiven]
  have hinside : (closing (.leave (o.place b))
      (if b.isKept then o.obtain require b else o.construct require b)).run.Straight (.ok x) 2 := by
    rw [if_neg hkept, Container.construct, hgiven]
    exact .act (fun _ _ => Option.some_ne_none _) fun _ => .act (fun _ _ => Option.some_ne_none _) fun _ => .done
  exact ⟨_, rfl, hinside⟩

/-- Who asks for a key under which a value is given notes the answer as well. -/
theorem Lookup.Direct.expects_typed (h : require.Direct) (howner : c.owner? k = some (o, b)) (hgiven : b.source = .given x)
    (htype : x.type = k.type) : (require.typed c k).run.Expects (.enter (o.place b)) true (.ok x) 3 := by
  obtain ⟨inner, hinner⟩ := h c k
  have hasked : (require c k).run.Expects (.enter (o.place b)) true (.ok x) 3 := by
    rw [hinner, Container.requireWith, howner]
    refine expects_bind (m := 1) (expects_produce inner o hgiven) ?_
    exact .act (fun _ _ => Option.some_ne_none _) fun _ => .done
  refine expects_bind (m := 0) hasked ?_
  rw [if_pos htype]
  exact .done

namespace Configs

/-- What a request for a config comes to where the set is. -/
def answer (s : Configs) (type : TypeInfo) : Except (Stop Failure) Resolved :=
  match s.find? type with
  | some config => .ok (.value config.value)
  | none => .error (.failed (.because (.missing (.ofType type))))

variable {offers : List (Option Config)}

theorem answer_of_some {config : Config} (h : first? offers type = some config) :
    (empty.takeAll offers).answer type = .ok (.value config.value) := by
  rw [answer, find?_takeAll, h]
  rfl

theorem answer_of_none (h : first? offers type = none) :
    (empty.takeAll offers).answer type = .error (.failed (.because (.missing (.ofType type)))) := by
  rw [answer, find?_takeAll, h]
  rfl

theorem missing_ne (htype : type ≠ .configs) : (.error (.failed (.because (.missing (.ofType type)))) :
    Except (Stop Failure) Resolved) ≠ .error (.failed (.because (.missing .configs))) :=
  fun heq => htype (by simpa [Failure.because, Key.configs, Key.ofType] using heq)

theorem answer_ne (s : Configs) (htype : type ≠ .configs) :
    s.answer type ≠ .error (.failed (.because (.missing .configs))) := by
  unfold answer
  split
  · nofun
  · exact missing_ne htype

end Configs

theorem Lookup.Direct.expects_config (h : require.Direct) {s : Configs} {id : Nat}
    (howner : c.owner? .configs = some (o, s.binding id)) :
    ((Resolver.config type).resolve require c).run.Expects (.enter (o.place (s.binding id))) true (s.answer type) 3 := by
  rw [Resolver.resolve, Lookup.config_eq, bind_assoc]
  refine expects_bind (m := 0) (h.expects_typed howner rfl rfl) ?_
  unfold Configs.answer
  show Process.Straight _ 0 (ExceptT.run ((match s.find? type with
    | some config => pure config.value
    | none => fail _) >>= _))
  cases s.find? type with
  | some config => exact .done
  | none => exact .done

/-- Who asks for a config where no set is in sight just says so. -/
theorem exists_expects (htype : type ≠ .configs) (howner : c.owner? .configs = none) :
    ∃ e, ∀ require : Lookup, require.Direct → ((Resolver.config type).resolve require c).run.Expects (.tell e) ()
      (.error (.failed (.because (.missing .configs)))) 0 := by
  refine ⟨⟨.error, "Tried to require an unbound key: " ++ Key.configs.text⟩, fun require h => ?_⟩
  rw [Resolver.Single.of_unowned (.config type htype) h howner]
  exact ⟨_, rfl, .done⟩

/-- What a step of a provider makes of the result of its request. -/
def Progress.pursued (p : Progress) (catches : Bool) : Except (Stop Failure) Resolved → Except (Stop Failure) Progress
  | .ok r => .ok (p.take r)
  | .error (.failed f) => if catches then .ok (p.note (.failed f)) else .error (.failed f)
  | .error (.panicked message) => .error (.panicked message)
  | .error .exhausted => .error .exhausted

theorem run_pursue (p : Progress) (catches : Bool) (request : Attempt Failure Resolved) :
    (p.pursue catches request).run = request.run.bind fun result => .done (p.pursued catches result) := by
  refine (Process.bind_assoc _ _ _).trans (congrArg _ (funext fun result => ?_))
  rcases result with (f | message | _) | r
  · cases catches <;> rfl
  all_goals rfl

end

/-! ### Sets that were installed -/

/-- A container has a set of configs of its own, to which these were offered. -/
def Container.Brings (o : Container) (offers : List (Option Config)) : Prop :=
  ∃ id, o.registry.lookup .configs = some ((Configs.empty.takeAll offers).binding id)

/-- What a container and its ancestors have under the key of the sets of configs are sets that were installed. -/
def Container.Installed (c : Container) : Prop :=
  ∀ a, c.Reaches a → a.registry.contains .configs = true → ∃ offers, a.Brings offers

theorem Container.Installed.of_parents {c : Container}
    (hown : c.registry.contains .configs = true → ∃ offers, c.Brings offers) (hparents : ∀ p ∈ c.parents, p.Installed) :
    c.Installed := by
  intro a hreaches hcontains
  cases hreaches with
  | refl => exact hown hcontains
  | up hp hreaches => exact hparents _ hp a hreaches hcontains

namespace Household

variable {w v : Household} {me : Thread} {c o : Container} {type : TypeInfo} {offers : List (Option Config)}

/-- What comes of all requests for a config that a thread is about to make at a container. The lookups that are direct are
those from outside, and those of providers to any depth. -/
structure Answers (w : Household) (c : Container) (type : TypeInfo) (result : Except (Stop Failure) Resolved)
    (turns : Nat) : Prop where
  /-- The thread asks the container itself, with the handle that it is given. -/
  asked : ∀ {me : Thread} {require : Lookup} {requester : Option Key}
    {next : Except (Stop Failure) Resolved → Process (Option Upshot)}, require.Direct →
    w.team.threads me = (Handle.request require ⟨c, requester⟩ (.resolve (.config type))).run.bind next →
    w.EndsIn me (Handle.request require ⟨c, requester⟩ (.resolve (.config type))).run result turns
  /-- A provider of the container asks in one of its steps. -/
  within : ∀ {me : Thread} {require : Lookup} {k : Key} {run : Nat} {p : Progress} {catches : Bool}
    {next : Except (Stop Failure) Progress → Process (Option Upshot)}, require.Direct →
    w.team.threads me =
      (Step.perform require ⟨c, some k⟩ run p (.ask (.resolve (.config type)) none catches)).run.bind next →
    w.EndsIn me (Step.perform require ⟨c, some k⟩ run p (.ask (.resolve (.config type)) none catches)).run
      (p.pursued catches result) turns

theorem Answers.of_expects (hw : w.InOrder) {a : Action} {r : a.Reply} {result : Except (Stop Failure) Resolved} {n : Nat}
    (hexpects : ∀ require : Lookup, require.Direct → ((Resolver.config type).resolve require c).run.Expects a r result n)
    (hreply : ∀ me v next, w.Leads v → v.team.threads me = .act a next → (a.perform me v.store).2 = some r) :
    w.Answers c type result (n + 1) where
  asked := by
    intro me require requester next hrequire hp
    exact .of_expects ⟨hw, next, hp⟩ (hexpects require hrequire) (hreply me)
  within := by
    intro me require k run p catches next hrequire hp
    refine .of_expects ⟨hw, next, hp⟩ ?_ (hreply me)
    show (p.pursue catches ((Resolver.config type).resolve require c)).run.Expects a r _ n
    rw [run_pursue]
    exact (hexpects require hrequire).bind (m := 0) .done

/-- Whoever asks for a config is let in where the set is, and comes out with what the set comes to. -/
theorem answers_of_owned (hw : w.Reached) (hc : w.store.HasBuilt c) {id : Nat} {s : Configs}
    (howner : c.owner? .configs = some (o, s.binding id)) (type : TypeInfo) : w.Answers c type (s.answer type) 4 := by
  obtain ⟨hreaches, hlookup⟩ := Container.owner?_spec howner
  have ho : w.store.HasBuilt o := hw.inOrder.coherent.hasBuilt_of_reaches hc hreaches
  refine .of_expects hw.inOrder (fun require hrequire => hrequire.expects_config howner) fun me v next hleads hp => ?_
  have hv : v.Reached := Leads.trans hw hleads
  have hown : o.Owns (o.place (s.binding id)) (s.binding id) := ⟨rfl, hlookup⟩
  exact congrArg some (hv.admits hp ((hleads.lasts hw.inOrder).hasBuilt ho) hown rfl)

theorem answers_of_unowned (hw : w.Reached) (htype : type ≠ .configs) (howner : c.owner? .configs = none) :
    w.Answers c type (.error (.failed (.because (.missing .configs)))) 1 := by
  obtain ⟨e, hexpects⟩ := exists_expects htype howner
  exact .of_expects hw.inOrder hexpects fun _ _ _ _ _ => rfl

/-- A thread is about to ask a container for a config, and this is what it comes to in the end. -/
def Fetches (w : Household) (me : Thread) (c : Container) (type : TypeInfo) (result : Except (Stop Failure) Resolved)
    (v : Household) : Prop :=
  ∃ (require : Lookup) (requester : Option Key) (next : Except (Stop Failure) Resolved → Process (Option Upshot)),
    require.Direct ∧
    w.team.threads me = (Handle.request require ⟨c, requester⟩ (.resolve (.config type))).run.bind next ∧
    Pursues me Anything (Handle.request require ⟨c, requester⟩ (.resolve (.config type))).run w (.done result) v

theorem Fetches.eq {result answer : Except (Stop Failure) Resolved} {turns : Nat} (h : w.Fetches me c type result v)
    (hanswers : w.Answers c type answer turns) : result = answer := by
  obtain ⟨require, requester, next, hrequire, hp, hpursues⟩ := h
  exact (hanswers.asked hrequire hp).only hpursues

/-- Configs as they are found from a container, in a state of a program. -/
structure FindsConfig (w : Household) (c : Container) (type : TypeInfo) : Prop where
  /-- Whatever was offered to a set, what it holds was offered first. -/
  sets : ∀ offers, (Configs.empty.takeAll offers).HoldsFirst offers
  /-- The first config of the type that was offered to the set in effect is what all requests come to. -/
  found : ∀ {o : Container} {offers : List (Option Config)} {config : Config}, c.effective? .configs = some o →
    o.Brings offers → Configs.first? offers type = some config → w.Answers c type (.ok (.value config.value)) 4
  /-- Without one they fail, whatever is in sets further up, -/
  lacking : ∀ {o : Container} {offers : List (Option Config)}, c.effective? .configs = some o → o.Brings offers →
    Configs.first? offers type = none → w.Answers c type (.error (.failed (.because (.missing (.ofType type))))) 4
  /-- and without a set as well. -/
  unseen : c.effective? .configs = none → w.Answers c type (.error (.failed (.because (.missing .configs)))) 1
  /-- So a request fails as missing the set if that is out of sight, and only then, -/
  missingSet : ∀ {me : Thread} {result : Except (Stop Failure) Resolved} {v : Household}, w.Fetches me c type result v →
    (result = .error (.failed (.because (.missing .configs))) ↔ c.graph.contains .configs = false)
  /-- and as missing the config if the set in effect has none of the type. -/
  missingConfig : ∀ {me : Thread} {result : Except (Stop Failure) Resolved} {v : Household}, w.Fetches me c type result v →
    (result = .error (.failed (.because (.missing (.ofType type)))) ↔
      ∃ o offers, c.effective? .configs = some o ∧ o.Brings offers ∧ Configs.first? offers type = none)

/-- The set that is in effect for a container decides what requests for configs come to. -/
theorem answers_of_effective? (hw : w.Reached) (hc : w.store.HasBuilt c) (ho : c.effective? .configs = some o)
    (hbrings : o.Brings offers) (type : TypeInfo) :
    w.Answers c type ((Configs.empty.takeAll offers).answer type) 4 := by
  obtain ⟨id, hlookup⟩ := hbrings
  obtain ⟨b, hown, howner, -⟩ := (hw.inOrder.coherent.rooted hc).owner?_of_effective? ho
  obtain rfl := Option.some.inj (hown.symm.trans hlookup)
  exact answers_of_owned hw hc howner type

/-- What a container has in effect is a set that was installed. -/
theorem exists_brings (hrooted : c.Rooted) (hinstalled : c.Installed) (ho : c.effective? .configs = some o) :
    ∃ offers, o.Brings offers := by
  obtain ⟨b, hlookup, howner, -⟩ := hrooted.owner?_of_effective? ho
  exact hinstalled o (Container.owner?_spec howner).1 (by rw [Registry.contains, hlookup]; rfl)

/-- Below containers whose sets of configs were installed, requests for configs come to what the set in effect holds. -/
theorem findsConfig_of_reached (hw : w.Reached) (hc : w.store.HasBuilt c) (hinstalled : c.Installed)
    (htype : type ≠ .configs) : w.FindsConfig c type := by
  have hrooted : c.Rooted := hw.inOrder.coherent.rooted hc
  have hseen {o : Container} {offers : List (Option Config)} (ho : c.effective? .configs = some o)
      (hbrings : o.Brings offers) : w.Answers c type ((Configs.empty.takeAll offers).answer type) 4 :=
    answers_of_effective? hw hc ho hbrings type
  have hunseen (ho : c.effective? .configs = none) :
      w.Answers c type (.error (.failed (.because (.missing .configs)))) 1 :=
    answers_of_unowned hw htype ((hrooted.agrees _).unowned ho).1
  constructor
  case sets => exact Configs.holdsFirst_takeAll
  case found =>
    intro o offers config ho hbrings hfirst
    exact Configs.answer_of_some hfirst ▸ hseen ho hbrings
  case lacking =>
    intro o offers ho hbrings hfirst
    exact Configs.answer_of_none hfirst ▸ hseen ho hbrings
  case unseen => exact hunseen
  case missingSet =>
    intro me result v h
    rw [(hrooted.agrees .configs).contains]
    rcases ho : c.effective? .configs with _ | o
    · exact iff_of_true (h.eq (hunseen ho)) rfl
    · obtain ⟨offers, hbrings⟩ := exists_brings hrooted hinstalled ho
      exact iff_of_false (h.eq (hseen ho hbrings) ▸ Configs.answer_ne _ htype) nofun
  case missingConfig =>
    intro me result v h
    constructor
    · rintro rfl
      rcases ho : c.effective? .configs with _ | o
      · exact absurd (h.eq (hunseen ho)) (Configs.missing_ne htype)
      · obtain ⟨offers, hbrings⟩ := exists_brings hrooted hinstalled ho
        rcases hfirst : Configs.first? offers type with _ | config
        · exact ⟨o, offers, rfl, hbrings, hfirst⟩
        · cases (h.eq (hseen ho hbrings)).trans (Configs.answer_of_some hfirst)
    · rintro ⟨o, offers, ho, hbrings, hfirst⟩
      exact (h.eq (hseen ho hbrings)).trans (Configs.answer_of_none hfirst)

end Household

namespace Mill

open Household

def wood : TypeInfo := ⟨1, "Fuel", .number⟩

/-- Coal goes by the name of fuel as well. -/
def coal : TypeInfo := ⟨2, "Fuel", .number⟩

def fuels : List (Option Config) := [some ⟨wood, 1, "oak"⟩, none, some ⟨wood, 2, "ash"⟩, some ⟨coal, 3, "pit"⟩]

def stocked : Registry := ⟨[(Configs.empty.takeAll fuels).binding 0]⟩

/-- There is only coal in the cellar. -/
def blackened : Registry := ⟨[(Configs.empty.takeAll [some ⟨coal, 4, "pit"⟩]).binding 1]⟩

def below (parents : List Container) (id : Nat) (label : String) (registry : Registry) : Container :=
  ⟨id, label, registry, parents, Graph.assemble registry (Graph.inherited registry parents)⟩

def mill : Container := below [] 0 "mill" stocked

def attic : Container := below [mill] 1 "attic" .empty

def cellar : Container := below [mill] 2 "cellar" blackened

def spring : Household := (empty.begin 0 (.build "mill" [] stocked.bindings false)).after (List.replicate 6 0)

def summer : Household := ((spring.finish 0).begin 0 (.build "attic" [mill] [] false)).after (List.replicate 6 0)

def autumn : Household :=
  ((summer.finish 0).begin 0 (.build "cellar" [mill] blackened.bindings false)).after (List.replicate 7 0)

/-- Two threads look for wood, one of them in the attic and one in the cellar. -/
def winter : Household := ((autumn.finish 0).begin 0 (.ask ⟨attic, none⟩ (.resolve (.config wood)))).begin 1
  (.ask ⟨cellar, none⟩ (.resolve (.config wood)))

theorem reached_winter : winter.Reached := by
  have hmill : mill ∈ (spring.finish 0).containers := List.mem_cons_self
  have hmill' : mill ∈ (summer.finish 0).containers := List.mem_cons_of_mem _ List.mem_cons_self
  have hattic : attic ∈ (autumn.finish 0).containers := List.mem_cons_of_mem _ List.mem_cons_self
  have hcellar : cellar ∈ (autumn.finish 0).containers := List.mem_cons_self
  have hspring : spring.Reached := (Leads.refl.step (.begin 0 _ rfl (List.forall_mem_nil _))).after _
  have hsummer : summer.Reached := (hspring.next rfl (List.forall_mem_singleton.2 (.held hmill))).after _
  have hautumn : autumn.Reached := (hsummer.next rfl (List.forall_mem_singleton.2 (.held hmill'))).after _
  exact (hautumn.next rfl (List.forall_mem_singleton.2 (.held hattic))).step
    (.begin 1 _ rfl (List.forall_mem_singleton.2 (.held hcellar)))

theorem installed_mill : mill.Installed := .of_parents (fun _ => ⟨fuels, 0, rfl⟩) nofun

theorem installed_attic : attic.Installed := .of_parents nofun (List.forall_mem_singleton.2 installed_mill)

theorem installed_cellar : cellar.Installed :=
  .of_parents (fun _ => ⟨_, 1, rfl⟩) (List.forall_mem_singleton.2 installed_mill)

end Mill

open Mill in
/-- The wood that was offered first is what comes of the request in the attic, in four turns. In the cellar there is none,
though the mill above it has some. -/
theorem Household.findsConfig_mill : winter.Reached ∧ attic.Installed ∧ cellar.Installed ∧ wood.name = coal.name ∧
    winter.EndsIn 0 (Handle.request Container.require ⟨attic, none⟩ (.resolve (.config wood))).run
      (.ok (.value (.made wood 1 (.config "oak")))) 4 ∧
    winter.EndsIn 1 (Handle.request Container.require ⟨cellar, none⟩ (.resolve (.config wood))).run
      (.error (.failed (.because (.missing (.ofType wood))))) 4 := by
  have hattic : winter.store.HasBuilt attic :=
    List.mem_of_getElem? (rfl : winter.store.history[1]? = some (.built attic))
  have hcellar : winter.store.HasBuilt cellar :=
    List.mem_of_getElem? (rfl : winter.store.history[0]? = some (.built cellar))
  have hfound : winter.FindsConfig attic wood := findsConfig_of_reached reached_winter hattic installed_attic (by decide)
  have hlacking : winter.FindsConfig cellar wood :=
    findsConfig_of_reached reached_winter hcellar installed_cellar (by decide)
  have hasked : winter.team.threads 0 = (Handle.request Container.require ⟨attic, none⟩ (.resolve (.config wood))).run.bind
      fun result => .done (some (.asked (.resolve (.config wood)) result)) := rfl
  have hasked' : winter.team.threads 1 = (Handle.request Container.require ⟨cellar, none⟩ (.resolve (.config wood))).run.bind
      fun result => .done (some (.asked (.resolve (.config wood)) result)) := rfl
  refine ⟨reached_winter, installed_attic, installed_cellar, rfl, ?_, ?_⟩
  · exact (hfound.found rfl ⟨0, rfl⟩ rfl).asked direct_require hasked
  · exact (hlacking.lacking rfl ⟨1, rfl⟩ rfl).asked direct_require hasked'

end Injection
