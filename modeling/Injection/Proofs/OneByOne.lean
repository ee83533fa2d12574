import Injection.Proofs.EagerBuilding
import Injection.Proofs.Modesty

/-!
Eager building goes into one own scoped provider at a time. Where providers ask for nothing but what they declare, all
that one needs, also through others whose values are not kept, comes before it in the order of construction; so when its
turn comes, what is kept of that is there, and only providers whose values are not kept run within it.
-/

namespace Injection

open Relation

/-! ### One after the other -/

/-- Turns in which the own providers whose values are kept run in the order of a list, each outside of the others; any
other own provider runs within the construction of one that leads to it. -/
structure OneByOne (me : Thread) (c : Container) (ks : List Key) (turns : List (Action × Store)) : Prop where
  order : (c.runs turns).filter (· ∈ c.keptKeys) = ks.filter (· ∈ c.keptKeys)
  alone : ∀ turn ∈ turns, ∀ k ∈ turn.1.began? c.id, k ∈ c.keptKeys →
    ∀ other ∈ c.keptKeys, ⟨c.id, other⟩ ∈ turn.2.building me → other = k
  within : ∀ turn ∈ turns, ∀ k ∈ turn.1.began? c.id, k ∉ c.keptKeys →
    ∃ top ∈ c.keptKeys, ⟨c.id, top⟩ ∈ turn.2.building me ∧ TransGen c.registry.Needs top k

section Loop

variable {me : Thread} {c : Container} {b : Binding} {s t : Store} {ks ks' : List Key}
  {turns turns' : List (Action × Store)}

namespace OneByOne

theorem of_runs_eq_nil (hruns : c.runs turns = []) (hks : ∀ k ∈ ks, k ∉ c.keptKeys) : OneByOne me c ks turns where
  order := by
    rw [hruns, List.filter_nil, eq_comm, List.filter_eq_nil_iff]
    simpa using hks
  alone turn hturn k hk := by
    rw [Container.runs_eq_nil.1 hruns turn hturn] at hk
    cases hk
  within turn hturn k hk := by
    rw [Container.runs_eq_nil.1 hruns turn hturn] at hk
    cases hk

/-- A turn that starts no run. -/
theorem single {turn : Action × Store} (h : turn.1.began? c.id = none) : OneByOne me c [] [turn] :=
  .of_runs_eq_nil (Container.runs_eq_nil.2 (by simpa using h)) nofun

theorem append (h : OneByOne me c ks turns) (h' : OneByOne me c ks' turns') :
    OneByOne me c (ks ++ ks') (turns ++ turns') where
  order := by rw [Container.runs_append, List.filter_append, List.filter_append, h.order, h'.order]
  alone := List.forall_mem_append.2 ⟨h.alone, h'.alone⟩
  within := List.forall_mem_append.2 ⟨h.within, h'.within⟩

theorem of_encloses {x : Attempt Failure Value} (h : Encloses me c (c.Passing b.key) s b x)
    (hidle : ∀ p ∈ s.building me, p.container ≠ c.id) (hkept : b.key ∈ c.keptKeys) :
    OneByOne me c [b.key] (x.turns me s) where
  order := by
    obtain ⟨inner, hruns, hinner⟩ := h.runs
    rw [hruns, List.filter_cons_of_pos (by simpa using hkept), List.filter_cons_of_pos (by simpa using hkept),
      List.filter_eq_nil_iff.2 fun k hk => by simpa using (hinner k hk).1]
    rfl
  alone turn hturn k hk hkept other _ hother := by
    rcases h.turns turn hturn k hk with ⟨rfl, hbuilding⟩ | ⟨hpassing, -⟩
    · rw [hbuilding] at hother
      rcases List.mem_append.1 hother with hother | hother
      · exact absurd rfl (hidle _ hother)
      · exact congrArg Address.key (List.mem_singleton.1 hother)
    · exact absurd hkept hpassing.1
  within turn hturn k hk hout := by
    rcases h.turns turn hturn k hk with ⟨rfl, -⟩ | ⟨hpassing, hbuilding⟩
    · exact absurd hkept hout
    · exact ⟨b.key, hkept, hbuilding (by simp [Container.place]), hpassing.2⟩

end OneByOne

/-- Where some keys of the order have had their turn: what is kept for these is there, and nothing else of it. -/
structure Underway (me : Thread) (s : Store) (c : Container) (done : List Key) : Prop where
  fresh : Fresh me s c
  stocked : c.Stocked (· ∈ done) s
  vacant : ∀ k ∈ c.keptKeys, k ∉ done → s.slots.slot ⟨c.id, k⟩ = .vacant

theorem Fresh.alike (h : Fresh me s c) (halike : Alike s t) (hheld : t.held = s.held) : Fresh me t c where
  here := h.here.mono (h.here.sheltered.mono (halike.consistent h.here.sheltered.consistent) halike.evolves hheld)
    halike.evolves hheld
  idle p hp := h.idle p (halike.building ▸ hp)

theorem Underway.alike {done : List Key} (h : Underway me s c done) (halike : Alike s t) (hheld : t.held = s.held) :
    Underway me t c done where
  fresh := h.fresh.alike halike hheld
  stocked k hk hdone := by rw [halike.slots]; exact h.stocked k hk hdone
  vacant k hk hout := by rw [halike.slots, h.vacant k hk hout]

/-- Everything that a key needs, also through others, is listed before it. -/
theorem Graph.ListsAll.mem_before {registry : Registry} {g : Graph} {order before later : List Key} {k d : Key}
    (h : ListsAll registry g order) (hsplit : order = before ++ k :: later) (hleads : TransGen registry.Needs k d) :
    d ∈ before := by
  induction hleads with
  | single hneeds => exact h.before before k later hsplit _ hneeds
  | tail _ hneeds ih =>
      obtain ⟨first, between, rfl⟩ := List.append_of_mem ih
      have hmem := h.before first _ (between ++ k :: later) (by rw [hsplit]; simp) _ hneeds
      exact List.mem_append_left _ hmem

/-- A key has its turn: if its value is kept, its provider runs now. -/
theorem Underway.turn {order before later : List Key} (h : Underway me s c before)
    (hall : Graph.ListsAll c.registry c.graph order) (hsplit : order = before ++ b.key :: later)
    (hlookup : c.registry.lookup b.key = some b) (hscoped : b.isScoped = true)
    (hmodest : ∀ b ∈ c.registry.bindings, b.isModest = true) {v : Value}
    (heval : (c.require b.key).eval me s = (.ok v, t)) :
    OneByOne me c [b.key] ((c.require b.key).turns me s) ∧ Underway me t c (before ++ [b.key]) := by
  have hb := List.mem_of_find?_eq_some hlookup
  have hs := h.fresh.here.sheltered.consistent
  have hbuilt := h.fresh.here.near.hasBuilt
  have hout : b.key ∉ before := fun hmem =>
    (List.nodup_append.1 (hsplit ▸ hall.nodup)).2.2 _ hmem _ List.mem_cons_self rfl
  have hkeys {b' : Binding} (hb' : b' ∈ c.registry.bindings) (heq : b'.key = b.key) : b' = b := by
    have hlookup' := Registry.lookup_of_mem (hs.distinct c hbuilt) hb'
    exact Option.some.inj (hlookup'.symm.trans (heq ▸ hlookup))
  have heach : (c.requireEach [b.key]).eval me s = (.ok (), t) := by
    rw [eval_requireEach_cons, heval]
    rfl
  obtain ⟨hfresh, hanswered⟩ := h.fresh.required heach
  obtain ⟨w, hw⟩ := hanswered _ List.mem_cons_self
  have hevolves := (sound_require me s c b.key hs hbuilt).evolves
  rw [heval] at hevolves
  have hstocked : c.Stocked (TransGen c.registry.Needs b.key) s :=
    fun k hk hleads => h.stocked k hk (hall.mem_before hsplit hleads)
  have hstocked' : c.Stocked (· ∈ before ++ [b.key]) t := by
    intro k hk hdone
    rcases List.mem_append.1 hdone with hdone | hdone
    · exact (h.stocked k hk hdone).imp fun v => hevolves.ready _ v
    · obtain ⟨b', hb', hkept, rfl⟩ := Container.mem_keptKeys.1 hk
      obtain rfl := hkeys hb' (List.mem_singleton.1 hdone)
      exact ⟨w, ((hfresh.vouches hb hw).kept hkept).1⟩
  have hhere := h.fresh.here.within (Nat.lt_succ_self c.weight)
  have howner := (hs.linked c hbuilt).owner?_own hlookup
  have hslot (k : Key) (heq : ((c.require b.key).eval me s).2.slots.slot ⟨c.id, k⟩ = s.slots.slot ⟨c.id, k⟩) :
      t.slots.slot ⟨c.id, k⟩ = s.slots.slot ⟨c.id, k⟩ := by rwa [heval] at heq
  rcases runs_own (frugal me hmodest c.weight) hhere howner (hmodest b hb) hstocked with
    ⟨hruns, hslots⟩ | ⟨⟨r, hopenable⟩, hencloses⟩
  · have hsame (k : Key) := hslot k (congrFun (congrArg Slots.slot hslots) _)
    have hkept : b.key ∉ c.keptKeys := by
      intro hk
      obtain ⟨v', hv'⟩ := hstocked' b.key hk (by simp)
      exact Slot.noConfusion ((h.vacant b.key hk hout).symm.trans ((hsame b.key).symm.trans hv'))
    refine ⟨.of_runs_eq_nil hruns (by simpa using hkept), hfresh, hstocked', fun k hk hnot => ?_⟩
    exact (hsame k).trans (h.vacant k hk fun hmem => hnot (List.mem_append_left _ hmem))
  · have hkept : b.key ∈ c.keptKeys := by
      refine Container.mem_keptKeys.2 ⟨b, hb, ?_, rfl⟩
      rw [BindingOf.isKept, hscoped, hopenable.isInstance]
      rfl
    refine ⟨.of_encloses hencloses h.fresh.idle hkept, hfresh, hstocked', fun k hk hnot => ?_⟩
    rw [List.mem_append, not_or, List.mem_singleton] at hnot
    exact (hslot k (hencloses.slots k hk hnot.2)).trans (h.vacant k hk hnot.1)

/-- The keys that are still to be constructed have their turns. -/
theorem oneByOne_constructAll {order before later : List Key} (hall : Graph.ListsAll c.registry c.graph order)
    (hmodest : ∀ b ∈ c.registry.bindings, b.isModest = true) (h : Underway me s c before)
    (hsplit : order = before ++ later) {total done : Nat}
    (heval : (constructAll Container.require c total done (later.filter c.graph.isScoped)).eval me s = (.ok (), t)) :
    OneByOne me c later
      ((constructAll Container.require c total done (later.filter c.graph.isScoped)).turns me s) := by
  induction later generalizing before s done with
  | nil => exact .of_runs_eq_nil rfl nofun
  | cons k later ih =>
      have hlinked := h.fresh.here.sheltered.consistent.linked c h.fresh.here.near.hasBuilt
      have hdistinct := h.fresh.here.sheltered.consistent.distinct c h.fresh.here.near.hasBuilt
      obtain ⟨b, hlookup⟩ := Option.isSome_iff_exists.1 ((hall.mem_iff k).1 (by rw [hsplit]; simp))
      obtain rfl := Registry.key_of_lookup hlookup
      have hisScoped : c.graph.isScoped b.key = b.isScoped := by simp [Graph.isScoped, hlinked.own?_of_lookup hlookup]
      have hsplit' : order = (before ++ [b.key]) ++ later := by rw [hsplit]; simp
      rcases hscoped : b.isScoped with _ | _ <;> rw [hscoped] at hisScoped
      case false =>
        have hkept : b.key ∉ c.keptKeys := by
          rw [Container.key_mem_keptKeys hdistinct (List.mem_of_find?_eq_some hlookup), BindingOf.isKept, hscoped]
          simp
        rw [List.filter_cons_of_neg (by simp [hisScoped])] at heval ⊢
        have hpassed : Underway me s c (before ++ [b.key]) :=
          ⟨h.fresh, fun k hk hdone => h.stocked k hk ?_, fun k hk hnot => h.vacant k hk ?_⟩
        · have hnone : OneByOne me c [b.key] [] := .of_runs_eq_nil rfl (by simpa using hkept)
          exact hnone.append (ih hpassed hsplit' heval)
        · exact (List.mem_append.1 hdone).resolve_right fun heq => hkept (List.mem_singleton.1 heq ▸ hk)
        · exact fun hmem => hnot (List.mem_append_left _ hmem)
      case true =>
        rw [List.filter_cons_of_pos hisScoped] at heval ⊢
        have htold (e : Event) : Underway me (s.tell e) c before := h.alike ⟨rfl, rfl, rfl, rfl, rfl⟩ rfl
        rw [constructAll, Attempt.eval_bind, Attempt.eval_tell] at heval
        simp only [Attempt.eval_bind, Attempt.eval_outcome] at heval
        rw [constructAll, Attempt.turns_bind, Attempt.eval_tell]
        simp only [Attempt.turns_bind, Attempt.turns_outcome, Attempt.eval_outcome]
        rcases hrequire : (c.require b.key).eval me (s.tell _) with ⟨(f | message | _) | v, u⟩ <;>
          rw [hrequire] at heval
        all_goals try cases heval
        obtain ⟨hturn, hnext⟩ := (htold _).turn hall hsplit hlookup hscoped hmodest hrequire
        have htell (e : Event) : OneByOne me c [] [(.tell e, s)] := .single rfl
        exact (htell _).append (hturn.append (ih hnext hsplit' heval))

theorem oneByOne_initiate {order : List Key} (hall : Graph.ListsAll c.registry c.graph order)
    (hmodest : ∀ b ∈ c.registry.bindings, b.isModest = true) (h : Underway me s c [])
    (heval : (c.initiate Container.require).eval me s = (.ok (), t)) :
    OneByOne me c order ((c.initiate Container.require).turns me s) := by
  have hkeys : c.eagerKeys = .ok (order.filter c.graph.isScoped) := by rw [Container.eagerKeys, hall.order]; rfl
  have htold (e : Event) : Underway me (s.tell e) c [] := h.alike ⟨rfl, rfl, rfl, rfl, rfl⟩ rfl
  rw [Container.initiate, hkeys] at heval ⊢
  simp only [Attempt.eval_bind, Attempt.eval_tell] at heval
  simp only [Attempt.turns_bind, Attempt.eval_tell]
  rcases hloop : (constructAll Container.require c _ 0 (order.filter c.graph.isScoped)).eval me (s.tell _) with
    ⟨e | ⟨⟩, u⟩ <;> rw [hloop] at heval
  · cases heval
  have hall' := oneByOne_constructAll hall hmodest (htold _) rfl hloop
  have htell (e : Event) (v : Store) : OneByOne me c [] [(.tell e, v)] := .single rfl
  have hturns (e e' : Event) := (htell e s).append (hall'.append (htell e' u))
  simp only [List.nil_append, List.append_nil] at hturns
  exact hturns _ _

/-- A container that has just been linked has all its turns before it. -/
theorem Sheltered.underway (hs : Sheltered me s) {builder : Builder} (hb : builder.Proper s)
    (hbuild : builder.build.eval me s = (.ok c, t)) :
    Underway me (t.hold c) c [] ∧ c.runs (builder.build.turns me s) = [] ∧ c.registry = builder.registry := by
  have hheeds : Heeds me (· = c.id) s builder.build _ := heeds_build hs builder
  have hruns := hheeds.runs_eq_nil
  obtain ⟨-, -, -, hshunned, hnew⟩ := hheeds
  rw [hbuild] at hshunned hnew
  obtain ⟨hid, -, hregistry⟩ := hnew c rfl
  refine ⟨⟨hs.fresh hb hbuild, fun _ _ => nofun, fun k _ _ => ?_⟩, hruns, hregistry⟩
  exact (hshunned ⟨c.id, k⟩ rfl).1.trans (hs.consistent.fresh ⟨c.id, k⟩ hid).1

end Loop

/-- Whenever a thread may ask for something, also in the middle of constructions, it may build a container eagerly. If the
own providers ask for nothing but what they declare, those whose values are kept run one by one in the order of
construction, each once, and any other runs within the construction of one that needs it. -/
theorem Session.oneByOne_of_moment {s t : Store} (h : Moment s) {b : Builder} (hb : b.Proper s)
    (hmodest : ∀ binding ∈ b.registry.bindings, binding.isModest = true) {c : Container}
    (hfinish : (b.finish true).eval Task.mainThread s = (.ok c, t)) :
    c.registry = b.registry ∧ ∃ order, c.graph.constructionOrder = .ok order ∧ order.Nodup ∧
      OneByOne Task.mainThread c order ((b.finish true).turns Task.mainThread s) := by
  rw [Builder.finish, Builder.buildThen, Attempt.eval_bind, Attempt.eval_mapError_id] at hfinish
  rw [Builder.finish, Builder.buildThen, Attempt.turns_bind, Attempt.eval_mapError_id, Attempt.turns_mapError]
  rcases hbuild : b.build.eval Task.mainThread s with ⟨e | d, u⟩ <;> rw [hbuild] at hfinish
  · cases hfinish
  simp only [Attempt.eval_bind, Attempt.eval_hold, Attempt.eval_closing, if_true, Attempt.eval_mapError_id] at hfinish
  simp only [Attempt.turns_bind, Attempt.eval_hold, Attempt.turns_closing, if_true, Attempt.turns_mapError,
    Attempt.eval_mapError_id]
  rcases hinitiate : (d.initiate Container.require).eval Task.mainThread (u.hold d) with ⟨e | ⟨⟩, v⟩ <;>
    rw [hinitiate] at hfinish
  · cases hfinish
  obtain rfl : d = c := by
    cases hfinish
    rfl
  obtain ⟨hunderway, hruns, hregistry⟩ := h.sheltered.underway hb hbuild
  have hlinked := hunderway.fresh.here.sheltered.consistent.linked d hunderway.fresh.here.near.hasBuilt
  have hall := Graph.listsAll_walk hlinked
  refine ⟨hregistry, _, hall.order, hall.nodup, ?_⟩
  have hbuilding : OneByOne Task.mainThread d [] (b.build.turns Task.mainThread s) :=
    .of_runs_eq_nil hruns (List.forall_mem_nil _)
  have hhold : OneByOne Task.mainThread d [] [(.hold d, u)] := .single rfl
  have hletGo (w : Store) : OneByOne Task.mainThread d [] [(.letGo d, w)] := .single rfl
  have hturns (w : Store) := hbuilding.append (hhold.append
    ((oneByOne_initiate hall (hregistry ▸ hmodest) hunderway hinitiate).append (hletGo w)))
  simp only [List.nil_append, List.append_nil] at hturns
  simp only [Attempt.turns_pure, List.append_nil]
  exact hturns _

namespace Orchard

def tree : TypeInfo := ⟨1, "Tree", .number⟩

def apple : TypeInfo := ⟨2, "Apple", .number⟩

def pie : TypeInfo := ⟨3, "Pie", .number⟩

def basket : TypeInfo := ⟨4, "Basket", .number⟩

/-- A provider that asks for the values of some types, and declares so. -/
def grower (makes : TypeInfo) (needs : List TypeInfo) : Binding :=
  let asks := needs.map fun type => .ask (.resolve (.value (.ofType type))) none false
  (BindingOf.provider ⟨makes, "", asks, none⟩).dependingOn (needs.map fun type => .required (.ofType type))

/-- One tree, from which apples are picked for one pie and one basket. -/
def orchard : Builder where
  label := "orchard"
  registry := ⟨[(grower basket [apple, pie]).keeping, grower apple [tree], (grower pie [apple, apple]).keeping,
    (grower tree []).keeping]⟩
  parents := []
  rejected := []

theorem idle_empty : Session.Idle .empty := .after [] (by decide) [] nofun

end Orchard

open Orchard in
/-- The tree comes first, then the pie, and apples are picked anew for whatever needs them. -/
theorem Session.oneByOne_orchard : ∃ c t, (orchard.finish true).eval Task.mainThread .empty = (.ok c, t) ∧
    OneByOne Task.mainThread c [.ofType tree, .ofType apple, .ofType pie, .ofType basket]
      ((orchard.finish true).turns Task.mainThread .empty) ∧
    c.runs ((orchard.finish true).turns Task.mainThread .empty) =
      [tree, pie, apple, apple, basket, apple].map .ofType := by
  have hproper : orchard.Proper .empty := ⟨by decide, nofun⟩
  obtain ⟨-, order, horder, -, hturns⟩ := oneByOne_of_moment (.idle idle_empty) hproper (by decide) rfl
  obtain rfl : [.ofType tree, .ofType apple, .ofType pie, .ofType basket] = order := Except.ok.inj horder
  exact ⟨_, _, rfl, hturns, rfl⟩

end Injection
