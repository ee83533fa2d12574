import Injection.Proofs.Circles
import Injection.Proofs.Diligence
import Injection.Proofs.Memoization

/-!
The order that linking finds is the order in which values come about. When the own providers of a container ask for what
they declare, one dependency after the other, a request for an own key and the walk over the graph from that key go the
same way: what the walk has on its chain is under construction, what it has listed is there, and where it comes to
something visited the request finds a value. Between the steps that they have in common, the request goes to ancestors,
which have no way to the container.
-/

namespace Injection

open Happening

/-! ### What completes -/

/-- The key of a container whose provider succeeded. -/
def Happening.completed? (id : Nat) : Happening → Option Key
  | succeeded p _ => if p.container = id then some p.key else none
  | _ => none

/-- The own keys whose providers succeeded, in order. -/
def Container.completed (c : Container) (history : List Happening) : List Key :=
  history.reverse.filterMap (·.completed? c.id)

/-- Whether a key is that of an own provider. -/
def Container.provides (c : Container) (k : Key) : Bool := (c.registry.lookup k).any fun b => !b.isInstance

namespace Container

variable {c : Container} {history new : List Happening}

theorem completed_append (c : Container) (new history : List Happening) :
    c.completed (new ++ history) = c.completed history ++ c.completed new := by
  simp [completed]

theorem completed_cons (c : Container) (e : Happening) (history : List Happening) :
    c.completed (e :: history) = c.completed history ++ (e.completed? c.id).toList := by
  rw [completed, List.reverse_cons, List.filterMap_append]
  rcases h : e.completed? c.id <;> simp [completed, h]

/-- Nothing completes while the places of a container are left alone. -/
theorem completed_of_chronicle {s t : Store} (hhistory : t.history = new ++ s.history)
    (h : ∀ p : Address, p.container = c.id → t.chronicle p = s.chronicle p) :
    c.completed t.history = c.completed s.history := by
  have hnone : c.completed new = [] := by
    rw [completed, List.filterMap_eq_nil_iff]
    intro e he
    rcases e with _ | _ | _ | _ | ⟨p, v⟩ | _ | _ <;> try rfl
    refine if_neg fun hp => ?_
    have hchronicle := h p hp
    rw [Store.chronicle, hhistory, List.filter_append, Store.chronicle, List.append_left_eq_self] at hchronicle
    exact absurd (List.filter_eq_nil_iff.1 hchronicle _ (List.mem_reverse.1 he)) (by simp)
  rw [hhistory, completed_append, hnone, List.append_nil]

end Container

/-! ### A walk and a request on their way -/

/-- What is on the chain of the walk is under construction, what it has listed is there, and nothing else has been made
since the walk began. -/
structure Mirrors (me : Thread) (c : Container) (past : List Key) (s : Store) (w : Walk) : Prop where
  proper : Walk.Proper c.graph w
  errors : w.errors = []
  building : s.building me = w.chain.map fun k => ⟨c.id, k⟩
  ready : ∀ b ∈ c.registry.bindings, b.isKept = true →
    ((∃ v, s.slots.slot (c.place b) = .ready v) ↔ b.key ∈ w.order)
  gives : ∀ b ∈ c.registry.bindings, ∀ v, s.slots.slot (c.place b) = .ready v → b.Gives v
  completed : c.completed s.history = past ++ w.order.filter c.provides
  distinct : (w.order.filter c.provides).Nodup

namespace Mirrors

variable {me : Thread} {c : Container} {past : List Key} {s t : Store} {w left : Walk} {b : Binding} {r : Recipe Step}

theorem congr (h : Mirrors me c past s w) (hbuilding : t.building me = s.building me)
    (hslots : ∀ b ∈ c.registry.bindings, t.slots.slot (c.place b) = s.slots.slot (c.place b))
    (hcompleted : c.completed t.history = c.completed s.history) : Mirrors me c past t w where
  proper := h.proper
  errors := h.errors
  building := hbuilding.trans h.building
  ready b hb hkept := by
    rw [hslots b hb]
    exact h.ready b hb hkept
  gives b hb v hv := h.gives b hb v (hslots b hb ▸ hv)
  completed := hcompleted.trans h.completed
  distinct := h.distinct

theorem alike (h : Mirrors me c past s w) (halike : Alike s t) : Mirrors me c past t w :=
  h.congr (by rw [halike.building]) (fun _ _ => by rw [halike.slots]) (by rw [halike.history])

/-- Whatever leaves the places of the container alone. -/
theorem spare (h : Mirrors me c past s w) (hevolves : Evolves me s t) (hspares : Spares (· = c.id) s t) :
    Mirrors me c past t w := by
  obtain ⟨new, hhistory⟩ := hevolves.history
  exact h.congr hevolves.building (fun b _ => (hspares.shunned (c.place b) rfl).1)
    (Container.completed_of_chronicle hhistory.symm fun p hp => (hspares.shunned p hp).2)

/-- The walk never comes back to its chain. -/
theorem not_mem_chain (h : Mirrors me c past s w) (hlinked : c.Linked) {k : Key} (hown : (c.graph.own? k).isSome)
    (hleads : w.Leads c.graph k) : k ∉ w.chain := by
  intro hk
  have hcircle := h.proper.circle hk hown hleads
  exact hlinked.not_circular k (Graph.transGen_of_closed hcircle.two_le_length hcircle.head hcircle.last hcircle.linked)

/-- A request that finds a value where it is. -/
theorem answered (h : Mirrors me c past s w) {require : Lookup} (howner : c.owner? b.key = some (c, b))
    (hplace : c.place b ∉ s.building me) {v : Value} {e : Event}
    (hproduce : (c.produce require b).eval me s = (.ok v, s.passed me (c.place b) e)) :
    ∃ t, (c.requireWith require b.key).eval me s = (.ok v, t) ∧ Mirrors me c past t w := by
  refine ⟨(s.passed me (c.place b) e).note (.answered c b.key v), by rw [eval_requireWith howner, hproduce], ?_⟩
  refine h.congr (building_passed hplace e) (fun b' _ => ?_) ?_
  · rw [Store.passed, Store.enter_of_not_mem hplace]
    rfl
  · have hhistory : (s.passed me (c.place b) e).history = .entered (c.place b) :: s.history := by
      rw [Store.passed, Store.enter_of_not_mem hplace]
      rfl
    simp [hhistory, Container.completed_cons, Happening.completed?]

/-- Listing an instance. -/
theorem listed (h : Mirrors me c past s w) {entered : Walk} (hlookup : c.registry.lookup b.key = some b)
    (hinstance : b.isInstance = true) (hproper : Walk.Proper c.graph entered) (herrors : entered.errors = w.errors)
    (hchain : entered.chain = w.chain) (horder : entered.order = w.order ++ [b.key])
    (hdistinct : c.registry.keys.Nodup) : Mirrors me c past s entered := by
  have hprovides : c.provides b.key = false := by simp [Container.provides, hlookup, hinstance]
  have hfilter : entered.order.filter c.provides = w.order.filter c.provides := by
    rw [horder, List.filter_append, List.filter_cons_of_neg (by simp [hprovides]), List.filter_nil, List.append_nil]
  refine ⟨hproper, herrors.trans h.errors, hchain ▸ h.building, fun b' hb' hkept => ?_, h.gives, hfilter ▸ h.completed,
    hfilter ▸ h.distinct⟩
  have hne : b'.key ≠ b.key := by
    intro heq
    have hlookup' := Registry.lookup_of_mem hdistinct hb'
    rw [heq, hlookup] at hlookup'
    rw [← Option.some.inj hlookup', BindingOf.isKept_of_isInstance hinstance] at hkept
    cases hkept
  rw [h.ready b' hb' hkept, horder]
  simp [hne]

/-- Going into a binding that has no value yet. -/
theorem opened (h : Mirrors me c past s w) (hs : Consistent me s) (hopenable : Openable me s c b r)
    (hkept : b.isKept = true) {entry : Entry} (hentry : c.graph.own? b.key = some entry) (hchain : b.key ∉ w.chain)
    (hleads : w.Leads c.graph b.key) :
    Mirrors me c past (s.opened me c b r).1 { w with visited := b.key :: w.visited, chain := w.chain ++ [b.key] } where
  proper := h.proper.enter hentry hchain hleads
  errors := h.errors
  building := by
    rw [building_opened hopenable.place, h.building, List.map_append]
    rfl
  ready b' hb' hkept' := by
    by_cases hkey : b'.key = b.key
    · have hplace : c.place b' = c.place b := by rw [Container.place, hkey, Container.place]
      have hslots := slots_opened (r := r) hopenable.place hopenable.slot hs.unwaited
      have hout : b.key ∉ w.order := by
        rw [← h.ready b (List.mem_of_find?_eq_some hopenable.lookup) hkept, hopenable.slot]
        simp
      simp [hplace, hslots, hkept, hkey, hout]
    · have hne : c.place b' ≠ c.place b := fun heq => hkey (congrArg Address.key heq)
      rw [(hopenable.touches hs).slot _ hne]
      exact h.ready b' hb' hkept'
  gives b' hb' v hv := by
    by_cases hplace : c.place b' = c.place b
    · rw [hplace, slots_opened hopenable.place hopenable.slot hs.unwaited, if_pos hkept] at hv
      simp at hv
    · rw [(hopenable.touches hs).slot _ hplace] at hv
      exact h.gives b' hb' v hv
  completed := by
    rw [history_opened hopenable.place]
    simpa [Container.completed_cons, Happening.completed?] using h.completed
  distinct := h.distinct

/-- Coming out of a binding that has its value now. -/
theorem closed (h : Mirrors me c past t left) (hs : Consistent me s) (ht : Consistent me t)
    (hopenable : Openable me s c b r) (hrun : Evolves me (s.opened me c b r).1 t) (hkept : b.isKept = true)
    (hbuilding : s.building me = w.chain.map fun k => ⟨c.id, k⟩)
    (hproper : Walk.Proper c.graph { left with chain := w.chain, order := left.order ++ [b.key] }) {v : Value}
    (hgives : b.Gives v) :
    Mirrors me c past ((t.closed me c b (.ok v)).note (.answered c b.key v))
      { left with chain := w.chain, order := left.order ++ [b.key] } := by
  have htouches := hopenable.touches_closed hs ht hrun (.ok v)
  have hslot : (t.closed me c b (.ok v)).slots.slot (c.place b) = .ready v := by
    rw [hopenable.slot_closed hs ht hrun, if_pos hkept]
    rfl
  have hprovides : c.provides b.key = true := by
    simp [Container.provides, hopenable.lookup, hopenable.isInstance]
  have hout : b.key ∉ left.order := by
    rw [← h.ready b (List.mem_of_find?_eq_some hopenable.lookup) hkept, hopenable.slot_of_isKept hs hrun hkept]
    simp
  refine ⟨hproper, h.errors, ?_, fun b' hb' hkept' => ?_, fun b' hb' v' hv' => ?_, ?_, ?_⟩
  · exact (building_closed (hopenable.frozen hs hrun).1 (.ok v)).trans hbuilding
  · change (∃ v', (t.closed me c b (.ok v)).slots.slot (c.place b') = .ready v') ↔ _
    by_cases hkey : b'.key = b.key
    · have hplace : c.place b' = c.place b := by rw [Container.place, hkey, Container.place]
      simp [hplace, hslot, hkey]
    · have hne : c.place b' ≠ c.place b := fun heq => hkey (congrArg Address.key heq)
      rw [htouches.slot _ hne, h.ready b' hb' hkept']
      simp [hkey]
  · change (t.closed me c b (.ok v)).slots.slot (c.place b') = .ready v' at hv'
    by_cases hplace : c.place b' = c.place b
    · rw [hplace, hslot] at hv'
      cases hv'
      have hlookup := Registry.lookup_of_mem (hs.distinct c hopenable.hasBuilt) hb'
      rw [show b'.key = b.key from congrArg Address.key hplace, hopenable.lookup] at hlookup
      exact Option.some.inj hlookup ▸ hgives
    · rw [htouches.slot _ hplace] at hv'
      exact h.gives b' hb' v' hv'
  · simp [history_closed, ending, Container.completed_cons, Happening.completed?, Container.place, h.completed,
      hprovides]
  · rw [List.filter_append, List.filter_cons_of_pos hprovides, List.filter_nil]
    exact List.nodup_append.2 ⟨h.distinct, List.nodup_singleton _, fun k hk k' hk' heq =>
      hout (List.mem_singleton.1 hk' ▸ heq ▸ (List.mem_filter.1 hk).1)⟩

end Mirrors

/-! ### Requests to ancestors -/

/-- An action that goes into a binding of an ancestor while only own keys are under construction, and in whose store the
ancestor gives a value that serves those that ask for it. Any other action is of no concern. -/
def Container.Helped (c : Container) (me : Thread) (turn : Action × Store) : Prop :=
  ∀ a b, c.Reaches a → a ≠ c → a.registry.lookup b.key = some b → turn.1 = .enter (a.place b) →
    (∀ p ∈ turn.2.building me, p.container = c.id) →
      ∃ v, ((a.require b.key).eval me turn.2).1 = .ok v ∧ v.Serves b.key c.lookedUp

section Inherited

variable {me : Thread} {past : List Key} {s : Store} {w : Walk} {c a o : Container} {b : Binding} {depth : Nat}

/-- An ancestor is where requests may come to that leave the container alone. -/
theorem Here.above (h : Here me (some depth) (fun _ => False) 0 s c) (hreaches : c.Reaches a) (hne : a ≠ c) :
    Here me (some depth) (· = c.id) 0 s a := by
  have hs := h.sheltered.consistent
  have ha := h.of_reaches hreaches
  have hlt : a.id < c.id := (hs.id_of_reaches h.near.hasBuilt hreaches).resolve_left hne
  refine ⟨h.sheltered, ⟨ha.near.hasBuilt, ha.near.fits, fun e he => ?_, ?_⟩, ha.alive⟩
  · rcases hs.id_of_reaches ha.near.hasBuilt he with rfl | hlt'
    · exact Nat.ne_of_lt hlt
    · exact Nat.ne_of_lt (Nat.lt_trans hlt' hlt)
  · rintro _ rfl
    exact hs.numbered c h.near.hasBuilt

/-- An ancestor answers as it would answer itself, though constructions may nest to another depth. -/
theorem eval_inherited (howner : c.owner? b.key = some (a, b)) (hself : a.owner? b.key = some (a, b)) {v : Value}
    (hv : ((a.require b.key).eval me s).1 = .ok v)
    (hended : ((c.requireWith (requireWithin depth) b.key).eval me s).1 ≠ .error .exhausted) :
    ∃ t, (c.requireWith (requireWithin depth) b.key).eval me s = (.ok v, t) := by
  change ((a.requireWith (requireWithin a.weight) b.key).eval me s).1 = .ok v at hv
  rw [eval_requireWith hself] at hv
  obtain ⟨t, ht⟩ : ∃ t, (a.produce (requireWithin a.weight) b).eval me s = (.ok v, t) := by
    rcases heval : (a.produce (requireWithin a.weight) b).eval me s with ⟨e | u, t⟩ <;> rw [heval] at hv <;> cases hv
    exact ⟨t, rfl⟩
  have hended' : ((a.produce (requireWithin depth) b).eval me s).1 ≠ .error .exhausted := by
    rw [eval_requireWith howner] at hended
    rcases heval : (a.produce (requireWithin depth) b).eval me s with ⟨e | u, t⟩ <;> rw [heval] at hended
    · exact hended
    · simp
  exact ⟨_, by rw [eval_requireWith howner, eval_produce_eq hended' (by rw [ht]; simp), ht]⟩

/-- A key of an ancestor is answered, and the container is left alone. -/
theorem mirrors_inherited (h : Here me (some depth) (fun _ => False) 0 s c) (hm : Mirrors me c past s w)
    (howner : c.owner? b.key = some (a, b)) (hne : a ≠ c)
    (hturns : ∀ turn ∈ (requireWithin depth c b.key).turns me s, c.Helped me turn) :
    ∃ v t, (requireWithin depth c b.key).eval me s = (.ok v, t) ∧ v.Serves b.key c.lookedUp ∧
      Mirrors me c past t w := by
  obtain _ | depth := depth
  · exact absurd (h.near.fits 0 rfl) (Nat.not_lt_zero _)
  have hs := h.sheltered.consistent
  obtain ⟨hreaches, hlookup⟩ := Container.owner?_spec howner
  have hbuilding (p : Address) (hp : p ∈ s.building me) : p.container = c.id := by
    rw [hm.building] at hp
    obtain ⟨k, -, rfl⟩ := List.mem_map.1 hp
    rfl
  obtain ⟨v, hv, hserves⟩ := hturns _ (enter_mem_turns me s howner) a b hreaches hne hlookup rfl hbuilding
  have ha := h.above hreaches hne
  obtain ⟨-, hended, hheld, hshunned, -⟩ :=
    heeds_answer (sound_requireWithin me depth) (heeds_requireWithin me _ depth) ha h.near.hasBuilt howner
  obtain ⟨-, hevolves, -⟩ := sound_requireWith (sound_requireWithin me depth) hs h.near.hasBuilt b.key
  have hself : a.owner? b.key = some (a, b) := (hs.linked a ha.near.hasBuilt).owner?_own hlookup
  obtain ⟨t, heval⟩ := eval_inherited howner hself hv hended
  rw [heval] at hevolves hheld hshunned
  exact ⟨v, t, heval, hserves, hm.spare hevolves ⟨hheld, hshunned⟩⟩

end Inherited

/-! ### Runs of own providers -/

/-- Requests of the depth for own keys of the container go the way of the walk. -/
def Visits (me : Thread) (c : Container) (past : List Key) (depth : Nat) : Prop :=
  ∀ (s : Store) (w : Walk) (b : Binding) (levels : Nat), Here me (some depth) (fun _ => False) 0 s c →
    Mirrors me c past s w → c.registry.lookup b.key = some b → w.Leads c.graph b.key →
      c.graph.entries.length < levels + w.chain.length →
        (∀ turn ∈ (requireWithin depth c b.key).turns me s, c.Helped me turn) →
          ∃ v t, (requireWithin depth c b.key).eval me s = (.ok v, t) ∧ b.Gives v ∧
            Mirrors me c past t (c.graph.visit levels w b.key)

section Run

variable {me : Thread} {c : Container} {past : List Key} {depth levels : Nat} {s : Store} {w : Walk} {b : Binding}
  {r : Recipe Step} (hdiligent : c.Diligent) (hvisits : Visits me c past depth)
  (hlookup : c.registry.lookup b.key = some b) (hsource : b.source = .recipe r)
include hdiligent hvisits hlookup hsource

omit hdiligent hvisits hlookup in
theorem mem_lookedUp (hb : b ∈ c.registry.bindings) {q : Resolver} {catches : Bool} {type : TypeInfo}
    (hstep : .ask (.resolve q) none catches ∈ r.steps) (htype : type ∈ q.config?) : type ∈ c.lookedUp := by
  refine List.mem_flatMap.2 ⟨b, hb, ?_⟩
  rw [hsource]
  exact List.mem_filterMap.2 ⟨_, hstep, htype⟩

omit hsource in
/-- A dependency in sight is answered with a value that serves. -/
theorem mirrors_require (h : Here me (some depth) (fun _ => False) 0 s c) (hm : Mirrors me c past s w) {d : Dependency}
    (hd : d ∈ b.dependencies) (hlazy : d.isLazy = false) (hsight : c.graph.contains d.key = true)
    (hlast : w.chain.getLast? = some b.key) (hlevels : c.graph.entries.length < levels + w.chain.length)
    (hturns : ∀ turn ∈ (requireWithin depth c d.key).turns me s, c.Helped me turn) :
    ∃ v t, (requireWithin depth c d.key).eval me s = (.ok v, t) ∧ v.Serves d.key c.lookedUp ∧
      Mirrors me c past t (c.graph.visit levels w d.key) := by
  have hlinked := h.sheltered.consistent.linked c h.near.hasBuilt
  obtain ⟨a, b', howner⟩ := hlinked.owner?_isSome hsight
  have hkey := Container.key_of_owner? howner
  rw [← hkey] at howner hturns ⊢
  obtain ⟨-, hlookup'⟩ := Container.owner?_spec howner
  by_cases hown : a = c
  · subst hown
    have hleads : w.Leads a.graph b'.key := by
      intro last hmem hown
      obtain rfl : b.key = last := Option.some.inj (hlast.symm.trans hmem)
      exact ⟨_, hlinked.own?_of_lookup hlookup, d, hd, hkey.symm, hlazy, hkey ▸ hsight, hown⟩
    obtain ⟨v, t, heval, hgives, hmirrors⟩ := hvisits s w b' levels h hm hlookup' hleads hlevels hturns
    exact ⟨v, t, heval, hdiligent.serves b' (List.mem_of_find?_eq_some hlookup') v hgives, hmirrors⟩
  · obtain ⟨v, t, heval, hserves, hmirrors⟩ := mirrors_inherited h hm howner hown hturns
    refine ⟨v, t, heval, hserves, ?_⟩
    have hnone : c.graph.own? b'.key = none := by
      rw [hlinked.own?, Option.map_eq_none_iff]
      rcases hlookup'' : c.registry.lookup b'.key with _ | b''
      · rfl
      · rw [hlinked.owner?_own hlookup''] at howner
        cases howner
        exact absurd rfl hown
    rwa [Graph.visit_of_own?_eq_none hnone]

omit hdiligent hvisits hsource in
/-- A lazy handle is obtained, and not followed. -/
theorem mirrors_deferred (hlinked : c.Linked) (hm : Mirrors me c past s w) {q : Resolver}
    (hd : q.dependency ∈ b.dependencies) (hlazy : q.dependency.isLazy = true) (require : Lookup)
    (visit : Walk → Key → Walk) :
    ∃ res t, (q.resolve require c).eval me s = (.ok res, t) ∧
      Mirrors me c past t (c.graph.follow visit b.key w q.dependency) := by
  have hfollow : c.graph.follow visit b.key w q.dependency = w := by
    rcases hsight : c.graph.contains q.dependency.key with _ | _
    · exact Graph.follow_of_missing hsight ((hlinked.in_sight hlookup hd).resolve_left (by simp [hsight])) visit b.key w
    · rw [Graph.follow_of_contains hsight, if_pos hlazy]
  obtain ⟨res, hres⟩ : ∃ res, (q.resolve require c).eval me s = (.ok res, (s.postpone c q.dependency.key).1) :=
    eval_resolve_lazy hlazy
  rw [hfollow]
  exact ⟨res, _, hres, hm.congr rfl (fun _ _ => rfl) rfl⟩

omit hdiligent hvisits hsource in
/-- What is not in sight may be missing, so an optional request finds nothing, and the walk leaves it out. -/
theorem mirrors_absent (h : Here me (some depth) (fun _ => False) 0 s c) (hm : Mirrors me c past s w) {q : Resolver}
    (hd : q.dependency ∈ b.dependencies) (hlazy : q.dependency.isLazy = false)
    (hsight : c.graph.contains q.dependency.key = false) (visit : Walk → Key → Walk) :
    ∃ res t, (q.resolve (requireWithin depth) c).eval me s = (.ok res, t) ∧
      Mirrors me c past t (c.graph.follow visit b.key w q.dependency) := by
  obtain _ | depth := depth
  · exact absurd (h.near.fits 0 rfl) (Nat.not_lt_zero _)
  have hlinked := h.sheltered.consistent.linked c h.near.hasBuilt
  have hoptional : q.dependency.isOptional = true := (hlinked.in_sight hlookup hd).resolve_left (by simp [hsight])
  have howner : c.owner? q.dependency.key = none := by
    rcases howner : c.owner? q.dependency.key with _ | owner
    · rfl
    · rw [Container.contains_of_owner? (by rw [howner]; rfl)] at hsight
      cases hsight
  have hmissing : (requireWithin (depth + 1) c q.dependency.key).eval me s =
      (.error (.failed (.because (.missing q.dependency.key))),
        s.tell ⟨.error, "Tried to require an unbound key: " ++ q.dependency.key.text⟩) :=
    eval_requireWith_missing howner
  rw [Graph.follow_of_missing hsight hoptional]
  rcases eval_resolve_of_missing hlazy hmissing with ⟨res, hres⟩ | ⟨hrequired, -⟩
  · exact ⟨res, _, hres, hm.alike ⟨rfl, rfl, rfl, rfl, rfl⟩⟩
  · rw [hoptional] at hrequired
    cases hrequired

/-- An own provider's resolver goes the way of the walk along its dependency. -/
theorem mirrors_resolve (h : Here me (some depth) (fun _ => False) 0 s c) (hm : Mirrors me c past s w) {q : Resolver}
    {catches : Bool} (hstep : .ask (.resolve q) none catches ∈ r.steps) (hd : q.dependency ∈ b.dependencies)
    (hlast : w.chain.getLast? = some b.key) (hlevels : c.graph.entries.length < levels + w.chain.length)
    (hturns : ∀ turn ∈ (q.resolve (requireWithin depth) c).turns me s, c.Helped me turn) :
    ∃ res t, (q.resolve (requireWithin depth) c).eval me s = (.ok res, t) ∧
      Mirrors me c past t (c.graph.follow (c.graph.visit levels) b.key w q.dependency) := by
  rcases hlazy : q.dependency.isLazy with _ | _
  · rcases hsight : c.graph.contains q.dependency.key with _ | _
    · exact mirrors_absent hlookup h hm hd hlazy hsight (c.graph.visit levels)
    · obtain ⟨v, t, heval, hserves, hmirrors⟩ := mirrors_require hdiligent hvisits hlookup h hm hd hlazy hsight hlast
        hlevels fun turn hturn => hturns turn (turns_resolve hlazy ▸ hturn)
      have hconfigs (type : TypeInfo) (htype : type ∈ q.config?) : (v.entries.find? (·.type = type)).isSome :=
        hserves.configs (key_of_config? htype) type
          (mem_lookedUp hsource (List.mem_of_find?_eq_some hlookup) hstep htype)
      obtain ⟨res, hres⟩ := eval_resolve_of_ok hlazy heval hserves.type hconfigs
      refine ⟨res, t, hres, ?_⟩
      rwa [Graph.follow_of_contains hsight, if_neg (by simp [hlazy])]
  · have hlinked := h.sheltered.consistent.linked c h.near.hasBuilt
    exact mirrors_deferred hlookup hlinked hm hd hlazy (requireWithin depth) (c.graph.visit levels)

/-- The steps of an own provider go the way of the walk along its dependencies. -/
theorem mirrors_steps (h : Here me (some depth) (fun _ => False) 0 s c) (hm : Mirrors me c past s w) {steps : List Step}
    {ds : List Dependency} (hasks : Steps.AskFor steps ds) (hsteps : steps ⊆ r.steps) (hds : ds ⊆ b.dependencies)
    (hlast : w.chain.getLast? = some b.key) (hlevels : c.graph.entries.length < levels + w.chain.length) {run : Nat}
    {p : Progress} (hp : p.Leads me (some depth) (fun _ => False) s)
    (hconfigs : (p.configs.types ++ Steps.added steps).Nodup)
    (hturns : ∀ turn ∈ (Steps.perform (requireWithin depth) ⟨c, some b.key⟩ run p steps).turns me s,
      c.Helped me turn) :
    ∃ p' t, (Steps.perform (requireWithin depth) ⟨c, some b.key⟩ run p steps).eval me s = (.ok p', t) ∧
      Mirrors me c past t (ds.foldl (c.graph.follow (c.graph.visit levels) b.key) w) := by
  -- quiet steps are none of the walk's, any other step takes it one dependency further
  induction hasks generalizing s w p with
  | nil => exact ⟨p, s, rfl, hm⟩
  | @quiet step steps ds hquiet rest ih =>
      obtain ⟨p₁, t₁, heval, halike⟩ := eval_step_of_isQuiet (requireWithin depth) ⟨c, some b.key⟩ run p me s hquiet
      obtain ⟨h₁, hp₁⟩ := h.stepped hp (weight_of_isQuiet hquiet) heval
      obtain ⟨p₂, t₂, heval₂, hm₂⟩ := ih h₁ (hm.alike halike) (List.cons_subset.1 hsteps).2 hds hlast hlevels hp₁
        (nodup_of_step hconfigs heval) fun turn hturn => hturns turn (Attempt.mem_turns_bind_right heval hturn)
      exact ⟨p₂, t₂, eval_steps_cons heval heval₂, hm₂⟩
  | @addConfig type tag steps ds rest ih =>
      have heval : ((Step.addConfig type tag).perform (requireWithin depth) ⟨c, some b.key⟩ run p).eval me s = _ :=
        eval_addConfig (Steps.not_mem_of_nodup hconfigs type rfl) tag
      obtain ⟨h₁, hp₁⟩ := h.stepped hp (by rfl) heval
      obtain ⟨p₂, t₂, heval₂, hm₂⟩ := ih h₁ (hm.alike ⟨rfl, rfl, rfl, rfl, rfl⟩) (List.cons_subset.1 hsteps).2 hds
        hlast hlevels hp₁ (nodup_of_step hconfigs heval)
        fun turn hturn => hturns turn (Attempt.mem_turns_bind_right heval hturn)
      exact ⟨p₂, t₂, eval_steps_cons heval heval₂, hm₂⟩
  | @ask q catches steps ds rest ih =>
      obtain ⟨hstep, hsteps⟩ := List.cons_subset.1 hsteps
      obtain ⟨hd, hds⟩ := List.cons_subset.1 hds
      obtain ⟨res, t₁, hres, hm₁⟩ := mirrors_resolve hdiligent hvisits hlookup hsource h hm hstep hd hlast hlevels
        fun turn hturn => hturns turn (Attempt.mem_turns_bind_left _ (turns_pursue p catches _ ▸ hturn))
      have heval :
          ((Step.ask (.resolve q) none catches).perform (requireWithin depth) ⟨c, some b.key⟩ run p).eval me s =
            (.ok (p.take res), t₁) := eval_pursue_of_ok hres
      obtain ⟨h₁, hp₁⟩ := h.stepped hp (by rfl) heval
      have hchain := c.graph.chain_follow levels b.key w q.dependency
      obtain ⟨p₂, t₂, heval₂, hm₂⟩ := ih h₁ hm₁ hsteps hds (by rw [hchain, hlast]) (by rw [hchain]; exact hlevels) hp₁
        (nodup_of_step hconfigs heval) fun turn hturn => hturns turn (Attempt.mem_turns_bind_right heval hturn)
      exact ⟨p₂, t₂, eval_steps_cons heval heval₂, hm₂⟩

/-- The run of an own provider gives a value, and goes the way of the walk on its way. -/
theorem mirrors_run (h : Here me (some depth) (fun _ => False) 0 s c) (hm : Mirrors me c past s w)
    (hlast : w.chain.getLast? = some b.key) (hlevels : c.graph.entries.length < levels + w.chain.length) (run : Nat)
    (hturns : ∀ turn ∈ (r.carryOut (requireWithin depth) c b.key run).turns me s, c.Helped me turn) :
    ∃ v t, (r.carryOut (requireWithin depth) c b.key run).eval me s = (.ok v, t) ∧ b.Gives v ∧
      Mirrors me c past t (b.dependencies.foldl (c.graph.follow (c.graph.visit levels) b.key) w) := by
  have hb := hdiligent.bindings b (List.mem_of_find?_eq_some hlookup)
  obtain ⟨p, t, heval, hmirrors⟩ := mirrors_steps hdiligent hvisits hlookup hsource h hm (hb.asks r hsource)
    (List.Subset.refl _) (List.Subset.refl _) hlast hlevels (by simp [Progress.Leads, Progress.start])
    (p := .start) (hb.configs r hsource) fun turn hturn => hturns turn (Attempt.mem_turns_bind_left _ hturn)
  obtain ⟨v, u, hmint, hmakes, hstore⟩ :=
    exists_of_mint (types_of_steps heval).1 c b.key t.nextSerial.2 me t.nextSerial.1
  have hcarry : (r.carryOut (requireWithin depth) c b.key run).eval me s = (.ok v, u) := by
    rw [Recipe.carryOut, Attempt.eval_bind, heval]
    simpa [hb.makes r hsource, Attempt.eval_bind] using hmint
  refine ⟨v, u, hcarry, by rwa [BindingOf.Gives, hsource], ?_⟩
  rcases hstore with rfl | rfl <;> exact hmirrors.congr rfl (fun _ _ => rfl) rfl

end Run

/-! ### Own keys -/

section Own

variable {me : Thread} {c : Container} {past : List Key} {depth levels : Nat} {s : Store} {w : Walk} {b : Binding}

/-- An instance is handed out, and listed where it was not yet. -/
theorem mirrors_given (depth : Nat) (hs : Consistent me s) (hc : s.HasBuilt c) (hm : Mirrors me c past s w)
    {v : Value} (hsource : b.source = .given v) (hnone : b.dependencies = [])
    (hlookup : c.registry.lookup b.key = some b) (hplace : c.place b ∉ s.building me) (hchain : b.key ∉ w.chain)
    (hproper : Walk.Proper c.graph (c.graph.visit (levels + 1) w b.key)) :
    ∃ t, (requireWithin (depth + 1) c b.key).eval me s = (.ok v, t) ∧
      Mirrors me c past t (c.graph.visit (levels + 1) w b.key) := by
  have hlinked := hs.linked c hc
  have hproduce : (c.produce (requireWithin depth) b).eval me s = _ := eval_produce_given hplace hsource
  obtain ⟨t, heval, hanswered⟩ := hm.answered (hlinked.owner?_own hlookup) hplace hproduce
  refine ⟨t, heval, ?_⟩
  by_cases hvisited : b.key ∈ w.visited
  · rwa [Graph.visit_of_visited (hlinked.own?_of_lookup hlookup) hchain hvisited]
  · have hvisit := Graph.visit_of_fresh (hlinked.own?_of_lookup hlookup) hchain hvisited levels
      (by rw [hnone, List.foldl_nil])
    rw [hvisit] at hproper ⊢
    exact hanswered.listed hlookup (BindingOf.isInstance_of_given hsource) hproper rfl rfl rfl (hs.distinct c hc)

/-- What was provided before is handed out again. -/
theorem mirrors_ready (depth levels : Nat) (hs : Consistent me s) (hc : s.HasBuilt c) (hm : Mirrors me c past s w)
    {v : Value} (hkept : b.isKept = true) (hslot : s.slots.slot (c.place b) = .ready v)
    (hlookup : c.registry.lookup b.key = some b) (hplace : c.place b ∉ s.building me) (hchain : b.key ∉ w.chain) :
    ∃ t, (requireWithin (depth + 1) c b.key).eval me s = (.ok v, t) ∧
      Mirrors me c past t (c.graph.visit (levels + 1) w b.key) := by
  have hlinked := hs.linked c hc
  have hlisted : b.key ∈ w.order := (hm.ready b (List.mem_of_find?_eq_some hlookup) hkept).1 ⟨v, hslot⟩
  rw [Graph.visit_of_visited (hlinked.own?_of_lookup hlookup) hchain ((hm.proper.visited b.key).2 (Or.inr hlisted))]
  exact hm.answered (hlinked.owner?_own hlookup) hplace (eval_produce_ready hplace hkept hslot hs.unwaited)

/-- What was not provided before is provided, after what it needs. -/
theorem mirrors_vacant (hdiligent : c.Diligent) (hvisits : Visits me c past depth)
    (h : Here me (some (depth + 1)) (fun _ => False) 0 s c) (hm : Mirrors me c past s w) {r : Recipe Step}
    (hopenable : Openable me s c b r) (hkept : b.isKept = true) (hchain : b.key ∉ w.chain)
    (hleads : w.Leads c.graph b.key) (hlevels : c.graph.entries.length < levels + 1 + w.chain.length)
    (hproper : Walk.Proper c.graph (c.graph.visit (levels + 1) w b.key))
    (hturns : ∀ turn ∈ (requireWithin (depth + 1) c b.key).turns me s, c.Helped me turn) :
    ∃ v t, (requireWithin (depth + 1) c b.key).eval me s = (.ok v, t) ∧ b.Gives v ∧
      Mirrors me c past t (c.graph.visit (levels + 1) w b.key) := by
  have hs := h.sheltered.consistent
  have hlinked := hs.linked c h.near.hasBuilt
  have hlookup := hopenable.lookup
  have howner := hlinked.owner?_own hlookup
  have hentry := hlinked.own?_of_lookup hlookup
  have hvisited : b.key ∉ w.visited := by
    rw [hm.proper.visited, not_or, ← hm.ready b (List.mem_of_find?_eq_some hlookup) hkept, hopenable.slot]
    exact ⟨hchain, by simp⟩
  have hopened := (h.opened hopenable).lighten (Nat.zero_le _)
  have hroom : c.graph.entries.length < levels + (w.chain ++ [b.key]).length := by
    rw [List.length_append, List.length_singleton]
    omega
  -- the recipe is carried out while the walk follows the dependencies, one level further down
  obtain ⟨v, t, heval, hgives, hm'⟩ := mirrors_run hdiligent hvisits hlookup hopenable.source hopened
    (hm.opened hs hopenable hkept hentry hchain hleads) List.getLast?_concat hroom (s.opened me c b r).2
    fun turn hturn => hturns turn (mem_turns_requireWith howner hopenable hs.unwaited hturn)
  obtain ⟨ht, hrun, -⟩ := sound_carryOut (sound_requireWithin me depth) hopened.sheltered.consistent
    hopened.near.hasBuilt b.key r (s.opened me c b r).2
  rw [heval] at ht hrun
  have hanswer : (requireWithin (depth + 1) c b.key).eval me s =
      (.ok v, (t.closed me c b (.ok v)).note (.answered c b.key v)) := by
    rw [requireWithin, eval_requireWith howner,
      eval_produce_recipe _ hopenable.place hopenable.source hopenable.slot hs.unwaited, heval]
  rw [Graph.visit_of_fresh hentry hchain hvisited levels rfl] at hproper ⊢
  exact ⟨v, _, hanswer, hgives, hm'.closed hs ht hopenable hrun hkept hm.building hproper hgives⟩

/-- Requests for own keys go the way of the walk, by induction on how deep constructions may nest. -/
theorem visits (hdiligent : c.Diligent) (me : Thread) (past : List Key) (depth : Nat) : Visits me c past depth := by
  induction depth with
  | zero => exact fun s w b levels h => absurd (h.near.fits 0 rfl) (Nat.not_lt_zero _)
  | succ depth ih =>
      intro s w b levels h hm hlookup hleads hlevels hturns
      obtain _ | levels := levels
      · exact absurd hm.proper.length_le (by omega)
      have hs := h.sheltered.consistent
      have hlinked := hs.linked c h.near.hasBuilt
      -- a key that is under construction would close a circle, and linking lets none pass
      have hchain : b.key ∉ w.chain := hm.not_mem_chain hlinked (by rw [hlinked.own?_of_lookup hlookup]; rfl) hleads
      have hplace : c.place b ∉ s.building me := by
        rw [hm.building, List.mem_map]
        rintro ⟨k, hk, heq⟩
        obtain rfl : k = b.key := congrArg Address.key heq
        exact hchain hk
      have hproper := (Graph.visit_spec (levels + 1) b.key hm.proper hlevels hleads).proper
      have hb := hdiligent.bindings b (List.mem_of_find?_eq_some hlookup)
      rcases hsource : b.source with v | r
      · obtain ⟨t, heval, hmirrors⟩ := mirrors_given depth hs h.near.hasBuilt hm hsource (hb.given v hsource)
          hlookup hplace hchain hproper
        exact ⟨v, t, heval, by rw [BindingOf.Gives, hsource], hmirrors⟩
      · have hkept : b.isKept = true := by
          rw [BindingOf.isKept, hb.isScoped r hsource, BindingOf.isInstance_of_recipe hsource]
          rfl
        rcases hs.slot_of_not_mem hplace with hslot | ⟨v, hslot⟩
        · exact mirrors_vacant hdiligent ih h hm ⟨h.near.hasBuilt, hlookup, hsource, hplace, hslot⟩ hkept hchain hleads
            hlevels hproper hturns
        · obtain ⟨t, heval, hmirrors⟩ := mirrors_ready depth levels hs h.near.hasBuilt hm hkept hslot
            hlookup hplace hchain
          exact ⟨v, t, heval, hm.gives b (List.mem_of_find?_eq_some hlookup) v hslot, hmirrors⟩

end Own

/-! ### From where nothing is under construction -/

/-- The walk begins where nothing is under construction and nothing has been made. -/
theorem Mirrors.start {me : Thread} {s : Store} {c : Container} (hs : Consistent me s) (hc : s.HasBuilt c)
    (hidle : s.building me = []) (hfresh : s.constructedCount c = 0) :
    Mirrors me c (c.completed s.history) s .start := by
  have hvacant (b : Binding) (hb : b ∈ c.registry.bindings) (v : Value) : s.slots.slot (c.place b) ≠ .ready v := by
    intro hready
    have hlookup := Registry.lookup_of_mem (hs.distinct c hc) hb
    have hsettled := hs.settled c (c.place b) b hc ⟨rfl, hlookup⟩
    rw [hready] at hsettled
    have hmem : b.key ∈ c.keptKeys := List.mem_map_of_mem (List.mem_filter.2 ⟨hb, hsettled.isKept v rfl⟩)
    exact List.countP_eq_zero.1 hfresh b.key hmem (Slots.isReady_iff.2 ⟨v, hready⟩)
  refine ⟨.start _, rfl, hidle, fun b hb _ => ?_, fun b hb v hv => absurd hv (hvacant b hb v), ?_, List.nodup_nil⟩
  · simpa [Walk.start] using hvacant b hb
  · simp [Walk.start]

/-- A request for an own key succeeds when each ancestor that it goes to can help, and the providers complete one after
the other in the order in which the graph lists them from that key. -/
theorem Sheltered.completes {me : Thread} {s : Store} {c : Container} {b : Binding} (hs : Sheltered me s)
    (hidle : s.building me = []) (halive : ∃ d ∈ s.held, d.Reaches c) (hdiligent : c.Diligent)
    (hfresh : s.constructedCount c = 0) (hlookup : c.registry.lookup b.key = some b)
    (hhelped : ∀ turn ∈ (c.require b.key).turns me s, c.Helped me turn) :
    ∃ v t new order, (c.require b.key).eval me s = (.ok v, t) ∧ v.type = b.key.type ∧ t.history = new ++ s.history ∧
      c.graph.rootOrder b.key = .ok order ∧ c.completed new = order.filter c.provides ∧ (c.completed new).Nodup := by
  have hhere := (hs.here halive).within (Nat.lt_succ_self c.weight)
  have hc := hhere.near.hasBuilt
  obtain ⟨v, t, heval, hgives, hmirrors⟩ := visits hdiligent me (c.completed s.history) (c.weight + 1) s .start b
    c.graph.depth hhere (.start hs.consistent hc hidle hfresh) hlookup (by simp [Walk.Leads, Walk.start])
    (by simp [Graph.depth, Walk.start]) hhelped
  have hevolves : Evolves me s ((requireWithin (c.weight + 1) c b.key).eval me s).2 :=
    (sound_require me s c b.key hs.consistent hc).evolves
  rw [heval] at hevolves
  obtain ⟨new, hhistory⟩ := hevolves.history
  have hsame : c.completed new = (c.graph.visit c.graph.depth .start b.key).order.filter c.provides := by
    have hcompleted := hmirrors.completed
    rw [← hhistory, Container.completed_append] at hcompleted
    exact List.append_cancel_left hcompleted
  have hsight : c.graph.contains b.key = true :=
    Container.contains_of_owner? (by rw [(hs.consistent.linked c hc).owner?_own hlookup]; rfl)
  have horder : c.graph.rootOrder b.key = .ok (c.graph.visit c.graph.depth .start b.key).order := by
    rw [Graph.rootOrder, if_pos hsight, Walk.result, hmirrors.errors]
  exact ⟨v, t, new, _, heval, (hdiligent.serves b (List.mem_of_find?_eq_some hlookup) v hgives).type, hhistory.symm,
    horder, hsame, hsame ▸ hmirrors.distinct⟩

namespace Session

/-- Between commands, let a container be held whose own providers ask for what they declare, let none of its values be
there, and let each ancestor help that the request for an own key goes to. Then the request succeeds, and the providers
that complete on the way are those that the graph lists from the key, in this order and each once. -/
theorem completes_in_order {s : Store} (hs : Idle s) {c : Container} (halive : ∃ d ∈ s.held, d.Reaches c)
    (hdiligent : c.Diligent) (hfresh : s.constructedCount c = 0) {k : Key} (hk : c.registry.contains k = true)
    (hhelped : ∀ turn ∈ (c.require k).turns Task.mainThread s, c.Helped Task.mainThread turn) :
    ∃ v t new order, (c.require k).eval Task.mainThread s = (.ok v, t) ∧ v.type = k.type ∧
      t.history = new ++ s.history ∧ c.graph.rootOrder k = .ok order ∧
      c.completed new = order.filter c.provides ∧ (c.completed new).Nodup := by
  obtain ⟨b, hlookup⟩ := Option.isSome_iff_exists.1 hk
  obtain rfl := Registry.key_of_lookup hlookup
  exact hs.sheltered.completes hs.building halive hdiligent hfresh hlookup hhelped

end Session

namespace Bakery

def flour : TypeInfo := ⟨1, "Flour", .number⟩

def salt : TypeInfo := ⟨2, "Salt", .number⟩

def butter : TypeInfo := ⟨3, "Butter", .number⟩

def dough : TypeInfo := ⟨4, "Dough", .number⟩

def oven : TypeInfo := ⟨5, "Oven", .number⟩

def bread : TypeInfo := ⟨6, "Bread", .number⟩

def heat : TypeInfo := ⟨7, "Heat", .number⟩

def flourDraft : Draft := .ofValue flour ⟨flour, ""⟩

def saltDraft : Draft := .ofValue salt ⟨salt, ""⟩

def doughDraft : Draft :=
  (BindingOf.provider ⟨dough, "",
    [.ask (.resolve (.value (.ofType flour))) none false, .ask (.resolve (.value (.ofType salt))) none false],
    none⟩).keeping.dependingOn [.required (.ofType flour), .required (.ofType salt)]

def ovenDraft : Draft := (BindingOf.provider ⟨oven, "", [.pause], none⟩).keeping

/-- A provider of configs, the heat among them. -/
def settingsDraft : Draft := (BindingOf.provider ⟨.configs, "", [.addConfig heat "high"], none⟩).keeping

/-- Bread with and without butter, from the dough in two pieces, at a set heat, that is looked at again once it is
baked. -/
def breadDraft : Draft :=
  (BindingOf.provider ⟨bread, "",
    [.ask (.resolve (.optional (.value (.ofType butter)))) none false,
      .ask (.resolve (.value (.ofType dough))) none false, .ask (.resolve (.value (.ofType dough))) none false,
      .ask (.resolve (.value (.ofType oven))) none false, .ask (.resolve (.config heat)) none false,
      .ask (.resolve (.deferred bread)) none false],
    none⟩).keeping.dependingOn
    [(Dependency.required (.ofType butter)).optional, .required (.ofType dough), .required (.ofType dough),
      .required (.ofType oven), .required .configs, .deferred (.ofType bread)]

/-- The run that builds a mill, and a bakery below it. -/
def opening : List Command :=
  [.newBuilder "b" none, .add "b" flourDraft .given, .build "b" "mill" false, .child "mill" "c",
    .add "c" breadDraft .given, .add "c" doughDraft .given, .add "c" ovenDraft .given, .add "c" saltDraft .given,
    .add "c" settingsDraft .given, .build "c" "bakery" false]

def mill : Container :=
  ⟨0, "container", ⟨[flourDraft.realize 1]⟩, [], Graph.assemble ⟨[flourDraft.realize 1]⟩ []⟩

def bakery : Container :=
  let registry : Registry :=
    ⟨[breadDraft.realize 0, doughDraft.realize 0, ovenDraft.realize 0, saltDraft.realize 2, settingsDraft.realize 0]⟩
  ⟨1, "container", registry, [mill], Graph.assemble registry (Graph.inherited registry [mill])⟩

def opened : Store := { (Session.empty.execAll opening).2.store with held := [bakery] }

theorem hasBuilt_bakery : (Session.empty.execAll opening).2.store.HasBuilt bakery :=
  List.mem_of_getElem? (rfl : (Session.empty.execAll opening).2.store.history[0]? = some (.built bakery))

theorem idle_opened : Session.Idle opened := .after opening (by decide) [bakery] (by simpa using hasBuilt_bakery)

theorem diligent_bakery : bakery.Diligent := by
  constructor
  case bindings =>
    intro b hb
    simp only [bakery, List.mem_cons, List.not_mem_nil, or_false] at hb
    rcases hb with rfl | rfl | rfl | rfl | rfl <;> constructor <;> rintro _ ⟨⟩ <;> try first | rfl | decide
    · exact .ask _ _ (.ask _ _ (.ask _ _ (.ask _ _ (.ask _ _ (.ask _ _ .nil)))))
    · exact .ask _ _ (.ask _ _ .nil)
    · exact .quiet rfl .nil
    · exact .addConfig _ _ .nil
  case serves =>
    intro b hb v hv
    simp only [bakery, List.mem_cons, List.not_mem_nil, or_false] at hb
    rcases hb with rfl | rfl | rfl | rfl | rfl
    · obtain ⟨_, _, rfl⟩ := hv
      exact ⟨rfl, nofun⟩
    · obtain ⟨_, _, rfl⟩ := hv
      exact ⟨rfl, nofun⟩
    · obtain ⟨_, _, rfl⟩ := hv
      exact ⟨rfl, nofun⟩
    · obtain rfl := hv
      exact ⟨rfl, nofun⟩
    · obtain ⟨_, set, rfl, htypes⟩ := hv
      refine ⟨rfl, fun _ type htype => set.find?_isSome_of_mem ?_⟩
      rw [htypes]
      exact htype

/-- The mill gives flour whenever the bakery asks for some. -/
theorem helped_bakery (me : Thread) (turn : Action × Store) : bakery.Helped me turn := by
  intro a b hreaches hne hlookup _ hbuilding
  obtain rfl : a = mill := by
    cases hreaches with
    | refl => exact absurd rfl hne
    | up hparent hrest =>
        obtain rfl := List.mem_singleton.1 hparent
        cases hrest with
        | refl => rfl
        | up hparent _ => cases hparent
  obtain rfl := List.mem_singleton.1 (List.mem_of_find?_eq_some hlookup)
  have hplace : mill.place (flourDraft.realize 1) ∉ turn.2.building me := by
    intro hmem
    exact absurd (hbuilding _ hmem) (by decide)
  refine ⟨.made flour 1 (.given ""), ?_, rfl, nofun⟩
  have hproduce : (mill.produce (requireWithin mill.weight) (flourDraft.realize 1)).eval me turn.2 =
      (.ok (.made flour 1 (.given "")), _) := eval_produce_given hplace rfl
  change ((mill.requireWith (requireWithin mill.weight) (flourDraft.realize 1).key).eval me turn.2).1 = _
  rw [eval_requireWith (o := mill) rfl, hproduce]

end Bakery

open Bakery in
/-- Dough, oven and settings are there before the bread, each once, though the bread asks for the dough twice. -/
theorem Session.completes_bakery : ∃ v t new,
    (bakery.require (.ofType bread)).eval Task.mainThread opened = (.ok v, t) ∧ t.history = new ++ opened.history ∧
      bakery.completed new = [.ofType dough, .ofType oven, .configs, .ofType bread] := by
  have hbread : bakery.registry.contains (.ofType bread) = true := rfl
  obtain ⟨v, t, new, order, heval, -, hhistory, horder, hcompleted, -⟩ := completes_in_order idle_opened
    ⟨bakery, List.mem_cons_self, .refl bakery⟩ diligent_bakery rfl hbread fun turn _ => helped_bakery _ turn
  have hlisted : bakery.graph.rootOrder (.ofType bread) =
      .ok [.ofType salt, .ofType dough, .ofType oven, .configs, .ofType bread] := rfl
  obtain rfl := Except.ok.inj (horder.symm.trans hlisted)
  exact ⟨v, t, new, heval, hhistory, hcompleted.trans (by decide)⟩

end Injection
