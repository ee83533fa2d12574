import Injection.Proofs.Household

/-!
What holds in all states that a program can come to. The store is coherent and shows what each thread is in the midst of,
the places are those of a crew, and each thread will go on with care. The store holds each container as often as the
program and the threads do; so it counts for alive just the containers that are.
-/

namespace Injection

open Opening

/-! ### Order -/

namespace Opening

variable {os os' : List Opening}

@[simp] theorem holdings_append : holdings (os ++ os') = holdings os ++ holdings os' := by simp [holdings]

@[simp] theorem numbers_append : numbers (os ++ os') = numbers os ++ numbers os' := List.filterMap_append

@[simp] theorem holdings_lent (cs : List Container) : holdings (cs.map .holding) = cs.map (·.id) := by
  simp [holdings, List.filterMap_map, container?, Function.comp_def]

theorem perm_holdings (h : os.Perm os') : (holdings os).Perm (holdings os') := (h.filterMap container?).map _

theorem perm_numbers (h : os.Perm os') : (numbers os).Perm (numbers os') := h.filterMap number?

/-- What is lent to a thread puts nothing under construction. -/
theorem lent_eq (h : ∀ o ∈ os, ∃ c, o = .holding c) : ∃ cs : List Container, os = cs.map .holding := by
  induction os with
  | nil => exact ⟨[], rfl⟩
  | cons o os ih =>
      obtain ⟨⟨c, rfl⟩, hrest⟩ := List.forall_mem_cons.1 h
      obtain ⟨cs, rfl⟩ := ih hrest
      exact ⟨c :: cs, rfl⟩

theorem supported_lent (cs : List Container) : Supported (cs.map .holding) := by
  induction cs with
  | nil => trivial
  | cons c cs ih => exact ih

end Opening

theorem Store.Unused.perm {s : Store} {ids ids' : List Nat} (h : s.Unused ids) (hperm : ids.Perm ids') :
    s.Unused ids' :=
  ⟨hperm.nodup_iff.1 h.nodup, fun id hid => h.given id (hperm.mem_iff.2 hid),
    fun id hid => h.unused id (hperm.mem_iff.2 hid)⟩

/-- Holding other containers changes nothing that is there for good. -/
theorem Store.lasts_held (s : Store) (held : List Container) : s.Lasts { s with held } :=
  ⟨List.suffix_refl _, Nat.le_refl _, fun _ _ h => h, fun _ cell h => ⟨cell.found, h, fun _ hv => hv⟩⟩

theorem Store.Coherent.held {s : Store} (hs : s.Coherent) (held : List Container) : { s with held }.Coherent :=
  hs.aside (s.lasts_held held) rfl fun _ h => .inl h

theorem Follow.ready_turn {α : Type} {below : Address → Address → Prop} {team : Team α} {moves : List (Thread × Move)}
    (h : Follow below team (Crew.empty.after moves)) (me : Thread) {p : Address} {v : Value}
    (hready : team.store.slots.slot p = .ready v) : (team.turn me).store.slots.slot p = .ready v := by
  obtain ⟨more, -, hmore⟩ := h.exists_turn me
  rw [← hmore.slots]
  exact (Crew.orderly_after moves).ready_after (h.slots ▸ hready) more

/-- A thread that is done goes on with a process of its own. -/
theorem Follow.resume {α : Type} {below : Address → Address → Prop} {team : Team α} {crew : Crew}
    (h : Follow below team crew) {me : Thread} {a : α} (hdone : team.threads me = .done a) {store : Store}
    (hslots : store.slots = team.store.slots) {p : Process α} (hp : p.Follows below []) :
    Follow below ⟨store, setAt team.threads me p⟩ crew := by
  refine ⟨h.slots.trans hslots.symm, fun t => ?_⟩
  by_cases ht : t = me
  · subst ht
    show Tracks below (setAt team.threads t p t) _
    rw [setAt_self]
    rcases hdone ▸ h.tracks t with ⟨hnothing, fits⟩ | ⟨-, -, process⟩
    · obtain rfl := hnothing
      exact .goes hp fits
    · cases process
  · show Tracks below (setAt team.threads me p t) _
    rw [setAt_of_ne _ _ ht]
    exact h.tracks t

namespace Household

/-- All that a turn of a thread can come to. -/
inductive Turn (w : Household) (me : Thread) : Household → Prop
  | idle {u : Option Upshot} (hdone : w.team.threads me = .done u) : Turn w me w
  | waits {a : Action} {next : a.Reply → Process (Option Upshot)} {slots : Slots}
      (hp : w.team.threads me = .act a next) (hperform : a.perform me w.store = ({ w.store with slots }, none))
      (hst : w.store.Lasts { w.store with slots }) :
      Turn w me { w with team := ⟨{ w.store with slots }, w.team.threads⟩ }
  | goes {a : Action} {next : a.Reply → Process (Option Upshot)} {r : a.Reply} {store : Store}
      (hp : w.team.threads me = .act a next) (hperform : a.perform me w.store = (store, some r))
      (hfair : a.Fair w.store (w.opens me)) (hst : w.store.Lasts store) (hstore : store.Coherent) :
      Turn w me ⟨⟨store.holdAll (next r).yield, setAt w.team.threads me (next r)⟩, (next r).yield ++ w.containers,
        w.builders, reopen w.opened me (a.openings r (w.opens me))⟩

/-- What holds in all states that a program can come to. -/
structure InOrder (w : Household) : Prop where
  coherent : w.store.Coherent
  follows : ∃ moves, Follow (fun _ _ => True) w.team (Crew.empty.after moves)
  tidy : ∀ t, ∃ floor, (∀ o ∈ floor, ∃ c, o = .holding c) ∧
    (w.team.threads t).Tidy t floor (Upshot.Due floor) (w.opens t) w.store
  shows : ∀ t, w.store.Shows t (w.opens t)
  supported : ∀ t, Supported (w.opens t)
  unused : w.store.Unused (numbers (w.opened.map (·.2)))
  /-- The store holds each container as often as the program and the threads do. -/
  held : (w.store.held.map (·.id)).Perm (holdings (w.opened.map (·.2)) ++ w.stock.map (·.id))
  known : ∀ c ∈ w.store.held, w.store.HasBuilt c
  stocked : ∀ c ∈ w.stock, w.store.HasBuilt c
  busy : ∀ t c, .holding c ∈ w.opens t → w.store.HasBuilt c

variable {w v : Household} {me : Thread}

theorem coherent_empty : Store.empty.Coherent where
  numbered _ h := nomatch h
  unique _ _ h := nomatch h
  parents _ _ h := nomatch h
  cells _ _ h := nomatch h
  answers _ _ _ h := nomatch h
  linked _ h := nomatch h

theorem inOrder_empty : empty.InOrder where
  coherent := coherent_empty
  follows := ⟨[], rfl, fun _ => .goes rfl .nil⟩
  tidy _ := ⟨[], nofun, rfl, fun _ => rfl, nofun⟩
  shows _ := rfl
  supported _ := trivial
  unused := ⟨List.nodup_nil, nofun, nofun⟩
  held := .nil
  known := nofun
  stocked := nofun
  busy := nofun

namespace InOrder

/-- What becomes of a household when the threads stay where they are. -/
theorem aside (h : w.InOrder) {store : Store} {containers : List Container} {builders : List Builder}
    (hst : w.store.Lasts store) (hstore : store.Coherent)
    (hfollows : ∃ moves, Follow (fun _ _ => True) ⟨store, w.team.threads⟩ (Crew.empty.after moves))
    (hbuilding : store.building = w.store.building) (hhistory : store.history = w.store.history)
    (hheld : (store.held.map (·.id)).Perm
      (holdings (w.opened.map (·.2)) ++ (containers ++ builders.flatMap (·.parents)).map (·.id)))
    (hknown : ∀ c ∈ store.held, store.HasBuilt c)
    (hstocked : ∀ c ∈ containers ++ builders.flatMap (·.parents), store.HasBuilt c) :
    InOrder ⟨⟨store, w.team.threads⟩, containers, builders, w.opened⟩ where
  coherent := hstore
  follows := hfollows
  tidy t := by
    obtain ⟨floor, hfloor, htidy⟩ := h.tidy t
    exact ⟨floor, hfloor, htidy.mono (fun u _ => Upshot.Due.mono u) hst⟩
  shows t := (congrFun hbuilding t).trans (h.shows t)
  supported := h.supported
  unused := by
    refine ⟨h.unused.nodup, fun id hid => Nat.lt_of_lt_of_le (h.unused.given id hid) hst.identities, ?_⟩
    exact fun id hid c hc => h.unused.unused id hid c (show _ ∈ w.store.history from hhistory ▸ hc)
  held := hheld
  known := hknown
  stocked := hstocked
  busy t c hc := hst.hasBuilt (h.busy t c hc)

/-- What becomes of a household when one thread goes on. -/
theorem goes (h : w.InOrder) {store : Store} {p : Process (Option Upshot)} {os : List Opening}
    {containers : List Container} (hst : w.store.Lasts store) (hstore : store.Coherent)
    (hfollows : ∃ moves, Follow (fun _ _ => True) ⟨store, setAt w.team.threads me p⟩ (Crew.empty.after moves))
    (htidy : ∃ floor, (∀ o ∈ floor, ∃ c, o = .holding c) ∧ p.Tidy me floor (Upshot.Due floor) os store)
    (hshows : store.Shows me os) (hbuilding : ∀ t, t ≠ me → store.building t = w.store.building t)
    (hsupported : Supported os) (hunused : store.Unused (numbers os ++ numbers (ofOthers w.opened me)))
    (hheld : (store.held.map (·.id)).Perm (holdings os ++
      (holdings (ofOthers w.opened me) ++ (containers ++ w.builders.flatMap (·.parents)).map (·.id))))
    (hknown : ∀ c ∈ store.held, store.HasBuilt c) (hcontainers : ∀ c ∈ containers, store.HasBuilt c)
    (hbusy : ∀ c, .holding c ∈ os → store.HasBuilt c) :
    InOrder ⟨⟨store, setAt w.team.threads me p⟩, containers, w.builders, reopen w.opened me os⟩ where
  coherent := hstore
  follows := hfollows
  tidy t := by
    show ∃ floor, _ ∧ (setAt w.team.threads me p t).Tidy t floor _ (ofThread (reopen w.opened me os) t) store
    by_cases ht : t = me
    · subst ht
      rwa [setAt_self, ofThread_reopen_self]
    · obtain ⟨floor, hfloor, htidy⟩ := h.tidy t
      rw [setAt_of_ne _ _ ht, ofThread_reopen_of_ne _ _ _ ht]
      exact ⟨floor, hfloor, htidy.mono (fun u _ => Upshot.Due.mono u) hst⟩
  shows t := by
    show store.Shows t (ofThread (reopen w.opened me os) t)
    by_cases ht : t = me
    · subst ht
      rwa [ofThread_reopen_self]
    · rw [Store.Shows, ofThread_reopen_of_ne _ _ _ ht]
      exact (hbuilding t ht).trans (h.shows t)
  supported t := by
    show Supported (ofThread (reopen w.opened me os) t)
    by_cases ht : t = me
    · subst ht
      rwa [ofThread_reopen_self]
    · rw [ofThread_reopen_of_ne _ _ _ ht]
      exact h.supported t
  unused := by rwa [map_reopen, numbers_append]
  held := by rwa [map_reopen, holdings_append, List.append_assoc]
  known := hknown
  stocked c hc := (List.mem_append.1 hc).elim (hcontainers c) fun hc =>
    hst.hasBuilt (h.stocked c (List.mem_append_right _ hc))
  busy t c hc := by
    obtain hc : .holding c ∈ ofThread (reopen w.opened me os) t := hc
    by_cases ht : t = me
    · subst ht
      rw [ofThread_reopen_self] at hc
      exact hbusy c hc
    · rw [ofThread_reopen_of_ne _ _ _ ht] at hc
      exact hst.hasBuilt (h.busy t c hc)

/-- What the store holds for one thread, and what it holds besides. -/
theorem held_mine (h : w.InOrder) (me : Thread) : (w.store.held.map (·.id)).Perm
    (holdings (w.opens me) ++ (holdings (ofOthers w.opened me) ++ w.stock.map (·.id))) := by
  rw [← List.append_assoc, ← holdings_append]
  exact h.held.trans ((perm_holdings (perm_ofThread w.opened me)).append_right _)

theorem unused_mine (h : w.InOrder) (me : Thread) :
    w.store.Unused (numbers (w.opens me) ++ numbers (ofOthers w.opened me)) := by
  rw [← numbers_append]
  exact h.unused.perm (perm_numbers (perm_ofThread w.opened me))

theorem hasBuilt_of_alive (h : w.InOrder) {c : Container} (hc : w.Alive c) : w.store.HasBuilt c := by
  induction hc with
  | held hc => exact h.stocked _ (List.mem_append_left _ hc)
  | gathered hb hp => exact h.stocked _ (List.mem_append_right _ (List.mem_flatMap.2 ⟨_, hb, hp⟩))
  | parent _ hp ih => exact (h.coherent.parents _ _ ih hp).1
  | busy hc => exact h.busy _ _ hc
  | constructing _ ho _ => exact ho

/-- A thread with a process of its own has only been lent something. -/
theorem opens_of_done (h : w.InOrder) {u : Option Upshot} (hdone : w.team.threads me = .done u) :
    (∃ cs : List Container, w.opens me = cs.map .holding) ∧ (u = none → w.opens me = []) ∧
      ∀ c, u = some (.built (.ok c)) → w.store.Knows c := by
  obtain ⟨floor, hfloor, htidy⟩ := h.tidy me
  rw [hdone] at htidy
  obtain ⟨hopens, hdue⟩ := htidy
  exact ⟨hopens ▸ lent_eq hfloor, hopens ▸ hdue.idle, hdue.built⟩

theorem manage (h : w.InOrder) {held containers : List Container} {builders : List Builder}
    (hheld : (held.map (·.id)).Perm
      (holdings (w.opened.map (·.2)) ++ (containers ++ builders.flatMap (·.parents)).map (·.id)))
    (hknown : ∀ c ∈ held, w.store.HasBuilt c)
    (hstocked : ∀ c ∈ containers ++ builders.flatMap (·.parents), w.store.HasBuilt c) :
    (w.manage held containers builders).InOrder := by
  refine h.aside (w.store.lasts_held held) (h.coherent.held held) ?_ rfl rfl hheld hknown hstocked
  obtain ⟨moves, hfollows⟩ := h.follows
  exact ⟨moves, hfollows.slots, hfollows.tracks⟩

theorem begin (h : w.InOrder) {op : Operation} (hidle : w.team.threads me = .done none)
    (hlent : ∀ c ∈ op.lent, w.Alive c) : (w.begin me op).InOrder := by
  have hlast := w.store.lasts_held (op.lent ++ w.store.held)
  have hopens := (h.opens_of_done hidle).2.1 rfl
  have hbuilt (c) (hc : c ∈ op.lent) : w.store.HasBuilt c := h.hasBuilt_of_alive (hlent c hc)
  have hmine := h.held_mine me
  have hunused := h.unused_mine me
  rw [hopens] at hmine hunused
  refine h.goes hlast (h.coherent.held _) ?_ ?_ ?_ (fun _ _ => rfl) (supported_lent _) ?_ ?_ ?_
    (fun c hc => h.stocked c (List.mem_append_left _ hc)) ?_
  · obtain ⟨moves, hfollows⟩ := h.follows
    have hresume := hfollows.resume hidle (rfl : w.store.slots = w.store.slots) (follows_operation op)
    exact ⟨moves, hresume.slots, hresume.tracks⟩
  · refine ⟨_, ?_, tidy_operation fun c hc => (h.coherent.knows (hbuilt c hc)).mono hlast⟩
    intro o ho
    obtain ⟨c, -, rfl⟩ := List.mem_map.1 ho
    exact ⟨c, rfl⟩
  · have hshows := h.shows me
    rw [hopens] at hshows
    have hplaces : (op.lent.map Opening.holding).filterMap place? = [] := by simp [List.filterMap_map, place?]
    rw [Store.Shows, hplaces]
    exact hshows
  · have hnumbers : numbers (op.lent.map .holding) = [] := by simp [numbers, List.filterMap_map, number?]
    rw [hnumbers]
    exact ⟨hunused.nodup, hunused.given, hunused.unused⟩
  · rw [holdings_lent]
    show ((op.lent ++ w.store.held).map (·.id)).Perm _
    rw [List.map_append]
    exact hmine.append_left _
  · intro c hc
    exact (List.mem_append.1 hc).elim (hbuilt c) (h.known c)
  · intro c hc
    obtain ⟨d, hd, heq⟩ := List.mem_map.1 hc
    cases heq
    exact hbuilt c hd

theorem finish (h : w.InOrder) {u : Upshot} (hdone : w.team.threads me = .done (some u)) : (w.finish me).InOrder := by
  obtain ⟨cs, hopens⟩ := (h.opens_of_done hdone).1
  have hlast := w.store.lasts_held (Container.release w.store.held ((w.opens me).filterMap container?))
  have hmine := h.held_mine me
  have hunused := h.unused_mine me
  have hshows := h.shows me
  have hlent : (cs.map Opening.holding).filterMap container? = cs := by
    simp [List.filterMap_map, container?, Function.comp_def]
  rw [hopens] at hmine hunused hshows
  refine h.goes hlast (h.coherent.held _) ?_ ?_ ?_ (fun _ _ => rfl) trivial ?_ ?_ ?_
    (fun c hc => h.stocked c (List.mem_append_left _ hc)) nofun
  · obtain ⟨moves, hfollows⟩ := h.follows
    have hidle : (Process.done (none : Option Upshot)).Follows (fun _ _ => True) [] := rfl
    have hresume := hfollows.resume hdone (rfl : w.store.slots = w.store.slots) hidle
    exact ⟨moves, hresume.slots, hresume.tracks⟩
  · exact ⟨[], nofun, rfl, fun _ => rfl, nofun⟩
  · have hplaces : (cs.map Opening.holding).filterMap place? = [] := by simp [List.filterMap_map, place?]
    rw [Store.Shows, hplaces] at hshows
    exact hshows
  · have hnumbers : numbers (cs.map .holding) = [] := by simp [numbers, List.filterMap_map, number?]
    rw [hnumbers] at hunused
    exact ⟨hunused.nodup, hunused.given, hunused.unused⟩
  · rw [holdings_lent] at hmine
    show ((Container.release w.store.held ((w.opens me).filterMap container?)).map (·.id)).Perm _
    rw [hopens, hlent]
    exact Container.release_perm hmine
  · exact fun c hc => h.known c (Container.mem_of_mem_release hc)

theorem turned (h : w.InOrder) (me : Thread) : w.Turn me (w.turn me) := by
  rcases hp : w.team.threads me with u | ⟨a, next⟩
  · exact (turn_done hp).symm ▸ .idle hp
  obtain ⟨moves, hfollows⟩ := h.follows
  obtain ⟨floor, -, htidy⟩ := h.tidy me
  rw [hp] at htidy
  obtain ⟨hfair, -⟩ := htidy.2 w.store (.refl _) h.coherent (h.shows me)
  have hready (p v) (hslot : w.store.slots.slot p = .ready v) : (w.team.turn me).store.slots.slot p = .ready v :=
    hfollows.ready_turn me hslot
  rcases hperform : a.perform me w.store with ⟨store, _ | r⟩
  · have hturn := turn_waits hp (congrArg Prod.snd hperform)
    rw [Team.turn_waits hp hperform] at hready
    rw [hperform] at hturn
    obtain ⟨slots, rfl⟩ := Action.perform_eq_none hperform
    exact hturn.symm ▸ .waits hp hperform ⟨List.suffix_refl _, Nat.le_refl _, hready, (Store.Lasts.refl _).cells⟩
  · have hturn := turn_goes hp (congrArg Prod.snd hperform)
    rw [Team.turn_goes hp hperform] at hready
    obtain rfl : (a.perform me w.store).1 = store := congrArg Prod.fst hperform
    have hst := Action.lasts_perform h.coherent hready
    refine hturn.symm ▸ .goes hp hperform hfair hst (Action.coherent_perform h.coherent hst hfair fun c ha => ?_)
    subst ha
    obtain ⟨rest, hrest⟩ := List.head?_eq_some_iff.1 hfair.1
    have hmem : c.id ∈ numbers (w.opens me) ++ numbers (ofOthers w.opened me) := by
      rw [hrest]
      exact List.mem_cons_self
    exact ⟨(h.unused_mine me).given _ hmem, (h.unused_mine me).unused _ hmem⟩

theorem turn (h : w.InOrder) (me : Thread) : (w.turn me).InOrder := by
  obtain ⟨moves, hfollows⟩ := h.follows
  obtain ⟨more, -, hmore⟩ := hfollows.exists_turn me
  rw [← Crew.after_append] at hmore
  have hturned := h.turned me
  generalize w.turn me = v at hturned
  cases hturned with
  | idle hdone => exact h
  | @waits a next slots hp hperform hst =>
      rw [Team.turn_waits hp hperform] at hmore
      exact h.aside hst (h.coherent.aside hst rfl fun _ h => .inl h) ⟨_, hmore⟩ rfl rfl h.held h.known h.stocked
  | @goes a next r store hp hperform hfair hst hstore =>
      rw [Team.turn_goes hp hperform] at hmore
      obtain rfl : (a.perform me w.store).1 = store := congrArg Prod.fst hperform
      obtain ⟨floor, hfloor, htidy⟩ := h.tidy me
      rw [hp] at htidy
      have hnext := (htidy.2 w.store (.refl _) h.coherent (h.shows me)).2.2 r _ hperform hst hstore
      have hlast := (a.perform me w.store).1.lasts_held ((next r).yield ++ (a.perform me w.store).1.held)
      have hyield (c) (hc : c ∈ (next r).yield) : (a.perform me w.store).1.HasBuilt c := by
        unfold Process.yield at hc
        split at hc
        · next d hd =>
          obtain rfl := List.mem_singleton.1 hc
          rw [hd] at hnext
          exact hnext.2.built c rfl c (.refl c)
        · cases hc
      have hshows := Action.shows_perform (h.shows me) hfair hperform
      refine h.goes (hst.trans hlast) (hstore.held _) ⟨_, hmore.slots, hmore.tracks⟩
        ⟨floor, hfloor, hnext.mono (fun u _ => Upshot.Due.mono u) hlast⟩ hshows
        (fun t ht => Action.building_perform_of_ne ht) (Action.supported_perform (h.supported me) hfair) ?_ ?_ ?_ ?_ ?_
      · have hunused := Action.unused_perform h.coherent (h.unused_mine me) hfair hperform
        exact ⟨hunused.nodup, hunused.given, hunused.unused⟩
      · have hheld := Action.held_perform (h.held_mine me) hfair hperform
        show (((next r).yield ++ (a.perform me w.store).1.held).map (·.id)).Perm _
        rw [List.append_assoc, List.map_append, List.map_append]
        exact (hheld.append_left _).trans
          ((List.perm_append_comm_assoc _ _ _).trans ((List.perm_append_comm_assoc _ _ _).append_left _))
      · refine List.forall_mem_append.2 ⟨hyield, fun c hc => ?_⟩
        rcases Action.hasBuilt_of_held_perform h.coherent hfair hc with hc | hc
        · exact hst.hasBuilt (h.known c hc)
        · exact hst.hasBuilt hc
      · exact List.forall_mem_append.2
          ⟨hyield, fun c hc => hst.hasBuilt (h.stocked c (List.mem_append_left _ hc))⟩
      · intro c hc
        rcases Action.hasBuilt_of_holding h.coherent hfair hperform hc with hc | hc
        · exact hst.hasBuilt (h.busy me c hc)
        · exact hst.hasBuilt hc

theorem take (h : w.InOrder) {c : Container} (hc : w.Alive c) :
    (w.manage (c :: w.store.held) (c :: w.containers) w.builders).InOrder := by
  have hbuilt := h.hasBuilt_of_alive hc
  exact h.manage ((h.held.cons c.id).trans List.perm_middle.symm) (List.forall_mem_cons.2 ⟨hbuilt, h.known⟩)
    (List.forall_mem_cons.2 ⟨hbuilt, h.stocked⟩)

/-- The program lets go of some of the containers that it holds. -/
theorem letGo (h : w.InOrder) (front cs back : List Container) {containers : List Container} {builders : List Builder}
    (hstock : w.stock = front ++ (cs ++ back)) (hrest : containers ++ builders.flatMap (·.parents) = front ++ back) :
    (w.manage (Container.release w.store.held cs) containers builders).InOrder := by
  refine h.manage (Container.release_perm ?_) (fun d hd => h.known d (Container.mem_of_mem_release hd)) fun d hd => ?_
  · refine h.held.trans ?_
    rw [hstock, hrest, List.map_append, List.map_append, List.map_append]
    exact (List.Perm.append_left _ (List.perm_append_comm_assoc _ _ _)).trans (List.perm_append_comm_assoc _ _ _)
  · rw [hrest] at hd
    refine h.stocked d ?_
    rw [hstock]
    exact (List.mem_append.1 hd).elim (List.mem_append_left _) fun hd =>
      List.mem_append_right _ (List.mem_append_right _ hd)

theorem gather (h : w.InOrder) {b : Builder} (hb : ∀ p ∈ b.parents, w.Alive p) :
    (w.manage (b.parents ++ w.store.held) w.containers (b :: w.builders)).InOrder := by
  have hbuilt (p) (hp : p ∈ b.parents) : w.store.HasBuilt p := h.hasBuilt_of_alive (hb p hp)
  refine h.manage ?_ (List.forall_mem_append.2 ⟨hbuilt, h.known⟩) fun d hd => ?_
  · rw [List.map_append, List.flatMap_cons, List.map_append, List.map_append]
    refine (h.held.append_left _).trans ((List.perm_append_comm_assoc _ _ _).trans (.append_left _ ?_))
    rw [stock, List.map_append]
    exact List.perm_append_comm_assoc _ _ _
  · rcases List.mem_append.1 hd with hd | hd
    · exact h.stocked d (List.mem_append_left _ hd)
    · rcases List.mem_append.1 hd with hd | hd
      · exact hbuilt d hd
      · exact h.stocked d (List.mem_append_right _ hd)

end InOrder

theorem Step.inOrder {who : Option Thread} (hstep : w.Step who v) (h : w.InOrder) : v.InOrder := by
  cases hstep with
  | begin me op hidle hlent => exact h.begin hidle hlent
  | turn me => exact h.turn me
  | finish me u hdone => exact h.finish hdone
  | take c hc => exact h.take hc
  | drop front c back hc =>
      exact h.letGo front [c] (back ++ w.builders.flatMap (·.parents)) (by simp [stock, hc]) (by simp)
  | gather b hb => exact h.gather hb
  | discard front b back hb =>
      exact h.letGo (w.containers ++ front.flatMap (·.parents)) b.parents (back.flatMap (·.parents))
        (by simp [stock, hb]) (by simp)

theorem Leads.inOrder (hleads : w.Leads v) (h : w.InOrder) : v.InOrder := by
  induction hleads with
  | refl => exact h
  | step _ hstep ih => exact hstep.inOrder ih

theorem Reached.inOrder (h : w.Reached) : w.InOrder := Leads.inOrder h inOrder_empty

/-! ### What is there for good -/

theorem Step.lasts {who : Option Thread} (hstep : w.Step who v) (h : w.InOrder) : w.store.Lasts v.store := by
  cases hstep with
  | turn me =>
      have hturned := h.turned me
      generalize w.turn me = v at hturned
      cases hturned with
      | idle hdone => exact .refl _
      | waits hp hperform hst => exact hst
      | goes hp hperform hfair hst hstore => exact hst.trans (Store.lasts_held _ _)
  | _ => exact Store.lasts_held _ _

theorem Leads.lasts (hleads : w.Leads v) (h : w.InOrder) : w.store.Lasts v.store := by
  induction hleads with
  | refl => exact .refl _
  | step hleads hstep ih => exact ih.trans (hstep.lasts (hleads.inOrder h))

/-! ### Containers that are alive -/

theorem Alive.of_reaches {c a : Container} (hc : w.Alive c) (hreaches : c.Reaches a) : w.Alive a := by
  induction hreaches with
  | refl => exact hc
  | up hparent _ ih => exact ih (.parent hc hparent)

theorem InOrder.alive_of_held (h : w.InOrder) {c : Container} (hc : c ∈ w.store.held) : w.Alive c := by
  have hid : c.id ∈ holdings (w.opened.map (·.2)) ++ w.stock.map (·.id) :=
    h.held.mem_iff.1 (List.mem_map_of_mem hc)
  rcases List.mem_append.1 hid with hid | hid
  · obtain ⟨d, hd, heq⟩ := List.mem_map.1 hid
    obtain ⟨o, ho, hcontainer⟩ := List.mem_filterMap.1 hd
    obtain ⟨⟨t, o⟩, hopened, rfl⟩ := List.mem_map.1 ho
    cases o with
    | holding d' =>
        cases hcontainer
        have hopens : .holding d ∈ w.opens t := List.mem_map.2 ⟨(t, .holding d), by simpa using hopened, rfl⟩
        exact h.coherent.unique d c (h.busy t d hopens) (h.known c hc) heq ▸ .busy hopens
    | _ => cases hcontainer
  · obtain ⟨d, hd, heq⟩ := List.mem_map.1 hid
    rw [← h.coherent.unique d c (h.stocked d hd) (h.known c hc) heq]
    rcases List.mem_append.1 hd with hd | hd
    · exact .held hd
    · obtain ⟨b, hb, hp⟩ := List.mem_flatMap.1 hd
      exact .gathered hb hp

/-- A container that is held, perhaps as another object. -/
theorem InOrder.mem_held (h : w.InOrder) {c : Container} (hc : w.store.HasBuilt c)
    (hid : c.id ∈ holdings (w.opened.map (·.2)) ++ w.stock.map (·.id)) : c ∈ w.store.held := by
  obtain ⟨d, hd, heq⟩ := List.mem_map.1 (h.held.mem_iff.2 hid)
  exact h.coherent.unique d c (h.known d hd) hc heq ▸ hd

theorem InOrder.mem_held_of_busy (h : w.InOrder) {t : Thread} {c : Container} (hc : .holding c ∈ w.opens t) :
    c ∈ w.store.held := by
  obtain ⟨⟨u, o⟩, ho, heq⟩ := List.mem_map.1 hc
  obtain rfl : o = .holding c := heq
  refine h.mem_held (h.busy t c hc) (List.mem_append_left _ (List.mem_map.2 ⟨c, ?_, rfl⟩))
  exact List.mem_filterMap.2 ⟨.holding c, List.mem_map.2 ⟨_, (List.mem_filter.1 ho).1, rfl⟩, rfl⟩

/-- Who constructs a binding of a container has hold of the container, or of one below it. -/
theorem InOrder.exists_holding (h : w.InOrder) {t : Thread} {place : Address} {o : Container}
    (hplace : .within place ∈ w.opens t) (ho : w.store.HasBuilt o) (hid : o.id = place.container) :
    ∃ d, .holding d ∈ w.opens t ∧ d.Reaches o := by
  obtain ⟨d, a, hd, hreaches, ha⟩ := (h.supported t).exists_holding hplace
  have hbuilt := h.coherent.hasBuilt_of_reaches (h.busy t d hd) hreaches
  obtain rfl := h.coherent.unique a o hbuilt ho (ha.trans hid.symm)
  exact ⟨d, hd, hreaches⟩

/-- A container that a thread was constructing a binding of before was there before. -/
theorem InOrder.hasBuilt_of_within (h : w.InOrder) {s : Store} (hs : s.Coherent) (hlast : w.store.Lasts s) {t : Thread}
    {place : Address} (hplace : .within place ∈ w.opens t) {o : Container} (ho : s.HasBuilt o)
    (hid : o.id = place.container) : w.store.HasBuilt o := by
  obtain ⟨d, a, hd, hreaches, ha⟩ := (h.supported t).exists_holding hplace
  have hbuilt := h.coherent.hasBuilt_of_reaches (h.busy t d hd) hreaches
  exact hs.unique a o (hlast.hasBuilt hbuilt) ho (ha.trans hid.symm) ▸ hbuilt

/-- Every container that is alive is held, or a container below it is. -/
theorem InOrder.exists_held (h : w.InOrder) {c : Container} (hc : w.Alive c) : ∃ d ∈ w.store.held, d.Reaches c := by
  have hstock {c : Container} (hc : c ∈ w.stock) : c ∈ w.store.held :=
    h.mem_held (h.stocked c hc) (List.mem_append_right _ (List.mem_map_of_mem hc))
  induction hc with
  | held hc => exact ⟨_, hstock (List.mem_append_left _ hc), .refl _⟩
  | gathered hb hp => exact ⟨_, hstock (List.mem_append_right _ (List.mem_flatMap.2 ⟨_, hb, hp⟩)), .refl _⟩
  | parent hc hp ih =>
      obtain ⟨d, hd, hreaches⟩ := ih
      exact ⟨d, hd, hreaches.trans (.up hp (.refl _))⟩
  | busy hc => exact ⟨_, h.mem_held_of_busy hc, .refl _⟩
  | constructing hplace ho hid =>
      obtain ⟨d, hd, hreaches⟩ := h.exists_holding hplace ho hid
      exact ⟨d, h.mem_held_of_busy hd, hreaches⟩

/-- The store counts for alive just the containers that are. -/
theorem InOrder.isAlive_iff (h : w.InOrder) {c : Container} (hc : w.store.HasBuilt c) :
    w.store.isAlive c.id = true ↔ w.Alive c := by
  rw [Store.isAlive, List.any_eq_true]
  constructor
  · rintro ⟨a, ha, hid⟩
    obtain ⟨d, hd, hreaches⟩ := Container.reaches_of_mem_lineage ha
    have hbuilt := h.coherent.hasBuilt_of_reaches (h.known d hd) hreaches
    obtain rfl := h.coherent.unique a c hbuilt hc (beq_iff_eq.1 hid)
    exact (h.alive_of_held hd).of_reaches hreaches
  · intro halive
    obtain ⟨d, hd, hreaches⟩ := h.exists_held halive
    exact ⟨c, Container.mem_lineage h.coherent.family h.known hd hreaches, beq_self_eq_true _⟩

theorem InOrder.isAlive_cell_iff (h : w.InOrder) {id : Nat} {cell : Cell} (hcell : w.store.cells id = some cell) :
    w.store.isAlive cell.container.id = true ↔ w.Alive cell.container :=
  h.isAlive_iff (h.coherent.cells _ _ hcell).2.1

end Household

end Injection
