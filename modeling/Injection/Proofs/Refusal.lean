import Injection.Proofs.Progress
import Mathlib.Order.Defs.Unbundled

/-!
No thread is refused without need. Every wait edge on the way from the owner of a place to the thread that wants it is
the edge of a thread that waits for a place which the next one is computing at that moment; so a thread that is refused
would have waited for ever. Where threads only go to places below all those that they are computing, the places on such
a way would get lower and lower and yet come back to where they began; so no thread is refused at all.
-/

namespace Injection

namespace WaitEdge

theorem Orderly.eq_of_waiter {edges : List WaitEdge} (h : Orderly edges) {e f : WaitEdge} (he : e ∈ edges)
    (hf : f ∈ edges) (hwaiter : e.waiter = f.waiter) : e = f :=
  List.inj_on_of_nodup_map h.single he hf hwaiter

theorem waits_of_stopWaiting {edges : List WaitEdge} {t u v : Thread} (h : Waits (stopWaiting edges v) t u) :
    Waits edges t u := by
  obtain ⟨e, he, hends⟩ := h
  exact ⟨e, (mem_stopWaiting.1 he).1, hends⟩

end WaitEdge

namespace Crew

variable {s s' : Crew} {me m t u : Thread} {v : Visit} {rest : List Visit}

/-! ### Edges and what they stand for -/

/-- A thread has its edge and waits for a place that the other one is computing at this moment. -/
def Awaits (s : Crew) (t u : Thread) : Prop :=
  ∃ v rest, s.visits t = v :: rest ∧ v.stage.isWaiting = true ∧ ⟨t, v.place, u⟩ ∈ s.slots.edges ∧
    s.slots.slot v.place = .computing u ∧ ∃ w ∈ s.visits u, w.place = v.place ∧ w.stage = .computing

/-- A thread that waits, or looks, or makes no call at all is not about to settle or free a place. -/
def Quiet (s : Crew) (t : Thread) : Prop := ∀ v rest, s.visits t = v :: rest → v.stage.isOpen = false

theorem quiet_of_top (top : s.visits t = v :: rest) (hv : v.stage.isOpen = false) : s.Quiet t := by
  intro w _ hvisits
  obtain rfl := (List.cons.inj (top.symm.trans hvisits)).1
  exact hv

theorem not_open_of_isWaiting (h : v.stage.isWaiting = true) : v.stage.isOpen = false := by
  cases hstage : v.stage <;> simp_all [Stage.isWaiting, Stage.isOpen]

theorem Awaited.visits_of_mem (h : Awaited s) {e : WaitEdge} (he : e ∈ s.slots.edges) :
    ∃ v rest, s.visits e.waiter = v :: rest ∧ v.place = e.place ∧ v.stage.isWaiting = true := by
  obtain ⟨v, hv, hplace, hwaiting⟩ := h.waiters e he
  rcases hvisits : s.visits e.waiter with _ | ⟨w, rest⟩
  · rw [hvisits] at hv
    cases hv
  · rw [hvisits, List.take_one, List.head?_cons, Option.toList_some, List.mem_singleton] at hv
    exact ⟨w, rest, rfl, hv ▸ hplace, hv ▸ hwaiting⟩

theorem Awaited.quiet_of_mem (h : Awaited s) {e : WaitEdge} (he : e ∈ s.slots.edges) : s.Quiet e.waiter := by
  obtain ⟨v, rest, top, -, hwaiting⟩ := h.visits_of_mem he
  exact quiet_of_top top (not_open_of_isWaiting hwaiting)

/-- A thread that is not about to settle or free a place is within the runs for all places that it has. -/
theorem Steady.computing_of_quiet (h : Steady s) (hquiet : s.Quiet t) {w : Visit} (hw : w ∈ s.visits t)
    (hopen : w.stage.isOpen = true) : w.stage = .computing := by
  by_contra hne
  obtain ⟨rest, top⟩ := h.top hw hne
  rw [hquiet w rest top] at hopen
  cases hopen

/-- Only between settling and freeing a place is an edge older than what it stands for, and its owner does neither. -/
theorem Awaited.awaits (h : Awaited s) (hsteady : Steady s) {e : WaitEdge} (he : e ∈ s.slots.edges)
    (hquiet : s.Quiet e.owner) : s.Awaits e.waiter e.owner := by
  obtain ⟨v, rest, top, hplace, hwaiting⟩ := h.visits_of_mem he
  obtain ⟨w, hw, hwplace, hopen⟩ := h.owners e he
  have hcomputing := hsteady.computing_of_quiet hquiet hw hopen
  refine ⟨v, rest, top, hwaiting, hplace.symm ▸ he, ?_, w, hw, hwplace.trans hplace.symm, hcomputing⟩
  rw [hsteady.owner, Visit.mem_held]
  exact ⟨w, hw, by rw [hcomputing]; rfl, hwplace.trans hplace.symm⟩

/-- Whoever is on the way to a quiet thread is quiet. -/
theorem Awaited.quiet_of_path (h : Awaited s) (hm : s.Quiet m)
    (hpath : Relation.ReflTransGen (WaitEdge.Waits s.slots.edges) t m) : s.Quiet t := by
  rcases hpath.cases_head with rfl | ⟨_, ⟨e, he, rfl, -⟩, -⟩
  · exact hm
  · exact h.quiet_of_mem he

theorem Awaited.awaits_of_path (h : Awaited s) (hsteady : Steady s) (hm : s.Quiet m)
    (hpath : Relation.ReflTransGen (WaitEdge.Waits s.slots.edges) t m) : Relation.ReflTransGen s.Awaits t m := by
  induction hpath using Relation.ReflTransGen.head_induction_on with
  | refl => exact .refl
  | head hstep hrest ih =>
      obtain ⟨e, he, rfl, rfl⟩ := hstep
      exact ih.head (h.awaits hsteady he (h.quiet_of_path hm hrest))

/-! ### Waiting that would not end -/

/-- A place that is being computed is given up only in a turn of its owner, and not while the owner is quiet. -/
theorem Steady.computing_turn (h : Steady s) (hturn : Turn me s s') {place : Address}
    (hslot : s.slots.slot place = .computing t) (hquiet : t = me → s.Quiet me) :
    s'.slots.slot place = .computing t := by
  by_cases ht : t = me
  · have hopen {v : Visit} {rest : List Visit} (top : s.visits me = v :: rest) : v.stage.isOpen = false :=
      hquiet ht v rest top
    cases hturn with
    | @enter v rest top looking slot =>
        refine (setAt_of_ne _ _ ?_).trans hslot
        rintro rfl
        rw [hslot] at slot
        cases slot
    | settle top settling =>
        have hstage := hopen top
        rw [settling] at hstage
        cases hstage
    | release top releasing =>
        have hstage := hopen top
        rw [releasing] at hstage
        cases hstage
    | _ => exact hslot
  · cases h.shift hturn with
    | same slots held => rw [slots, hslot]
    | taken place' vacant slots mine others =>
        rw [slots, setAt_of_ne, hslot]
        rintro rfl
        rw [hslot] at vacant
        cases vacant
    | left place' slot free slots mine others =>
        rw [slots, setAt_of_ne, hslot]
        rintro rfl
        have hmine := (h.owner me place).2 (mine ▸ List.mem_cons_self)
        exact ht (Slot.computing.inj (hslot.symm.trans hmine))

theorem slot_release_ne_computing (slots : Slots) (place : Address) (t : Thread) :
    (slots.release place).slot place ≠ .computing t := by
  unfold Slots.release
  cases hslot : slots.slot place <;> simp [hslot]

/-- A thread whose wait would not end may wake up and look, but then goes to sleep with the same edge again. -/
theorem Awaited.mem_edges_turn (h : Awaited s) (hsteady : Steady s) (hturn : Turn me s s') (hm : s.Quiet m)
    {e : WaitEdge} (he : e ∈ s.slots.edges)
    (hpath : Relation.ReflTransGen (WaitEdge.Waits s.slots.edges) e.owner m) (hme : e.owner = me → s.Quiet me) :
    e ∈ s'.slots.edges := by
  obtain ⟨w, rest', top', hwaiting, hw, hslot, -⟩ := h.awaits hsteady he (h.quiet_of_path hm hpath)
  have hplace : w.place = e.place := congrArg WaitEdge.place (h.orderly.eq_of_waiter hw he rfl)
  have hmine {v : Visit} {rest : List Visit} (top : s.visits me = v :: rest) (hwaiter : e.waiter = me) : v = w :=
    (List.cons.inj (top.symm.trans (hwaiter ▸ top'))).1
  have hstop (hwaiter : e.waiter ≠ me) : e ∈ WaitEdge.stopWaiting s.slots.edges me :=
    WaitEdge.mem_stopWaiting.2 ⟨he, hwaiter⟩
  cases hturn with
  | @found v rest top looking value slot =>
      refine hstop fun hwaiter => ?_
      rw [hmine top hwaiter, hslot] at slot
      cases slot
  | @enter v rest top looking slot =>
      refine hstop fun hwaiter => ?_
      rw [hmine top hwaiter, hslot] at slot
      cases slot
  | @sleep v rest top looking owner slot edges start =>
      obtain rfl := (h.startWaiting start).1
      by_cases hwaiter : e.waiter = me
      · obtain rfl := hmine top hwaiter
        obtain rfl := Slot.computing.inj (slot.symm.trans hslot)
        refine List.mem_append_right _ (List.mem_singleton.2 ?_)
        rw [← hwaiter, hplace]
      · exact List.mem_append_left _ (hstop hwaiter)
  | @refused v rest top looking owner slot start =>
      refine hstop fun hwaiter => ?_
      obtain rfl := hmine top hwaiter
      obtain rfl := Slot.computing.inj (slot.symm.trans hslot)
      have hback := (WaitEdge.startWaiting_eq_none start).lift id fun _ _ => WaitEdge.waits_of_stopWaiting
      exact h.orderly.acyclic me (.head' ⟨e, he, hwaiter, rfl⟩ hback)
  | @release v rest outcome top releasing =>
      rw [edges_release]
      refine WaitEdge.mem_freeWaiters.2 ⟨he, fun heq => ?_⟩
      have hstill := hsteady.computing_turn (.release top releasing) hslot hme
      rw [hplace, heq] at hstill
      exact slot_release_ne_computing _ _ _ hstill
  | settle top settling =>
      rw [edges_settle]
      exact he
  | _ => exact he

theorem Steady.quiet_of_ne (h : Steady s) (hturn : Turn me s s') (hne : m ≠ me) (hm : s.Quiet m) : s'.Quiet m := by
  rcases hturn.visits_of_ne hne with hsame | ⟨place, hrouse⟩
  · intro v rest top
    exact hm v rest (hsame.symm.trans top)
  · rcases hvisits : s.visits m with _ | ⟨v, rest⟩
    · intro w _ top
      rw [hrouse, Crew.visits_rouse, hvisits] at top
      cases top
    · rw [h.visits_rouse hvisits] at hrouse
      refine quiet_of_top hrouse ?_
      rcases Visit.rouse_cases place v with heq | ⟨-, -, heq⟩
      · rw [heq]
        exact hm v rest hvisits
      · rw [heq]
        rfl

/-- The owner of a place waits, with other threads in between, for a thread that is not about to do anything. -/
structure Stuck (s : Crew) (place : Address) (owner m : Thread) : Prop where
  steady : Steady s
  awaited : Awaited s
  quiet : s.Quiet m
  slot : s.slots.slot place = .computing owner
  path : Relation.ReflTransGen (WaitEdge.Waits s.slots.edges) owner m

theorem Stuck.turn {place : Address} {owner : Thread} (h : Stuck s place owner m) (hturn : Turn me s s')
    (hne : m ≠ me) : Stuck s' place owner m where
  steady := h.steady.turn hturn
  awaited := h.awaited.turn h.steady hturn
  quiet := h.steady.quiet_of_ne hturn hne h.quiet
  slot := h.steady.computing_turn hturn h.slot fun heq => heq ▸ h.awaited.quiet_of_path h.quiet h.path
  path := by
    suffices hall : ∀ t, Relation.ReflTransGen (WaitEdge.Waits s.slots.edges) t m →
        Relation.ReflTransGen (WaitEdge.Waits s'.slots.edges) t m from hall owner h.path
    intro t hpath
    induction hpath using Relation.ReflTransGen.head_induction_on with
    | refl => exact .refl
    | head hstep hrest ih =>
        obtain ⟨e, he, hwaiter, rfl⟩ := hstep
        have hkept := h.awaited.mem_edges_turn h.steady hturn h.quiet he hrest fun heq =>
          heq ▸ h.awaited.quiet_of_path h.quiet hrest
        exact ih.head ⟨e, hkept, hwaiter, rfl⟩

/-- As long as the thread at the end takes no turn, nobody on the way to it gets any further. -/
theorem Stuck.after {place : Address} {owner : Thread} (h : Stuck s place owner m) (turns : List (Thread × Move))
    (hidle : ∀ turn ∈ turns, turn.1 ≠ m) : Stuck (s.after turns) place owner m := by
  induction turns generalizing s with
  | nil => exact h
  | cons turn turns ih =>
      obtain ⟨hfirst, hrest⟩ := List.forall_mem_cons.1 hidle
      exact ih (h.turn (turn_step s turn.1 turn.2) hfirst.symm) hrest

namespace Stuck

variable {place : Address} {owner : Thread}

theorem awaits (h : Stuck s place owner m) : Relation.ReflTransGen s.Awaits owner m :=
  h.awaited.awaits_of_path h.steady h.quiet h.path

/-- The owner is within its run for the place. -/
theorem exists_computing (h : Stuck s place owner m) : ∃ w ∈ s.visits owner, w.place = place ∧ w.stage = .computing := by
  obtain ⟨w, hw, hholds, hplace⟩ := Visit.mem_held.1 ((h.steady.owner owner place).1 h.slot)
  exact ⟨w, hw, hplace, h.steady.computing_of_quiet (h.awaited.quiet_of_path h.quiet h.path) hw
    (Stage.isOpen_of_holds hholds)⟩

end Stuck

/-- The owner of a place for which a thread is refused waits for that thread. -/
theorem Awaited.stuck (h : Awaited s) (hsteady : Steady s) (top : s.visits m = v :: rest)
    (looking : v.stage.isLooking = true) {owner : Thread} (hslot : s.slots.slot v.place = .computing owner)
    (hnone : WaitEdge.startWaiting (WaitEdge.stopWaiting s.slots.edges m) m v.place owner = none) :
    Stuck s v.place owner m where
  steady := hsteady
  awaited := h
  quiet := quiet_of_top top (not_open_of_isLooking looking)
  slot := hslot
  path := (WaitEdge.startWaiting_eq_none hnone).lift id fun _ _ => WaitEdge.waits_of_stopWaiting

/-! ### Places in order -/

/-- Each thread is at places that get lower from call to call. -/
def Nested (below : Address → Address → Prop) (s : Crew) : Prop :=
  ∀ t, ((s.visits t).map (·.place)).Pairwise below

section

variable {below : Address → Address → Prop}

theorem Nested.turn (h : Nested below s) (hsteady : Steady s) (hturn : Turn me s s')
    (hcome : ∀ place, s' = s.come me place → ∀ v ∈ s.visits me, v.stage = .computing → below place v.place) :
    Nested below s' := by
  intro t
  rcases hturn.tickets with ⟨place, rfl, free⟩ | ⟨-, hsub⟩
  · by_cases ht : t = me
    · rw [ht, Crew.come, visits_put, setAt_self, List.map_cons, List.pairwise_cons]
      refine ⟨?_, h me⟩
      intro place' hplace'
      obtain ⟨v, hv, rfl⟩ := List.mem_map.1 hplace'
      exact hcome place rfl v hv (hsteady.computing_of_free free v hv)
    · rw [Crew.come, visits_put, setAt_of_ne _ _ ht]
      exact h t
  · have hplaces := (hsub t).map Prod.snd
    simp only [List.map_map, Function.comp_def, Visit.ticket] at hplaces
    exact (h t).sublist hplaces

/-- Whatever the last thread on a way wants is below all that the first one is computing. -/
theorem Nested.below_of_path [IsStrictOrder Address below] (h : Nested below s)
    (hpath : Relation.ReflTransGen s.Awaits t m) (top : s.visits m = v :: rest) (hv : v.stage ≠ .computing)
    {w : Visit} (hw : w ∈ s.visits t) (hcomputing : w.stage = .computing) : below v.place w.place := by
  have hbelow {t : Thread} {v : Visit} {rest : List Visit} (top : s.visits t = v :: rest) (hv : v.stage ≠ .computing)
      {w : Visit} (hw : w ∈ s.visits t) (hcomputing : w.stage = .computing) : below v.place w.place := by
    have hnested := h t
    rw [top, List.map_cons, List.pairwise_cons] at hnested
    rw [top] at hw
    rcases List.mem_cons.1 hw with rfl | hw
    · exact absurd hcomputing hv
    · exact hnested.1 w.place (List.mem_map_of_mem hw)
  induction hpath using Relation.ReflTransGen.head_induction_on generalizing w with
  | refl => exact hbelow top hv hw hcomputing
  | head hstep _ ih =>
      obtain ⟨x, rest', top', hwaiting, -, -, y, hy, hplace, hycomputing⟩ := hstep
      have hx : x.stage ≠ .computing := by
        intro heq
        rw [heq] at hwaiting
        cases hwaiting
      have hlower : below v.place x.place := hplace ▸ ih hy hycomputing
      exact IsTrans.trans _ _ _ hlower (hbelow top' hx hw hcomputing)

/-- No thread is refused if the places of all threads get lower from call to call: the place that it wants would be below
itself. -/
theorem Nested.startWaiting_isSome [IsStrictOrder Address below] (h : Nested below s) (hsteady : Steady s)
    (hawaited : Awaited s) (top : s.visits m = v :: rest) (looking : v.stage.isLooking = true) {owner : Thread}
    (hslot : s.slots.slot v.place = .computing owner) :
    WaitEdge.startWaiting (WaitEdge.stopWaiting s.slots.edges m) m v.place owner ≠ none := by
  intro hnone
  have hstuck := hawaited.stuck hsteady top looking hslot hnone
  obtain ⟨w, hw, hplace, hcomputing⟩ := hstuck.exists_computing
  have hv : v.stage ≠ .computing := by
    rcases Stage.isLooking_iff.1 looking with heq | heq <;> rw [heq] <;> nofun
  have hself := h.below_of_path hstuck.awaits top hv hw hcomputing
  rw [hplace] at hself
  exact irrefl _ hself

theorem Turn.of_refused (hturn : Turn me s s') {call : Nat} {place : Address}
    (h : .answered call place .refused ∈ s'.deeds) :
    .answered call place .refused ∈ s.deeds ∨ ∃ v rest owner, s.visits me = v :: rest ∧ v.stage.isLooking = true ∧
      s.slots.slot v.place = .computing owner ∧
        WaitEdge.startWaiting (WaitEdge.stopWaiting s.slots.edges me) me v.place owner = none := by
  cases hturn with
  | refused top looking owner slot start => exact .inr ⟨_, _, owner, top, looking, slot, start⟩
  | @notify v rest outcome top notifying =>
      refine .inl ((List.mem_cons.1 h).resolve_left fun heq => ?_)
      rcases outcome with e | value <;> cases heq
  | found top looking value slot => exact .inl ((List.mem_cons.1 h).resolve_left nofun)
  | enter top looking slot => exact .inl ((List.mem_cons.1 h).resolve_left nofun)
  | finish top computing outcome => exact .inl ((List.mem_cons.1 h).resolve_left nofun)
  | _ => exact .inl h

/-- All that a run whose places get lower relies on. -/
structure Lowering (below : Address → Address → Prop) (s : Crew) : Prop where
  steady : Steady s
  awaited : Awaited s
  nested : Nested below s
  unrefused : ∀ call place, .answered call place .refused ∉ s.deeds

theorem Lowering.turn [IsStrictOrder Address below] (h : Lowering below s) (hturn : Turn me s s')
    (hcome : ∀ place, s' = s.come me place → ∀ v ∈ s.visits me, v.stage = .computing → below place v.place) :
    Lowering below s' where
  steady := h.steady.turn hturn
  awaited := h.awaited.turn h.steady hturn
  nested := h.nested.turn h.steady hturn hcome
  unrefused call place hnew := by
    rcases hturn.of_refused hnew with hold | ⟨v, rest, owner, top, looking, hslot, hnone⟩
    · exact h.unrefused call place hold
    · exact h.nested.startWaiting_isSome h.steady h.awaited top looking hslot hnone

theorem Lowering.after [IsStrictOrder Address below] (h : Lowering below s) (turns : List (Thread × Move))
    (hdescending : Descending below s turns) : Lowering below (s.after turns) := by
  induction turns generalizing s with
  | nil => exact h
  | cons turn turns ih => exact ih (h.turn (turn_step s turn.1 turn.2) hdescending.1) hdescending.2

theorem lowering_empty : Lowering below empty where
  steady := steady_empty
  awaited := awaited_empty
  nested _ := List.Pairwise.nil
  unrefused _ _ hd := nomatch hd

end

/-! ### Refusals -/

/-- Waiting for the place would never end for the thread: its owner waits, with other threads in between, for a place
that this very thread is computing, and has the place as long as the thread takes no turn. -/
def Hopeless (s : Crew) (m : Thread) (place : Address) : Prop :=
  ∃ owner, s.slots.slot place = .computing owner ∧ Relation.ReflTransGen s.Awaits owner m ∧
    ∀ turns, (∀ turn ∈ turns, turn.1 ≠ m) → (s.after turns).slots.slot place = .computing owner

theorem startWaiting_of_acquire {place : Address} (h : (s.slots.acquire m place).2 = some .refused) :
    ∃ owner, s.slots.slot place = .computing owner ∧
      WaitEdge.startWaiting (WaitEdge.stopWaiting s.slots.edges m) m place owner = none := by
  unfold Slots.acquire at h
  rcases hslot : s.slots.slot place with _ | owner | value <;> simp only [hslot] at h
  · cases h
  · refine ⟨owner, rfl, ?_⟩
    split at h
    · cases h
    · next hnone => exact hnone
  · cases h

theorem hopeless_of_acquire (turns : List (Thread × Move)) (top : (empty.after turns).visits m = v :: rest)
    (looking : v.stage.isLooking = true) (h : ((empty.after turns).slots.acquire m v.place).2 = some .refused) :
    Hopeless (empty.after turns) m v.place := by
  obtain ⟨owner, hslot, hnone⟩ := startWaiting_of_acquire h
  have hstuck := (awaited_after turns).stuck (steady_after turns) top looking hslot hnone
  exact ⟨owner, hslot, hstuck.awaits, fun later hidle => (hstuck.after later hidle).slot⟩

end Crew

end Injection
