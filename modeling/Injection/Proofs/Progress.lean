import Injection.Proofs.Turns
import Injection.Proofs.Waiting

/-!
No order of turns brings all threads to sleep for ever. Every wait edge leads from a thread that has slept at the place
to one that has not freed it yet, and nobody sleeps without an edge unless a thread is about to wake all at the place.
Since the edges close no circle, they lead from any thread to one that can go on.
-/

namespace Injection

namespace Stage

/-- The thread is about to wake all who sleep at the place, after it has freed it at most. -/
def isWaking : Stage → Bool
  | releasing _ => true
  | notifying _ => true
  | _ => false

end Stage

namespace Visit

/-- One of the calls is for the place and at a certain stage. -/
def At (p : Stage → Bool) (place : Address) (visits : List Visit) : Prop :=
  ∃ v ∈ visits, v.place = place ∧ p v.stage = true

variable {p : Stage → Bool} {v : Visit} {rest : List Visit} {place : Address} {stage : Stage}

theorem At.cons (h : At p place rest) : At p place (v :: rest) := by
  obtain ⟨w, hw, hat⟩ := h
  exact ⟨w, List.mem_cons_of_mem _ hw, hat⟩

theorem At.of_cons (h : At p place (v :: rest)) (hv : v.place = place → p v.stage = false) : At p place rest := by
  obtain ⟨w, hw, hplace, hp⟩ := h
  rcases List.mem_cons.1 hw with rfl | hw
  · rw [hv hplace] at hp
    cases hp
  · exact ⟨w, hw, hplace, hp⟩

theorem At.moved (h : At p place (v :: rest)) (hstage : p stage = true) : At p place (v.moved stage :: rest) := by
  obtain ⟨w, hw, hplace, hp⟩ := h
  rcases List.mem_cons.1 hw with rfl | hw
  · exact ⟨_, List.mem_cons_self, hplace, hstage⟩
  · exact ⟨w, List.mem_cons_of_mem _ hw, hplace, hp⟩

theorem At.rouse {visits : List Visit} (h : At p place visits) (hwoken : p .asleep = true → p .woken = true)
    (place' : Address) : At p place (visits.map (.rouse place')) := by
  obtain ⟨w, hw, hplace, hp⟩ := h
  refine ⟨w.rouse place', List.mem_map_of_mem hw, place_rouse.trans hplace, ?_⟩
  rcases rouse_cases place' w with heq | ⟨hasleep, -, heq⟩
  · rwa [heq]
  · rw [hasleep] at hp
    rw [heq]
    exact hwoken hp

end Visit

namespace Crew

variable {s s' : Crew} {me : Thread} {v : Visit} {rest : List Visit}

/-- The thread's edge is down, or somebody is about to wake it. -/
def Wakeful (s : Crew) (t : Thread) (place : Address) : Prop :=
  (∃ e ∈ s.slots.edges, e.waiter = t ∧ e.place = place) ∨ ∃ u, Visit.At Stage.isNotifying place (s.visits u)

/-- The wait edges agree with the calls. -/
structure Awaited (s : Crew) : Prop where
  orderly : WaitEdge.Orderly s.slots.edges
  /-- Who waits is at the place. -/
  waiters : ∀ e ∈ s.slots.edges, Visit.At Stage.isWaiting e.place ((s.visits e.waiter).take 1)
  /-- Whoever is waited for has the place still to free. -/
  owners : ∀ e ∈ s.slots.edges, Visit.At Stage.isOpen e.place (s.visits e.owner)
  /-- Nobody sleeps who will not be woken. -/
  sleepers : ∀ t, ∀ v ∈ s.visits t, v.stage = .asleep → Wakeful s t v.place

theorem at_put {p : Stage → Bool} {place : Address} {l : List Visit} {t : Thread} (h : Visit.At p place (s.visits t))
    (hl : Visit.At p place (s.visits me) → Visit.At p place l) : Visit.At p place (setAt s.visits me l t) := by
  by_cases ht : t = me
  · rw [ht, setAt_self]
    exact hl (ht ▸ h)
  · rwa [setAt_of_ne _ _ ht]

@[simp] theorem edges_settle (outcome : Outcome) :
    (s.settle me v rest outcome).slots.edges = s.slots.edges := by
  cases outcome <;> rfl

@[simp] theorem edges_release (outcome : Outcome) :
    (s.release me v rest outcome).slots.edges = WaitEdge.freeWaiters s.slots.edges v.place := by
  show (s.slots.release v.place).edges = _
  unfold Slots.release
  split <;> rfl

/-- A thread that goes to sleep puts down one edge, in place of the one that it may have left. -/
theorem Awaited.startWaiting (h : Awaited s) {place : Address} {owner : Thread} {edges : List WaitEdge}
    (start : WaitEdge.startWaiting (WaitEdge.stopWaiting s.slots.edges me) me place owner = some edges) :
    edges = WaitEdge.stopWaiting s.slots.edges me ++ [⟨me, place, owner⟩] ∧ WaitEdge.Orderly edges :=
  (h.orderly.sublist (WaitEdge.stopWaiting_sublist _ me)).startWaiting
    (fun _ he => (WaitEdge.mem_stopWaiting.1 he).2) start

/-! ### Who waits -/

/-- A thread has no wait edge unless it has slept and not looked since. -/
theorem Awaited.waiter_ne (h : Awaited s) (hme : ∀ v rest, s.visits me = v :: rest → v.stage.isWaiting = false)
    {e : WaitEdge} (he : e ∈ s.slots.edges) : e.waiter ≠ me := by
  rintro rfl
  obtain ⟨v, hv, -, hwaiting⟩ := h.waiters e he
  rcases hvisits : s.visits e.waiter with _ | ⟨w, rest⟩
  · rw [hvisits] at hv
    cases hv
  · rw [hvisits, List.take_one, List.head?_cons, Option.toList_some, List.mem_singleton] at hv
    rw [hv, hme w rest hvisits] at hwaiting
    cases hwaiting

theorem Awaited.waiter_ne_of_top (h : Awaited s) (top : s.visits me = v :: rest) (hv : v.stage.isWaiting = false)
    {e : WaitEdge} (he : e ∈ s.slots.edges) : e.waiter ≠ me :=
  h.waiter_ne (fun _ _ hvisits => (List.cons.inj (top.symm.trans hvisits)).1 ▸ hv) he

/-- A thread that has just come has no edge to take back. -/
theorem Awaited.waiters_put (h : Awaited s) {l : List Visit} {e : WaitEdge} (he : e ∈ s.slots.edges)
    (hne : e.waiter ≠ me) : Visit.At Stage.isWaiting e.place ((setAt s.visits me l e.waiter).take 1) := by
  rw [setAt_of_ne _ _ hne]
  exact h.waiters e he

theorem Awaited.waiters_turn (h : Awaited s) (hturn : Turn me s s') :
    ∀ e ∈ s'.slots.edges, Visit.At Stage.isWaiting e.place ((s'.visits e.waiter).take 1) := by
  have hstop {l : List Visit} (e : WaitEdge) (he : e ∈ WaitEdge.stopWaiting s.slots.edges me) :
      Visit.At Stage.isWaiting e.place ((setAt s.visits me l e.waiter).take 1) :=
    h.waiters_put (WaitEdge.mem_stopWaiting.1 he).1 (WaitEdge.mem_stopWaiting.1 he).2
  cases hturn with
  | idle => exact h.waiters
  | come place free =>
      intro e he
      apply h.waiters_put he
      apply h.waiter_ne _ he
      intro v rest hvisits
      rw [free v rest hvisits]
      rfl
  | found top looking value slot => exact hstop
  | enter top looking slot => exact hstop
  | @sleep v rest top looking owner slot edges start =>
      obtain rfl := (h.startWaiting start).1
      intro e he
      rcases List.mem_append.1 he with he | he
      · exact hstop e he
      · obtain rfl := List.mem_singleton.1 he
        simp [Visit.At, Stage.isWaiting]
  | refused top looking owner slot start => exact hstop
  | @wake v rest top asleep =>
      intro e he
      by_cases hwaiter : e.waiter = me
      · have hat := h.waiters e he
        rw [hwaiter, top] at hat
        rw [hwaiter, visits_put, setAt_self]
        exact hat.moved rfl
      · exact h.waiters_put he hwaiter
  | finish top computing outcome =>
      intro e he
      exact h.waiters_put he (h.waiter_ne_of_top top (by rw [computing]; rfl) he)
  | settle top settling =>
      rw [edges_settle]
      intro e he
      exact h.waiters_put he (h.waiter_ne_of_top top (by rw [settling]; rfl) he)
  | release top releasing =>
      rw [edges_release]
      intro e he
      have he := (WaitEdge.mem_freeWaiters.1 he).1
      exact h.waiters_put he (h.waiter_ne_of_top top (by rw [releasing]; rfl) he)
  | @notify v rest outcome top notifying =>
      intro e he
      have hne := h.waiter_ne_of_top top (by rw [notifying]; rfl) he
      show Visit.At _ _ ((setAt (fun t => (s.visits t).map (.rouse v.place)) me rest e.waiter).take 1)
      rw [setAt_of_ne _ _ hne, ← List.map_take]
      exact (h.waiters e he).rouse (fun _ => rfl) v.place

/-! ### Who is waited for -/

theorem not_open_of_isLooking (h : v.stage.isLooking = true) : v.stage.isOpen = false := by
  rcases Stage.isLooking_iff.1 h with h | h <;> rw [h] <;> rfl

theorem Steady.open_of_computing (h : Steady s) {place : Address} {t : Thread}
    (hslot : s.slots.slot place = .computing t) : Visit.At Stage.isOpen place (s.visits t) := by
  obtain ⟨v, hv, hholds, hplace⟩ := Visit.mem_held.1 ((h.owner t place).1 hslot)
  exact ⟨v, hv, hplace, Stage.isOpen_of_holds hholds⟩

theorem open_pop (top : s.visits me = v :: rest) {place : Address} (hv : v.place = place → v.stage.isOpen = false)
    {t : Thread} (h : Visit.At Stage.isOpen place (s.visits t)) :
    Visit.At Stage.isOpen place (setAt s.visits me rest t) :=
  at_put h fun hat => (top ▸ hat).of_cons hv

theorem open_moved (top : s.visits me = v :: rest) {stage : Stage} {place : Address}
    (hv : v.place = place → v.stage.isOpen = true → stage.isOpen = true) {t : Thread}
    (h : Visit.At Stage.isOpen place (s.visits t)) :
    Visit.At Stage.isOpen place (setAt s.visits me (v.moved stage :: rest) t) := by
  apply at_put h
  intro hat
  rw [top] at hat
  by_cases hopen : v.place = place ∧ v.stage.isOpen = true
  · exact hat.moved (hv hopen.1 hopen.2)
  · exact (hat.of_cons fun hplace => by simpa [hplace] using hopen).cons

theorem Awaited.owners_turn (h : Awaited s) (hsteady : Steady s) (hturn : Turn me s s') :
    ∀ e ∈ s'.slots.edges, Visit.At Stage.isOpen e.place (s'.visits e.owner) := by
  have hstop (e : WaitEdge) (he : e ∈ WaitEdge.stopWaiting s.slots.edges me) :
      Visit.At Stage.isOpen e.place (s.visits e.owner) := h.owners e (WaitEdge.mem_stopWaiting.1 he).1
  cases hturn with
  | idle => exact h.owners
  | come place free =>
      intro e he
      exact at_put (h.owners e he) Visit.At.cons
  | found top looking value slot =>
      intro e he
      apply open_pop top _ (hstop e he)
      exact fun _ => not_open_of_isLooking looking
  | enter top looking slot =>
      intro e he
      apply open_moved top _ (hstop e he)
      exact fun _ _ => rfl
  | @sleep v rest top looking owner slot edges start =>
      obtain rfl := (h.startWaiting start).1
      intro e he
      have hopen : v.stage.isOpen = false := not_open_of_isLooking looking
      apply open_moved top (fun _ => by simp [hopen])
      rcases List.mem_append.1 he with he | he
      · exact hstop e he
      · obtain rfl := List.mem_singleton.1 he
        exact hsteady.open_of_computing slot
  | refused top looking owner slot start =>
      intro e he
      apply open_pop top _ (hstop e he)
      exact fun _ => not_open_of_isLooking looking
  | wake top asleep =>
      intro e he
      apply open_moved top _ (h.owners e he)
      simp [asleep, Stage.isOpen]
  | finish top computing outcome =>
      intro e he
      apply open_moved top _ (h.owners e he)
      intro _ _
      rcases outcome with (_ | _ | _) | _ <;> rfl
  | settle top settling =>
      rw [edges_settle]
      intro e he
      apply open_moved top _ (h.owners e he)
      exact fun _ _ => rfl
  | release top releasing =>
      rw [edges_release]
      intro e he
      obtain ⟨he, hplace⟩ := WaitEdge.mem_freeWaiters.1 he
      exact open_moved top (fun heq => absurd heq.symm hplace) (h.owners e he)
  | @notify v rest outcome top notifying =>
      intro e he
      apply open_pop (hsteady.visits_rouse_of_notifying top notifying v.place)
      · intro _
        rw [notifying]
        rfl
      · exact (h.owners e he).rouse id v.place

/-! ### Who sleeps -/

/-- While nothing happens to edges and no call is over, those that sleep go on sleeping. -/
theorem Awaited.sleepers_put (h : Awaited s) {l : List Visit} (hvisits : s'.visits = setAt s.visits me l)
    (hl : ∀ v ∈ l, v.stage = .asleep → Wakeful s' me v.place)
    (hedges : ∀ e ∈ s.slots.edges, e.waiter ≠ me → Wakeful s' e.waiter e.place)
    (hnotifying : ∀ place, Visit.At Stage.isNotifying place (s.visits me) → Visit.At Stage.isNotifying place l) :
    ∀ t, ∀ v ∈ s'.visits t, v.stage = .asleep → Wakeful s' t v.place := by
  intro t v hv hasleep
  rw [hvisits] at hv
  by_cases ht : t = me
  · rw [ht, setAt_self] at hv
    exact ht ▸ hl v hv hasleep
  · rw [setAt_of_ne _ _ ht] at hv
    rcases h.sleepers t v hv hasleep with ⟨e, he, hwaiter, hplace⟩ | ⟨u, hu⟩
    · exact hwaiter ▸ hplace ▸ hedges e he (hwaiter ▸ ht)
    · exact Or.inr ⟨u, hvisits ▸ at_put hu (hnotifying v.place)⟩

theorem Awaited.sleepers_turn (h : Awaited s) (hsteady : Steady s) (hturn : Turn me s s') :
    ∀ t, ∀ v ∈ s'.visits t, v.stage = .asleep → Wakeful s' t v.place := by
  have hrest {s' : Crew} {v : Visit} {rest : List Visit} (top : s.visits me = v :: rest) :
      ∀ w ∈ rest, w.stage = .asleep → Wakeful s' me w.place := by
    intro w hw hasleep
    rw [hsteady.nested me w (by rwa [top])] at hasleep
    cases hasleep
  have hnew {s' : Crew} {v : Visit} {rest : List Visit} (top : s.visits me = v :: rest) {stage : Stage}
      (hstage : stage ≠ .asleep) : ∀ w ∈ v.moved stage :: rest, w.stage = .asleep → Wakeful s' me w.place :=
    List.forall_mem_cons.2 ⟨fun hasleep => absurd hasleep hstage, hrest top⟩
  have hpop {v : Visit} {rest : List Visit} (top : s.visits me = v :: rest) (hv : v.stage.isNotifying = false)
      (place : Address) (hat : Visit.At Stage.isNotifying place (s.visits me)) : Visit.At Stage.isNotifying place rest :=
    (top ▸ hat).of_cons fun _ => hv
  have hpush {v : Visit} {rest : List Visit} (top : s.visits me = v :: rest) (hv : v.stage.isNotifying = false)
      {w : Visit} (place : Address) (hat : Visit.At Stage.isNotifying place (s.visits me)) :
      Visit.At Stage.isNotifying place (w :: rest) := (hpop top hv place hat).cons
  have hlooking {v : Visit} (looking : v.stage.isLooking = true) : v.stage.isNotifying = false := by
    rcases Stage.isLooking_iff.1 looking with h | h <;> rw [h] <;> rfl
  have hstop {s' : Crew} (hs' : ∀ e ∈ WaitEdge.stopWaiting s.slots.edges me, e ∈ s'.slots.edges) (e : WaitEdge)
      (he : e ∈ s.slots.edges) (hne : e.waiter ≠ me) : Wakeful s' e.waiter e.place :=
    Or.inl ⟨e, hs' e (WaitEdge.mem_stopWaiting.2 ⟨he, hne⟩), rfl, rfl⟩
  have hkept {s' : Crew} (hs' : s'.slots.edges = s.slots.edges) (e : WaitEdge) (he : e ∈ s.slots.edges)
      (_ : e.waiter ≠ me) : Wakeful s' e.waiter e.place :=
    Or.inl ⟨e, hs' ▸ he, rfl, rfl⟩
  cases hturn with
  | idle => exact h.sleepers
  | come place free =>
      refine h.sleepers_put rfl (List.forall_mem_cons.2 ⟨nofun, ?_⟩) (hkept rfl) fun _ => .cons
      intro v hv hasleep
      rw [hsteady.computing_of_free free v hv] at hasleep
      cases hasleep
  | found top looking value slot =>
      exact h.sleepers_put rfl (hrest top) (hstop fun _ he => he) (hpop top (hlooking looking))
  | enter top looking slot =>
      exact h.sleepers_put rfl (hnew top nofun) (hstop fun _ he => he) (hpush top (hlooking looking))
  | @sleep v rest top looking owner slot edges start =>
      obtain rfl := (h.startWaiting start).1
      refine h.sleepers_put rfl (List.forall_mem_cons.2 ⟨?_, hrest top⟩) (hstop fun _ => List.mem_append_left _)
        (hpush top (hlooking looking))
      intro _
      exact .inl ⟨⟨me, v.place, owner⟩, List.mem_append_right _ List.mem_cons_self, rfl, rfl⟩
  | refused top looking owner slot start =>
      exact h.sleepers_put rfl (hrest top) (hstop fun _ he => he) (hpop top (hlooking looking))
  | @wake v rest top asleep =>
      have hquiet : v.stage.isNotifying = false := by rw [asleep]; rfl
      exact h.sleepers_put rfl (hnew top nofun) (hkept rfl) (hpush top hquiet)
  | @finish v rest top computing outcome =>
      have hquiet : v.stage.isNotifying = false := by rw [computing]; rfl
      refine h.sleepers_put rfl (hnew top ?_) (hkept rfl) (hpush top hquiet)
      rcases outcome with (_ | _ | _) | _ <;> nofun
  | @settle v rest outcome top settling =>
      have hquiet : v.stage.isNotifying = false := by rw [settling]; rfl
      exact h.sleepers_put rfl (hnew top nofun) (hkept (edges_settle _)) (hpush top hquiet)
  | @release v rest outcome top releasing =>
      have hquiet : v.stage.isNotifying = false := by rw [releasing]; rfl
      refine h.sleepers_put rfl (hnew top nofun) ?_ (hpush top hquiet)
      intro e he _
      by_cases hplace : e.place = v.place
      · refine .inr ⟨me, v.moved (.notifying outcome), ?_, hplace.symm, rfl⟩
        rw [Crew.release, visits_put, setAt_self]
        exact List.mem_cons_self
      · refine .inl ⟨e, ?_, rfl, rfl⟩
        rw [edges_release]
        exact WaitEdge.mem_freeWaiters.2 ⟨he, hplace⟩
  | @notify v rest outcome top notifying =>
      intro t w hw hasleep
      by_cases ht : t = me
      · rw [ht, Crew.notify, leave, visits_note, visits_put, setAt_self] at hw
        rw [ht]
        exact hrest top w hw hasleep
      · rw [Crew.notify, leave, visits_note, visits_put, setAt_of_ne _ _ ht] at hw
        obtain ⟨u, hu, rfl⟩ := List.mem_map.1 hw
        obtain ⟨heq, hplace⟩ := Visit.rouse_eq_of_asleep hasleep
        rw [heq] at hasleep ⊢
        refine (h.sleepers t u hu hasleep).imp id (Exists.imp fun x hx => ?_)
        refine at_put (hx.rouse id v.place) fun hat => ?_
        rw [hsteady.visits_rouse_of_notifying top notifying] at hat
        exact hat.of_cons fun heq => absurd heq.symm hplace

/-! ### All turns -/

theorem Awaited.orderly_turn (h : Awaited s) (hturn : Turn me s s') : WaitEdge.Orderly s'.slots.edges := by
  have hstop : WaitEdge.Orderly (WaitEdge.stopWaiting s.slots.edges me) :=
    h.orderly.sublist (WaitEdge.stopWaiting_sublist _ me)
  cases hturn with
  | idle => exact h.orderly
  | come place free => exact h.orderly
  | found top looking value slot => exact hstop
  | enter top looking slot => exact hstop
  | sleep top looking owner slot edges start => exact (h.startWaiting start).2
  | refused top looking owner slot start => exact hstop
  | wake top asleep => exact h.orderly
  | finish top computing outcome => exact h.orderly
  | settle top settling =>
      rw [edges_settle]
      exact h.orderly
  | release top releasing =>
      rw [edges_release]
      exact h.orderly.sublist (WaitEdge.freeWaiters_sublist _ _)
  | notify top notifying => exact h.orderly

theorem Awaited.turn (h : Awaited s) (hsteady : Steady s) (hturn : Turn me s s') : Awaited s' where
  orderly := h.orderly_turn hturn
  waiters := h.waiters_turn hturn
  owners := h.owners_turn hsteady hturn
  sleepers := h.sleepers_turn hsteady hturn

theorem awaited_empty : Awaited empty where
  orderly := WaitEdge.orderly_nil
  waiters _ he := nomatch he
  owners _ he := nomatch he
  sleepers _ _ hv := nomatch hv

theorem awaited_after (turns : List (Thread × Move)) : Awaited (empty.after turns) :=
  (after_induction (P := fun s => Steady s ∧ Awaited s) ⟨steady_empty, awaited_empty⟩
    (fun h hturn => ⟨h.1.turn hturn, h.2.turn h.1 hturn⟩) turns).2

/-! ### No thread is forgotten -/

/-- The threads can go on until all calls have come back. -/
structure Lively (s : Crew) : Prop where
  /-- Each thread has one wait edge at most. -/
  single : (s.slots.edges.map (·.waiter)).Nodup
  /-- Following the owners from a thread never leads back to it. -/
  acyclic : ∀ t, ¬ Relation.TransGen (WaitEdge.Waits s.slots.edges) t t
  /-- A sleeper has its edge to the thread that computes the place, or a thread is on its way to wake it. -/
  asleep : ∀ t, ∀ v ∈ s.visits t, v.stage = .asleep →
    (∃ owner, ⟨t, v.place, owner⟩ ∈ s.slots.edges ∧ s.slots.slot v.place = .computing owner) ∨
      ∃ u w rest, s.visits u = w :: rest ∧ w.place = v.place ∧ w.stage.isWaking = true
  /-- As long as calls have not come back, one of the threads that made them is awake. -/
  awake : ∀ t, s.visits t ≠ [] → ∃ u v rest, s.visits u = v :: rest ∧ v.stage ≠ .asleep
  /-- When all calls have come back, nothing is left of them. -/
  returned : (∀ t, s.visits t = []) → (∀ place t, s.slots.slot place ≠ .computing t) ∧ s.slots.edges = []

theorem Steady.waking_of_notifying (h : Steady s) {place : Address} {u : Thread}
    (hat : Visit.At Stage.isNotifying place (s.visits u)) :
    ∃ w rest, s.visits u = w :: rest ∧ w.place = place ∧ w.stage.isWaking = true := by
  obtain ⟨w, hw, hplace, hnotifying⟩ := hat
  obtain ⟨rest, htop⟩ := h.top hw (by rintro heq; rw [heq] at hnotifying; cases hnotifying)
  refine ⟨w, rest, htop, hplace, ?_⟩
  cases hstage : w.stage <;> simp_all [Stage.isNotifying, Stage.isWaking]

theorem Awaited.asleep (h : Awaited s) (hsteady : Steady s) {t : Thread} {v : Visit} (hv : v ∈ s.visits t)
    (hasleep : v.stage = .asleep) :
    (∃ owner, ⟨t, v.place, owner⟩ ∈ s.slots.edges ∧ s.slots.slot v.place = .computing owner) ∨
      ∃ u w rest, s.visits u = w :: rest ∧ w.place = v.place ∧ w.stage.isWaking = true := by
  rcases h.sleepers t v hv hasleep with ⟨e, he, rfl, hplace⟩ | ⟨u, hu⟩
  · obtain ⟨w, hw, hwplace, hopen⟩ := h.owners e he
    -- between settling and freeing, the owner has the place no longer marked but still to free
    by_cases hholds : w.stage.holds = true
    · refine .inl ⟨e.owner, hplace ▸ he, ?_⟩
      rw [hsteady.owner, Visit.mem_held]
      exact ⟨w, hw, hholds, hwplace.trans hplace⟩
    · have hwaking : w.stage.isWaking = true := by
        cases hstage : w.stage <;> simp_all [Stage.isOpen, Stage.holds, Stage.isWaking]
      obtain ⟨rest, htop⟩ := hsteady.top hw (by rintro heq; rw [heq] at hwaking; cases hwaking)
      exact .inr ⟨_, w, rest, htop, hwplace.trans hplace, hwaking⟩
  · exact .inr ⟨u, hsteady.waking_of_notifying hu⟩

/-- The end of the way along the owners is awake, or sleeps without an edge; then another thread is about to wake it. -/
theorem Awaited.awake (h : Awaited s) (hsteady : Steady s) {t : Thread} (ht : s.visits t ≠ []) :
    ∃ u v rest, s.visits u = v :: rest ∧ v.stage ≠ .asleep := by
  obtain ⟨u, hpath, hlast⟩ := h.orderly.exists_last t
  have hu : s.visits u ≠ [] := by
    rcases hpath.cases_tail with rfl | ⟨_, -, e, he, -, rfl⟩
    · exact ht
    · obtain ⟨w, hw, -⟩ := h.owners e he
      exact List.ne_nil_of_mem hw
  obtain ⟨v, rest, htop⟩ := List.exists_cons_of_ne_nil hu
  by_cases hasleep : v.stage = .asleep
  · -- its edge would lead on, so only a thread that is about to wake it can have left it asleep
    rcases h.sleepers u v (htop ▸ List.mem_cons_self) hasleep with ⟨e, he, hwaiter, -⟩ | ⟨x, hx⟩
    · exact absurd hwaiter (hlast e he)
    · obtain ⟨w, rest, htop, -, hwaking⟩ := hsteady.waking_of_notifying hx
      exact ⟨x, w, rest, htop, fun heq => by rw [heq] at hwaking; cases hwaking⟩
  · exact ⟨u, v, rest, htop, hasleep⟩

/-- In every order of turns, no thread waits for itself and no sleeper is forgotten. -/
theorem lively_after (turns : List (Thread × Move)) : Lively (empty.after turns) := by
  have hsteady := steady_after turns
  have h := awaited_after turns
  constructor
  case single => exact h.orderly.single
  case acyclic => exact h.orderly.acyclic
  case asleep =>
    intro t v hv hasleep
    exact h.asleep hsteady hv hasleep
  case awake =>
    intro t ht
    exact h.awake hsteady ht
  case returned =>
    intro hreturned
    constructor
    · intro place t hslot
      obtain ⟨v, hv, -⟩ := hsteady.open_of_computing hslot
      rw [hreturned t] at hv
      cases hv
    · apply List.eq_nil_iff_forall_not_mem.2
      intro e he
      obtain ⟨v, hv, -⟩ := h.owners e he
      rw [hreturned e.owner] at hv
      cases hv

end Crew

end Injection
