import Injection.Process.Together
import Injection.Proofs.Brackets
import Injection.Proofs.Turns
import Mathlib.Data.List.Forall2

/-!
Threads that make requests, in any order of their actions. All that such threads do at the places is a run of a crew:
each action is one turn there, or a few of them that no other thread can see. So whatever holds of crews holds of the
places of containers that several threads ask at once. A crew goes to places in the order that the threads keep to.
-/

namespace Injection

/-- Threads on one store, with what each of them has still to do. -/
structure Team (α : Type) where
  store : Store
  threads : Thread → Process α

namespace Team

variable {α : Type}

/-- A thread performs its next action, or has to wait and will try again. -/
def turn (s : Team α) (me : Thread) : Team α :=
  match s.threads me with
  | .done _ => s
  | .act a next =>
    match a.perform me s.store with
    | (store, some r) => ⟨store, setAt s.threads me (next r)⟩
    | (store, none) => { s with store }

theorem turn_goes {s : Team α} {me : Thread} {a : Action} {next : a.Reply → Process α} {store : Store} {r : a.Reply}
    (hp : s.threads me = .act a next) (hperform : a.perform me s.store = (store, some r)) :
    s.turn me = ⟨store, setAt s.threads me (next r)⟩ := by
  simp only [turn, hp, hperform]

theorem turn_waits {s : Team α} {me : Thread} {a : Action} {next : a.Reply → Process α} {store : Store}
    (hp : s.threads me = .act a next) (hperform : a.perform me s.store = (store, none)) :
    s.turn me = { s with store } := by
  simp only [turn, hp, hperform]

theorem threads_turn_of_ne (s : Team α) {me t : Thread} (ht : t ≠ me) : (s.turn me).threads t = s.threads t := by
  unfold turn
  split
  · rfl
  · split
    · exact setAt_of_ne _ _ ht
    · rfl

def after (s : Team α) (turns : List Thread) : Team α := turns.foldl turn s

end Team

/-- The visit is within the run for the place that was taken, or has put its value there. -/
def Visit.Fits (hold : Hold) (v : Visit) : Prop :=
  v.place = hold.1 ∧ v.stage = hold.2.elim .computing fun value => .releasing (.ok value)

section

variable {α : Type} (below : Address → Address → Prop)

/-- The visits of a thread are for the places that its process has taken, and for the one that it waits for. -/
inductive Tracks (p : Process α) (visits : List Visit) : Prop
  | goes {held : List Hold} (follows : p.Follows below held) (fits : List.Forall₂ Visit.Fits held visits)
  | waits {held : List Hold} {place : Address} {next : Grant → Process α} {v : Visit} {rest : List Visit}
      (follows : p.Follows below held) (fits : List.Forall₂ Visit.Fits held rest)
      (process : p = .act (.acquire place) next) (visits : visits = v :: rest) (place : v.place = place)
      (waiting : v.stage.isWaiting = true)

/-- A crew that is at the places exactly where the threads are. -/
structure Follow (s : Team α) (c : Crew) : Prop where
  slots : c.slots = s.store.slots
  tracks : ∀ t, Tracks below (s.threads t) (c.visits t)

end

namespace Visit

theorem Fits.not_asleep {hold : Hold} {v : Visit} (h : v.Fits hold) : v.stage ≠ .asleep := by
  rcases hold with ⟨place, _ | value⟩ <;> rw [h.2] <;> nofun

theorem map_rouse_of_fits {held : List Hold} {visits : List Visit} (h : List.Forall₂ Fits held visits)
    (place : Address) : visits.map (rouse place) = visits := by
  induction h with
  | nil => rfl
  | cons hfits _ ih => rw [List.map_cons, ih, rouse_of_not_asleep hfits.not_asleep]

/-- What is below all places that were taken is below those of the visits. -/
theorem below_of_fits {below : Address → Address → Prop} {held : List Hold} {visits : List Visit} {place : Address}
    (h : List.Forall₂ Fits held visits) (hbelow : ∀ hold ∈ held, below place hold.1) :
    ∀ v ∈ visits, below place v.place := by
  induction h with
  | nil => exact fun _ hv => nomatch hv
  | cons hfits _ ih =>
      obtain ⟨hfirst, hrest⟩ := List.forall_mem_cons.1 hbelow
      exact List.forall_mem_cons.2 ⟨hfits.1 ▸ hfirst, ih hrest⟩

end Visit

variable {below : Address → Address → Prop}

theorem Tracks.rouse {α : Type} {p : Process α} {visits : List Visit} (h : Tracks below p visits) (place : Address) :
    Tracks below p (visits.map (.rouse place)) := by
  cases h with
  | goes follows fits => exact .goes follows (by rwa [Visit.map_rouse_of_fits fits])
  | @waits held place' next v rest follows fits process visits hplace waiting =>
      refine .waits (v := v.rouse place) follows fits process ?_ (Visit.place_rouse.trans hplace) ?_
      · rw [visits, List.map_cons, Visit.map_rouse_of_fits fits]
      · rcases Visit.rouse_cases place v with heq | ⟨-, -, heq⟩ <;> rw [heq]
        · exact waiting
        · rfl

namespace Crew

variable {c : Crew} {me : Thread} {v : Visit} {rest : List Visit} {outcome : Outcome}

theorem step_look (top : c.visits me = v :: rest) (looking : v.stage.isLooking = true) :
    c.step me .look = c.look me v rest := by
  rcases Stage.isLooking_iff.1 looking with h | h <;> simp only [step, top, h]

theorem step_call {held : List Hold} (hrunning : Running held) (hfits : List.Forall₂ Visit.Fits held (c.visits me))
    (place : Address) : c.step me (.call place) = c.come me place := by
  generalize hvisits : c.visits me = visits at hfits
  cases hfits with
  | nil => simp only [step, hvisits]
  | @cons hold v held rest hfits _ =>
      have hcomputing : v.stage = .computing := by
        rw [hfits.2, hrunning hold rfl]
        rfl
      simp only [step, hvisits, hcomputing]

theorem step_finish (top : c.visits me = v :: rest) (hv : v.stage = .computing) (outcome : Outcome) :
    c.step me (.finish outcome) = c.finish me v rest outcome := by
  simp only [step, top, hv]

theorem step_settle (top : c.visits me = v :: rest) (hv : v.stage = .settling outcome) :
    c.step me .settle = c.settle me v rest outcome := by
  simp only [step, top, hv]

theorem step_release (top : c.visits me = v :: rest) (hv : v.stage = .releasing outcome) :
    c.step me .release = c.release me v rest outcome := by
  simp only [step, top, hv]

theorem step_notify (top : c.visits me = v :: rest) (hv : v.stage = .notifying outcome) :
    c.step me .notify = c.notify me v rest outcome := by
  simp only [step, top, hv]

theorem step_wake (top : c.visits me = v :: rest) (hv : v.stage = .asleep) :
    c.step me .wake = c.put me (v.moved .woken :: rest) := by
  simp only [step, top, hv]

/-- After its run a thread frees the place, wakes the others there and comes back. -/
theorem after_release_notify (top : c.visits me = v :: rest) (hv : v.stage = .releasing outcome) :
    (c.after [(me, .release), (me, .notify)]).slots = c.slots.release v.place ∧
      (c.after [(me, .release), (me, .notify)]).visits me = rest ∧
        ∀ t, t ≠ me → (c.after [(me, .release), (me, .notify)]).visits t = (c.rouse v.place).visits t := by
  have htop : (c.release me v rest outcome).visits me = v.moved (.notifying outcome) :: rest := setAt_self ..
  have hcrew : c.after [(me, .release), (me, .notify)] =
      (c.release me v rest outcome).notify me (v.moved (.notifying outcome)) rest outcome := by
    show (c.step me .release).step me .notify = _
    rw [step_release top hv, step_notify htop rfl]
  rw [hcrew]
  refine ⟨rfl, setAt_self .., fun t ht => ?_⟩
  refine (setAt_of_ne _ _ ht).trans ?_
  rw [visits_rouse, visits_rouse, release, visits_put, setAt_of_ne _ _ ht]
  rfl

end Crew

/-! ### Actions -/

theorem Action.slots_perform {a : Action} (ha : a.isApart = true) (me : Thread) (s : Store) :
    (a.perform me s).1.slots = s.slots := by
  cases a with
  | acquire place => cases ha
  | settle place v => cases ha
  | release place => cases ha
  | enter place =>
      show (s.enter me place).1.slots = s.slots
      unfold Store.enter
      split <;> rfl
  | remember l =>
      show (s.remember l).1.slots = s.slots
      unfold Store.remember
      split
      · rfl
      · split <;> rfl
  | reclaim l =>
      show (s.reclaim l).1.slots = s.slots
      unfold Store.reclaim
      split
      · rfl
      · split <;> rfl
  | keep l v =>
      show (s.keep l v).1.slots = s.slots
      unfold Store.keep
      split <;> rfl
  | _ => rfl

theorem Action.perform_acquire {place : Address} {me : Thread} {s : Store} {slots : Slots} {grant : Option Grant}
    (h : s.slots.acquire me place = (slots, grant)) :
    (acquire place).perform me s = ({ s with slots }, grant) := by
  show Prod.map (fun slots => { s with slots }) id (s.slots.acquire me place) = _
  rw [h]
  rfl

namespace Follow

variable {α : Type} {s : Team α} {c : Crew} {me : Thread}

/-- The other threads go on as before; one of them may have been woken. -/
theorem of_turn (h : Follow below s c) {c' : Crew} {p : Process α} {l : List Visit}
    (hslots : c'.slots = (s.turn me).store.slots) (hp : (s.turn me).threads me = p) (hl : c'.visits me = l)
    (hme : Tracks below p l)
    (hothers : ∀ t, t ≠ me → c'.visits t = c.visits t ∨ ∃ place, c'.visits t = (c.rouse place).visits t) :
    Follow below (s.turn me) c' := by
  refine ⟨hslots, fun t => ?_⟩
  by_cases ht : t = me
  · rw [ht, hp, hl]
    exact hme
  · rw [Team.threads_turn_of_ne s ht]
    rcases hothers t ht with heq | ⟨place, heq⟩
    · exact heq ▸ h.tracks t
    · exact heq ▸ (h.tracks t).rouse place

theorem turn_apart (h : Follow below s c) {a : Action} {next : a.Reply → Process α} (hp : s.threads me = .act a next)
    (ha : a.isApart = true) : Follow below (s.turn me) c := by
  have hslots := Action.slots_perform ha me s.store
  have htracks (r : a.Reply) : Tracks below (next r) (c.visits me) := by
    cases hp ▸ h.tracks me with
    | goes follows fits => exact .goes ((Process.follows_act ha).1 follows r) fits
    | waits follows fits process visits place waiting =>
        cases process
        cases ha
  rcases hperform : a.perform me s.store with ⟨store, _ | r⟩ <;> rw [hperform] at hslots
  · rw [Team.turn_waits hp hperform]
    exact ⟨h.slots.trans hslots.symm, h.tracks⟩
  · have hturn := Team.turn_goes hp hperform
    refine h.of_turn ?_ ?_ rfl (htracks r) fun t _ => .inl rfl
    · rw [hturn]
      exact h.slots.trans hslots.symm
    · rw [hturn]
      exact setAt_self ..

/-- A thread whose process wants a place comes to it, or wakes up there. -/
theorem exists_looking (h : Follow below s c) {place : Address} {next : Grant → Process α}
    (hp : s.threads me = .act (.acquire place) next) :
    ∃ turns v rest held, Crew.Descending below c turns ∧ (c.after turns).slots = c.slots ∧
      (∀ t, t ≠ me → (c.after turns).visits t = c.visits t) ∧ (c.after turns).visits me = v :: rest ∧
        v.place = place ∧ v.stage.isLooking = true ∧ (s.threads me).Follows below held ∧
          List.Forall₂ Visit.Fits held rest := by
  rcases h.tracks me with
    ⟨follows, fits⟩ | @⟨held, place', next', v, rest, follows, fits, process, visits, hplace, waiting⟩
  · have hstep : c.after [(me, .call place)] = c.come me place := Crew.step_call (hp ▸ follows).1.1 fits place
    obtain ⟨⟨-, hbelow⟩, -⟩ := hp ▸ follows
    have hdescending : Crew.Descending below c [(me, .call place)] :=
      ⟨fun place' hcome v hv _ => Crew.place_eq_of_come (hstep.symm.trans hcome) ▸ Visit.below_of_fits fits hbelow v hv,
        trivial⟩
    refine ⟨[(me, .call place)], ⟨c.calls, place, .arriving⟩, c.visits me, _, hdescending, ?_, fun t ht => ?_, ?_, rfl,
      rfl, follows, fits⟩
    · rw [hstep]
      rfl
    · rw [hstep]
      exact setAt_of_ne _ _ ht
    · rw [hstep]
      exact setAt_self ..
  · rw [hp] at process
    cases process
    cases hstage : v.stage with
    | asleep =>
        have hstep : c.after [(me, .wake)] = c.put me (v.moved .woken :: rest) := Crew.step_wake visits hstage
        refine ⟨[(me, .wake)], v.moved .woken, rest, held, Crew.descending_of_ne_call (by simp), ?_, fun t ht => ?_, ?_,
          hplace, rfl, follows, fits⟩
        · rw [hstep]
          rfl
        · rw [hstep]
          exact setAt_of_ne _ _ ht
        · rw [hstep]
          exact setAt_self ..
    | woken =>
        exact ⟨[], v, rest, held, trivial, rfl, fun _ _ => rfl, visits, hplace, by rw [hstage]; rfl, follows, fits⟩
    | _ =>
        rw [hstage] at waiting
        cases waiting

theorem turn_acquire (h : Follow below s c) {place : Address} {next : Grant → Process α}
    (hp : s.threads me = .act (.acquire place) next) :
    ∃ turns, Crew.Descending below c turns ∧ Follow below (s.turn me) (c.after turns) := by
  obtain ⟨turns, v, rest, held, hdescending, hslots, hothers, top, rfl, looking, follows, fits⟩ := h.exists_looking hp
  refine ⟨turns ++ [(me, .look)], hdescending.append (Crew.descending_of_ne_call (by simp)), ?_⟩
  have hcrew : c.after (turns ++ [(me, .look)]) = (c.after turns).look me v rest := by
    rw [Crew.after_append]
    exact Crew.step_look top looking
  obtain ⟨-, hready, hrefused, hcompute⟩ := hp ▸ follows
  rw [hcrew, Crew.look, hslots, h.slots]
  have hput {c' : Crew} {l : List Visit} (hc' : c'.visits = setAt (c.after turns).visits me l) (t : Thread)
      (ht : t ≠ me) : c'.visits t = c.visits t ∨ ∃ place, c'.visits t = (c.rouse place).visits t := by
    rw [hc', setAt_of_ne _ _ ht]
    exact .inl (hothers t ht)
  rcases hacquire : s.store.slots.acquire me v.place with ⟨slots, _ | grant⟩
  · have hturn := Team.turn_waits hp (Action.perform_acquire hacquire)
    refine h.of_turn (by rw [hturn]; rfl) ?_ (setAt_self ..) (.waits follows fits hp rfl rfl rfl) (hput rfl)
    rw [hturn]
  · have hturn := Team.turn_goes hp (Action.perform_acquire hacquire)
    have hnext : (s.turn me).threads me = next grant := by
      rw [hturn]
      exact setAt_self ..
    cases grant with
    | ready value =>
        exact h.of_turn (by rw [hturn]; rfl) hnext (setAt_self ..) (.goes (hready value) fits) (hput rfl)
    | refused => exact h.of_turn (by rw [hturn]; rfl) hnext (setAt_self ..) (.goes hrefused fits) (hput rfl)
    | compute =>
        refine h.of_turn (by rw [hturn]; rfl) hnext (setAt_self ..) (.goes hcompute ?_) (hput rfl)
        exact .cons ⟨rfl, rfl⟩ fits

theorem turn_settle (h : Follow below s c) {place : Address} {value : Value} {next : Unit → Process α}
    (hp : s.threads me = .act (.settle place value) next) :
    ∃ turns, Crew.Descending below c turns ∧ Follow below (s.turn me) (c.after turns) := by
  have hturn : s.turn me = ⟨{ s.store with slots := s.store.slots.settle place value }, setAt s.threads me (next ())⟩ :=
    Team.turn_goes hp rfl
  rcases h.tracks me with ⟨follows, fits⟩ | ⟨_, _, process⟩
  · obtain ⟨held, rfl, hnext⟩ := hp ▸ follows
    generalize htop : c.visits me = visits at fits
    rcases fits with _ | @⟨_, v, _, rest, hfit, fits⟩
    have hrun : (c.finish me v rest (.ok value)).visits me = v.moved (.settling (.ok value)) :: rest := setAt_self ..
    have hcrew : c.after [(me, .finish (.ok value)), (me, .settle)] =
        (c.finish me v rest (.ok value)).settle me (v.moved (.settling (.ok value))) rest (.ok value) := by
      show (c.step me (.finish (.ok value))).step me .settle = _
      rw [Crew.step_finish htop hfit.2, Crew.step_settle hrun rfl]
    refine ⟨[(me, .finish (.ok value)), (me, .settle)], Crew.descending_of_ne_call (by simp), ?_⟩
    rw [hcrew]
    refine h.of_turn ?_ ?_ (setAt_self ..) (.goes hnext (.cons ⟨hfit.1, rfl⟩ fits)) fun t ht => .inl ?_
    · rw [hturn, ← h.slots, ← show v.place = place from hfit.1]
      rfl
    · rw [hturn]
      exact setAt_self ..
    · exact (setAt_of_ne _ _ ht).trans (setAt_of_ne _ _ ht)
  · rw [hp] at process
    cases process

/-- A process that gives up a place without a value has come out of a run that stopped short. -/
theorem exists_releasing {held : List Hold} {hold : Hold} (fits : List.Forall₂ Visit.Fits (hold :: held) (c.visits me)) :
    ∃ turns v rest outcome, Crew.Descending below c turns ∧ (c.after turns).slots = c.slots ∧
      (∀ t, t ≠ me → (c.after turns).visits t = c.visits t) ∧ (c.after turns).visits me = v :: rest ∧
        v.place = hold.1 ∧ v.stage = .releasing outcome ∧ List.Forall₂ Visit.Fits held rest := by
  generalize htop : c.visits me = visits at fits
  rcases fits with _ | @⟨_, v, _, rest, hfit, fits⟩
  rcases hold with ⟨place, _ | value⟩
  · -- the places do not tell an error from a panic, so a panic will do
    have hcrew : c.after [(me, .finish (.error (.panicked "")))] = c.finish me v rest (.error (.panicked "")) :=
      Crew.step_finish htop hfit.2 _
    refine ⟨[(me, .finish (.error (.panicked "")))], v.moved (.releasing (.error (.panicked ""))), rest, _,
      Crew.descending_of_ne_call (by simp), ?_, fun t ht => ?_, ?_, hfit.1, rfl, fits⟩
    · rw [hcrew]
      rfl
    · rw [hcrew]
      exact setAt_of_ne _ _ ht
    · rw [hcrew]
      exact setAt_self ..
  · exact ⟨[], v, rest, .ok value, trivial, rfl, fun _ _ => rfl, htop, hfit.1, hfit.2, fits⟩

theorem turn_release (h : Follow below s c) {place : Address} {next : Unit → Process α}
    (hp : s.threads me = .act (.release place) next) :
    ∃ turns, Crew.Descending below c turns ∧ Follow below (s.turn me) (c.after turns) := by
  have hturn : s.turn me = ⟨{ s.store with slots := s.store.slots.release place }, setAt s.threads me (next ())⟩ :=
    Team.turn_goes hp rfl
  rcases h.tracks me with ⟨follows, fits⟩ | ⟨_, _, process⟩
  · obtain ⟨value?, held, rfl, hnext⟩ := hp ▸ follows
    obtain ⟨turns, v, rest, outcome, hdescending, hslots, hothers, top, rfl, releasing, fits⟩ := exists_releasing fits
    obtain ⟨hslots', hrest, hroused⟩ := Crew.after_release_notify top releasing
    refine ⟨turns ++ [(me, .release), (me, .notify)], hdescending.append (Crew.descending_of_ne_call (by simp)), ?_⟩
    rw [Crew.after_append]
    refine h.of_turn ?_ ?_ hrest (.goes hnext fits) fun t ht => .inr ⟨v.place, ?_⟩
    · rw [hturn, hslots', hslots, h.slots]
    · rw [hturn]
      exact setAt_self ..
    · rw [hroused t ht, Crew.visits_rouse, hothers t ht]
      rfl
  · rw [hp] at process
    cases process

theorem exists_turn (h : Follow below s c) (me : Thread) :
    ∃ turns, Crew.Descending below c turns ∧ Follow below (s.turn me) (c.after turns) := by
  rcases hp : s.threads me with result | ⟨a, next⟩
  · refine ⟨[], trivial, ?_⟩
    have hturn : s.turn me = s := by simp only [Team.turn, hp]
    rw [hturn]
    exact h
  · cases a with
    | acquire place => exact h.turn_acquire hp
    | settle place value => exact h.turn_settle hp
    | release place => exact h.turn_release hp
    | _ => exact ⟨[], trivial, h.turn_apart hp rfl⟩

/-- Every order of the threads' actions is an order of turns of a crew. -/
theorem exists_after (h : Follow below s c) (turns : List Thread) :
    ∃ moves, Crew.Descending below c moves ∧ Follow below (s.after turns) (c.after moves) := by
  induction turns generalizing s c with
  | nil => exact ⟨[], trivial, h⟩
  | cons me turns ih =>
      obtain ⟨first, hfirst, h⟩ := h.exists_turn me
      obtain ⟨moves, hmoves, h⟩ := ih h
      exact ⟨first ++ moves, hfirst.append hmoves, Crew.after_append c first moves ▸ h⟩

end Follow

/-! ### Requests of several threads -/

theorem Attempt.Bracketed.follows {ε α : Type} {x : Attempt ε α} {scope : List Hold → Prop}
    (hx : Bracketed below scope x) (hscope : scope []) : x.run.Follows below [] := by
  have hfollows := hx _ .done [] (by simp [Running]) hscope fun _ => rfl
  rwa [Process.bind_done] at hfollows

/-- Threads that begin when nobody is at a place follow a crew from then on. -/
theorem Follow.of_follows {α : Type} {threads : Thread → Process α} (hthreads : ∀ t, (threads t).Follows below [])
    {store : Store} {c : Crew} (hslots : c.slots = store.slots) (hover : ∀ t, c.visits t = []) :
    Follow below ⟨store, threads⟩ c :=
  ⟨hslots, fun t => .goes (hthreads t) (hover t ▸ .nil)⟩

/-! ### Taking turns -/

namespace Team

variable {α : Type} {s : Team α} {first : Thread} {p : Process α} {ps : List (Process α)}

/-- Some of the threads of a team, by number. -/
def Has (s : Team α) (first : Thread) (ps : List (Process α)) : Prop :=
  ∀ i p, ps[i]? = some p → s.threads (first + i) = p

theorem Has.head (h : s.Has first (p :: ps)) : s.threads first = p := h 0 p rfl

theorem Has.tail (h : s.Has first (p :: ps)) : s.Has (first + 1) ps := by
  intro i q hq
  rw [Nat.add_right_comm]
  exact h (i + 1) q hq

theorem Has.cons (hp : s.threads first = p) (h : s.Has (first + 1) ps) : s.Has first (p :: ps) := by
  intro i q hq
  cases i with
  | zero => exact hp.trans (Option.some.inj hq)
  | succ i => exact (congrArg s.threads (Nat.add_right_comm first i 1)).trans (h i q hq)

/-- Turns of threads from `first` on leave the store and the processes of these threads. -/
def Comes (s : Team α) (first : Thread) (ps : List (Process α)) (store : Store) : Prop :=
  ∃ turns, (s.after turns).store = store ∧ (s.after turns).Has first ps ∧
    ∀ t, t < first → (s.after turns).threads t = s.threads t

theorem Comes.cons (hp : s.threads first = p) {store : Store} (h : s.Comes (first + 1) ps store) :
    s.Comes first (p :: ps) store := by
  obtain ⟨turns, hstore, hhas, hbelow⟩ := h
  have hfirst : (s.after turns).threads first = p := (hbelow first (Nat.lt_succ_self _)).trans hp
  refine ⟨turns, hstore, .cons hfirst hhas, ?_⟩
  intro t ht
  exact hbelow t (Nat.lt_succ_of_lt ht)

theorem Comes.of_turn {store : Store} (h : (s.turn first).Comes first ps store) : s.Comes first ps store := by
  obtain ⟨turns, hstore, hhas, hbelow⟩ := h
  refine ⟨first :: turns, hstore, hhas, ?_⟩
  intro t ht
  exact (hbelow t ht).trans (threads_turn_of_ne s (Nat.ne_of_lt ht))

theorem comes_turn (h : s.Has first ps) :
    s.Comes first ((Process.turn first ps s.store).2.elim ps (·.1)) (Process.turn first ps s.store).1 := by
  induction ps generalizing first s with
  | nil => exact ⟨[], rfl, h, fun _ _ => rfl⟩
  | cons p ps ih =>
      have htail := ih h.tail
      rcases p with result | ⟨a, next⟩
      · rw [Process.turn]
        rcases hturn : Process.turn (first + 1) ps s.store with ⟨store, _ | qs⟩ <;> rw [hturn] at htail
        · exact htail.cons h.head
        · exact htail.cons h.head
      · rw [Process.turn]
        rcases hperform : a.perform first s.store with ⟨store, _ | r⟩
        · have hturn := turn_waits h.head hperform
          have htail : (s.turn first).Has (first + 1) ps := hturn ▸ h.tail
          have htail := ih htail
          have hhead : (s.turn first).threads first = .act a next := hturn ▸ h.head
          rw [show (s.turn first).store = store by rw [hturn]] at htail
          dsimp only
          rcases hrest : Process.turn (first + 1) ps store with ⟨store', _ | qs⟩ <;> rw [hrest] at htail
          · exact .of_turn (htail.cons hhead)
          · exact .of_turn (htail.cons hhead)
        · have hturn := turn_goes h.head hperform
          refine .of_turn ⟨[], ?_, .cons ?_ ?_, fun _ _ => rfl⟩
          · rw [hturn]
            rfl
          · rw [hturn]
            exact setAt_self ..
          · intro i q hq
            have hlt : first < first + 1 + i := Nat.lt_of_lt_of_le (Nat.lt_succ_self first) (Nat.le_add_right _ i)
            exact (threads_turn_of_ne s (Nat.ne_of_gt hlt)).trans (h.tail i q hq)

theorem after_append (s : Team α) (turns later : List Thread) :
    s.after (turns ++ later) = (s.after turns).after later := List.foldl_append

/-- What is left of threads that take turns until none can go on is left by some order of their actions. -/
theorem exists_together (h : s.Has first ps) :
    ∃ turns, (s.after turns).store = (Process.together first ps s.store).2 ∧
      (s.after turns).Has first (Process.together first ps s.store).1 := by
  generalize hstore : s.store = store
  induction ps, store using Process.together.induct first generalizing s with
  | case1 ps store store' qs hless hturn ih =>
      have hcomes := comes_turn h
      rw [hstore, hturn] at hcomes
      obtain ⟨turns, hstore', hhas, -⟩ := hcomes
      obtain ⟨later, hlater⟩ := ih hhas hstore'
      refine ⟨turns ++ later, ?_⟩
      rw [after_append, Process.together, hturn]
      exact hlater
  | case2 ps store store' hturn =>
      have hcomes := comes_turn h
      rw [hstore, hturn] at hcomes
      obtain ⟨turns, hstore', hhas, -⟩ := hcomes
      refine ⟨turns, ?_⟩
      rw [Process.together, hturn]
      exact ⟨hstore', hhas⟩

end Team

/-- Threads that ask a container for anything, all at once, leave in the places what a crew leaves there. -/
theorem Container.exists_crew_together (c : Container) (requests : List Request) (first : Thread) {store : Store}
    {crew : Crew} (hslots : crew.slots = store.slots) (hover : ∀ t, crew.visits t = []) :
    ∃ moves, (crew.after moves).slots =
      (Process.together first (requests.map fun r => (c.resolve r).run) store).2.slots := by
  let x (t : Thread) : Attempt Failure Resolved := c.resolve (requests.getD (t - first) .requester)
  have hx (t : Thread) : (x t).run.Follows (fun _ _ => True) [] :=
    (bracketed_request bracketed_require ⟨c, none⟩ _).follows trivial
  have hhas : Team.Has ⟨store, fun t => (x t).run⟩ first (requests.map fun r => (c.resolve r).run) := by
    intro i p hp
    rw [List.getElem?_map] at hp
    obtain ⟨r, hr, rfl⟩ := Option.map_eq_some_iff.1 hp
    show (c.resolve (requests.getD (first + i - first) .requester)).run = _
    rw [Nat.add_sub_cancel_left, List.getD_eq_getElem?_getD, hr, Option.getD_some]
  obtain ⟨turns, hturns, -⟩ := Team.exists_together hhas
  obtain ⟨moves, -, hmoves⟩ := (Follow.of_follows hx hslots hover).exists_after turns
  exact ⟨moves, hmoves.slots.trans (congrArg Store.slots hturns)⟩

end Injection
