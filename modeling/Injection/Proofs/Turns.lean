import Injection.Slots.Crew

/-!
What a turn can do. A thread is within all its calls but the innermost, and marks each place that it computes for one
call of its own; so a turn of a thread takes a vacant place, gives up the place that it has taken last, with a value or
without, or leaves all places as they are.
-/

namespace Injection

namespace Stage

/-- The place is marked as being computed by the thread. -/
def holds : Stage → Bool
  | computing => true
  | settling _ => true
  | releasing (.error _) => true
  | _ => false

/-- The place has not been freed yet. -/
def isOpen : Stage → Bool
  | computing => true
  | settling _ => true
  | releasing _ => true
  | _ => false

def isLooking : Stage → Bool
  | arriving => true
  | woken => true
  | _ => false

def isNotifying : Stage → Bool
  | notifying _ => true
  | _ => false

/-- What the run came to, once it has ended. -/
def outcome? : Stage → Option Outcome
  | settling r => some r
  | releasing r => some r
  | notifying r => some r
  | _ => none

/-- The thread has slept at the place and has not looked at it since. -/
def isWaiting : Stage → Bool
  | asleep => true
  | woken => true
  | _ => false

/-- The value that was put in the place. -/
def kept? : Stage → Option Value
  | releasing (.ok value) => some value
  | notifying (.ok value) => some value
  | _ => none

theorem isOpen_of_holds {stage : Stage} (h : stage.holds = true) : stage.isOpen = true := by
  cases stage <;> simp_all [holds, isOpen]

theorem isLooking_iff {stage : Stage} : stage.isLooking = true ↔ stage = arriving ∨ stage = woken := by
  cases stage <;> simp [isLooking]

end Stage

namespace Visit

/-- The places that are marked as being computed for the sake of some calls. -/
def held (visits : List Visit) : List Address := (visits.filter (·.stage.holds)).map (·.place)

/-- What is the same about a call at all its stages. -/
def ticket (v : Visit) : Nat × Address := (v.call, v.place)

variable {v : Visit} {rest : List Visit} {place : Address} {stage : Stage}

@[simp] theorem call_moved : (v.moved stage).call = v.call := rfl

@[simp] theorem place_moved : (v.moved stage).place = v.place := rfl

@[simp] theorem stage_moved : (v.moved stage).stage = stage := rfl

theorem held_cons : held (v :: rest) = if v.stage.holds then v.place :: held rest else held rest := by
  simp only [held, List.filter_cons]
  split <;> rfl

theorem mem_held : place ∈ held rest ↔ ∃ v ∈ rest, v.stage.holds = true ∧ v.place = place := by
  simp [held, and_assoc]

theorem rouse_cases (place : Address) (v : Visit) :
    v.rouse place = v ∨ v.stage = .asleep ∧ v.place = place ∧ v.rouse place = v.moved .woken := by
  unfold rouse
  split
  · next hstage =>
    split
    · next hplace => exact Or.inr ⟨hstage, hplace, rfl⟩
    · exact Or.inl rfl
  · exact Or.inl rfl

theorem rouse_eq_of_asleep (h : (v.rouse place).stage = .asleep) : v.rouse place = v ∧ v.place ≠ place := by
  rcases rouse_cases place v with heq | ⟨-, -, heq⟩
  · refine ⟨heq, fun hplace => ?_⟩
    rw [heq] at h
    have hwoken : v.rouse place = v.moved .woken := by
      unfold rouse
      rw [h]
      exact if_pos hplace
    rw [heq] at hwoken
    rw [hwoken] at h
    cases h
  · rw [heq] at h
    cases h

theorem rouse_of_not_asleep (h : v.stage ≠ .asleep) : v.rouse place = v :=
  (rouse_cases place v).resolve_right fun hasleep => h hasleep.1

@[simp] theorem call_rouse : (v.rouse place).call = v.call := by
  rcases rouse_cases place v with h | ⟨-, -, h⟩ <;> rw [h]
  rfl

@[simp] theorem place_rouse : (v.rouse place).place = v.place := by
  rcases rouse_cases place v with h | ⟨-, -, h⟩ <;> rw [h]
  rfl

@[simp] theorem ticket_rouse : (v.rouse place).ticket = v.ticket := by
  rw [ticket, call_rouse, place_rouse, ← ticket]

@[simp] theorem held_map_rouse (visits : List Visit) : held (visits.map (rouse place)) = held visits := by
  induction visits with
  | nil => rfl
  | cons v rest ih =>
      have hholds : (v.rouse place).stage.holds = v.stage.holds := by
        rcases rouse_cases place v with heq | ⟨hasleep, -, hwoken⟩
        · rw [heq]
        · rw [hwoken, hasleep]
          rfl
      simp only [held, List.map_cons, List.filter_cons, hholds] at ih ⊢
      split
      · simp only [List.map_cons, place_rouse, ih]
      · exact ih

end Visit

namespace Crew

variable {s s' : Crew} {me : Thread}

/-! ### Turns -/

/-- All that a turn of a thread can do. -/
inductive Turn (me : Thread) (s : Crew) : Crew → Prop
  | idle : Turn me s s
  | come (place : Address) (free : ∀ v rest, s.visits me = v :: rest → v.stage = .computing) :
      Turn me s (s.come me place)
  | found {v : Visit} {rest : List Visit} (top : s.visits me = v :: rest) (looking : v.stage.isLooking = true)
      (value : Value) (slot : s.slots.slot v.place = .ready value) :
      Turn me s ({ s with slots := ⟨s.slots.slot, WaitEdge.stopWaiting s.slots.edges me⟩ }.leave me v rest (.value value))
  | enter {v : Visit} {rest : List Visit} (top : s.visits me = v :: rest) (looking : v.stage.isLooking = true)
      (slot : s.slots.slot v.place = .vacant) :
      Turn me s (({ s with slots := ⟨setAt s.slots.slot v.place (.computing me),
        WaitEdge.stopWaiting s.slots.edges me⟩ }.put me (v.moved .computing :: rest)).note (.began v.call v.place))
  | sleep {v : Visit} {rest : List Visit} (top : s.visits me = v :: rest) (looking : v.stage.isLooking = true)
      (owner : Thread) (slot : s.slots.slot v.place = .computing owner) (edges : List WaitEdge)
      (start : WaitEdge.startWaiting (WaitEdge.stopWaiting s.slots.edges me) me v.place owner = some edges) :
      Turn me s ({ s with slots := ⟨s.slots.slot, edges⟩ }.put me (v.moved .asleep :: rest))
  | refused {v : Visit} {rest : List Visit} (top : s.visits me = v :: rest) (looking : v.stage.isLooking = true)
      (owner : Thread) (slot : s.slots.slot v.place = .computing owner)
      (start : WaitEdge.startWaiting (WaitEdge.stopWaiting s.slots.edges me) me v.place owner = none) :
      Turn me s ({ s with slots := ⟨s.slots.slot, WaitEdge.stopWaiting s.slots.edges me⟩ }.leave me v rest .refused)
  | wake {v : Visit} {rest : List Visit} (top : s.visits me = v :: rest) (asleep : v.stage = .asleep) :
      Turn me s (s.put me (v.moved .woken :: rest))
  | finish {v : Visit} {rest : List Visit} (top : s.visits me = v :: rest) (computing : v.stage = .computing)
      (outcome : Outcome) : Turn me s (s.finish me v rest outcome)
  | settle {v : Visit} {rest : List Visit} {outcome : Outcome} (top : s.visits me = v :: rest)
      (settling : v.stage = .settling outcome) : Turn me s (s.settle me v rest outcome)
  | release {v : Visit} {rest : List Visit} {outcome : Outcome} (top : s.visits me = v :: rest)
      (releasing : v.stage = .releasing outcome) : Turn me s (s.release me v rest outcome)
  | notify {v : Visit} {rest : List Visit} {outcome : Outcome} (top : s.visits me = v :: rest)
      (notifying : v.stage = .notifying outcome) : Turn me s (s.notify me v rest outcome)

theorem turn_look {v : Visit} {rest : List Visit} (top : s.visits me = v :: rest) (looking : v.stage.isLooking = true) :
    Turn me s (s.look me v rest) := by
  unfold look Slots.acquire
  rcases hslot : s.slots.slot v.place with _ | owner | value
  · exact .enter top looking hslot
  · rcases hstart : WaitEdge.startWaiting (WaitEdge.stopWaiting s.slots.edges me) me v.place owner with _ | edges
    · simp only [hstart]
      exact .refused top looking owner hslot hstart
    · simp only [hstart]
      exact .sleep top looking owner hslot edges hstart
  · exact .found top looking value hslot

theorem turn_step (s : Crew) (me : Thread) (move : Move) : Turn me s (s.step me move) := by
  unfold step
  rcases htop : s.visits me with _ | ⟨v, rest⟩
  · cases move with
    | call place => exact .come place (by simp [htop])
    | _ => exact .idle
  · -- a move that does not go with the stage leaves everything as it is
    dsimp only
    split
    case h_1 hstage => exact turn_look htop (by rw [hstage]; rfl)
    case h_2 hstage => exact turn_look htop (by rw [hstage]; rfl)
    case h_3 hstage => exact .wake htop hstage
    case h_4 hstage =>
      refine .come _ fun w _ hvisits => ?_
      obtain rfl := (List.cons.inj (htop.symm.trans hvisits)).1
      exact hstage
    case h_5 hstage => exact .finish htop hstage _
    case h_6 hstage => exact .settle htop hstage
    case h_7 hstage => exact .release htop hstage
    case h_8 hstage => exact .notify htop hstage
    case h_9 => exact .idle

/-- What holds in the beginning and is preserved by every turn holds after all turns. -/
theorem after_induction {P : Crew → Prop} (h : P s) (hturn : ∀ {s s' me}, P s → Turn me s s' → P s')
    (turns : List (Thread × Move)) : P (s.after turns) := by
  induction turns generalizing s with
  | nil => exact h
  | cons turn turns ih => exact ih (hturn h (turn_step s turn.1 turn.2))

/-- In all these turns, a thread that goes to a place goes below the places that it is computing. -/
def Descending (below : Address → Address → Prop) : Crew → List (Thread × Move) → Prop
  | _, [] => True
  | s, (t, move) :: turns =>
    (∀ place, s.step t move = s.come t place → ∀ v ∈ s.visits t, v.stage = .computing → below place v.place) ∧
      Descending below (s.step t move) turns

theorem after_append (s : Crew) (turns later : List (Thread × Move)) :
    s.after (turns ++ later) = (s.after turns).after later := List.foldl_append

theorem Descending.append {below : Address → Address → Prop} {turns later : List (Thread × Move)}
    (h : Descending below s turns) (h' : Descending below (s.after turns) later) :
    Descending below s (turns ++ later) := by
  induction turns generalizing s with
  | nil => exact h'
  | cons turn turns ih => exact ⟨h.1, ih h.2 h'⟩

theorem place_eq_of_come {place place' : Address} (h : s.come me place = s.come me place') : place = place' := by
  have hvisits := congrArg (fun s => (s.visits me).head?.map (·.place)) h
  simpa [come, put, setAt_self] using hvisits

theorem calls_look {v : Visit} {rest : List Visit} : (s.look me v rest).calls = s.calls := by
  unfold look
  split <;> rfl

theorem calls_step {move : Move} (hmove : ∀ place, move ≠ .call place) : (s.step me move).calls = s.calls := by
  unfold step
  split
  · split
    · exact absurd rfl (hmove _)
    · rfl
  · split
    case h_1 => exact calls_look
    case h_2 => exact calls_look
    case h_4 => exact absurd rfl (hmove _)
    all_goals rfl

theorem descending_of_ne_call {below : Address → Address → Prop} {turns : List (Thread × Move)}
    (h : ∀ turn ∈ turns, ∀ place, turn.2 ≠ .call place) : Descending below s turns := by
  induction turns generalizing s with
  | nil => trivial
  | cons turn turns ih =>
      obtain ⟨hturn, hturns⟩ := List.forall_mem_cons.1 h
      refine ⟨fun place hcome => ?_, ih hturns⟩
      have hcalls : (s.step turn.1 turn.2).calls = s.calls := calls_step hturn
      rw [hcome] at hcalls
      exact absurd hcalls (Nat.succ_ne_self _)

/-! ### The visits after a turn -/

@[simp] theorem visits_put (l : List Visit) : (s.put me l).visits = setAt s.visits me l := rfl

@[simp] theorem slots_put (l : List Visit) : (s.put me l).slots = s.slots := rfl

@[simp] theorem deeds_put (l : List Visit) : (s.put me l).deeds = s.deeds := rfl

@[simp] theorem visits_rouse (place : Address) (t : Thread) :
    (s.rouse place).visits t = (s.visits t).map (.rouse place) := rfl

@[simp] theorem slots_rouse (place : Address) : (s.rouse place).slots = s.slots := rfl

@[simp] theorem visits_note (d : Deed) : (s.note d).visits = s.visits := rfl

@[simp] theorem slots_note (d : Deed) : (s.note d).slots = s.slots := rfl

@[simp] theorem deeds_note (d : Deed) : (s.note d).deeds = d :: s.deeds := rfl

/-! ### Calls that come and go -/

/-- A turn begins a call, or leaves of each thread's calls those that have not come back, in their order. -/
theorem Turn.tickets (hturn : Turn me s s') :
    (∃ place, s' = s.come me place ∧ ∀ v rest, s.visits me = v :: rest → v.stage = .computing) ∨
      s'.calls = s.calls ∧ ∀ t, ((s'.visits t).map Visit.ticket).Sublist ((s.visits t).map Visit.ticket) := by
  have hput {l : List Visit} (hl : (l.map Visit.ticket).Sublist ((s.visits me).map Visit.ticket)) (t : Thread) :
      ((setAt s.visits me l t).map Visit.ticket).Sublist ((s.visits t).map Visit.ticket) := by
    by_cases ht : t = me
    · rw [ht, setAt_self]
      exact hl
    · exact setAt_of_ne s.visits l ht ▸ .refl _
  have hpop {v : Visit} {rest : List Visit} (top : s.visits me = v :: rest) :
      (rest.map Visit.ticket).Sublist ((s.visits me).map Visit.ticket) := by
    rw [top]
    exact List.sublist_cons_self ..
  have hmove {v : Visit} {rest : List Visit} (top : s.visits me = v :: rest) (stage : Stage) :
      ((v.moved stage :: rest).map Visit.ticket).Sublist ((s.visits me).map Visit.ticket) := by
    rw [top]
    exact .refl _
  cases hturn with
  | idle => exact .inr ⟨rfl, fun _ => .refl _⟩
  | come place free => exact .inl ⟨place, rfl, free⟩
  | found top looking value slot => exact .inr ⟨rfl, hput (hpop top)⟩
  | enter top looking slot => exact .inr ⟨rfl, hput (hmove top _)⟩
  | sleep top looking owner slot edges start => exact .inr ⟨rfl, hput (hmove top _)⟩
  | refused top looking owner slot start => exact .inr ⟨rfl, hput (hpop top)⟩
  | wake top asleep => exact .inr ⟨rfl, hput (hmove top _)⟩
  | finish top computing outcome => exact .inr ⟨rfl, hput (hmove top _)⟩
  | settle top settling => exact .inr ⟨rfl, hput (hmove top _)⟩
  | release top releasing => exact .inr ⟨rfl, hput (hmove top _)⟩
  | @notify v rest outcome top notifying =>
      refine .inr ⟨rfl, fun t => ?_⟩
      by_cases ht : t = me
      · simpa [Crew.notify, leave, ht] using hpop top
      · simp [Crew.notify, leave, setAt_of_ne _ _ ht, Function.comp_def]

/-! ### Places that are held -/

/-- What a turn of a thread does to the places. -/
inductive Shift (me : Thread) (s s' : Crew) : Prop
  | same (slots : s'.slots.slot = s.slots.slot)
      (held : ∀ t, Visit.held (s'.visits t) = Visit.held (s.visits t))
  | taken (place : Address) (vacant : s.slots.slot place = .vacant)
      (slots : s'.slots.slot = setAt s.slots.slot place (.computing me))
      (mine : Visit.held (s'.visits me) = place :: Visit.held (s.visits me))
      (others : ∀ t, t ≠ me → Visit.held (s'.visits t) = Visit.held (s.visits t))
  | left (place : Address) (slot : Slot) (free : ∀ t, slot ≠ .computing t)
      (slots : s'.slots.slot = setAt s.slots.slot place slot)
      (mine : Visit.held (s.visits me) = place :: Visit.held (s'.visits me))
      (others : ∀ t, t ≠ me → Visit.held (s'.visits t) = Visit.held (s.visits t))

/-- The places agree with the calls. -/
structure Steady (s : Crew) : Prop where
  /-- A thread is within the runs of all calls but the innermost. -/
  nested : ∀ t, ∀ v ∈ (s.visits t).tail, v.stage = .computing
  /-- It has at most one call for a place that is not over. -/
  distinct : ∀ t, (Visit.held (s.visits t)).Nodup
  owner : ∀ t place, s.slots.slot place = .computing t ↔ place ∈ Visit.held (s.visits t)
  /-- A value that was made is there from the moment it was settled. -/
  kept : ∀ t, ∀ v ∈ s.visits t, ∀ value, v.stage.kept? = some value → s.slots.slot v.place = .ready value

section

variable {v : Visit} {rest : List Visit}

theorem held_put {l : List Visit} (hl : Visit.held l = Visit.held (s.visits me)) (t : Thread) :
    Visit.held (setAt s.visits me l t) = Visit.held (s.visits t) := by
  by_cases ht : t = me
  · rw [ht, setAt_self, hl]
  · rw [setAt_of_ne _ _ ht]

theorem held_put_of_ne (l : List Visit) (t : Thread) (ht : t ≠ me) :
    Visit.held (setAt s.visits me l t) = Visit.held (s.visits t) := by
  rw [setAt_of_ne _ _ ht]

theorem held_of_isLooking (h : v.stage.isLooking = true) : Visit.held (v :: rest) = Visit.held rest := by
  rcases Stage.isLooking_iff.1 h with h | h <;> simp [Visit.held_cons, h, Stage.holds]

theorem Steady.shift (h : Steady s) (hturn : Turn me s s') : Shift me s s' := by
  cases hturn with
  | idle => exact .same rfl fun _ => rfl
  | come place free => exact .same rfl (held_put (by simp [Visit.held_cons, Stage.holds]))
  | found top looking value slot => exact .same rfl (held_put (by rw [top, held_of_isLooking looking]))
  | enter top looking slot =>
      refine .taken _ slot rfl ?_ (held_put_of_ne _)
      rw [top, held_of_isLooking looking]
      simp [Visit.held_cons, Stage.holds]
  | sleep top looking owner slot edges start =>
      refine .same rfl (held_put ?_)
      rw [top, held_of_isLooking looking]
      simp [Visit.held_cons, Stage.holds]
  | refused top looking owner slot start => exact .same rfl (held_put (by rw [top, held_of_isLooking looking]))
  | wake top asleep => exact .same rfl (held_put (by simp [top, Visit.held_cons, asleep, Stage.holds]))
  | finish top computing outcome =>
      refine .same rfl (held_put ?_)
      rcases outcome with (_ | _ | _) | _ <;> simp [top, Visit.held_cons, computing, Stage.holds]
  | @settle v rest outcome top settling =>
      rcases outcome with e | value
      · exact .same rfl (held_put (by simp [top, Visit.held_cons, settling, Stage.holds]))
      · refine .left v.place (.ready value) (by simp) rfl ?_ (held_put_of_ne _)
        simp [Crew.settle, top, Visit.held_cons, settling, Stage.holds]
  | @release v rest outcome top releasing =>
      -- after a value was settled the place is no longer marked, and freeing it changes nothing
      rcases outcome with e | value
      · have hslot : s.slots.slot v.place = .computing me := by
          rw [h.owner, top]
          simp [Visit.held_cons, releasing, Stage.holds]
        refine .left v.place .vacant (by simp) ?_ ?_ (held_put_of_ne _)
        · simp [Crew.release, Slots.release, hslot]
        · simp [Crew.release, top, Visit.held_cons, releasing, Stage.holds]
      · have hslot := h.kept me v (top ▸ List.mem_cons_self) value (by rw [releasing]; rfl)
        refine .same ?_ (held_put (by simp [top, Visit.held_cons, releasing, Stage.holds]))
        simp [Crew.release, Slots.release, hslot]
  | @notify v rest outcome top notifying =>
      refine .same rfl fun t => ?_
      by_cases ht : t = me
      · simp [Crew.notify, Crew.leave, ht, top, Visit.held_cons, notifying, Stage.holds]
      · simp [Crew.notify, Crew.leave, setAt_of_ne _ _ ht]

theorem Steady.ready (h : Steady s) (hshift : Shift me s s') {place : Address} {value : Value}
    (hslot : s.slots.slot place = .ready value) : s'.slots.slot place = .ready value := by
  cases hshift with
  | same slots held => rw [slots, hslot]
  | taken place' vacant slots mine others =>
      rw [slots, setAt_of_ne, hslot]
      rintro rfl
      rw [vacant] at hslot
      cases hslot
  | left place' slot free slots mine others =>
      rw [slots, setAt_of_ne, hslot]
      rintro rfl
      rw [(h.owner me place).2 (mine ▸ List.mem_cons_self)] at hslot
      cases hslot

theorem Steady.distinct_shift (h : Steady s) (hshift : Shift me s s') (t : Thread) :
    (Visit.held (s'.visits t)).Nodup := by
  cases hshift with
  | same slots held => exact held t ▸ h.distinct t
  | taken place vacant slots mine others =>
      by_cases ht : t = me
      · have hnew : place ∉ Visit.held (s.visits me) := by
          rw [← h.owner, vacant]
          simp
        exact ht ▸ mine ▸ List.nodup_cons.2 ⟨hnew, h.distinct me⟩
      · exact others t ht ▸ h.distinct t
  | left place slot free slots mine others =>
      by_cases ht : t = me
      · exact ht ▸ (List.nodup_cons.1 (mine ▸ h.distinct me)).2
      · exact others t ht ▸ h.distinct t

theorem Steady.owner_shift (h : Steady s) (hshift : Shift me s s') (t : Thread) (place : Address) :
    s'.slots.slot place = .computing t ↔ place ∈ Visit.held (s'.visits t) := by
  cases hshift with
  | same slots held => rw [slots, held, h.owner]
  | taken place' vacant slots mine others =>
      have hnone (u : Thread) : place' ∉ Visit.held (s.visits u) := by
        rw [← h.owner, vacant]
        simp
      by_cases ht : t = me <;> by_cases hplace : place = place'
      · simp [ht, hplace, slots, mine]
      · simp [ht, hplace, slots, mine, setAt_of_ne, h.owner]
      · simp [hplace, slots, others t ht, hnone, Ne.symm ht]
      · simp [hplace, slots, others t ht, setAt_of_ne, h.owner]
  | left place' slot free slots mine others =>
      have hmine (u : Thread) : place' ∈ Visit.held (s.visits u) ↔ u = me := by
        rw [← h.owner, (h.owner me place').2 (mine ▸ List.mem_cons_self)]
        simp [eq_comm]
      have hnot : place' ∉ Visit.held (s'.visits me) := (List.nodup_cons.1 (mine ▸ h.distinct me)).1
      by_cases ht : t = me <;> by_cases hplace : place = place'
      · simp [ht, hplace, slots, free, hnot]
      · simp [ht, hplace, slots, setAt_of_ne, h.owner, mine]
      · simp [hplace, slots, free, others t ht, hmine, ht]
      · simp [hplace, slots, others t ht, setAt_of_ne, h.owner]

theorem forall_put {P : Visit → Prop} {l : List Visit} (h : ∀ t, t ≠ me → ∀ v ∈ s.visits t, P v) (hl : ∀ v ∈ l, P v)
    (t : Thread) : ∀ v ∈ setAt s.visits me l t, P v := by
  by_cases ht : t = me
  · rw [ht, setAt_self]
    exact hl
  · rw [setAt_of_ne _ _ ht]
    exact h t ht

theorem forall_rouse {P : Visit → Prop} (place : Address) (h : ∀ t, ∀ v ∈ s.visits t, P v)
    (hwoken : ∀ v, P v → v.stage = .asleep → P (v.moved .woken)) (t : Thread) :
    ∀ v ∈ (s.rouse place).visits t, P v := by
  intro v hv
  obtain ⟨u, hu, rfl⟩ := List.mem_map.1 hv
  rcases Visit.rouse_cases place u with heq | ⟨hasleep, -, heq⟩
  · rw [heq]
    exact h t u hu
  · rw [heq]
    exact hwoken u (h t u hu) hasleep

theorem Steady.kept_turn (h : Steady s) (hturn : Turn me s s') :
    ∀ t, ∀ v ∈ s'.visits t, ∀ value, v.stage.kept? = some value → s'.slots.slot v.place = .ready value := by
  have hold : ∀ t, ∀ v ∈ s.visits t, ∀ value, v.stage.kept? = some value → s'.slots.slot v.place = .ready value :=
    fun t v hv value hvalue => h.ready (h.shift hturn) (h.kept t v hv value hvalue)
  have hothers (t : Thread) (_ : t ≠ me) := hold t
  have hrest {v : Visit} {rest : List Visit} (top : s.visits me = v :: rest) :
      ∀ v ∈ rest, ∀ value, v.stage.kept? = some value → s'.slots.slot v.place = .ready value :=
    fun v hv => hold me v (top ▸ List.mem_cons_of_mem _ hv)
  have hnothing {v : Visit} (hv : v.stage.kept? = none) :
      ∀ value, v.stage.kept? = some value → s'.slots.slot v.place = .ready value :=
    fun _ hvalue => nomatch hv.symm.trans hvalue
  cases hturn with
  | idle => exact hold
  | come place free => exact forall_put hothers (List.forall_mem_cons.2 ⟨hnothing rfl, hold me⟩)
  | found top looking value slot => exact forall_put hothers (hrest top)
  | enter top looking slot => exact forall_put hothers (List.forall_mem_cons.2 ⟨hnothing rfl, hrest top⟩)
  | sleep top looking owner slot edges start => exact forall_put hothers (List.forall_mem_cons.2 ⟨hnothing rfl, hrest top⟩)
  | refused top looking owner slot start => exact forall_put hothers (hrest top)
  | wake top asleep => exact forall_put hothers (List.forall_mem_cons.2 ⟨hnothing rfl, hrest top⟩)
  | finish top computing outcome =>
      refine forall_put hothers (List.forall_mem_cons.2 ⟨hnothing ?_, hrest top⟩)
      rcases outcome with (_ | _ | _) | _ <;> rfl
  | @settle v rest outcome top settling =>
      refine forall_put hothers (List.forall_mem_cons.2 ⟨?_, hrest top⟩)
      intro value hvalue
      rcases outcome with e | value'
      · cases hvalue
      · cases hvalue
        exact setAt_self ..
  | @release v rest outcome top releasing =>
      refine forall_put hothers (List.forall_mem_cons.2 ⟨?_, hrest top⟩)
      intro value hvalue
      apply hold me v (top ▸ List.mem_cons_self) value
      rcases outcome with e | value'
      · cases hvalue
      · rw [releasing]
        exact hvalue
  | @notify v rest outcome top notifying =>
      exact forall_put (fun t _ => forall_rouse v.place hold (fun _ _ _ => hnothing rfl) t) (hrest top)

theorem nested_put {l : List Visit} (h : ∀ t, ∀ v ∈ (s.visits t).tail, v.stage = .computing)
    (hl : ∀ v ∈ l.tail, v.stage = .computing) (t : Thread) :
    ∀ v ∈ (setAt s.visits me l t).tail, v.stage = .computing := by
  by_cases ht : t = me
  · rw [ht, setAt_self]
    exact hl
  · rw [setAt_of_ne _ _ ht]
    exact h t

/-- All calls but the innermost are within their runs. -/
theorem Steady.top (h : Steady s) {t : Thread} (hv : v ∈ s.visits t) (hne : v.stage ≠ .computing) :
    ∃ rest, s.visits t = v :: rest := by
  rcases hvisits : s.visits t with _ | ⟨w, rest⟩
  · rw [hvisits] at hv
    cases hv
  · rw [hvisits] at hv
    rcases List.mem_cons.1 hv with rfl | hv
    · exact ⟨rest, rfl⟩
    · exact absurd (h.nested t v (by rwa [hvisits])) hne

theorem Steady.computing_of_free (h : Steady s) (free : ∀ v rest, s.visits me = v :: rest → v.stage = .computing) :
    ∀ v ∈ s.visits me, v.stage = .computing := by
  intro v hv
  rcases hvisits : s.visits me with _ | ⟨w, rest⟩
  · rw [hvisits] at hv
    cases hv
  · rw [hvisits] at hv
    rcases List.mem_cons.1 hv with rfl | hv
    · exact free v rest hvisits
    · exact h.nested me v (by rwa [hvisits])

theorem Steady.nested_turn (h : Steady s) (hturn : Turn me s s') :
    ∀ t, ∀ v ∈ (s'.visits t).tail, v.stage = .computing := by
  have hrest {v : Visit} {rest : List Visit} (top : s.visits me = v :: rest) : ∀ w ∈ rest, w.stage = .computing := by
    have hme := h.nested me
    rwa [top] at hme
  have hleft {v : Visit} {rest : List Visit} (top : s.visits me = v :: rest) :
      ∀ w ∈ rest.tail, w.stage = .computing := fun w hw => hrest top w (List.mem_of_mem_tail hw)
  cases hturn with
  | idle => exact h.nested
  | come place free => exact nested_put h.nested (h.computing_of_free free)
  | found top looking value slot => exact nested_put h.nested (hleft top)
  | enter top looking slot => exact nested_put h.nested (hrest top)
  | sleep top looking owner slot edges start => exact nested_put h.nested (hrest top)
  | refused top looking owner slot start => exact nested_put h.nested (hleft top)
  | wake top asleep => exact nested_put h.nested (hrest top)
  | finish top computing outcome => exact nested_put h.nested (hrest top)
  | settle top settling => exact nested_put h.nested (hrest top)
  | release top releasing => exact nested_put h.nested (hrest top)
  | @notify v rest outcome top notifying =>
      refine nested_put (s := s.rouse v.place) (fun t w hw => ?_) (hleft top)
      obtain ⟨u, hu, rfl⟩ := List.mem_map.1 (List.map_tail ▸ hw)
      have hcomputing := h.nested t u hu
      rwa [Visit.rouse_of_not_asleep (by rw [hcomputing]; nofun)]

theorem Steady.turn (h : Steady s) (hturn : Turn me s s') : Steady s' where
  nested := h.nested_turn hturn
  distinct := h.distinct_shift (h.shift hturn)
  owner := h.owner_shift (h.shift hturn)
  kept := h.kept_turn hturn

/-- Only the innermost call of a thread can be roused. -/
theorem Steady.visits_rouse (h : Steady s) (top : s.visits me = v :: rest) (place : Address) :
    (s.rouse place).visits me = v.rouse place :: rest := by
  have hrest : rest.map (.rouse place) = rest := by
    refine (List.map_congr_left fun w hw => Visit.rouse_of_not_asleep ?_).trans (List.map_id rest)
    rw [h.nested me w (by rwa [top])]
    nofun
  rw [Crew.visits_rouse, top, List.map_cons, hrest]

theorem Steady.visits_rouse_of_notifying (h : Steady s) (top : s.visits me = v :: rest) {outcome : Outcome}
    (hv : v.stage = .notifying outcome) (place : Address) : (s.rouse place).visits me = v :: rest := by
  rw [h.visits_rouse top, Visit.rouse_of_not_asleep (by rw [hv]; nofun)]

theorem Turn.visits_of_ne (hturn : Turn me s s') {t : Thread} (ht : t ≠ me) :
    s'.visits t = s.visits t ∨ ∃ place, s'.visits t = (s.rouse place).visits t := by
  cases hturn with
  | idle => exact .inl rfl
  | notify top notifying => exact .inr ⟨_, setAt_of_ne _ _ ht⟩
  | come place free => exact .inl (setAt_of_ne _ _ ht)
  | found top looking value slot => exact .inl (setAt_of_ne _ _ ht)
  | enter top looking slot => exact .inl (setAt_of_ne _ _ ht)
  | sleep top looking owner slot edges start => exact .inl (setAt_of_ne _ _ ht)
  | refused top looking owner slot start => exact .inl (setAt_of_ne _ _ ht)
  | wake top asleep => exact .inl (setAt_of_ne _ _ ht)
  | finish top computing outcome => exact .inl (setAt_of_ne _ _ ht)
  | settle top settling => exact .inl (setAt_of_ne _ _ ht)
  | release top releasing => exact .inl (setAt_of_ne _ _ ht)

theorem steady_empty : Steady empty where
  nested _ _ hv := nomatch hv
  distinct _ := List.nodup_nil
  owner _ _ := ⟨nofun, nofun⟩
  kept _ _ hv := nomatch hv

theorem steady_after (turns : List (Thread × Move)) : Steady (empty.after turns) :=
  after_induction steady_empty Steady.turn turns

end

end Crew

end Injection
