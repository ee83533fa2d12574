import Injection.Proofs.Turns
import Mathlib.Data.List.Nodup

/-!
All threads agree on the value of a place. What the runs for a place came to is told apart by the calls that made them:
a place has had a run with a value if and only if it is ready or about to be, and then only that one; a call gets that
value, or the outcome of a run of its own, whatever became of the runs it has waited for.
-/

namespace Injection

/-- The run of a call that ended, with its place and what it came to. -/
def Deed.run? (call : Nat) : Deed → Option (Address × Outcome)
  | ended c place outcome => if c = call then some (place, outcome) else none
  | _ => none

/-- The value that a run for a place came to. -/
def Deed.value? (place : Address) : Deed → Option Value
  | ended _ p (.ok value) => if p = place then some value else none
  | _ => none

/-- The value that a call is about to put in a place. -/
def Visit.value? (place : Address) (v : Visit) : Option Value :=
  match v.stage with
  | .settling (.ok value) => if v.place = place then some value else none
  | _ => none

/-- What a run leaves in its place. -/
def Slot.ofOutcome : Outcome → Slot
  | .ok value => ready value
  | .error _ => vacant

namespace Crew

variable {s s' : Crew} {me : Thread} {v : Visit} {rest : List Visit} {call : Nat} {place : Address}

def runs (s : Crew) (call : Nat) : List (Address × Outcome) := s.deeds.filterMap (Deed.run? call)

/-- The values that the runs for a place came to. -/
def values (s : Crew) (place : Address) : List Value := s.deeds.filterMap (Deed.value? place)

/-- The calls of a thread that have not come back. -/
def pending (s : Crew) (t : Thread) : List Nat := (s.visits t).map (·.call)

/-! ### The numbers of calls -/

/-- No two calls have the same number. -/
structure Numbered (s : Crew) : Prop where
  below : ∀ t, ∀ c ∈ s.pending t, c < s.calls
  distinct : ∀ t, (s.pending t).Nodup
  apart : ∀ t u, ∀ c ∈ s.pending t, c ∈ s.pending u → t = u

theorem Turn.pending (hturn : Turn me s s') :
    (s'.calls = s.calls ∧ ∀ t, (s'.pending t).Sublist (s.pending t)) ∨
      s'.calls = s.calls + 1 ∧ s'.pending me = s.calls :: s.pending me ∧ ∀ t, t ≠ me → s'.pending t = s.pending t := by
  rcases hturn.tickets with ⟨place, rfl, -⟩ | ⟨hcalls, hsub⟩
  · refine .inr ⟨rfl, ?_, ?_⟩
    · simp [Crew.pending, Crew.come]
    · intro t ht
      simp [Crew.pending, Crew.come, setAt_of_ne _ _ ht]
  · refine .inl ⟨hcalls, ?_⟩
    intro t
    simpa [Crew.pending, Visit.ticket, Function.comp_def] using (hsub t).map Prod.fst

theorem Numbered.turn (h : Numbered s) (hturn : Turn me s s') : Numbered s' := by
  rcases hturn.pending with ⟨hcalls, hsub⟩ | ⟨hcalls, hme, hothers⟩
  · constructor
    case below =>
      intro t c hc
      rw [hcalls]
      exact h.below t c ((hsub t).subset hc)
    case distinct =>
      intro t
      exact (hsub t).nodup (h.distinct t)
    case apart =>
      intro t u c ht hu
      exact h.apart t u c ((hsub t).subset ht) ((hsub u).subset hu)
  · have hnew {t : Thread} {c : Nat} (hc : c ∈ s'.pending t) : c = s.calls ∧ t = me ∨ c ∈ s.pending t := by
      by_cases ht : t = me
      · rw [ht, hme] at hc
        exact (List.mem_cons.1 hc).imp (⟨·, ht⟩) (ht ▸ ·)
      · exact .inr (hothers t ht ▸ hc)
    constructor
    case below =>
      intro t c hc
      rcases hnew hc with ⟨rfl, -⟩ | hc
      · omega
      · have hbelow := h.below t c hc
        omega
    case distinct =>
      intro t
      by_cases ht : t = me
      · rw [ht, hme]
        refine List.nodup_cons.2 ⟨?_, h.distinct me⟩
        intro hmem
        exact Nat.lt_irrefl _ (h.below me _ hmem)
      · rw [hothers t ht]
        exact h.distinct t
    case apart =>
      intro t u c ht hu
      rcases hnew ht with ⟨rfl, rfl⟩ | ht <;> rcases hnew hu with ⟨heq, rfl⟩ | hu
      · rfl
      · exact absurd (h.below u _ hu) (Nat.lt_irrefl _)
      · exact absurd (h.below t c ht) (heq ▸ Nat.lt_irrefl _)
      · exact h.apart t u c ht hu

/-! ### The values of runs -/

/-- The values of the runs for a place, as the place and the calls have them. -/
def made (s : Crew) (place : Address) : List Value :=
  match s.slots.slot place with
  | .vacant => []
  | .computing owner => (s.visits owner).filterMap (Visit.value? place)
  | .ready value => [value]

theorem value?_rouse (place' : Address) : (v.rouse place').value? place = v.value? place := by
  rcases Visit.rouse_cases place' v with heq | ⟨hasleep, -, heq⟩
  · rw [heq]
  · simp [heq, Visit.value?, hasleep]

theorem value?_of_isLooking (h : v.stage.isLooking = true) : v.value? place = none := by
  rcases Stage.isLooking_iff.1 h with h | h <;> simp [Visit.value?, h]

theorem Steady.values_rest (h : Steady s) (top : s.visits me = v :: rest) :
    rest.filterMap (Visit.value? place) = [] := by
  refine List.filterMap_eq_nil_iff.2 fun w hw => ?_
  have hw := h.nested me w (by rwa [top])
  simp [Visit.value?, hw]

theorem Steady.slot_of_holds (h : Steady s) (top : s.visits me = v :: rest) (hv : v.stage.holds = true) :
    s.slots.slot v.place = .computing me :=
  (h.owner me v.place).2 (Visit.mem_held.2 ⟨v, top ▸ List.mem_cons_self, hv, rfl⟩)

theorem Steady.made_of_holds (h : Steady s) (top : s.visits me = v :: rest) (hv : v.stage.holds = true) :
    s.made v.place = (v.value? v.place).toList := by
  unfold made
  rw [h.slot_of_holds top hv]
  show (s.visits me).filterMap _ = _
  rw [top, List.filterMap_cons, h.values_rest top]
  cases v.value? v.place <;> rfl

theorem made_put {l : List Visit} (hslot : s'.slots.slot place = s.slots.slot place)
    (hvisits : s'.visits = setAt s.visits me l)
    (hl : l.filterMap (Visit.value? place) = (s.visits me).filterMap (Visit.value? place)) :
    s.made place = s'.made place := by
  unfold made
  rw [hslot, hvisits]
  split
  · rfl
  · next owner _ =>
    by_cases howner : owner = me
    · rw [howner, setAt_self, hl]
    · rw [setAt_of_ne _ _ howner]
  · rfl

theorem made_rouse (place' : Address) : s.made place = (s.rouse place').made place := by
  unfold made
  simp [List.filterMap_map, value?_rouse]

theorem filterMap_value_pop (top : s.visits me = v :: rest) (hv : v.value? place = none) :
    rest.filterMap (Visit.value? place) = (s.visits me).filterMap (Visit.value? place) := by
  rw [top, List.filterMap_cons_none hv]

theorem filterMap_value_moved (top : s.visits me = v :: rest) {stage : Stage}
    (hv : (v.moved stage).value? place = v.value? place) :
    (v.moved stage :: rest).filterMap (Visit.value? place) = (s.visits me).filterMap (Visit.value? place) := by
  rw [top, List.filterMap_cons, List.filterMap_cons, hv]

theorem Steady.values_finish (h : Steady s) (hvalues : s.values place = s.made place) (top : s.visits me = v :: rest)
    (computing : v.stage = .computing) (outcome : Outcome) :
    (s.finish me v rest outcome).values place = (s.finish me v rest outcome).made place := by
  have hnone (place : Address) : v.value? place = none := by simp [Visit.value?, computing]
  rcases outcome with e | value
  · refine hvalues.trans (made_put rfl rfl (filterMap_value_moved top ?_))
    rw [hnone]
    cases e <;> rfl
  · by_cases hplace : place = v.place
    · have hmade : (s.finish me v rest (.ok value)).made v.place = [value] :=
        ((h.turn (.finish top computing (.ok value))).made_of_holds (setAt_self ..) rfl).trans
          (by simp [Visit.value?])
      -- the place is marked and its owner has not settled anything, so no run had a value before
      rw [hplace, h.made_of_holds top (by rw [computing]; rfl), hnone] at hvalues
      rw [hplace, hmade]
      simpa [Crew.values, Crew.finish, Deed.value?] using hvalues
    · have hold : (s.finish me v rest (.ok value)).values place = s.values place := by
        simp [Crew.values, Crew.finish, Deed.value?, Ne.symm hplace]
      refine hold.trans (hvalues.trans (made_put rfl rfl (filterMap_value_moved top ?_)))
      rw [hnone]
      exact if_neg (Ne.symm hplace)

theorem Steady.made_settle (h : Steady s) (top : s.visits me = v :: rest) {outcome : Outcome}
    (settling : v.stage = .settling outcome) : s.made place = (s.settle me v rest outcome).made place := by
  rcases outcome with e | value
  · exact made_put rfl rfl (filterMap_value_moved top (by simp [Visit.value?, settling]))
  · by_cases hplace : place = v.place
    · rw [hplace, h.made_of_holds top (by rw [settling]; rfl)]
      simp [made, Crew.settle, Slots.settle, Visit.value?, settling]
    · refine made_put (setAt_of_ne _ _ hplace) rfl (filterMap_value_moved top ?_)
      simp [Visit.value?, settling, Ne.symm hplace]

theorem Steady.made_release (h : Steady s) (top : s.visits me = v :: rest) {outcome : Outcome}
    (releasing : v.stage = .releasing outcome) : s.made place = (s.release me v rest outcome).made place := by
  have hnone (place : Address) : v.value? place = none := by simp [Visit.value?, releasing]
  have hmoved : (v.moved (.notifying outcome) :: rest).filterMap (Visit.value? place) =
      (s.visits me).filterMap (Visit.value? place) := filterMap_value_moved top (hnone place).symm
  have hslots : (s.release me v rest outcome).slots = s.slots.release v.place := rfl
  rcases outcome with e | value
  · have hholds : v.stage.holds = true := by rw [releasing]; rfl
    have hslot := h.slot_of_holds top hholds
    by_cases hplace : place = v.place
    · rw [hplace, h.made_of_holds top hholds, hnone]
      simp [made, hslots, Slots.release, hslot]
    · refine made_put ?_ rfl hmoved
      simp [hslots, Slots.release, hslot, setAt_of_ne _ _ hplace]
  · have hslot := h.kept me v (top ▸ List.mem_cons_self) value (by rw [releasing]; rfl)
    refine made_put ?_ rfl hmoved
    simp [hslots, Slots.release, hslot]

theorem Steady.made_notify (h : Steady s) (top : s.visits me = v :: rest) {outcome : Outcome}
    (notifying : v.stage = .notifying outcome) : s.made place = (s.notify me v rest outcome).made place := by
  refine (made_rouse v.place).trans (made_put (s := s.rouse v.place) rfl rfl ?_)
  exact filterMap_value_pop (h.visits_rouse_of_notifying top notifying v.place) (by simp [Visit.value?, notifying])

/-- Whatever a turn adds to the values of the runs for a place, it adds to the place or to the calls. -/
theorem Steady.values_turn (h : Steady s) (hvalues : ∀ place, s.values place = s.made place) (hturn : Turn me s s')
    (place : Address) : s'.values place = s'.made place := by
  have hvalues := hvalues place
  cases hturn with
  | idle => exact hvalues
  | come p free => exact hvalues.trans (made_put rfl rfl rfl)
  | found top looking value slot =>
      exact hvalues.trans (made_put rfl rfl (filterMap_value_pop top (value?_of_isLooking looking)))
  | @enter v rest top looking slot =>
      by_cases hplace : place = v.place
      · rw [hplace, made, slot] at hvalues
        refine Eq.trans (b := []) (hplace ▸ hvalues) ?_
        simp [made, hplace, List.filterMap_cons, Visit.value?, h.values_rest top]
      · refine hvalues.trans (made_put (setAt_of_ne _ _ hplace) rfl ?_)
        exact filterMap_value_moved top (value?_of_isLooking looking).symm
  | sleep top looking owner slot edges start =>
      exact hvalues.trans (made_put rfl rfl (filterMap_value_moved top (value?_of_isLooking looking).symm))
  | refused top looking owner slot start =>
      exact hvalues.trans (made_put rfl rfl (filterMap_value_pop top (value?_of_isLooking looking)))
  | wake top asleep =>
      exact hvalues.trans (made_put rfl rfl (filterMap_value_moved top (by simp [Visit.value?, asleep])))
  | finish top computing outcome => exact h.values_finish hvalues top computing outcome
  | settle top settling => exact hvalues.trans (h.made_settle top settling)
  | release top releasing => exact hvalues.trans (h.made_release top releasing)
  | notify top notifying => exact hvalues.trans (h.made_notify top notifying)

/-! ### The runs of calls -/

/-- An answer agrees with what the runs came to. -/
def Backed (s : Crew) (call : Nat) (place : Address) : Answer → Prop
  | .value value => value ∈ s.values place
  | .stopped stop => s.runs call = [(place, .error stop)]
  | .refused => s.runs call = []

/-- What is remembered of the calls agrees with how far they are. -/
structure Recorded (s : Crew) : Prop where
  unborn : ∀ c, s.calls ≤ c → s.runs c = []
  pending : ∀ t, ∀ v ∈ s.visits t, s.runs v.call = v.stage.outcome?.toList.map (v.place, ·)
  answers : ∀ c place answer, .answered c place answer ∈ s.deeds →
    c < s.calls ∧ (∀ t, c ∉ s.pending t) ∧ s.Backed c place answer

theorem outcome?_of_isLooking (h : v.stage.isLooking = true) : v.stage.outcome? = none := by
  rcases Stage.isLooking_iff.1 h with h | h <;> rw [h] <;> rfl

theorem mem_pending (top : s.visits me = v :: rest) : v.call ∈ s.pending me := by
  rw [pending, top]
  exact List.mem_cons_self

theorem Turn.deeds (hturn : Turn me s s') : s.deeds ⊆ s'.deeds := by
  cases hturn with
  | idle => exact List.Subset.refl _
  | come place free => exact List.Subset.refl _
  | found top looking value slot => exact List.subset_cons_self ..
  | enter top looking slot => exact List.subset_cons_self ..
  | sleep top looking owner slot edges start => exact List.Subset.refl _
  | refused top looking owner slot start => exact List.subset_cons_self ..
  | wake top asleep => exact List.Subset.refl _
  | finish top computing outcome => exact List.subset_cons_self ..
  | settle top settling => exact List.Subset.refl _
  | release top releasing => exact List.Subset.refl _
  | notify top notifying => exact List.subset_cons_self ..

/-- Only a turn at the innermost call of a thread adds to the runs of a call. -/
theorem Turn.runs (hturn : Turn me s s') (hcall : ∀ v rest, s.visits me = v :: rest → v.call ≠ call) :
    s'.runs call = s.runs call := by
  cases hturn with
  | @finish v rest top computing outcome => simp [Crew.runs, Crew.finish, Deed.run?, hcall v rest top]
  | _ => rfl

/-- A call comes back when its place is ready, when waiting would never end, or after a run of its own. -/
theorem Turn.answered (hturn : Turn me s s') {answer : Answer} (h : .answered call place answer ∈ s'.deeds) :
    .answered call place answer ∈ s.deeds ∨ ∃ v rest, s.visits me = v :: rest ∧ v.call = call ∧ v.place = place ∧
      s'.visits me = rest ∧ s'.calls = s.calls ∧ s'.runs = s.runs ∧
        ((∃ value, s.slots.slot place = .ready value ∧ answer = .value value) ∨
          v.stage.isLooking = true ∧ answer = .refused ∨
            ∃ outcome, v.stage = .notifying outcome ∧ answer = .ofOutcome outcome) := by
  cases hturn with
  | @found v rest top looking value slot =>
      refine (List.mem_cons.1 h).symm.imp id fun heq => ?_
      cases heq
      exact ⟨v, rest, top, rfl, rfl, setAt_self .., rfl, rfl, .inl ⟨value, slot, rfl⟩⟩
  | @refused v rest top looking owner slot start =>
      refine (List.mem_cons.1 h).symm.imp id fun heq => ?_
      cases heq
      exact ⟨v, rest, top, rfl, rfl, setAt_self .., rfl, rfl, .inr (.inl ⟨looking, rfl⟩)⟩
  | @notify v rest outcome top notifying =>
      refine (List.mem_cons.1 h).symm.imp id fun heq => ?_
      cases heq
      exact ⟨v, rest, top, rfl, rfl, setAt_self .., rfl, rfl, .inr (.inr ⟨outcome, notifying, rfl⟩)⟩
  | enter top looking slot => exact .inl ((List.mem_cons.1 h).resolve_left nofun)
  | finish top computing outcome => exact .inl ((List.mem_cons.1 h).resolve_left nofun)
  | idle => exact .inl h
  | come place free => exact .inl h
  | sleep top looking owner slot edges start => exact .inl h
  | wake top asleep => exact .inl h
  | settle top settling => exact .inl h
  | release top releasing => exact .inl h

theorem Numbered.call_ne_of_mem_rest (h : Numbered s) (top : s.visits me = v :: rest) {w : Visit} (hw : w ∈ rest) :
    v.call ≠ w.call := by
  have hdistinct := h.distinct me
  rw [Crew.pending, top, List.map_cons, List.nodup_cons] at hdistinct
  exact fun heq => hdistinct.1 (heq ▸ List.mem_map_of_mem hw)

theorem Recorded.pending_turn (h : Recorded s) (hnumbered : Numbered s) (hturn : Turn me s s') :
    ∀ t, ∀ v ∈ s'.visits t, s'.runs v.call = v.stage.outcome?.toList.map (v.place, ·) := by
  have hothers (t : Thread) (ht : t ≠ me) :
      ∀ v ∈ s.visits t, s'.runs v.call = v.stage.outcome?.toList.map (v.place, ·) := by
    intro v hv
    rw [hturn.runs fun w rest top heq => ht ?_, h.pending t v hv]
    exact hnumbered.apart t me v.call (List.mem_map_of_mem hv) (heq ▸ mem_pending top)
  have hrest {v : Visit} {rest : List Visit} (top : s.visits me = v :: rest) :
      ∀ w ∈ rest, s'.runs w.call = w.stage.outcome?.toList.map (w.place, ·) := by
    intro w hw
    rw [hturn.runs fun u _ top' => ?_, h.pending me w (top ▸ List.mem_cons_of_mem _ hw)]
    obtain rfl := (List.cons.inj (top.symm.trans top')).1
    exact hnumbered.call_ne_of_mem_rest top hw
  have htop {v : Visit} {rest : List Visit} (top : s.visits me = v :: rest) {outcome : Option Outcome}
      (hv : v.stage.outcome? = outcome) : s.runs v.call = outcome.toList.map (v.place, ·) :=
    hv ▸ h.pending me v (top ▸ List.mem_cons_self)
  cases hturn with
  | idle => exact h.pending
  | come place free =>
      exact forall_put hothers (List.forall_mem_cons.2 ⟨h.unborn s.calls (Nat.le_refl _), h.pending me⟩)
  | found top looking value slot => exact forall_put hothers (hrest top)
  | enter top looking slot =>
      exact forall_put hothers (List.forall_mem_cons.2 ⟨htop top (outcome?_of_isLooking looking), hrest top⟩)
  | sleep top looking owner slot edges start =>
      exact forall_put hothers (List.forall_mem_cons.2 ⟨htop top (outcome?_of_isLooking looking), hrest top⟩)
  | refused top looking owner slot start => exact forall_put hothers (hrest top)
  | wake top asleep =>
      exact forall_put hothers (List.forall_mem_cons.2 ⟨htop top (by rw [asleep]; rfl), hrest top⟩)
  | @finish v rest top computing outcome =>
      refine forall_put hothers (List.forall_mem_cons.2 ⟨?_, hrest top⟩)
      have hnone : s.runs v.call = [] := htop top (show v.stage.outcome? = none by rw [computing]; rfl)
      have hnew : (s.finish me v rest outcome).runs v.call = (v.place, outcome) :: s.runs v.call := by
        simp [Crew.runs, Crew.finish, Deed.run?]
      rw [Visit.call_moved, hnew, hnone]
      rcases outcome with (_ | _ | _) | _ <;> rfl
  | settle top settling =>
      exact forall_put hothers (List.forall_mem_cons.2 ⟨htop top (by rw [settling]; rfl), hrest top⟩)
  | release top releasing =>
      exact forall_put hothers (List.forall_mem_cons.2 ⟨htop top (by rw [releasing]; rfl), hrest top⟩)
  | @notify v rest outcome top notifying =>
      apply forall_put _ (hrest top)
      intro t _
      apply forall_rouse v.place h.pending
      intro w hw hasleep
      rw [hasleep] at hw
      exact hw

/-- All invariants of the calls together. -/
structure Orderly (s : Crew) : Prop where
  steady : Steady s
  numbered : Numbered s
  recorded : Recorded s
  values : ∀ place, s.values place = s.made place

theorem Turn.mem_values (hturn : Turn me s s') {value : Value} (h : value ∈ s.values place) :
    value ∈ s'.values place := by
  obtain ⟨d, hd, hvalue⟩ := List.mem_filterMap.1 h
  exact List.mem_filterMap.2 ⟨d, hturn.deeds hd, hvalue⟩

theorem Orderly.values_of_ready (h : Orderly s) {value : Value} (hslot : s.slots.slot place = .ready value) :
    s.values place = [value] := by
  rw [h.values, made, hslot]

theorem Orderly.backed_of_answered (h : Orderly s) (hturn : Turn me s s') {answer : Answer}
    (hnew : .answered call place answer ∈ s'.deeds) (hold : .answered call place answer ∉ s.deeds) :
    call < s'.calls ∧ (∀ t, call ∉ s'.pending t) ∧ s'.Backed call place answer := by
  obtain ⟨v, rest, top, rfl, rfl, hvisits, hcalls, hruns, hanswer⟩ := (hturn.answered hnew).resolve_left hold
  have hpending := mem_pending top
  have hv := h.recorded.pending me v (top ▸ List.mem_cons_self)
  have hready {value : Value} (hslot : s.slots.slot v.place = .ready value) : value ∈ s'.values v.place :=
    hturn.mem_values (h.values_of_ready hslot ▸ List.mem_singleton_self value)
  refine ⟨hcalls ▸ h.numbered.below me _ hpending, ?_, ?_⟩
  · intro t ht
    by_cases htme : t = me
    · rw [htme, Crew.pending, hvisits] at ht
      obtain ⟨w, hw, heq⟩ := List.mem_map.1 ht
      exact h.numbered.call_ne_of_mem_rest top hw heq.symm
    · rcases hturn.pending with ⟨-, hsub⟩ | ⟨hmore, -⟩
      · exact htme (h.numbered.apart t me _ ((hsub t).subset ht) hpending)
      · omega
  · rcases hanswer with ⟨value, hslot, rfl⟩ | ⟨looking, rfl⟩ | ⟨stop | value, notifying, rfl⟩
    · exact hready hslot
    · rw [outcome?_of_isLooking looking] at hv
      exact (congrFun hruns v.call).trans hv
    · rw [notifying] at hv
      exact (congrFun hruns v.call).trans hv
    · exact hready (h.steady.kept me v (top ▸ List.mem_cons_self) value (by rw [notifying]; rfl))

/-- Answers that were given stay right, since no run is added to a call that has come back. -/
theorem Orderly.answers_turn (h : Orderly s) (hturn : Turn me s s') (c : Nat) (place : Address) (answer : Answer)
    (hanswer : .answered c place answer ∈ s'.deeds) :
    c < s'.calls ∧ (∀ t, c ∉ s'.pending t) ∧ s'.Backed c place answer := by
  by_cases hold : .answered c place answer ∈ s.deeds
  · obtain ⟨hbelow, hpending, hbacked⟩ := h.recorded.answers c place answer hold
    have hruns : s'.runs c = s.runs c := hturn.runs fun v rest top heq => hpending me (heq ▸ mem_pending top)
    refine ⟨?_, ?_, ?_⟩
    · rcases hturn.pending with ⟨hcalls, -⟩ | ⟨hcalls, -⟩ <;> omega
    · intro t ht
      rcases hturn.pending with ⟨-, hsub⟩ | ⟨-, hme, hothers⟩
      · exact hpending t ((hsub t).subset ht)
      · by_cases htme : t = me
        · rw [htme, hme] at ht
          rcases List.mem_cons.1 ht with rfl | ht
          · omega
          · exact hpending me ht
        · exact hpending t (hothers t htme ▸ ht)
    · cases answer with
      | value value => exact hturn.mem_values hbacked
      | stopped stop => exact hruns.trans hbacked
      | refused => exact hruns.trans hbacked
  · exact h.backed_of_answered hturn hanswer hold

theorem Orderly.unborn_turn (h : Orderly s) (hturn : Turn me s s') (c : Nat) (hc : s'.calls ≤ c) : s'.runs c = [] := by
  have hold : s.calls ≤ c := by
    rcases hturn.pending with ⟨hcalls, -⟩ | ⟨hcalls, -⟩ <;> omega
  rw [hturn.runs, h.recorded.unborn c hold]
  rintro v rest top rfl
  have hbelow := h.numbered.below me _ (mem_pending top)
  omega

theorem Orderly.turn (h : Orderly s) (hturn : Turn me s s') : Orderly s' where
  steady := h.steady.turn hturn
  numbered := h.numbered.turn hturn
  values := h.steady.values_turn h.values hturn
  recorded := ⟨h.unborn_turn hturn, h.recorded.pending_turn h.numbered hturn, h.answers_turn hturn⟩

theorem orderly_empty : Orderly empty where
  steady := steady_empty
  numbered := ⟨fun _ _ hc => (nomatch hc), fun _ => List.nodup_nil, fun _ _ _ hc => (nomatch hc)⟩
  values _ := rfl
  recorded := ⟨fun _ _ => rfl, fun _ _ hv => (nomatch hv), fun _ _ _ hd => (nomatch hd)⟩

theorem orderly_after (turns : List (Thread × Move)) : Orderly (empty.after turns) :=
  after_induction orderly_empty Orderly.turn turns

/-! ### What all threads agree on -/

/-- What a turn of a thread can make of a place. -/
inductive Becomes (me : Thread) : Slot → Slot → Prop
  | same (slot : Slot) : Becomes me slot slot
  | taken : Becomes me .vacant (.computing me)
  | filled (value : Value) : Becomes me (.computing me) (.ready value)
  | freed : Becomes me (.computing me) .vacant

/-- What a turn can make of a call of a thread that waits. -/
inductive Reconsiders (s s' : Crew) (t : Thread) (v : Visit) (rest : List Visit) : Prop
  | waits (visits : s'.visits t = v :: rest)
  | wakes (visits : s'.visits t = v.moved .woken :: rest)
  | computes (slot : s.slots.slot v.place = .vacant) (visits : s'.visits t = v.moved .computing :: rest)
  | takes (value : Value) (only : s.values v.place = [value]) (visits : s'.visits t = rest)
      (answer : .answered v.call v.place (.value value) ∈ s'.deeds)
  | sleeps (owner : Thread) (slot : s.slots.slot v.place = .computing owner)
      (visits : s'.visits t = v.moved .asleep :: rest)
  | refused (owner : Thread) (slot : s.slots.slot v.place = .computing owner) (visits : s'.visits t = rest)
      (answer : .answered v.call v.place .refused ∈ s'.deeds)

/-- All threads agree on every place. -/
structure Agreed (s : Crew) : Prop where
  numbered : ∀ t u, ∀ v ∈ s.visits t, ∀ w ∈ s.visits u, v.call = w.call → t = u ∧ v = w
  /-- At most one call is within a run for a place. -/
  exclusive : ∀ t u, ∀ v ∈ s.visits t, ∀ w ∈ s.visits u, v.stage = .computing → w.stage = .computing →
    v.place = w.place → t = u ∧ v = w
  becomes : ∀ me move place, Becomes me (s.slots.slot place) ((s.step me move).slots.slot place)
  /-- A place that is being computed is given up only when the run of its owner has ended, and as it has ended. -/
  completed : ∀ me move place t, s.slots.slot place = .computing t →
    (s.step me move).slots.slot place ≠ .computing t →
      t = me ∧ ∃ v rest outcome, s.visits t = v :: rest ∧ v.place = place ∧ s.runs v.call = [(place, outcome)] ∧
        (s.step me move).slots.slot place = Slot.ofOutcome outcome
  ready : ∀ place value, s.slots.slot place = .ready value →
    ∀ turns, (s.after turns).slots.slot place = .ready value
  once : ∀ place, (s.values place).length ≤ 1
  /-- Every value that a call comes back with is the value of the one run that had any. -/
  answered : ∀ call place value, .answered call place (.value value) ∈ s.deeds → s.values place = [value]
  /-- A call that comes back with a failure or a panic had it from a run of its own. -/
  stopped : ∀ call place stop, .answered call place (.stopped stop) ∈ s.deeds →
    s.runs call = [(place, .error stop)]
  /-- A call that waits had no run, and will look at the place anew. -/
  waiting : ∀ t v rest, s.visits t = v :: rest → v.stage.isWaiting = true →
    s.runs v.call = [] ∧ ∀ me move, Reconsiders s (s.step me move) t v rest

theorem Numbered.unique (h : Numbered s) {t u : Thread} {v w : Visit} (hv : v ∈ s.visits t) (hw : w ∈ s.visits u)
    (hcall : v.call = w.call) : t = u ∧ v = w := by
  obtain rfl : t = u := h.apart t u v.call (List.mem_map_of_mem hv) (hcall ▸ List.mem_map_of_mem hw)
  exact ⟨rfl, List.inj_on_of_nodup_map (h.distinct t) hv hw hcall⟩

theorem Steady.exclusive (h : Steady s) {t u : Thread} {v w : Visit} (hv : v ∈ s.visits t) (hw : w ∈ s.visits u)
    (hvholds : v.stage.holds = true) (hwholds : w.stage.holds = true) (hplace : v.place = w.place) :
    t = u ∧ v = w := by
  have ht := (h.owner t v.place).2 (Visit.mem_held.2 ⟨v, hv, hvholds, rfl⟩)
  have hu := (h.owner u v.place).2 (Visit.mem_held.2 ⟨w, hw, hwholds, hplace.symm⟩)
  obtain rfl : t = u := Slot.computing.inj (ht.symm.trans hu)
  refine ⟨rfl, List.inj_on_of_nodup_map (h.distinct t) ?_ ?_ hplace⟩
  · exact List.mem_filter.2 ⟨hv, hvholds⟩
  · exact List.mem_filter.2 ⟨hw, hwholds⟩

theorem Shift.becomes (h : Steady s) (hshift : Shift me s s') (place : Address) :
    Becomes me (s.slots.slot place) (s'.slots.slot place) := by
  cases hshift with
  | same slots held => exact slots ▸ .same _
  | taken place' vacant slots mine others =>
      by_cases hplace : place = place'
      · rw [slots, hplace, setAt_self, vacant]
        exact .taken
      · rw [slots, setAt_of_ne _ _ hplace]
        exact .same _
  | left place' slot free slots mine others =>
      by_cases hplace : place = place'
      · rw [slots, hplace, setAt_self, (h.owner me place').2 (mine ▸ List.mem_cons_self)]
        cases slot with
        | vacant => exact .freed
        | computing t => exact absurd rfl (free t)
        | ready value => exact .filled value
      · rw [slots, setAt_of_ne _ _ hplace]
        exact .same _

theorem Orderly.completed (h : Orderly s) (hturn : Turn me s s') {t : Thread}
    (hslot : s.slots.slot place = .computing t) (hleft : s'.slots.slot place ≠ .computing t) :
    t = me ∧ ∃ v rest outcome, s.visits t = v :: rest ∧ v.place = place ∧ s.runs v.call = [(place, outcome)] ∧
      s'.slots.slot place = Slot.ofOutcome outcome := by
  have howner {v : Visit} {rest : List Visit} (top : s.visits me = v :: rest) (hv : v.stage.holds = true)
      (hplace : place = v.place) : t = me := by
    rw [hplace, h.steady.slot_of_holds top hv] at hslot
    exact (Slot.computing.inj hslot).symm
  have hruns {v : Visit} {rest : List Visit} (top : s.visits me = v :: rest) {outcome : Outcome}
      (hv : v.stage.outcome? = some outcome) : s.runs v.call = [(v.place, outcome)] := by
    rw [h.recorded.pending me v (top ▸ List.mem_cons_self), hv]
    rfl
  cases hturn with
  | @enter v rest top looking slot =>
      by_cases hplace : place = v.place
      · rw [hplace, slot] at hslot
        cases hslot
      · exact absurd ((setAt_of_ne _ _ hplace).trans hslot) hleft
  | @settle v rest outcome top settling =>
      rcases outcome with stop | value
      · exact absurd hslot hleft
      · by_cases hplace : place = v.place
        · obtain rfl := howner top (by rw [settling]; rfl) hplace
          refine ⟨rfl, v, rest, .ok value, top, hplace.symm, hplace ▸ hruns top (by rw [settling]; rfl), ?_⟩
          rw [hplace]
          exact setAt_self ..
        · exact absurd ((setAt_of_ne _ _ hplace).trans hslot) hleft
  | @release v rest outcome top releasing =>
      have hslots : (s.release me v rest outcome).slots = s.slots.release v.place := rfl
      rcases outcome with stop | value
      · have hholds : v.stage.holds = true := by rw [releasing]; rfl
        rw [hslots, Slots.release, h.steady.slot_of_holds top hholds] at hleft ⊢
        by_cases hplace : place = v.place
        · obtain rfl := howner top hholds hplace
          refine ⟨rfl, v, rest, .error stop, top, hplace.symm, hplace ▸ hruns top (by rw [releasing]; rfl), ?_⟩
          rw [hplace]
          exact setAt_self ..
        · exact absurd ((setAt_of_ne _ _ hplace).trans hslot) hleft
      · have hready := h.steady.kept me v (top ▸ List.mem_cons_self) value (by rw [releasing]; rfl)
        rw [hslots, Slots.release, hready] at hleft
        exact absurd hslot hleft
  | _ => exact absurd hslot hleft

theorem Orderly.reconsiders (h : Orderly s) (hturn : Turn me s s') {t : Thread} (top : s.visits t = v :: rest)
    (hv : v.stage.isWaiting = true) : Reconsiders s s' t v rest := by
  by_cases ht : t = me
  · subst ht
    have hunique {v' : Visit} {rest' : List Visit} (top' : s.visits t = v' :: rest') : v' = v ∧ rest' = rest :=
      List.cons.inj (top'.symm.trans top)
    cases hturn with
    | idle => exact .waits top
    | come place free =>
        rw [free v rest top] at hv
        cases hv
    | found top' looking value slot =>
        obtain ⟨rfl, rfl⟩ := hunique top'
        exact .takes value (h.values_of_ready slot) (setAt_self ..) List.mem_cons_self
    | enter top' looking slot =>
        obtain ⟨rfl, rfl⟩ := hunique top'
        exact .computes slot (setAt_self ..)
    | sleep top' looking owner slot edges start =>
        obtain ⟨rfl, rfl⟩ := hunique top'
        exact .sleeps owner slot (setAt_self ..)
    | refused top' looking owner slot start =>
        obtain ⟨rfl, rfl⟩ := hunique top'
        exact .refused owner slot (setAt_self ..) List.mem_cons_self
    | wake top' asleep =>
        obtain ⟨rfl, rfl⟩ := hunique top'
        exact .wakes (setAt_self ..)
    | finish top' computing outcome =>
        rw [← (hunique top').1, computing] at hv
        cases hv
    | settle top' settling =>
        rw [← (hunique top').1, settling] at hv
        cases hv
    | release top' releasing =>
        rw [← (hunique top').1, releasing] at hv
        cases hv
    | notify top' notifying =>
        rw [← (hunique top').1, notifying] at hv
        cases hv
  · rcases hturn.visits_of_ne ht with hsame | ⟨place, hrouse⟩
    · exact .waits (hsame.trans top)
    · rw [h.steady.visits_rouse top] at hrouse
      rcases Visit.rouse_cases place v with heq | ⟨-, -, heq⟩
      · exact .waits (heq ▸ hrouse)
      · exact .wakes (heq ▸ hrouse)

theorem Orderly.length_values (h : Orderly s) (place : Address) : (s.values place).length ≤ 1 := by
  rw [h.values, made]
  split
  · exact Nat.zero_le 1
  · next owner _ =>
    rcases hvisits : s.visits owner with _ | ⟨v, rest⟩
    · exact Nat.zero_le 1
    · rw [List.filterMap_cons, h.steady.values_rest hvisits]
      cases v.value? place <;> simp
  · exact Nat.le_refl 1

theorem Orderly.ready_after (h : Orderly s) {value : Value} (hslot : s.slots.slot place = .ready value)
    (turns : List (Thread × Move)) : (s.after turns).slots.slot place = .ready value :=
  (after_induction (P := fun s => Steady s ∧ s.slots.slot place = .ready value) ⟨h.steady, hslot⟩
    (fun h hturn => ⟨h.1.turn hturn, h.1.ready (h.1.shift hturn) h.2⟩) turns).2

/-- In every order of turns, a place gets one value at most, and no call comes back with any other. -/
theorem agreed_after (turns : List (Thread × Move)) : Agreed (empty.after turns) := by
  have h := orderly_after turns
  constructor
  case numbered => exact fun t u v hv w hw => h.numbered.unique hv hw
  case exclusive =>
    intro t u v hv w hw hvstage hwstage hplace
    exact h.steady.exclusive hv hw (by rw [hvstage]; rfl) (by rw [hwstage]; rfl) hplace
  case becomes => exact fun me move place => (h.steady.shift (turn_step _ me move)).becomes h.steady place
  case completed => exact fun me move place t => h.completed (turn_step _ me move)
  case ready => exact fun place value => h.ready_after
  case once => exact h.length_values
  case answered =>
    intro call place value hanswer
    have hmem : value ∈ (empty.after turns).values place := (h.recorded.answers call place _ hanswer).2.2
    have hlength : ((empty.after turns).values place).length = 1 :=
      Nat.le_antisymm (h.length_values place) (List.length_pos_of_mem hmem)
    obtain ⟨w, hw⟩ := List.length_eq_one_iff.1 hlength
    rw [hw, List.mem_singleton] at hmem
    rw [hw, hmem]
  case stopped => exact fun call place stop hanswer => (h.recorded.answers call place _ hanswer).2.2
  case waiting =>
    intro t v rest top hv
    refine ⟨?_, fun me move => h.reconsiders (turn_step _ me move) top hv⟩
    rw [h.recorded.pending t v (top ▸ List.mem_cons_self)]
    cases hstage : v.stage <;> simp_all [Stage.isWaiting, Stage.outcome?]

end Crew

end Injection
