import Injection.Proofs.Pursuits

/-!
Places where a value is given. A thread that goes into such a place has nothing to construct there, and before it comes
out again it only says things. In whatever way a program came to its state, then, no thread is in such a place when it is
about to go into another one, or into that one; so who asks for a given value is never refused.
-/

namespace Injection

open Opening

namespace Action

variable {a : Action} {os : List Opening}

/-- A thread comes to be in a place only if it goes in. -/
theorem places_openings (ha : ∀ place, a ≠ .enter place) (r : a.Reply) (os : List Opening) :
    ((a.openings r os).filterMap place?).Sublist (os.filterMap place?) := by
  have htail : (os.tail.filterMap place?).Sublist (os.filterMap place?) := (List.tail_sublist os).filterMap place?
  cases a with
  | enter place => exact absurd rfl (ha place)
  | leave place => exact htail
  | letGo c => exact htail
  | reclaim l => cases r <;> exact .refl _
  | note h =>
      cases h with
      | built c => exact htail
      | _ => exact .refl _
  | _ => exact .refl _

/-- A thread that is to come out of a place and goes on is out of there, or is to come out still. -/
theorem comesOut_next {α : Type} {next : a.Reply → Process α} {place : Address} {s : Store}
    (h : (Process.act a next).ComesOut place) (ha : a.Fair s os) (hos : (os.filterMap place?).Nodup) (r : a.Reply) :
    .within place ∉ a.openings r os ∨ (next r).ComesOut place := by
  cases h with
  | tell h => exact .inr h
  | leave =>
      obtain ⟨rest, rfl⟩ := List.head?_eq_some_iff.1 ha
      exact .inl fun hmem => (List.nodup_cons.1 hos).1 (mem_filterMap_place.2 hmem)

end Action

namespace Household

variable {w v : Household} {me t : Thread} {who : Option Thread}

/-- What is true of a thread that is in the midst of something. -/
structure HandsOver (w : Household) (t : Thread) : Prop where
  /-- It is in no place twice. -/
  once : ((w.opens t).filterMap place?).Nodup
  /-- If it is in a place where a value is given, it will come out without doing anything there. -/
  comesOut : ∀ place o b, .within place ∈ w.opens t → w.store.HasBuilt o → o.Owns place b → b.isInstance = true →
    (w.team.threads t).ComesOut place

theorem handsOver_of_lent (cs : List Container) (h : w.opens t = cs.map .holding) : w.HandsOver t := by
  have hnone (place : Address) : .within place ∉ w.opens t := by
    rw [h]
    exact fun hmem => nomatch (List.mem_map.1 hmem).choose_spec.2
  refine ⟨?_, fun place o b hmem => absurd hmem (hnone place)⟩
  rw [List.eq_nil_iff_forall_not_mem.2 fun place hmem => hnone place (mem_filterMap_place.1 hmem)]
  exact List.nodup_nil

namespace HandsOver

/-- A thread that goes into a place where a value is given is not in it already. -/
theorem not_within (h : w.HandsOver me) {place : Address} {next : Bool → Process (Option Upshot)}
    (hp : w.team.threads me = .act (.enter place) next) {o : Container} {b : Binding} (ho : w.store.HasBuilt o)
    (hown : o.Owns place b) (hgiven : b.isInstance = true) : .within place ∉ w.opens me := by
  intro hmem
  have hout := h.comesOut place o b hmem ho hown hgiven
  rw [hp] at hout
  cases hout

/-- Nothing changes for a thread that has not done anything. -/
theorem stays (h : w.HandsOver t) (hw : w.InOrder) (hstep : w.Step who v) (hopens : v.opens t = w.opens t)
    (hthread : v.team.threads t = w.team.threads t) : v.HandsOver t := by
  refine ⟨hopens ▸ h.once, fun place o b hmem ho hown hgiven => ?_⟩
  rw [hopens] at hmem
  rw [hthread]
  have hbefore := hw.hasBuilt_of_within (hstep.inOrder hw).coherent (hstep.lasts hw) hmem ho hown.1
  exact h.comesOut place o b hmem hbefore hown hgiven

/-- A thread goes into a place that it was not in, or it does something else. -/
theorem once_openings (h : w.HandsOver me) (hw : w.InOrder) {a : Action} {r : a.Reply}
    (hreply : (a.perform me w.store).2 = some r) : ((a.openings r (w.opens me)).filterMap place?).Nodup := by
  by_cases ha : ∃ place, a = .enter place
  · obtain ⟨place, rfl⟩ := ha
    cases r with
    | false => exact h.once
    | true =>
        refine List.nodup_cons.2 ⟨fun hmem => ?_, h.once⟩
        have hbuilding := (hw.shows me).mem_building.2 (mem_filterMap_place.1 hmem)
        have hentered : (w.store.enter me place).2 = true := Option.some.inj hreply
        rw [Store.enter, if_pos hbuilding] at hentered
        cases hentered
  · exact h.once.sublist (Action.places_openings (fun place heq => ha ⟨place, heq⟩) r _)

/-- A thread that went on is where it was before and is to come out still, or it has just gone in. -/
theorem comesOut_turn (h : w.HandsOver me) (hw : w.InOrder) {a : Action} {next : a.Reply → Process (Option Upshot)}
    {r : a.Reply} (hp : w.team.threads me = .act a next) (hreply : (a.perform me w.store).2 = some r)
    {place : Address} (hmem : .within place ∈ a.openings r (w.opens me)) {o : Container} {b : Binding}
    (ho : (w.turn me).store.HasBuilt o) (hown : o.Owns place b) (hgiven : b.isInstance = true) :
    (next r).ComesOut place := by
  obtain ⟨floor, -, htidy⟩ := hw.tidy me
  rw [hp] at htidy
  obtain ⟨hfair, hbrief, -⟩ := htidy.2 w.store (.refl _) hw.coherent (hw.shows me)
  -- what is known of a place that was entered before is from then on, and the rest from the action itself
  by_cases hbefore : .within place ∈ w.opens me
  · have hbuilt := hw.hasBuilt_of_within (hw.turn me).coherent ((Step.turn me).lasts hw) hbefore ho hown.1
    have hout := h.comesOut place o b hbefore hbuilt hown hgiven
    rw [hp] at hout
    exact (Action.comesOut_next hout hfair h.once r).resolve_left (not_not_intro hmem)
  by_cases ha : ∃ q, a = .enter q
  · obtain ⟨q, rfl⟩ := ha
    cases r with
    | false => exact absurd hmem hbefore
    | true =>
        obtain rfl := Opening.within.inj ((List.mem_cons.1 hmem).resolve_right hbefore)
        rw [turn_goes hp hreply] at ho
        exact hbrief o b (Action.mem_history_perform (a := .enter place) nofun rfl ho) hown hgiven
  · have hplaces := Action.places_openings (fun q heq => ha ⟨q, heq⟩) r (w.opens me)
    exact absurd (mem_filterMap_place.1 (hplaces.subset (mem_filterMap_place.2 hmem))) hbefore

theorem turn (h : w.HandsOver me) (hw : w.InOrder) : (w.turn me).HandsOver me := by
  rcases hp : w.team.threads me with u | ⟨a, next⟩
  · exact (turn_done hp).symm ▸ h
  rcases hreply : (a.perform me w.store).2 with _ | r
  · refine h.stays hw (.turn me) ?_ ?_ <;> rw [turn_waits hp hreply]
  have hopens := opens_turn_self hp hreply
  refine ⟨hopens ▸ h.once_openings hw hreply, fun place o b hmem ho hown hgiven => ?_⟩
  rw [threads_turn_self hp hreply]
  exact h.comesOut_turn hw hp hreply (hopens ▸ hmem) ho hown hgiven

end HandsOver

theorem Step.handsOver (hstep : w.Step who v) (hw : w.InOrder) (h : w.HandsOver t) : v.HandsOver t := by
  by_cases hwho : who = some t
  · subst hwho
    cases hstep with
    | begin _ op => exact handsOver_of_lent op.lent (ofThread_reopen_self ..)
    | turn _ => exact h.turn hw
    | finish _ u => exact handsOver_of_lent [] (ofThread_reopen_self ..)
  · exact h.stays hw hstep (hstep.opens_of_ne hwho) (hstep.threads_of_ne hwho)

theorem Leads.handsOver (hleads : w.Leads v) (hw : w.InOrder) (h : w.HandsOver t) : v.HandsOver t := by
  induction hleads with
  | refl => exact h
  | step hleads hstep ih => exact hstep.handsOver (hleads.inOrder hw) ih

theorem Reached.handsOver (h : w.Reached) (t : Thread) : w.HandsOver t :=
  Leads.handsOver h inOrder_empty (handsOver_of_lent [] rfl)

/-- Whoever asks for a value that is given is let in. -/
theorem Reached.admits (h : w.Reached) {place : Address} {next : Bool → Process (Option Upshot)}
    (hp : w.team.threads me = .act (.enter place) next) {o : Container} {b : Binding} (ho : w.store.HasBuilt o)
    (hown : o.Owns place b) (hgiven : b.isInstance = true) : (w.store.enter me place).2 = true := by
  have hnot := (h.handsOver me).not_within hp ho hown hgiven
  rw [Store.enter, if_neg (mt (h.inOrder.shows me).mem_building.1 hnot)]

end Household

end Injection
