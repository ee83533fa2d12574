import Injection.Proofs.Linking
import Injection.Store

/-!
The chronicle of a place: what the history tells of the construction of one binding. While nobody constructs the
binding, its chronicle is a row of visits, each complete in itself. A visit to an instance is answered at once; a visit
to a binding whose value is kept runs the provider until a run succeeds, and never again; every other visit runs the
provider once, and is answered with the value of that run or not at all.
-/

namespace Injection

/-- The container has the binding of a place as its own. -/
def Container.Owns (o : Container) (place : Address) (b : Binding) : Prop :=
  o.id = place.container ∧ o.registry.lookup place.key = some b

def Slot.value? : Slot → Option Value
  | ready v => some v
  | _ => none

@[simp] theorem Slot.value?_eq_some {slot : Slot} {v : Value} : slot.value? = some v ↔ slot = .ready v := by
  cases slot <;> simp [value?]

namespace Happening

/-- Whether a happening tells how the construction of the binding at a place went. -/
def concerns (place : Address) : Happening → Bool
  | entered p => p = place
  | began p => p = place
  | succeeded p _ => p = place
  | answered c k _ => (c.owner? k).any fun owner => (⟨owner.1.id, k⟩ : Address) = place
  | _ => false

variable {place p : Address}

@[simp] theorem concerns_built {c : Container} : (built c).concerns place = false := rfl

@[simp] theorem concerns_refused : (refused p).concerns place = false := rfl

@[simp] theorem concerns_used {c : Container} {k : Key} {v : Value} : (used c k v).concerns place = false := rfl

@[simp] theorem concerns_entered : (entered p).concerns place = decide (p = place) := rfl

@[simp] theorem concerns_began : (began p).concerns place = decide (p = place) := rfl

@[simp] theorem concerns_succeeded {v : Value} : (succeeded p v).concerns place = decide (p = place) := rfl

theorem concerns_answered {c : Container} {k : Key} {v : Value} :
    (answered c k v).concerns place = true ↔ ∃ o b, c.owner? k = some (o, b) ∧ (⟨o.id, k⟩ : Address) = place := by
  rcases h : c.owner? k with _ | ⟨o, b⟩ <;> simp [concerns, h]

/-- A happening tells of one place at most. -/
theorem concerns_unique {e : Happening} {q : Address} (h : e.concerns place = true) (h' : e.concerns q = true) :
    place = q := by
  cases e with
  | entered p => simp_all
  | began p => simp_all
  | succeeded p v => simp_all
  | answered c k v =>
      obtain ⟨o, b, howner, rfl⟩ := concerns_answered.1 h
      obtain ⟨o', b', howner', rfl⟩ := concerns_answered.1 h'
      obtain ⟨rfl, rfl⟩ := Prod.mk.inj (Option.some.inj (howner.symm.trans howner'))
      rfl
  | built c => simp at h
  | refused p => simp at h
  | used c k v => simp at h

end Happening

/-- What the history tells of the construction of the binding at a place, the last happening first. -/
def Store.chronicle (s : Store) (place : Address) : List Happening := s.history.filter (·.concerns place)

theorem Store.chronicle_note {s : Store} {place : Address} {e : Happening} (h : e.concerns place = true) :
    (s.note e).chronicle place = e :: s.chronicle place := List.filter_cons_of_pos h

theorem Store.mem_chronicle {s : Store} {place : Address} {e : Happening} (h : e.concerns place = true) :
    e ∈ s.chronicle place ↔ e ∈ s.history := by
  simp [chronicle, h]

open Happening

/-- How the visits to a binding can have gone, the last one first, and the value that is kept of them. -/
inductive Chronicled (place : Address) (b : Binding) : Option Value → List Happening → Prop
  | nothing : Chronicled place b none []
  /-- An instance was handed out. -/
  | given {past : List Happening} (c : Container) (k : Key) (v : Value) (source : b.source = .given v)
      (before : Chronicled place b none past) : Chronicled place b none (answered c k v :: entered place :: past)
  /-- A provider run gave no value. -/
  | failed {past : List Happening} (provided : b.isInstance = false) (before : Chronicled place b none past) :
      Chronicled place b none (began place :: entered place :: past)
  /-- A provider run gave a value that is not kept. -/
  | made {past : List Happening} (c : Container) (k : Key) (v : Value) (provided : b.isInstance = false)
      (unkept : b.isKept = false) (before : Chronicled place b none past) :
      Chronicled place b none (answered c k v :: succeeded place v :: began place :: entered place :: past)
  /-- A provider run gave the value that is kept from then on. -/
  | kept {past : List Happening} (c : Container) (k : Key) (v : Value) (isKept : b.isKept = true)
      (before : Chronicled place b none past) :
      Chronicled place b (some v) (answered c k v :: succeeded place v :: began place :: entered place :: past)
  /-- The kept value was handed out. -/
  | again {past : List Happening} (c : Container) (k : Key) (v : Value) (before : Chronicled place b (some v) past) :
      Chronicled place b (some v) (answered c k v :: entered place :: past)

namespace BindingOf

variable {given step : Type}

theorem isKept_of_isInstance {b : BindingOf given step} (h : b.isInstance = true) : b.isKept = false := by
  simp [isKept, h]

theorem isInstance_of_given {b : BindingOf given step} {v : given} (h : b.source = .given v) :
    b.isInstance = true := by
  simp [isInstance, h]

theorem isInstance_of_recipe {b : BindingOf given step} {r : Recipe step} (h : b.source = .recipe r) :
    b.isInstance = false := by
  simp [isInstance, h]

theorem source_of_isInstance {b : BindingOf given step} (h : b.isInstance = true) : ∃ v, b.source = .given v := by
  cases hsource : b.source with
  | given v => exact ⟨v, rfl⟩
  | recipe r => rw [isInstance_of_recipe hsource] at h; cases h

end BindingOf

namespace Chronicled

variable {place : Address} {b : Binding} {kept? : Option Value} {past : List Happening}

theorem isKept (h : Chronicled place b kept? past) (v : Value) (hv : kept? = some v) : b.isKept = true := by
  induction h with
  | kept _ _ _ hkept _ => exact hkept
  | again _ _ _ _ ih => exact ih hv
  | _ => cases hv

/-- As long as nothing is kept of a binding that is to be kept, no run succeeded and nothing was answered. -/
theorem fruitless (h : Chronicled place b none past) (hkept : b.isKept = true) :
    ∀ e ∈ past, e = began place ∨ e = entered place := by
  generalize hnone : (none : Option Value) = kept? at h
  induction h with
  | nothing => simp
  | given _ _ _ hsource _ _ =>
      rw [BindingOf.isKept_of_isInstance (BindingOf.isInstance_of_given hsource)] at hkept
      cases hkept
  | failed _ _ ih =>
      intro e he
      rcases List.mem_cons.1 he with rfl | he
      · exact Or.inl rfl
      · rcases List.mem_cons.1 he with rfl | he
        · exact Or.inr rfl
        · exact ih hnone e he
  | made _ _ _ _ hunkept _ _ =>
      rw [hunkept] at hkept
      cases hkept
  | kept => cases hnone
  | again => cases hnone

/-- What is kept is the value of the only run that succeeded; before it nothing was answered, and after it every visit
was answered with that value. -/
theorem fruitful {v : Value} (h : Chronicled place b (some v) past) :
    ∃ later earlier, past = later ++ succeeded place v :: earlier ∧
      (∀ e ∈ later, e = entered place ∨ ∃ c k, e = answered c k v) ∧
      ∀ e ∈ earlier, e = began place ∨ e = entered place := by
  generalize hsome : some v = kept? at h
  induction h with
  | nothing => cases hsome
  | given => cases hsome
  | failed => cases hsome
  | made => cases hsome
  | kept c k w hkept hbefore _ =>
      obtain rfl := Option.some.inj hsome
      refine ⟨[answered c k v], _, rfl, ?_, ?_⟩
      · intro e he
        exact Or.inr ⟨c, k, List.mem_singleton.1 he⟩
      · intro e he
        rcases List.mem_cons.1 he with rfl | he
        · exact Or.inl rfl
        · rcases List.mem_cons.1 he with rfl | he
          · exact Or.inr rfl
          · exact hbefore.fruitless hkept e he
  | again c k w _ ih =>
      obtain rfl := Option.some.inj hsome
      obtain ⟨later, earlier, rfl, hlater, hearlier⟩ := ih rfl
      refine ⟨answered c k v :: entered place :: later, earlier, rfl, ?_, hearlier⟩
      intro e he
      rcases List.mem_cons.1 he with rfl | he
      · exact Or.inr ⟨c, k, rfl⟩
      · rcases List.mem_cons.1 he with rfl | he
        · exact Or.inl rfl
        · exact hlater e he

/-- All that can have happened to a binding that is to be kept. -/
theorem cases_of_mem (h : Chronicled place b kept? past) (hkept : b.isKept = true) {e : Happening} (he : e ∈ past) :
    e = began place ∨ e = entered place ∨
      ∃ v, kept? = some v ∧ (e = succeeded place v ∨ ∃ c k, e = answered c k v) := by
  rcases kept? with _ | v
  · exact (h.fruitless hkept e he).imp_right Or.inl
  · obtain ⟨later, earlier, rfl, hlater, hearlier⟩ := h.fruitful
    rcases List.mem_append.1 he with he | he
    · rcases hlater e he with heq | heq
      · exact Or.inr (Or.inl heq)
      · exact Or.inr (Or.inr ⟨v, rfl, Or.inr heq⟩)
    · rcases List.mem_cons.1 he with heq | he
      · exact Or.inr (Or.inr ⟨v, rfl, Or.inl heq⟩)
      · exact (hearlier e he).imp_right Or.inl

theorem eq_some_of_succeeded (h : Chronicled place b kept? past) (hkept : b.isKept = true) {v : Value}
    (hmem : succeeded place v ∈ past) : kept? = some v := by
  rcases h.cases_of_mem hkept hmem with heq | heq | ⟨w, rfl, heq | ⟨c, k, heq⟩⟩ <;> cases heq
  rfl

theorem eq_some_of_answered (h : Chronicled place b kept? past) (hkept : b.isKept = true) {c : Container} {k : Key}
    {v : Value} (hmem : answered c k v ∈ past) : kept? = some v := by
  rcases h.cases_of_mem hkept hmem with heq | heq | ⟨w, rfl, heq | ⟨c', k', heq⟩⟩ <;> cases heq
  rfl

/-- A visit to an instance is answered at once. -/
theorem answered_of_entered {v : Value} (h : Chronicled place b kept? past) (hsource : b.source = .given v)
    {later earlier : List Happening} (hpast : past = later ++ entered place :: earlier) :
    ∃ before c k, later = before ++ [answered c k v] := by
  have hinstance := BindingOf.isInstance_of_given hsource
  induction h generalizing later with
  | nothing => simp at hpast
  | given c k w hw _ ih =>
      obtain rfl : w = v := by simpa [hsource] using hw.symm
      rcases later with _ | ⟨e, _ | ⟨e', later⟩⟩
      · simp at hpast
      · simp only [List.cons_append, List.nil_append, List.cons.injEq] at hpast
        exact ⟨[], c, k, by rw [← hpast.1, List.nil_append]⟩
      · simp only [List.cons_append, List.cons.injEq] at hpast
        obtain ⟨before, c', k', rfl⟩ := ih hpast.2.2
        exact ⟨e :: e' :: before, c', k', rfl⟩
  | failed hprovided => simp [hinstance] at hprovided
  | made _ _ _ hprovided => simp [hinstance] at hprovided
  | kept _ _ _ hkept => simp [BindingOf.isKept_of_isInstance hinstance] at hkept
  | again _ _ w hbefore =>
      have hkept := hbefore.isKept w rfl
      simp [BindingOf.isKept_of_isInstance hinstance] at hkept

/-- All that is answered of an instance is the instance. -/
theorem eq_of_given {v w : Value} (h : Chronicled place b kept? past) (hsource : b.source = .given v) {c : Container}
    {k : Key} (hmem : answered c k w ∈ past) : w = v := by
  have hinstance := BindingOf.isInstance_of_given hsource
  induction h with
  | nothing => cases hmem
  | given c' k' w' hw _ ih =>
      obtain rfl : w' = v := by simpa [hsource] using hw.symm
      simp only [List.mem_cons, answered.injEq, reduceCtorEq, false_or] at hmem
      exact hmem.elim (fun heq => heq.2.2) ih
  | failed hprovided => simp [hinstance] at hprovided
  | made _ _ _ hprovided => simp [hinstance] at hprovided
  | kept _ _ _ hkept => simp [BindingOf.isKept_of_isInstance hinstance] at hkept
  | again _ _ w hbefore =>
      have hkept := hbefore.isKept w rfl
      simp [BindingOf.isKept_of_isInstance hinstance] at hkept

/-- An answer with a value that is not kept comes from a run of its own. -/
theorem run_of_answered {v : Value} (h : Chronicled place b kept? past) (hprovided : b.isInstance = false)
    (hunkept : b.isKept = false) {later earlier : List Happening} {c : Container} {k : Key}
    (hpast : past = later ++ answered c k v :: earlier) :
    ∃ before, earlier = succeeded place v :: began place :: entered place :: before := by
  induction h generalizing later with
  | nothing => simp at hpast
  | given _ _ _ hsource => simp [BindingOf.isInstance_of_given hsource] at hprovided
  | failed _ _ ih =>
      rcases later with _ | ⟨e₁, _ | ⟨e₂, later⟩⟩
      · simp at hpast
      · simp at hpast
      · simp only [List.cons_append, List.cons.injEq] at hpast
        exact ih hpast.2.2
  | made c' k' w _ _ _ ih =>
      rcases later with _ | ⟨e₁, _ | ⟨e₂, _ | ⟨e₃, _ | ⟨e₄, later⟩⟩⟩⟩
      · simp only [List.nil_append, List.cons.injEq, answered.injEq] at hpast
        obtain ⟨⟨-, -, rfl⟩, rfl⟩ := hpast
        exact ⟨_, rfl⟩
      · simp at hpast
      · simp at hpast
      · simp at hpast
      · simp only [List.cons_append, List.cons.injEq] at hpast
        exact ih hpast.2.2.2.2
  | kept _ _ _ hkept => simp [hunkept] at hkept
  | again _ _ w hbefore =>
      have hkept := hbefore.isKept w rfl
      simp [hunkept] at hkept

end Chronicled

end Injection
