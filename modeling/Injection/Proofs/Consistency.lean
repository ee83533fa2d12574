import Injection.Proofs.Chronicle
import Injection.Proofs.Lineage

/-!
What holds in a store whenever a thread that is alone makes a request or has made one. The history and the places agree:
the chronicle of each binding accounts for what its place holds, where a visit that is under way counts for one that
gave nothing. What is being constructed stays as it is until the construction ends, however much happens in between,
and so do the handles on it that have found nothing; values in their places stay there for good.
-/

namespace Injection

/-! ### Sources by type -/

/-- The type of the values that a recipe gives, if the ones it hands on are of the types that their keys are for. -/
def Recipe.product {step : Type} (r : Recipe step) : TypeInfo := (r.handsOn.map (·.type)).getD r.makes

/-- The source of the binding makes values of the type that its key is for. -/
def BindingOf.Typed (b : Binding) : Prop :=
  match b.source with
  | .given v => v.type = b.key.type
  | .recipe r => r.product = b.key.type

/-- All bindings of a container and of its ancestors make values of the types that their keys are for. -/
def Container.Typed (c : Container) : Prop := ∀ a, c.Reaches a → ∀ b ∈ a.registry.bindings, b.Typed

theorem Container.Typed.of_reaches {c a : Container} (h : c.Typed) (hreaches : c.Reaches a) : a.Typed :=
  fun d hd => h d (hreaches.trans hd)

theorem Container.Typed.binding {o : Container} {place : Address} {b : Binding} (h : o.Typed) (hown : o.Owns place b) :
    b.Typed ∧ b.key = place.key :=
  ⟨h o (.refl o) b (List.mem_of_find?_eq_some hown.2), Registry.key_of_lookup hown.2⟩

/-! ### Stores -/

/-- A container that was built at some time. -/
def Store.HasBuilt (s : Store) (c : Container) : Prop := .built c ∈ s.history

/-- The store of a thread that is alone, between the steps of its requests. -/
structure Consistent (me : Thread) (s : Store) : Prop where
  numbered : ∀ c, s.HasBuilt c → c.id < s.identities
  unique : ∀ c d, s.HasBuilt c → s.HasBuilt d → c.id = d.id → c = d
  linked : ∀ c, s.HasBuilt c → c.Linked
  distinct : ∀ c, s.HasBuilt c → c.registry.keys.Nodup
  parents : ∀ c p, s.HasBuilt c → p ∈ c.parents → s.HasBuilt p ∧ p.id < c.id
  asked : ∀ c k v, .answered c k v ∈ s.history → s.HasBuilt c
  owned : ∀ c k v, .answered c k v ∈ s.history → ∃ o b, c.owner? k = some (o, b)
  used : ∀ c k v, .used c k v ∈ s.history → .answered c k v ∈ s.history
  cells : ∀ id cell, s.cells id = some cell → id < s.identities ∧ s.HasBuilt cell.container ∧
    ∀ v, cell.found = some v → .answered cell.container cell.key v ∈ s.history
  /-- Containers that are not built yet have left no traces. -/
  fresh : ∀ p : Address, s.identities ≤ p.container →
    s.slots.slot p = .vacant ∧ s.chronicle p = [] ∧ .refused p ∉ s.history
  nodup : (s.building me).Nodup
  /-- What is under construction is provided, and has no value yet. -/
  underway : ∀ p ∈ s.building me, ∃ o b, s.HasBuilt o ∧ o.Owns p b ∧ b.isInstance = false ∧
    (s.slots.slot p).value? = none
  computing : ∀ p t, s.slots.slot p = .computing t → t = me ∧ p ∈ s.building me
  unwaited : s.slots.edges = []
  /-- Nothing needs to be constructed for an instance, so nothing stands in its way. -/
  refused : ∀ o p b, s.HasBuilt o → o.Owns p b → b.isInstance = true → .refused p ∉ s.history
  /-- Each chronicle accounts for what its place holds. What is under construction has come to nothing so far. -/
  settled : ∀ o p b, s.HasBuilt o → o.Owns p b → Chronicled p b (s.slots.slot p).value? (s.chronicle p)
  typed : ∀ o p b v, s.HasBuilt o → o.Owns p b → o.Typed → .succeeded p v ∈ s.history → v.type = p.key.type

/-- What a lazy handle is for is under construction. -/
def Cell.Underway (me : Thread) (s : Store) (cell : Cell) : Prop :=
  ∃ o b, cell.container.owner? cell.key = some (o, b) ∧ o.place b ∈ s.building me

/-- What becomes of a store while a thread that is alone makes requests, as far as the thread relies on it. -/
structure Evolves (me : Thread) (s s' : Store) : Prop where
  history : s.history <:+ s'.history
  identities : s.identities ≤ s'.identities
  building : s'.building me = s.building me
  ready : ∀ p v, s.slots.slot p = .ready v → s'.slots.slot p = .ready v
  cells : ∀ id cell, s.cells id = some cell → ∃ found, s'.cells id = some { cell with found }
  /-- What is under construction is left alone. -/
  frozen : ∀ p ∈ s.building me, s'.slots.slot p = s.slots.slot p ∧ s'.chronicle p = s.chronicle p
  /-- A handle on what is under construction finds nothing. -/
  unresolved : ∀ id cell, s.cells id = some cell → cell.found = none → cell.Underway me s → s'.cells id = some cell

/-- Two stores that differ only in what neither the history nor any construction depends on. -/
structure Alike (s s' : Store) : Prop where
  history : s'.history = s.history
  identities : s'.identities = s.identities
  slots : s'.slots = s.slots
  building : s'.building = s.building
  cells : s'.cells = s.cells

variable {me : Thread} {s s' s'' : Store}

theorem Cell.Underway.mono {cell : Cell} (h : cell.Underway me s) (hbuilding : s'.building me = s.building me) :
    cell.Underway me s' := by
  obtain ⟨o, b, howner, hplace⟩ := h
  exact ⟨o, b, howner, hbuilding ▸ hplace⟩

namespace Evolves

theorem refl (me : Thread) (s : Store) : Evolves me s s where
  history := List.suffix_refl _
  identities := Nat.le_refl _
  building := rfl
  ready _ _ h := h
  cells _ cell h := ⟨cell.found, h⟩
  frozen _ _ := ⟨rfl, rfl⟩
  unresolved _ _ h _ _ := h

theorem trans (h : Evolves me s s') (h' : Evolves me s' s'') : Evolves me s s'' where
  history := h.history.trans h'.history
  identities := Nat.le_trans h.identities h'.identities
  building := h'.building.trans h.building
  ready p v hready := h'.ready p v (h.ready p v hready)
  cells id cell hcell := by
    obtain ⟨found, hcell'⟩ := h.cells id cell hcell
    exact h'.cells id { cell with found } hcell'
  frozen p hp := by
    obtain ⟨hslot, hchronicle⟩ := h.frozen p hp
    obtain ⟨hslot', hchronicle'⟩ := h'.frozen p (h.building.symm ▸ hp)
    exact ⟨hslot'.trans hslot, hchronicle'.trans hchronicle⟩
  unresolved id cell hcell hfound hunderway :=
    h'.unresolved id cell (h.unresolved id cell hcell hfound hunderway) hfound (hunderway.mono h.building)

theorem mem (h : Evolves me s s') {e : Happening} (he : e ∈ s.history) : e ∈ s'.history := h.history.subset he

theorem hasBuilt (h : Evolves me s s') {c : Container} (hc : s.HasBuilt c) : s'.HasBuilt c := h.mem hc

end Evolves

theorem Store.chronicle_of_history_eq (h : s'.history = s.history) (p : Address) : s'.chronicle p = s.chronicle p := by
  rw [chronicle, chronicle, h]

theorem Store.hasBuilt_of_history_eq (h : s'.history = s.history) (c : Container) : s'.HasBuilt c ↔ s.HasBuilt c := by
  rw [HasBuilt, HasBuilt, h]

namespace Alike

theorem refl (s : Store) : Alike s s := ⟨rfl, rfl, rfl, rfl, rfl⟩

theorem symm (h : Alike s s') : Alike s' s :=
  ⟨h.history.symm, h.identities.symm, h.slots.symm, h.building.symm, h.cells.symm⟩

theorem evolves (h : Alike s s') : Evolves me s s' where
  history := h.history ▸ List.suffix_refl _
  identities := Nat.le_of_eq h.identities.symm
  building := by rw [h.building]
  ready p v hready := by rw [h.slots, hready]
  cells id cell hcell := ⟨cell.found, by rw [h.cells, hcell]⟩
  frozen p _ := ⟨by rw [h.slots], Store.chronicle_of_history_eq h.history p⟩
  unresolved id cell hcell _ _ := by rw [h.cells, hcell]

theorem consistent (h : Alike s s') (hs : Consistent me s) : Consistent me s' := by
  obtain ⟨serial, identities, slots, runs, building, cells, held, gates, calls, events, history⟩ := s
  obtain ⟨serial', identities', slots', runs', building', cells', held', gates', calls', events', history'⟩ := s'
  obtain ⟨rfl, rfl, rfl, rfl, rfl⟩ := h
  exact ⟨hs.numbered, hs.unique, hs.linked, hs.distinct, hs.parents, hs.asked, hs.owned, hs.used, hs.cells, hs.fresh,
    hs.nodup, hs.underway, hs.computing, hs.unwaited, hs.refused, hs.settled, hs.typed⟩

end Alike

namespace Consistent

theorem hasBuilt_of_reaches (h : Consistent me s) {c a : Container} (hc : s.HasBuilt c) (hreaches : c.Reaches a) :
    s.HasBuilt a := by
  induction hreaches with
  | refl => exact hc
  | up hparent _ ih => exact ih (h.parents _ _ hc hparent).1

/-- Ancestors were built before. -/
theorem id_of_reaches (h : Consistent me s) {c a : Container} (hc : s.HasBuilt c) (hreaches : c.Reaches a) :
    a = c ∨ a.id < c.id := by
  induction hreaches with
  | refl => exact Or.inl rfl
  | up hparent _ ih =>
      obtain ⟨hp, hlt⟩ := h.parents _ _ hc hparent
      rcases ih hp with rfl | hlt'
      · exact Or.inr hlt
      · exact Or.inr (Nat.lt_trans hlt' hlt)

theorem family (h : Consistent me s) : Container.Family s.HasBuilt where
  parents c p hc hp := (h.parents c p hc hp).1
  unique := h.unique

theorem rooted (h : Consistent me s) {c : Container} (hc : s.HasBuilt c) : c.Rooted :=
  fun a hreaches => h.linked a (h.hasBuilt_of_reaches hc hreaches)

/-- A handle whose use leads up from a container, and has a container asked, has it or an ancestor asked. -/
theorem reaches_of_leadsUp (h : Consistent me s) {c : Container} (hc : s.HasBuilt c) {l : Lazy}
    (hup : s.leadsUp l c = true) {cell : Cell} (hcell : s.cells l.id = some cell) (hfound : cell.found = none)
    (halive : s.isAlive cell.container.id = true) : c.Reaches cell.container := by
  rw [Store.leadsUp, hcell] at hup
  obtain ⟨a, ha, hid⟩ : ∃ a ∈ Container.lineage [c], a.id = cell.container.id := by
    simpa [hfound, halive] using hup
  obtain ⟨d, hd, hreaches⟩ := Container.reaches_of_mem_lineage ha
  obtain rfl := List.mem_singleton.1 hd
  have heq := h.unique a cell.container (h.hasBuilt_of_reaches hc hreaches) (h.cells l.id cell hcell).2.1 hid
  exact heq ▸ hreaches

/-- A place belongs to one own binding at most. -/
theorem owns_unique (h : Consistent me s) {o o' : Container} {p : Address} {b b' : Binding} (ho : s.HasBuilt o)
    (ho' : s.HasBuilt o') (hown : o.Owns p b) (hown' : o'.Owns p b') : o = o' ∧ b = b' := by
  obtain rfl := h.unique o o' ho ho' (hown.1.trans hown'.1.symm)
  exact ⟨rfl, Option.some.inj (hown.2.symm.trans hown'.2)⟩

/-- An own binding that is under construction is provided, and has no value yet. -/
theorem provided_of_mem_building (h : Consistent me s) {o : Container} {p : Address} {b : Binding} (ho : s.HasBuilt o)
    (hown : o.Owns p b) (hmem : p ∈ s.building me) : b.isInstance = false ∧ (s.slots.slot p).value? = none := by
  obtain ⟨o', b', ho', hown', hunderway⟩ := h.underway p hmem
  obtain ⟨rfl, rfl⟩ := h.owns_unique ho ho' hown hown'
  exact hunderway

end Consistent

/-! ### What happens at one place -/

/-- Things happened at one place, the last one first, and nowhere else. -/
structure Touches (me : Thread) (place : Address) (new : List Happening) (s s' : Store) : Prop where
  history : s'.history = new ++ s.history
  concerns : ∀ e ∈ new, e.concerns place = true
  asked : ∀ c k v, .answered c k v ∈ new → s.HasBuilt c
  identities : s'.identities = s.identities
  cells : s'.cells = s.cells
  slot : ∀ p ≠ place, s'.slots.slot p = s.slots.slot p
  unwaited : s'.slots.edges = []
  building : ∀ p ≠ place, p ∈ s'.building me ↔ p ∈ s.building me
  nodup : (s'.building me).Nodup

namespace Touches

variable {place : Address} {new : List Happening}

theorem chronicle (h : Touches me place new s s') : s'.chronicle place = new ++ s.chronicle place := by
  rw [Store.chronicle, h.history, List.filter_append, List.filter_eq_self.2 h.concerns, ← Store.chronicle]

theorem chronicle_of_ne (h : Touches me place new s s') {p : Address} (hp : p ≠ place) :
    s'.chronicle p = s.chronicle p := by
  have hnone : new.filter (·.concerns p) = [] :=
    List.filter_eq_nil_iff.2 fun e he hconcerns => hp (Happening.concerns_unique hconcerns (h.concerns e he))
  rw [Store.chronicle, h.history, List.filter_append, hnone, List.nil_append, ← Store.chronicle]

theorem mem_of_not_concerns (h : Touches me place new s s') {e : Happening} (he : e ∈ s'.history)
    (hconcerns : e.concerns place = false) : e ∈ s.history := by
  rw [h.history] at he
  rcases List.mem_append.1 he with he | he
  · rw [h.concerns e he] at hconcerns
    cases hconcerns
  · exact he

theorem hasBuilt (h : Touches me place new s s') {c : Container} (hc : s'.HasBuilt c) : s.HasBuilt c :=
  h.mem_of_not_concerns hc rfl

theorem mem (h : Touches me place new s s') {e : Happening} (he : e ∈ s.history) : e ∈ s'.history := by
  rw [h.history]
  exact List.mem_append_right _ he

/-- A store stays consistent if the chronicle of the binding accounts for what is in the place afterwards, and there is no
value in it while it is under construction. -/
theorem consistent (h : Touches me place new s s') (hs : Consistent me s) {o : Container} {b : Binding}
    (ho : s.HasBuilt o) (hown : o.Owns place b)
    (hopen : place ∈ s'.building me → b.isInstance = false ∧ (s'.slots.slot place).value? = none)
    (hcomputing : ∀ t, s'.slots.slot place = .computing t → t = me ∧ place ∈ s'.building me)
    (hclosed : Chronicled place b (s'.slots.slot place).value? (s'.chronicle place))
    (htyped : o.Typed → ∀ v, .succeeded place v ∈ new → v.type = place.key.type) : Consistent me s' where
  numbered c hc := h.identities ▸ hs.numbered c (h.hasBuilt hc)
  unique c d hc hd := hs.unique c d (h.hasBuilt hc) (h.hasBuilt hd)
  linked c hc := hs.linked c (h.hasBuilt hc)
  distinct c hc := hs.distinct c (h.hasBuilt hc)
  parents c p hc hp := (hs.parents c p (h.hasBuilt hc) hp).imp_left h.mem
  asked c k v he := by
    rw [h.history] at he
    rcases List.mem_append.1 he with he | he
    · exact h.mem (h.asked c k v he)
    · exact h.mem (hs.asked c k v he)
  owned c k v he := by
    rw [h.history] at he
    rcases List.mem_append.1 he with he | he
    · obtain ⟨o, b, howner, -⟩ := Happening.concerns_answered.1 (h.concerns _ he)
      exact ⟨o, b, howner⟩
    · exact hs.owned c k v he
  used c k v he := h.mem (hs.used c k v (h.mem_of_not_concerns he rfl))
  cells id cell hcell := by
    rw [h.cells] at hcell
    obtain ⟨hlt, hbuilt, hfound⟩ := hs.cells id cell hcell
    exact ⟨h.identities ▸ hlt, h.mem hbuilt, fun v hv => h.mem (hfound v hv)⟩
  fresh p hp := by
    have hne : p ≠ place := by
      rintro rfl
      have hlt := hs.numbered o ho
      rw [hown.1] at hlt
      rw [h.identities] at hp
      omega
    obtain ⟨hslot, hchronicle, hrefused⟩ := hs.fresh p (h.identities ▸ hp)
    exact ⟨(h.slot p hne).trans hslot, (h.chronicle_of_ne hne).trans hchronicle,
      fun he => hrefused (h.mem_of_not_concerns he rfl)⟩
  nodup := h.nodup
  underway p hp := by
    by_cases hne : p = place
    · subst hne
      exact ⟨o, b, h.mem ho, hown, hopen hp⟩
    · obtain ⟨o', b', hbuilt, hown', hinstance, hvalue⟩ := hs.underway p ((h.building p hne).1 hp)
      exact ⟨o', b', h.mem hbuilt, hown', hinstance, by rw [h.slot p hne, hvalue]⟩
  computing p t hslot := by
    by_cases hne : p = place
    · subst hne
      exact hcomputing t hslot
    · rw [h.slot p hne] at hslot
      exact (hs.computing p t hslot).imp_right (h.building p hne).2
  unwaited := h.unwaited
  refused o' p b' ho' hown' hinstance he :=
    hs.refused o' p b' (h.hasBuilt ho') hown' hinstance (h.mem_of_not_concerns he rfl)
  settled o' p b' ho' hown' := by
    by_cases hne : p = place
    · subst hne
      obtain ⟨rfl, rfl⟩ := hs.owns_unique ho (h.hasBuilt ho') hown hown'
      exact hclosed
    · rw [h.slot p hne, h.chronicle_of_ne hne]
      exact hs.settled o' p b' (h.hasBuilt ho') hown'
  typed o' p b' v ho' hown' htyped' he := by
    rw [h.history] at he
    rcases List.mem_append.1 he with he | he
    · obtain rfl : p = place := by simpa using h.concerns _ he
      obtain ⟨rfl, rfl⟩ := hs.owns_unique ho (h.hasBuilt ho') hown hown'
      exact htyped htyped' v he
    · exact hs.typed o' p b' v (h.hasBuilt ho') hown' htyped' he

theorem note (h : Touches me place new s s') {e : Happening} (hconcerns : e.concerns place = true)
    (hasked : ∀ c k v, e = .answered c k v → s.HasBuilt c) : Touches me place (e :: new) s (s'.note e) where
  history := by rw [Store.note, h.history, List.cons_append]
  concerns e' he' := by
    rcases List.mem_cons.1 he' with rfl | he'
    · exact hconcerns
    · exact h.concerns e' he'
  asked c k v he' := by
    rcases List.mem_cons.1 he' with he' | he'
    · exact hasked c k v he'.symm
    · exact h.asked c k v he'
  identities := h.identities
  cells := h.cells
  slot := h.slot
  unwaited := h.unwaited
  building := h.building
  nodup := h.nodup

theorem evolves (h : Touches me place new s s') (hplace : place ∉ s.building me)
    (hslot : s'.slots.slot place = s.slots.slot place) (hbuilding : s'.building me = s.building me) :
    Evolves me s s' where
  history := ⟨new, h.history.symm⟩
  identities := Nat.le_of_eq h.identities.symm
  building := hbuilding
  ready p v hready := by
    by_cases hne : p = place
    · rw [hne, hslot, ← hne, hready]
    · rw [h.slot p hne, hready]
  cells id cell hcell := ⟨cell.found, by rw [h.cells, hcell]⟩
  frozen p hp := by
    have hne : p ≠ place := fun heq => hplace (heq ▸ hp)
    exact ⟨h.slot p hne, h.chronicle_of_ne hne⟩
  unresolved id cell hcell _ _ := by rw [h.cells, hcell]

/-- Whatever happened between two touches of a place, from which no value was taken, what is under construction besides
was left alone all the time. -/
theorem evolves_around {u t : Store} {after : List Happening} (h : Touches me place new s u) (hrun : Evolves me u t)
    (h' : Touches me place after t s') (hplace : place ∉ s.building me)
    (hslot : (s.slots.slot place).value? = none) (hbuilding : s'.building me = s.building me) :
    Evolves me s s' where
  history := by
    rw [h'.history]
    exact (h.history ▸ List.suffix_append new s.history).trans (hrun.history.trans (List.suffix_append after t.history))
  identities := h.identities ▸ h'.identities ▸ hrun.identities
  building := hbuilding
  ready p v hready := by
    have hne : p ≠ place := by
      rintro rfl
      simp [hready, Slot.value?] at hslot
    rw [h'.slot p hne]
    exact hrun.ready p v (by rw [h.slot p hne, hready])
  cells id cell hcell := by
    rw [h'.cells]
    exact hrun.cells id cell (by rw [h.cells, hcell])
  frozen p hp := by
    have hne : p ≠ place := fun heq => hplace (heq ▸ hp)
    obtain ⟨hslot', hchronicle⟩ := hrun.frozen p ((h.building p hne).2 hp)
    exact ⟨by rw [h'.slot p hne, hslot', h.slot p hne],
      by rw [h'.chronicle_of_ne hne, hchronicle, h.chronicle_of_ne hne]⟩
  unresolved id cell hcell hfound hunderway := by
    obtain ⟨o, b, howner, hp⟩ := hunderway
    have hne : o.place b ≠ place := fun heq => hplace (heq ▸ hp)
    rw [h'.cells]
    exact hrun.unresolved id cell (by rw [h.cells, hcell]) hfound ⟨o, b, howner, (h.building _ hne).2 hp⟩

end Touches

/-! ### What happens beside all places -/

/-- A container, a lazy handle or a set of configs gets its number, a lazy handle is used, or a request is refused. At
most one thing is to be told of it, and no place is touched. -/
structure Aside (me : Thread) (told : Option Happening) (s s' : Store) : Prop where
  history : s'.history = told.toList ++ s.history
  concerns : ∀ e ∈ told, ∀ p, e.concerns p = false
  slots : s'.slots = s.slots
  building : s'.building = s.building
  identities : s.identities ≤ s'.identities
  built : ∀ c, .built c ∈ told → c.id = s.identities ∧ s.identities < s'.identities ∧ c.Linked ∧
    c.registry.keys.Nodup ∧ ∀ p ∈ c.parents, s.HasBuilt p
  asked : ∀ c k v, .answered c k v ∉ told
  used : ∀ c k v, .used c k v ∈ told → .answered c k v ∈ s.history
  refused : ∀ p, .refused p ∈ told → p ∈ s.building me
  cells : ∀ id cell, s'.cells id = some cell → id < s'.identities ∧ s.HasBuilt cell.container ∧
    ∀ v, cell.found = some v → .answered cell.container cell.key v ∈ s.history
  handles : ∀ id cell, s.cells id = some cell → ∃ found, s'.cells id = some { cell with found }
  unresolved : ∀ id cell, s.cells id = some cell → cell.found = none → cell.Underway me s → s'.cells id = some cell

namespace Aside

variable {told : Option Happening}

theorem mem (h : Aside me told s s') {e : Happening} (he : e ∈ s.history) : e ∈ s'.history := by
  rw [h.history]
  exact List.mem_append_right _ he

theorem mem_or (h : Aside me told s s') {e : Happening} (he : e ∈ s'.history) : e ∈ told ∨ e ∈ s.history := by
  rw [h.history] at he
  simpa using he

theorem mem_of_concerns (h : Aside me told s s') {e : Happening} {p : Address} (he : e ∈ s'.history)
    (hconcerns : e.concerns p = true) : e ∈ s.history := by
  rcases h.mem_or he with htold | he
  · rw [h.concerns e htold p] at hconcerns
    cases hconcerns
  · exact he

theorem chronicle (h : Aside me told s s') (p : Address) : s'.chronicle p = s.chronicle p := by
  have hnone : told.toList.filter (·.concerns p) = [] :=
    List.filter_eq_nil_iff.2 fun e he => by simp [h.concerns e (by simpa using he) p]
  rw [Store.chronicle, h.history, List.filter_append, hnone, List.nil_append, ← Store.chronicle]

theorem evolves (h : Aside me told s s') : Evolves me s s' where
  history := h.history ▸ List.suffix_append _ _
  identities := h.identities
  building := by rw [h.building]
  ready p v hready := by rw [h.slots, hready]
  cells := h.handles
  frozen p _ := ⟨by rw [h.slots], h.chronicle p⟩
  unresolved := h.unresolved

theorem hasBuilt (h : Aside me told s s') {c : Container} (hc : s'.HasBuilt c) :
    s.HasBuilt c ∨ c.id = s.identities ∧ s.identities < s'.identities ∧ c.Linked ∧ c.registry.keys.Nodup ∧
      ∀ p ∈ c.parents, s.HasBuilt p := by
  rcases h.mem_or hc with htold | hc
  · exact Or.inr (h.built c htold)
  · exact Or.inl hc

theorem numbered (h : Aside me told s s') (hs : Consistent me s) (c : Container) (hc : s'.HasBuilt c) :
    c.id < s'.identities := by
  have hle := h.identities
  rcases h.hasBuilt hc with hc | ⟨hid, hlt, -⟩
  · have := hs.numbered c hc
    omega
  · omega

theorem unique (h : Aside me told s s') (hs : Consistent me s) (c d : Container) (hc : s'.HasBuilt c)
    (hd : s'.HasBuilt d) (hid : c.id = d.id) : c = d := by
  rcases h.mem_or hc with hnew | hold
  · rcases h.mem_or hd with hnew' | hold'
    · cases hnew.symm.trans hnew'
      rfl
    · have := hs.numbered d hold'
      have := (h.built c hnew).1
      omega
  · rcases h.mem_or hd with hnew' | hold'
    · have := hs.numbered c hold
      have := (h.built d hnew').1
      omega
    · exact hs.unique c d hold hold' hid

theorem settled (h : Aside me told s s') (hs : Consistent me s) (o : Container) (p : Address) (b : Binding)
    (ho : s'.HasBuilt o) (hown : o.Owns p b) : Chronicled p b (s.slots.slot p).value? (s.chronicle p) := by
  rcases h.hasBuilt ho with ho | ⟨hid, -⟩
  · exact hs.settled o p b ho hown
  · obtain ⟨hslot, hchronicle, -⟩ := hs.fresh p (Nat.le_of_eq (hid.symm.trans hown.1))
    rw [hslot, hchronicle]
    exact .nothing

theorem refused_instance (h : Aside me told s s') (hs : Consistent me s) (o : Container) (p : Address) (b : Binding)
    (ho : s'.HasBuilt o) (hown : o.Owns p b) (hinstance : b.isInstance = true) : .refused p ∉ s'.history := by
  intro he
  rcases h.mem_or he with htold | he
  · obtain ⟨o', b', ho', hown', hprovided, -⟩ := hs.underway p (h.refused p htold)
    obtain rfl := h.unique hs o o' ho (h.mem ho') (hown.1.trans hown'.1.symm)
    obtain rfl := Option.some.inj (hown.2.symm.trans hown'.2)
    rw [hinstance] at hprovided
    cases hprovided
  · rcases h.hasBuilt ho with ho | ⟨hid, -⟩
    · exact hs.refused o p b ho hown hinstance he
    · exact (hs.fresh p (Nat.le_of_eq (hid.symm.trans hown.1))).2.2 he

theorem typed (h : Aside me told s s') (hs : Consistent me s) (o : Container) (p : Address) (b : Binding) (v : Value)
    (ho : s'.HasBuilt o) (hown : o.Owns p b) (htyped : o.Typed) (he : .succeeded p v ∈ s'.history) :
    v.type = p.key.type := by
  have hconcerns : (Happening.succeeded p v).concerns p = true := by simp
  have he := h.mem_of_concerns he hconcerns
  rcases h.hasBuilt ho with ho | ⟨hid, -⟩
  · exact hs.typed o p b v ho hown htyped he
  · obtain ⟨-, hchronicle, -⟩ := hs.fresh p (Nat.le_of_eq (hid.symm.trans hown.1))
    rw [← Store.mem_chronicle hconcerns, hchronicle] at he
    cases he

theorem consistent (h : Aside me told s s') (hs : Consistent me s) : Consistent me s' where
  numbered := h.numbered hs
  unique := h.unique hs
  linked c hc := (h.hasBuilt hc).elim (hs.linked c) fun ⟨_, _, hlinked, _⟩ => hlinked
  distinct c hc := (h.hasBuilt hc).elim (hs.distinct c) fun ⟨_, _, _, hdistinct, _⟩ => hdistinct
  parents c p hc hp := by
    rcases h.hasBuilt hc with hc | ⟨hid, -, -, -, hparents⟩
    · exact (hs.parents c p hc hp).imp_left h.mem
    · exact ⟨h.mem (hparents p hp), hid ▸ hs.numbered p (hparents p hp)⟩
  asked c k v he := by
    rcases h.mem_or he with htold | he
    · exact absurd htold (h.asked c k v)
    · exact h.mem (hs.asked c k v he)
  owned c k v he := (h.mem_or he).elim (fun htold => absurd htold (h.asked c k v)) (hs.owned c k v)
  used c k v he := by
    rcases h.mem_or he with htold | he
    · exact h.mem (h.used c k v htold)
    · exact h.mem (hs.used c k v he)
  cells id cell hcell := by
    obtain ⟨hlt, hbuilt, hfound⟩ := h.cells id cell hcell
    exact ⟨hlt, h.mem hbuilt, fun v hv => h.mem (hfound v hv)⟩
  fresh p hp := by
    obtain ⟨hslot, hchronicle, hrefused⟩ := hs.fresh p (Nat.le_trans h.identities hp)
    refine ⟨h.slots ▸ hslot, (h.chronicle p).trans hchronicle, fun he => ?_⟩
    rcases h.mem_or he with htold | he
    · obtain ⟨o, b, ho, hown, -⟩ := hs.underway p (h.refused p htold)
      have hlt := hs.numbered o ho
      have hle := h.identities
      rw [hown.1] at hlt
      omega
    · exact hrefused he
  nodup := h.building ▸ hs.nodup
  underway p hp := by
    obtain ⟨o, b, ho, hown, hprovided, hvalue⟩ := hs.underway p (h.building ▸ hp)
    exact ⟨o, b, h.mem ho, hown, hprovided, h.slots ▸ hvalue⟩
  computing p t hslot := h.building ▸ hs.computing p t (h.slots ▸ hslot)
  unwaited := h.slots ▸ hs.unwaited
  refused := h.refused_instance hs
  settled o p b ho hown := by
    rw [h.slots, h.chronicle]
    exact h.settled hs o p b ho hown
  typed := h.typed hs

end Aside

theorem Consistent.number (h : Consistent me s) : Aside me none s s.nextIdentity.1 where
  history := rfl
  concerns := by simp
  slots := rfl
  building := rfl
  identities := Nat.le_succ _
  built := by simp
  asked := by simp
  used := by simp
  refused := by simp
  cells id cell hcell := (h.cells id cell hcell).imp_left Nat.lt_succ_of_lt
  handles id cell hcell := ⟨cell.found, hcell⟩
  unresolved _ _ hcell _ _ := hcell

theorem Consistent.postpone (h : Consistent me s) {c : Container} (hc : s.HasBuilt c) (k : Key) :
    Aside me none s (s.postpone c k).1 where
  history := rfl
  concerns := by simp
  slots := rfl
  building := rfl
  identities := Nat.le_succ _
  built := by simp
  asked := by simp
  used := by simp
  refused := by simp
  cells id cell hcell := by
    change setAt s.cells s.identities _ id = some cell at hcell
    by_cases hid : id = s.identities
    · rw [hid, setAt_self] at hcell
      obtain rfl := Option.some.inj hcell
      exact ⟨hid ▸ Nat.lt_succ_self _, hc, by simp⟩
    · rw [setAt_of_ne _ _ hid] at hcell
      exact (h.cells id cell hcell).imp_left Nat.lt_succ_of_lt
  handles id cell hcell := by
    have hid : id ≠ s.identities := Nat.ne_of_lt (h.cells id cell hcell).1
    exact ⟨cell.found, (setAt_of_ne _ _ hid).trans hcell⟩
  unresolved id cell hcell _ _ := (setAt_of_ne _ _ (Nat.ne_of_lt (h.cells id cell hcell).1)).trans hcell

theorem Consistent.build (h : Consistent me s) {c : Container} (hid : c.id = s.identities) (hlinked : c.Linked)
    (hdistinct : c.registry.keys.Nodup) (hparents : ∀ p ∈ c.parents, s.HasBuilt p) :
    Aside me (some (.built c)) s (s.nextIdentity.1.note (.built c)) where
  history := rfl
  concerns := by simp
  slots := rfl
  building := rfl
  identities := Nat.le_succ _
  built d hd := by
    obtain rfl : c = d := by simpa using hd
    exact ⟨hid, Nat.lt_succ_self _, hlinked, hdistinct, hparents⟩
  asked := by simp
  used := by simp
  refused := by simp
  cells id cell hcell := (h.cells id cell hcell).imp_left Nat.lt_succ_of_lt
  handles id cell hcell := ⟨cell.found, hcell⟩
  unresolved _ _ hcell _ _ := hcell

theorem Consistent.refuse (h : Consistent me s) {p : Address} (hp : p ∈ s.building me) :
    Aside me (some (.refused p)) s (s.note (.refused p)) where
  history := rfl
  concerns := by simp
  slots := rfl
  building := rfl
  identities := Nat.le_refl _
  built := by simp
  asked := by simp
  used := by simp
  refused q hq := by
    obtain rfl : p = q := by simpa using hq
    exact hp
  cells := h.cells
  handles id cell hcell := ⟨cell.found, hcell⟩
  unresolved _ _ hcell _ _ := hcell

theorem Consistent.use (h : Consistent me s) {id : Nat} {cell : Cell} {v : Value} (hcell : s.cells id = some cell)
    (hv : .answered cell.container cell.key v ∈ s.history) (hover : cell.found = none → ¬ cell.Underway me s) :
    Aside me (some (.used cell.container cell.key v)) s
      { s.note (.used cell.container cell.key v) with cells := setAt s.cells id (some { cell with found := some v }) } where
  history := rfl
  concerns := by simp
  slots := rfl
  building := rfl
  identities := Nat.le_refl _
  built := by simp
  asked := by simp
  used c k w hw := by
    obtain ⟨rfl, rfl, rfl⟩ : cell.container = c ∧ cell.key = k ∧ v = w := by simpa using hw
    exact hv
  refused := by simp
  cells id' cell' hcell' := by
    change setAt s.cells id _ id' = some cell' at hcell'
    by_cases hid : id' = id
    · rw [hid, setAt_self] at hcell'
      obtain rfl := Option.some.inj hcell'
      obtain ⟨hlt, hbuilt, -⟩ := h.cells id cell hcell
      refine ⟨hid ▸ hlt, hbuilt, ?_⟩
      rintro _ ⟨⟩
      exact hv
    · rw [setAt_of_ne _ _ hid] at hcell'
      exact h.cells id' cell' hcell'
  handles id' cell' hcell' := by
    by_cases hid : id' = id
    · subst hid
      obtain rfl := Option.some.inj (hcell.symm.trans hcell')
      exact ⟨some v, setAt_self _ _ _⟩
    · exact ⟨cell'.found, (setAt_of_ne _ _ hid).trans hcell'⟩
  unresolved id' cell' hcell' hfound hunderway := by
    by_cases hid : id' = id
    · subst hid
      obtain rfl := Option.some.inj (hcell.symm.trans hcell')
      exact absurd hunderway (hover hfound)
    · exact (setAt_of_ne _ _ hid).trans hcell'

theorem Consistent.remember (h : Consistent me s) {id : Nat} {cell : Cell} {v : Value} (hcell : s.cells id = some cell)
    (hfound : cell.found = some v) :
    Aside me (some (.used cell.container cell.key v)) s (s.note (.used cell.container cell.key v)) := by
  have haside := h.use hcell ((h.cells id cell hcell).2.2 v hfound) fun hnone => by simp [hfound] at hnone
  rwa [show setAt s.cells id (some { cell with found := some v }) = s.cells by
    funext id'
    by_cases hid : id' = id
    · rw [hid, setAt_self, hcell, ← hfound]
    · exact setAt_of_ne _ _ hid] at haside

end Injection
