import Injection.Proofs.Construction
import Injection.Request

/-!
What requests and lazy handles bring. A value that is kept is that of the only run of its provider that ever succeeds;
an instance is what was bound; any other value comes from a run that was made for the request, and for it alone. All
that was ever answered is vouched for in this way by each later store, also while constructions are under way.
-/

namespace Injection

open Happening

variable {me : Thread} {s s' t t' : Store} {c o : Container} {b : Binding} {v : Value}

/-! ### What was answered -/

/-- What a store says of a value that requests for the key of an own binding were answered with. -/
structure Store.Vouches (s : Store) (o : Container) (b : Binding) (v : Value) : Prop where
  /-- A value that is kept is in its place, and no other came from a run that has succeeded. -/
  kept : b.isKept = true → s.slots.slot (o.place b) = .ready v ∧ ∀ w, succeeded (o.place b) w ∈ s.history ↔ w = v
  given : ∀ w, b.source = .given w → v = w
  provided : b.isInstance = false → succeeded (o.place b) v ∈ s.history

theorem answered_mem_chronicle (howner : c.owner? b.key = some (o, b)) :
    answered c b.key v ∈ s.history ↔ answered c b.key v ∈ s.chronicle (o.place b) :=
  (Store.mem_chronicle (concerns_answered.2 ⟨o, b, howner, rfl⟩)).symm

/-- A success is there exactly if its value is in the place. -/
theorem succeeded_iff (hsettled : Chronicled (o.place b) b (s.slots.slot (o.place b)).value? (s.chronicle (o.place b)))
    (hkept : b.isKept = true) {v : Value} :
    succeeded (o.place b) v ∈ s.history ↔ (s.slots.slot (o.place b)).value? = some v := by
  rw [← Store.mem_chronicle (by simp : (succeeded (o.place b) v).concerns (o.place b) = true)]
  refine ⟨hsettled.eq_some_of_succeeded hkept, ?_⟩
  intro hvalue
  rw [hvalue] at hsettled
  obtain ⟨later, earlier, hchronicle, -, -⟩ := hsettled.fruitful
  rw [hchronicle]
  simp

/-- Whatever was answered is vouched for. -/
theorem Consistent.vouches (hs : Consistent me s) {k : Key} (howner : c.owner? k = some (o, b))
    (hanswered : answered c k v ∈ s.history) : s.Vouches o b v := by
  obtain rfl := Container.key_of_owner? howner
  obtain ⟨hreaches, hlookup⟩ := Container.owner?_spec howner
  have ho : s.HasBuilt o := hs.hasBuilt_of_reaches (hs.asked c b.key v hanswered) hreaches
  have hsettled := hs.settled o (o.place b) b ho ⟨rfl, hlookup⟩
  have hmem := (answered_mem_chronicle howner).1 hanswered
  refine ⟨fun hkept => ?_, fun w hsource => hsettled.eq_of_given hsource hmem, fun hprovided => ?_⟩
  · have hvalue := hsettled.eq_some_of_answered hkept hmem
    refine ⟨Slot.value?_eq_some.1 hvalue, fun w => ?_⟩
    rw [succeeded_iff hsettled hkept, hvalue, Option.some.injEq, eq_comm]
  · by_cases hkept : b.isKept
    · exact (succeeded_iff hsettled hkept).2 (hsettled.eq_some_of_answered hkept hmem)
    · obtain ⟨later, earlier, hchronicle⟩ := List.append_of_mem hmem
      obtain ⟨before, rfl⟩ := hsettled.run_of_answered hprovided (by simpa using hkept) hchronicle
      refine (Store.mem_chronicle (by simp)).1 (?_ : _ ∈ s.chronicle (o.place b))
      rw [hchronicle]
      simp

theorem Store.Vouches.congr (h : s.Vouches o b v) (hslots : s'.slots = s.slots) (hhistory : s'.history = s.history) :
    s'.Vouches o b v := by
  obtain ⟨hkept, hgiven, hprovided⟩ := h
  rw [← hslots, ← hhistory] at hkept
  rw [← hhistory] at hprovided
  exact ⟨hkept, hgiven, hprovided⟩

/-! ### Requests -/

/-- What a request for the key of a binding brings, made in one store and answered in another. -/
structure Returns (s t : Store) (c o : Container) (b : Binding) (v : Value) : Prop where
  owner : c.owner? b.key = some (o, b)
  told : answered c b.key v ∈ t.history
  vouches : t.Vouches o b v
  /-- A value that is not kept comes from the one run that took place in the meantime. -/
  made : b.isInstance = false → b.isKept = false → t.chronicle (o.place b) =
    answered c b.key v :: succeeded (o.place b) v :: began (o.place b) :: entered (o.place b) :: s.chronicle (o.place b)

namespace Returns

theorem congr (h : Returns s t c o b v) (hs : Alike s s') (ht : Alike t t') : Returns s' t' c o b v where
  owner := h.owner
  told := ht.history ▸ h.told
  vouches := h.vouches.congr ht.slots ht.history
  made hprovided hunkept := by
    rw [Store.chronicle_of_history_eq ht.history, Store.chronicle_of_history_eq hs.history]
    exact h.made hprovided hunkept

/-- What happens beside all places makes no difference. -/
theorem aside (h : Returns s t c o b v) {told : Option Happening} (haside : Aside me told t t')
    (ht : Consistent me t') : Returns s t' c o b v where
  owner := h.owner
  told := haside.mem h.told
  vouches := ht.vouches h.owner (haside.mem h.told)
  made hprovided hunkept := (haside.chronicle _).trans (h.made hprovided hunkept)

end Returns

/-- What a typed request brings. -/
inductive Resolver.Brings (s t : Store) (c : Container) : Resolver → Resolved → Prop
  | value {o : Container} {b : Binding} {v : Value} (h : Returns s t c o b v) : Brings s t c (.value b.key) (.value v)
  /-- A handle on the type, in the container that was asked. -/
  | deferred {type : TypeInfo} {l : Lazy} (hkey : l.key = .ofType type)
      (hcell : t.cells l.id = some ⟨c, .ofType type, none⟩) : Brings s t c (.deferred type) (.deferred l)
  /-- A config from the set that the request for one brings. -/
  | config {o : Container} {b : Binding} {configs : Value} {config : Config} (hkey : b.key = .configs)
      (h : Returns s t c o b configs) (hconfig : config ∈ configs.entries) :
      Brings s t c (.config config.type) (.value config.value)
  | present {r : Resolver} {resolved : Resolved} (h : Brings s t c r resolved) :
      Brings s t c (.optional r) (.present resolved)
  | absent {r : Resolver} : Brings s t c (.optional r) .absent

/-- What anything that can be asked brings. -/
inductive Request.Brings (s t : Store) (c : Container) (requester : Option Key) : Request → Resolved → Prop
  | resolve {r : Resolver} {resolved : Resolved} (h : r.Brings s t c resolved) :
      Brings s t c requester (.resolve r) resolved
  | untyped {o : Container} {b : Binding} {v : Value} (h : Returns s t c o b v) :
      Brings s t c requester (.untyped b.key) (.value v)
  | requester : Brings s t c requester .requester (.requester c.label requester)

theorem Resolver.Brings.congr {r : Resolver} {resolved : Resolved} (h : r.Brings s t c resolved) (hs : Alike s s')
    (ht : Alike t t') : r.Brings s' t' c resolved := by
  induction h with
  | value h => exact .value (h.congr hs ht)
  | deferred hkey hcell => exact .deferred hkey (ht.cells ▸ hcell)
  | config hkey h hconfig => exact .config hkey (h.congr hs ht) hconfig
  | present _ ih => exact .present ih
  | absent => exact .absent

theorem Request.Brings.congr {requester : Option Key} {r : Request} {resolved : Resolved}
    (h : r.Brings s t c requester resolved) (hs : Alike s s') (ht : Alike t t') :
    r.Brings s' t' c requester resolved := by
  cases h with
  | resolve h => exact .resolve (h.congr hs ht)
  | untyped h => exact .untyped (h.congr hs ht)
  | requester => exact .requester

/-! ### Lazy handles -/

/-- What a lazy handle gives: what it found before, without anything being asked, or else what the one request brings
that it makes in its container, and this is what it has found from then on. -/
inductive Lazy.Gives (s t : Store) (l : Lazy) (v : Value) : Prop
  | remembered {cell : Cell} {o : Container} {b : Binding} (hcell : s.cells l.id = some cell)
      (hfound : cell.found = some v) (howner : cell.container.owner? cell.key = some (o, b)) (hvouches : t.Vouches o b v)
      (hslots : t.slots = s.slots) (hhistory : t.history = used cell.container cell.key v :: s.history)
  | lookedUp {cell : Cell} {o : Container} {b : Binding} (hcell : s.cells l.id = some cell) (hfound : cell.found = none)
      (hkey : b.key = cell.key) (h : Returns s t cell.container o b v)
      (hkept : t.cells l.id = some { cell with found := some v }) (hused : used cell.container cell.key v ∈ t.history)

theorem Store.keep_of_unresolved {l : Lazy} {cell : Cell} (hcell : s.cells l.id = some cell)
    (hfound : cell.found = none) : s.keep l v =
      ({ s.note (used cell.container cell.key v) with
          cells := setAt s.cells l.id (some { cell with found := some v }) }, v) := by
  simp [keep, hcell, hfound]

theorem Lazy.Gives.congr {l : Lazy} (h : l.Gives s t v) (hs : Alike s s') (ht : Alike t t') : l.Gives s' t' v := by
  cases h with
  | remembered hcell hfound howner hvouches hslots hhistory =>
      exact .remembered (hs.cells ▸ hcell) hfound howner (hvouches.congr ht.slots ht.history)
        (by rw [ht.slots, hs.slots, hslots]) (by rw [ht.history, hs.history, hhistory])
  | lookedUp hcell hfound hkey h hkept hused =>
      exact .lookedUp (hs.cells ▸ hcell) hfound hkey (h.congr hs ht) (ht.cells ▸ hkept) (ht.history ▸ hused)

end Injection
