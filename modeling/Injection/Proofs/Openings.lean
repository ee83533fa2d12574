import Injection.Proofs.Consistency
import Injection.Resolution

/-!
What a thread is in the midst of, among others. It may be constructing bindings, keep containers from being dropped for a
while, or be about to build a container whose number it was given. All of this is opened and closed in order, like
brackets, and each action has its conditions: which of them are open, and what must be there in the store by then. Where
a value is given there is nothing to construct, so a thread that goes in there does nothing before it comes out again. A
process is tidy if it keeps to all that, whatever others do between its actions. They may do anything that leaves alone
what is there for good.
-/

namespace Injection

/-! ### Openings -/

/-- Something that a thread is in the midst of. -/
inductive Opening
  | within (place : Address)
  | holding (container : Container)
  /-- The number is for a container that is not built yet. -/
  | numbering (id : Nat)

namespace Opening

def place? : Opening → Option Address
  | within place => some place
  | _ => none

def container? : Opening → Option Container
  | holding c => some c
  | _ => none

def number? : Opening → Option Nat
  | numbering id => some id
  | _ => none

end Opening

/-- What a thread is in the midst of after an action, the last thing first. -/
def Action.openings : (a : Action) → a.Reply → List Opening → List Opening
  | enter place, true, os => .within place :: os
  | leave _, _, os => os.tail
  | hold c, _, os => .holding c :: os
  | reclaim _, some cell, os => .holding cell.container :: os
  | letGo _, _, os => os.tail
  | nextIdentity, id, os => .numbering id :: os
  | note (.built _), _, os => os.tail
  | _, _, os => os

/-- The store shows what a thread has under construction. -/
def Store.Shows (s : Store) (me : Thread) (os : List Opening) : Prop :=
  s.building me = (os.filterMap Opening.place?).reverse

theorem Opening.mem_filterMap_place {os : List Opening} {p : Address} :
    p ∈ os.filterMap place? ↔ .within p ∈ os := by
  rw [List.mem_filterMap]
  constructor
  · rintro ⟨o, ho, hplace⟩
    cases o with
    | within q => exact Option.some.inj hplace ▸ ho
    | holding _ => cases hplace
    | numbering _ => cases hplace
  · exact fun h => ⟨_, h, rfl⟩

theorem Store.Shows.mem_building {s : Store} {me : Thread} {os : List Opening} (h : s.Shows me os) {p : Address} :
    p ∈ s.building me ↔ .within p ∈ os := by
  rw [h, List.mem_reverse, Opening.mem_filterMap_place]

/-! ### Stores -/

namespace Store

/-- What is there for good is there still. -/
structure Lasts (s t : Store) : Prop where
  history : s.history <:+ t.history
  identities : s.identities ≤ t.identities
  ready : ∀ p v, s.slots.slot p = .ready v → t.slots.slot p = .ready v
  cells : ∀ id cell, s.cells id = some cell →
    ∃ found, t.cells id = some { cell with found } ∧ ∀ v, cell.found = some v → found = some v

/-- The value is the one that the binding of a container has for good, if there is such a value. -/
structure Standing (s : Store) (o : Container) (b : Binding) (v : Value) : Prop where
  kept : b.isKept = true → s.slots.slot (o.place b) = .ready v
  given : ∀ w, b.source = .given w → v = w

/-- The store of several threads, at any time. -/
structure Coherent (s : Store) : Prop where
  numbered : ∀ c, s.HasBuilt c → c.id < s.identities
  unique : ∀ c d, s.HasBuilt c → s.HasBuilt d → c.id = d.id → c = d
  parents : ∀ c p, s.HasBuilt c → p ∈ c.parents → s.HasBuilt p ∧ p.id < c.id
  cells : ∀ id cell, s.cells id = some cell → id < s.identities ∧ s.HasBuilt cell.container ∧
    ∀ v, cell.found = some v → .answered cell.container cell.key v ∈ s.history
  answers : ∀ c k v, .answered c k v ∈ s.history → ∀ o b, c.owner? k = some (o, b) → s.Standing o b v
  linked : ∀ c, s.HasBuilt c → c.Linked

variable {s t u : Store}

namespace Lasts

theorem refl (s : Store) : s.Lasts s :=
  ⟨List.suffix_refl _, Nat.le_refl _, fun _ _ h => h, fun _ cell h => ⟨cell.found, h, fun _ hv => hv⟩⟩

theorem trans (h : s.Lasts t) (h' : t.Lasts u) : s.Lasts u where
  history := h.history.trans h'.history
  identities := Nat.le_trans h.identities h'.identities
  ready p v hready := h'.ready p v (h.ready p v hready)
  cells id cell hcell := by
    obtain ⟨found, hcell', hfound⟩ := h.cells id cell hcell
    obtain ⟨found', hcell'', hfound'⟩ := h'.cells id _ hcell'
    exact ⟨found', hcell'', fun v hv => hfound' v (hfound v hv)⟩

theorem mem (h : s.Lasts t) {e : Happening} (he : e ∈ s.history) : e ∈ t.history := h.history.subset he

theorem hasBuilt (h : s.Lasts t) {c : Container} (hc : s.HasBuilt c) : t.HasBuilt c := h.mem hc

theorem standing (h : s.Lasts t) {o : Container} {b : Binding} {v : Value} (hv : s.Standing o b v) : t.Standing o b v :=
  ⟨fun hkept => h.ready _ _ (hv.kept hkept), hv.given⟩

theorem exists_cell (h : s.Lasts t) {id : Nat} {c : Container} {k : Key}
    (hcell : ∃ found, s.cells id = some ⟨c, k, found⟩) : ∃ found, t.cells id = some ⟨c, k, found⟩ := by
  obtain ⟨found, hcell⟩ := hcell
  obtain ⟨found', hcell', -⟩ := h.cells _ _ hcell
  exact ⟨found', hcell'⟩

theorem found? (h : s.Lasts t) {l : Lazy} {v : Value} (hv : s.found? l = some v) : t.found? l = some v := by
  obtain ⟨cell, hcell, hfound⟩ := Option.bind_eq_some_iff.1 hv
  obtain ⟨found, hcell', hfound'⟩ := h.cells l.id cell hcell
  rw [Store.found?, hcell']
  exact hfound' v hfound

end Lasts

namespace Coherent

theorem family (h : s.Coherent) : Container.Family s.HasBuilt where
  parents c p hc hp := (h.parents c p hc hp).1
  unique := h.unique

theorem hasBuilt_of_reaches (h : s.Coherent) {c a : Container} (hc : s.HasBuilt c) (hreaches : c.Reaches a) :
    s.HasBuilt a := h.family.of_reaches hc hreaches

theorem rooted (h : s.Coherent) {c : Container} (hc : s.HasBuilt c) : c.Rooted :=
  fun a hreaches => h.linked a (h.hasBuilt_of_reaches hc hreaches)

end Coherent

/-- The container was built, and so were its ancestors. -/
def Knows (s : Store) (c : Container) : Prop := ∀ a, c.Reaches a → s.HasBuilt a

theorem Knows.mono {c : Container} (h : s.Knows c) (hst : s.Lasts t) : t.Knows c :=
  fun a ha => hst.hasBuilt (h a ha)

theorem Knows.of_reaches {c a : Container} (h : s.Knows c) (hreaches : c.Reaches a) : s.Knows a :=
  fun d hd => h d (hreaches.trans hd)

theorem Coherent.knows (h : s.Coherent) {c : Container} (hc : s.HasBuilt c) : s.Knows c :=
  fun _ hreaches => h.hasBuilt_of_reaches hc hreaches

end Store

/-! ### Tidy processes -/

/-- What a thread that is in the midst of some things takes care of in an action. -/
def Action.Fair (s : Store) (os : List Opening) : Action → Prop
  | enter place => ∃ c o b, .holding c ∈ os ∧ c.Reaches o ∧ o.Owns place b
  | leave place => os.head? = some (.within place)
  | hold c => s.HasBuilt c
  | letGo c => os.head? = some (.holding c)
  | note (.built c) => os.head? = some (.numbering c.id) ∧ (∀ p ∈ c.parents, s.HasBuilt p ∧ p.id < c.id) ∧ c.Linked
  | note (.answered c k v) => ∀ o b, c.owner? k = some (o, b) → s.Standing o b v
  | postpone c _ => s.HasBuilt c
  | keep l v => ∀ cell, s.cells l.id = some cell → .answered cell.container cell.key v ∈ s.history ∧
      ∀ o b, cell.container.owner? cell.key = some (o, b) → .within (o.place b) ∉ os
  | _ => True

/-- A process comes out of a place and only says things before. -/
inductive Process.ComesOut {α : Type} (place : Address) : Process α → Prop
  | tell {e : Event} {next : Unit → Process α} (h : ComesOut place (next ())) : ComesOut place (.act (.tell e) next)
  | leave {next : Unit → Process α} : ComesOut place (.act (.leave place) next)

theorem Process.ComesOut.bind {α β : Type} {place : Address} {p : Process α} (h : p.ComesOut place)
    (f : α → Process β) : (p.bind f).ComesOut place := by
  induction h with
  | tell _ ih => exact .tell ih
  | leave => exact .leave

/-- A process that goes where a value is given comes out again at once. -/
def Action.Brief {α : Type} (s : Store) : (a : Action) → (a.Reply → Process α) → Prop
  | enter place, next => ∀ o b, s.HasBuilt o → o.Owns place b → b.isInstance = true → (next true).ComesOut place
  | _, _ => True

theorem Action.Brief.bind {α β : Type} {a : Action} {s : Store} {next : a.Reply → Process α} (h : a.Brief s next)
    (f : α → Process β) : a.Brief s fun r => (next r).bind f := by
  cases a with
  | enter place => exact fun o b ho hown hinstance => (h o b ho hown hinstance).bind f
  | _ => trivial

/-- An action that opens nothing does not go into a place. -/
theorem Action.brief_of_openings {α : Type} {a : Action} {os : List Opening}
    (h : ∀ r, (a.openings r os).length ≤ os.length) (s : Store) (next : a.Reply → Process α) : a.Brief s next := by
  cases a with
  | enter place => exact absurd (h true) (Nat.not_succ_le_self _)
  | _ => trivial

section

variable (me : Thread) (floor : List Opening)

/-- Whatever others do between its actions, a process takes care of what it should in each of them. It closes what it
opens, and nothing from below a floor; in the end just that is left, and its result is as it should be. -/
def Process.Tidy {α : Type} (post : α → Store → Prop) : Process α → List Opening → Store → Prop
  | done a, os, s => os = floor ∧ post a s
  | act a next, os, s => floor <:+ os ∧ ∀ t, s.Lasts t → t.Coherent → t.Shows me os →
      a.Fair t os ∧ a.Brief t next ∧ ∀ r u, a.perform me t = (u, some r) → t.Lasts u → u.Coherent →
        (next r).Tidy post (a.openings r os) u

/-- A tidy attempt of a thread that is in the midst of some things. A value that it gives satisfies the postcondition. -/
def Attempt.Tidy {ε α : Type} (os : List Opening) (s : Store) (x : Attempt ε α) (post : α → Store → Prop) : Prop :=
  x.run.Tidy me os (fun result t => ∀ a, result = .ok a → post a t) os s

end

variable {me : Thread} {s t : Store} {os floor : List Opening}

namespace Process.Tidy

variable {α β : Type} {p : Process α} {post mid : α → Store → Prop}

theorem mono (h : p.Tidy me floor post os s) (hpost : ∀ a t, s.Lasts t → post a s → post a t) (hst : s.Lasts t) :
    p.Tidy me floor post os t := by
  cases p with
  | done a => exact ⟨h.1, hpost a t hst h.2⟩
  | act a next => exact ⟨h.1, fun u htu => h.2 u (hst.trans htu)⟩

/-- A process goes on above its own floor from where another one has come back to. -/
protected theorem bind {upper : List Opening} {post : β → Store → Prop} (hp : p.Tidy me upper mid os s)
    (hfloor : floor <:+ upper) {f : α → Process β}
    (hf : ∀ a t, s.Lasts t → mid a t → (f a).Tidy me floor post upper t) : (p.bind f).Tidy me floor post os s := by
  induction p generalizing os s with
  | done a =>
      obtain ⟨rfl, ha⟩ := hp
      exact hf a s (.refl s) ha
  | act a next ih =>
      refine ⟨hfloor.trans hp.1, fun t hst ht hshows => ?_⟩
      obtain ⟨hfair, hbrief, hnext⟩ := hp.2 t hst ht hshows
      refine ⟨hfair, hbrief.bind f, fun r u hperform htu hu => ?_⟩
      exact ih r (hnext r u hperform htu hu) fun a v huv => hf a v ((hst.trans htu).trans huv)

end Process.Tidy

namespace Attempt

variable {ε ε' α β : Type} {x : Attempt ε α} {post post' mid : α → Store → Prop}

namespace Tidy

protected theorem pure {a : α} (h : post a s) : Tidy me os s (pure a : Attempt ε α) post :=
  ⟨rfl, by rintro _ ⟨⟩; exact h⟩

protected theorem throw (e : Stop ε) : Tidy me os s (throw e : Attempt ε α) post := ⟨rfl, nofun⟩

protected theorem fail (e : ε) : Tidy me os s (Attempt.fail e : Attempt ε α) post := .throw _

protected theorem bind {f : α → Attempt ε β} {post : β → Store → Prop} (hx : Tidy me os s x mid)
    (hf : ∀ a t, s.Lasts t → mid a t → Tidy me os t (f a) post) : Tidy me os s (x >>= f) post := by
  refine Process.Tidy.bind hx (List.suffix_refl _) fun result t hst hresult => ?_
  cases result with
  | ok a => exact hf a t hst (hresult a rfl)
  | error e => exact ⟨rfl, nofun⟩

theorem weaken (hx : Tidy me os s x post) (himp : ∀ a t, post a t → post' a t) : Tidy me os s x post' := by
  have hbind : Tidy me os s (x >>= pure) post' := hx.bind fun a t _ ha => .pure (himp a t ha)
  rwa [bind_pure] at hbind

protected theorem map {f : α → β} {post : β → Store → Prop} (hx : Tidy me os s x fun a t => post (f a) t) :
    Tidy me os s (f <$> x) post := by
  rw [← bind_pure_comp]
  exact hx.bind fun _ _ _ ha => .pure ha

protected theorem outcome (hx : Tidy me os s x post) :
    Tidy me os s (Attempt.outcome x : Attempt ε' (Except ε α)) fun r t => ∀ a, r = .ok a → post a t := by
  refine Process.Tidy.bind hx (List.suffix_refl _) fun result t _ hresult => ⟨rfl, ?_⟩
  rcases result with (e | message | _) | a <;> rintro _ ⟨⟩
  · exact nofun
  · rintro _ ⟨⟩
    exact hresult a rfl

protected theorem mapError (f : ε → ε') (hx : Tidy me os s x post) : Tidy me os s (Attempt.mapError f x) post := by
  refine Process.Tidy.bind hx (List.suffix_refl _) fun result t _ hresult => ⟨rfl, ?_⟩
  rcases result with e | a <;> rintro _ ⟨⟩
  exact hresult a rfl

/-- An action that opens and closes nothing. -/
theorem perform {a : Action} {post : a.Reply → Store → Prop} (hopenings : ∀ r, a.openings r os = os)
    (h : ∀ t, s.Lasts t → t.Coherent → t.Shows me os → a.Fair t os ∧
      ∀ r u, a.perform me t = (u, some r) → t.Lasts u → u.Coherent → post r u) :
    Tidy me os s (Attempt.perform a : Attempt ε a.Reply) post := by
  refine ⟨List.suffix_refl _, fun t hst ht hshows => ?_⟩
  obtain ⟨hfair, hpost⟩ := h t hst ht hshows
  have hlength (r) : (a.openings r os).length ≤ os.length := Nat.le_of_eq (congrArg List.length (hopenings r))
  refine ⟨hfair, Action.brief_of_openings hlength t _, fun r u hperform htu hu => ⟨hopenings r, ?_⟩⟩
  rintro _ ⟨⟩
  exact hpost r u hperform htu hu

/-- An action that opens and closes nothing, and needs no care. -/
theorem plain {a : Action} (hopenings : ∀ r, a.openings r os = os) (hfair : ∀ t, a.Fair t os) :
    Tidy me os s (Attempt.perform a : Attempt ε a.Reply) fun _ _ => True :=
  .perform hopenings fun t _ _ _ => ⟨hfair t, fun _ _ _ _ _ => trivial⟩

/-- The last action closes what was opened before an attempt, or nothing. -/
protected theorem closing {upper : List Opening} {last : Action} (hx : Tidy me upper s x post) (hupper : os <:+ upper)
    (hopenings : ∀ r, last.openings r upper = os) (hfair : ∀ t, last.Fair t upper)
    (hpost : ∀ a t u, t.Lasts u → post a t → post a u) :
    (Attempt.closing last x).run.Tidy me os (fun result t => ∀ a, result = .ok a → post a t) upper s := by
  refine Process.Tidy.bind hx hupper fun result t _ hresult => ⟨hupper, fun u htu _ _ => ⟨hfair u, ?_, ?_⟩⟩
  · exact Action.brief_of_openings (fun r => hopenings r ▸ hupper.length_le) u _
  · exact fun r v _ huv _ => ⟨hopenings r, fun a ha => hpost a t v (htu.trans huv) (hresult a ha)⟩

end Tidy

end Attempt

end Injection
