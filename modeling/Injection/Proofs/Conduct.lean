import Injection.Proofs.Moments
import Injection.Proofs.Slack

/-!
What requests do and leave alone on their way. Whatever providers ask for, within a depth that leaves room for all that
is not under construction, no request comes to the end of its depth, and at every moment there is room for what is under
construction. Requests go to ancestors, to containers that are built on the way, and to those that lazy handles lead to,
which the run obtained or found in its values; so they leave a container alone that neither is reached from where they
start.
-/

namespace Injection

variable {me : Thread} {s t : Store}

/-! ### What a thread may do -/

/-- Whether an action can be the first one of a request or of the use of a lazy handle: it goes into a construction or
tells of an error, makes a handle, or looks up what one has found. -/
def Action.isRequest : Action → Bool
  | enter _ => true
  | tell e => e.level = .error
  | postpone _ _ => true
  | remember _ => true
  | _ => false

/-- A thread goes into constructions of own bindings only, and of no container that it is to shun; it makes requests only
when its store is sheltered; and whatever it does, there is room for what it has under construction. -/
structure Allowed (me : Thread) (shun : Nat → Prop) (a : Action) (s : Store) : Prop where
  roomy : Roomy me s
  sheltered : a.isRequest = true → Sheltered me s
  entering : ∀ place, a = .enter place → ¬ shun place.container ∧ ∃ o b, s.HasBuilt o ∧ o.Owns place b

theorem Roomy.allowed (h : Roomy me s) {shun : Nat → Prop} {a : Action} (ha : a.isRequest = false) :
    Allowed me shun a s :=
  ⟨h, fun hrequest => absurd (ha.symm.trans hrequest) Bool.false_ne_true, by rintro place rfl; cases ha⟩

theorem Sheltered.allowed (h : Sheltered me s) {shun : Nat → Prop} {a : Action} (ha : ∀ place, a ≠ .enter place) :
    Allowed me shun a s :=
  ⟨h.roomy, fun _ => h, fun place heq => absurd heq (ha place)⟩

/-- An attempt does only what is allowed, comes to an end within its depth, lets go of all that it takes hold of, and
leaves alone the places of the containers that it is to shun. A value that it gives satisfies the postcondition. -/
structure Heeds {ε α : Type} (me : Thread) (shun : Nat → Prop) (s : Store) (x : Attempt ε α)
    (post : α → Store → Prop) : Prop where
  turns : ∀ turn ∈ x.turns me s, Allowed me shun turn.1 turn.2
  ended : (x.eval me s).1 ≠ .error .exhausted
  held : (x.eval me s).2.held = s.held
  shunned : ∀ p : Address, shun p.container →
    (x.eval me s).2.slots.slot p = s.slots.slot p ∧ (x.eval me s).2.chronicle p = s.chronicle p
  result : ∀ a, (x.eval me s).1 = .ok a → post a (x.eval me s).2

namespace Heeds

variable {ε ε' α β : Type} {shun : Nat → Prop} {x : Attempt ε α} {post post' : α → Store → Prop}

protected theorem pure {a : α} (hpost : post a s) : Heeds me shun s (pure a : Attempt ε α) post where
  turns := by simp
  ended := by simp
  held := rfl
  shunned _ _ := ⟨rfl, rfl⟩
  result := by
    rintro _ ⟨⟩
    exact hpost

protected theorem throw {e : Stop ε} (he : e ≠ .exhausted) : Heeds me shun s (throw e : Attempt ε α) post where
  turns := by simp
  ended := by simpa using he
  held := rfl
  shunned _ _ := ⟨rfl, rfl⟩
  result := by rintro _ ⟨⟩

protected theorem fail (e : ε) : Heeds me shun s (Attempt.fail e : Attempt ε α) post := .throw (by simp)

theorem weaken (h : Heeds me shun s x post) (himp : ∀ a t, post a t → post' a t) : Heeds me shun s x post' :=
  ⟨h.turns, h.ended, h.held, h.shunned, fun a ha => himp a _ (h.result a ha)⟩

/-- An action that leaves all places alone, and does not go into any. -/
theorem perform (h : Sheltered me s) {a : Action} (ha : ∀ place, a ≠ .enter place)
    (hheld : (a.after me s).held = s.held) (hslots : (a.after me s).slots = s.slots)
    (hchronicle : ∀ p, (a.after me s).chronicle p = s.chronicle p) :
    Heeds me shun s (Attempt.perform a : Attempt ε a.Reply) fun _ _ => True where
  turns := by simpa using h.allowed ha
  ended := by simp [Attempt.eval_perform]
  held := hheld
  shunned p _ := ⟨congrFun (congrArg Slots.slot hslots) p, hchronicle p⟩
  result _ _ := trivial

protected theorem bind {f : α → Attempt ε β} {post : β → Store → Prop} {mid mid' : α → Store → Prop}
    (hs : Sheltered me s) (h : Heeds me shun s x mid) (hx : Sound me s x mid')
    (hf : ∀ a t, Sheltered me t → Evolves me s t → t.held = s.held → mid a t → mid' a t → Heeds me shun t (f a) post) :
    Heeds me shun s (x >>= f) post := by
  obtain ⟨hturns, hended, hheld, hshunned, hresult⟩ := h
  obtain ⟨hconsistent, hevolves, hresult'⟩ := hx
  rcases heval : x.eval me s with ⟨e | a, t⟩ <;>
    rw [heval] at hended hheld hshunned hresult hconsistent hevolves hresult'
  · have hbind : (x >>= f).eval me s = (.error e, t) := by rw [Attempt.eval_bind, heval]
    refine ⟨?_, ?_, ?_, ?_, ?_⟩
    · rw [Attempt.turns_bind, heval, List.append_nil]
      exact hturns
    all_goals rw [hbind]
    · simpa using hended
    · exact hheld
    · exact hshunned
    · rintro _ ⟨⟩
  · have hbind : (x >>= f).eval me s = (f a).eval me t := by rw [Attempt.eval_bind, heval]
    have hrest := hf a t (hs.mono hconsistent hevolves hheld) hevolves hheld (hresult a rfl) (hresult' a rfl)
    refine ⟨?_, ?_, ?_, ?_, ?_⟩
    · rw [Attempt.turns_bind, heval]
      exact List.forall_mem_append.2 ⟨hturns, hrest.turns⟩
    all_goals rw [hbind]
    · exact hrest.ended
    · exact hrest.held.trans hheld
    · intro p hp
      exact ⟨(hrest.shunned p hp).1.trans (hshunned p hp).1, (hrest.shunned p hp).2.trans (hshunned p hp).2⟩
    · exact hrest.result

/-- An attempt that does the same as another one and only puts its result in other terms. -/
theorem revise (h : Heeds me shun s x post) {y : Attempt ε' β} {post' : β → Store → Prop}
    (hturns : y.turns me s = x.turns me s) (hstore : (y.eval me s).2 = (x.eval me s).2)
    (hended : (y.eval me s).1 = .error .exhausted → (x.eval me s).1 = .error .exhausted)
    (hresult : ∀ b, (y.eval me s).1 = .ok b → post' b (x.eval me s).2) : Heeds me shun s y post' where
  turns := hturns ▸ h.turns
  ended hy := h.ended (hended hy)
  held := hstore ▸ h.held
  shunned := hstore ▸ h.shunned
  result b hb := hstore ▸ hresult b hb

protected theorem map {f : α → β} {post : β → Store → Prop} (h : Heeds me shun s x fun a t => post (f a) t) :
    Heeds me shun s (f <$> x) post := by
  have hresult := h.result
  refine h.revise ?_ ?_ ?_ ?_
  · rw [← bind_pure_comp, Attempt.turns_bind]
    rcases x.eval me s with ⟨_ | a, t⟩ <;> simp
  all_goals rw [Attempt.eval_map]
  · rcases (x.eval me s).1 with e | a
    · exact fun heq => congrArg Except.error (Except.error.inj heq)
    · rintro ⟨⟩
  · rcases hx : (x.eval me s).1 with e | a
    · rintro _ ⟨⟩
    · rintro _ ⟨⟩
      exact hresult a hx

protected theorem outcome (h : Heeds me shun s x post) :
    Heeds me shun s (Attempt.outcome x : Attempt ε' (Except ε α)) fun r t => ∀ a, r = .ok a → post a t := by
  have hresult := h.result
  refine h.revise (Attempt.turns_outcome x me s) ?_ ?_ ?_ <;> rw [Attempt.eval_outcome] <;>
    rcases hx : x.eval me s with ⟨(e | m | _) | a, t⟩ <;> rw [hx] at hresult <;> simp
  exact hresult a rfl

protected theorem mapError (f : ε → ε') (h : Heeds me shun s x post) :
    Heeds me shun s (Attempt.mapError f x) post := by
  have hresult := h.result
  refine h.revise (Attempt.turns_mapError f x me s) ?_ ?_ ?_ <;> rw [Attempt.eval_mapError]
  · rcases (x.eval me s).1 with (e | m | _) | a <;> simp [Except.mapError, Stop.map]
  · rcases hx : (x.eval me s).1 with (e | m | _) | a <;> rw [hx] at hresult <;> simp [Except.mapError]
    exact hresult a rfl

/-- Going on after an action that changed nothing. -/
theorem after {a : Action} {r : a.Reply} (h : Sheltered me s) (ha : ∀ place, a ≠ .enter place)
    (hperform : a.performAlone me s = (r, s)) {f : a.Reply → Attempt ε α} (hf : Heeds me shun s (f r) post) :
    Heeds me shun s (Attempt.perform a >>= f) post := by
  have hperform' : (Attempt.perform a : Attempt ε a.Reply).eval me s = (.ok r, s) := by
    rw [Attempt.eval_perform, hperform]
  have heval : (Attempt.perform a >>= f).eval me s = (f r).eval me s := by rw [Attempt.eval_bind, hperform']
  refine ⟨?_, heval ▸ hf.ended, heval ▸ hf.held, heval ▸ hf.shunned, heval ▸ hf.result⟩
  rw [Attempt.turns_bind, hperform', Attempt.turns_perform]
  exact List.forall_mem_cons.2 ⟨h.allowed ha, hf.turns⟩

/-- Taking hold of a container for as long as an attempt lasts. -/
theorem holding (h : Sheltered me s) {a : Action} {r : a.Reply} {c : Container} (hc : s.HasBuilt c)
    (ha : ∀ place, a ≠ .enter place) (hperform : a.performAlone me s = (r, s.hold c)) {f : a.Reply → Attempt ε α}
    (hf : f r = Attempt.closing (.letGo c) x) {mid : α → Store → Prop} (hsound : Sound me (s.hold c) x mid)
    (hx : Heeds me shun (s.hold c) x post) (hpost : ∀ a t, post a t → post a (t.letGo c)) :
    Heeds me shun s (Attempt.perform a >>= f) post := by
  have hend : Sheltered me (x.eval me (s.hold c)).2 := (h.hold hc).mono hsound.consistent hsound.evolves hx.held
  have hperform' : (Attempt.perform a : Attempt ε a.Reply).eval me s = (.ok r, s.hold c) := by
    rw [Attempt.eval_perform, hperform]
  have heval : (Attempt.perform a >>= f).eval me s =
      ((x.eval me (s.hold c)).1, (x.eval me (s.hold c)).2.letGo c) := by
    rw [Attempt.eval_bind, hperform']
    dsimp only
    rw [hf, Attempt.eval_closing, Action.after_letGo]
  refine ⟨?_, ?_, ?_, ?_, ?_⟩
  · rw [Attempt.turns_bind, hperform']
    dsimp only
    rw [hf, Attempt.turns_perform, Attempt.turns_closing]
    have hlast : Allowed me shun (.letGo c) (x.eval me (s.hold c)).2 := hend.allowed (by simp)
    refine List.forall_mem_append.2 ⟨?_, List.forall_mem_append.2 ⟨hx.turns, ?_⟩⟩
    · simpa using h.allowed ha
    · simpa using hlast
  all_goals rw [heval]
  · exact hx.ended
  · have hheld : (x.eval me (s.hold c)).2.held = c :: s.held := hx.held
    simp [Store.letGo, hheld]
  · exact hx.shunned
  · exact fun a ha => hpost a _ (hx.result a ha)

end Heeds

/-! ### Where requests may go -/

/-- A container that requests may come to: also with bindings of so much weight below it, all that can be constructed
there fits into the depth, and neither the container nor an ancestor is to be shunned. -/
structure Near (me : Thread) (bound : Option Nat) (shun : Nat → Prop) (weight : Nat) (s : Store) (c : Container) :
    Prop where
  hasBuilt : s.HasBuilt c
  fits : ∀ depth ∈ bound, c.slack (s.building me) + weight < depth
  apart : ∀ a, c.Reaches a → ¬ shun a.id
  old : ∀ id, shun id → id < s.identities

/-- A container that somebody holds, by itself or through one below it, and that requests may come to now. -/
structure Here (me : Thread) (bound : Option Nat) (shun : Nat → Prop) (weight : Nat) (s : Store) (c : Container) :
    Prop where
  sheltered : Sheltered me s
  near : Near me bound shun weight s c
  alive : ∃ d ∈ s.held, d.Reaches c

/-- A lazy handle that leads to a container that requests may come to, if it is alive. -/
def Leads (me : Thread) (bound : Option Nat) (shun : Nat → Prop) (s : Store) (l : Lazy) : Prop :=
  ∃ cell, s.cells l.id = some cell ∧ Near me bound shun 0 s cell.container

variable {bound : Option Nat} {shun : Nat → Prop} {weight less : Nat} {c a d : Container}

namespace Near

theorem mono (h : Near me bound shun weight s c) (hevolves : Evolves me s t) : Near me bound shun weight t c where
  hasBuilt := hevolves.hasBuilt h.hasBuilt
  fits := hevolves.building ▸ h.fits
  apart := h.apart
  old id hid := Nat.lt_of_lt_of_le (h.old id hid) hevolves.identities

theorem lighten (h : Near me bound shun weight s c) (hle : less ≤ weight) : Near me bound shun less s c :=
  ⟨h.hasBuilt, fun depth hdepth => Nat.lt_of_le_of_lt (Nat.add_le_add_left hle _) (h.fits depth hdepth), h.apart, h.old⟩

theorem of_reaches (h : Near me bound shun weight s c) (hs : Consistent me s) (hreaches : c.Reaches a) :
    Near me bound shun weight s a where
  hasBuilt := hs.hasBuilt_of_reaches h.hasBuilt hreaches
  fits depth hdepth :=
    Nat.lt_of_le_of_lt (Nat.add_le_add_right (Container.slack_le_of_reaches hs.family h.hasBuilt hreaches) _)
      (h.fits depth hdepth)
  apart d hd := h.apart d (hreaches.trans hd)
  old := h.old

/-- A container that is built below another one, with bindings of the weight that there is room for. -/
theorem below (h : Near me bound shun weight s c) (hevolves : Evolves me s t) (ht : Consistent me t)
    (hd : t.HasBuilt d) (hnew : s.identities ≤ d.id) (hparents : d.parents = [c]) (hweight : d.ownWeight ≤ weight) :
    Near me bound shun 0 t d where
  hasBuilt := hd
  fits depth hdepth := by
    have hslack := Container.slack_le_of_parents (t.building me) ht.family hd hparents
    have := (h.mono hevolves).fits depth hdepth
    omega
  apart a hreaches hshun := by
    cases hreaches with
    | refl => exact absurd (h.old d.id hshun) (by omega)
    | up hparent hrest =>
        rw [hparents, List.mem_singleton] at hparent
        exact h.apart a (hparent ▸ hrest) hshun
  old := (h.mono hevolves).old

end Near

namespace Here

theorem mono (h : Here me bound shun weight s c) (ht : Sheltered me t) (hevolves : Evolves me s t)
    (hheld : t.held = s.held) : Here me bound shun weight t c :=
  ⟨ht, h.near.mono hevolves, hheld ▸ h.alive⟩

theorem lighten (h : Here me bound shun weight s c) (hle : less ≤ weight) : Here me bound shun less s c :=
  ⟨h.sheltered, h.near.lighten hle, h.alive⟩

theorem of_reaches (h : Here me bound shun weight s c) (hreaches : c.Reaches a) : Here me bound shun weight s a :=
  ⟨h.sheltered, h.near.of_reaches h.sheltered.consistent hreaches,
    h.alive.imp fun _ => And.imp_right (·.trans hreaches)⟩

/-- Who takes hold of a container keeps it alive. -/
theorem hold (hs : Sheltered me s) (hc : Near me bound shun weight s c) : Here me bound shun weight (s.hold c) c :=
  have halike : Alike s (s.hold c) := ⟨rfl, rfl, rfl, rfl, rfl⟩
  ⟨hs.hold hc.hasBuilt, hc.mono halike.evolves, c, List.mem_cons_self, .refl c⟩

end Here

theorem Leads.mono {l : Lazy} (h : Leads me bound shun s l) (hevolves : Evolves me s t) : Leads me bound shun t l := by
  obtain ⟨cell, hcell, hnear⟩ := h
  obtain ⟨found, hcell'⟩ := hevolves.cells l.id cell hcell
  exact ⟨_, hcell', hnear.mono hevolves⟩

theorem Leads.near {l : Lazy} (h : Leads me bound shun s l) {cell : Cell} (hcell : s.cells l.id = some cell) :
    Near me bound shun 0 s cell.container := by
  obtain ⟨cell', hcell', hnear⟩ := h
  obtain rfl := Option.some.inj (hcell.symm.trans hcell')
  exact hnear


/-! ### Actions -/

section Actions

variable {ε : Type} (h : Sheltered me s)
include h

theorem heeds_tell (level : Level) (message : String) :
    Heeds me shun s (Attempt.tell level message : Attempt ε Unit) fun _ _ => True :=
  .perform h (by simp) rfl rfl fun _ => rfl

theorem heeds_tell? (e : Option Event) : Heeds me shun s (Attempt.tell? e : Attempt ε Unit) fun _ _ => True := by
  cases e with
  | none => exact .pure trivial
  | some e => exact heeds_tell h e.level e.message

theorem heeds_nextSerial : Heeds me shun s (Attempt.nextSerial : Attempt ε Nat) fun _ _ => True :=
  .perform h (by simp) rfl rfl fun _ => rfl

theorem heeds_numberConfigs : Heeds me shun s (Attempt.numberConfigs : Attempt ε Nat) fun _ _ => True :=
  .perform h (by simp) rfl rfl fun _ => rfl

theorem heeds_leadsUp (l : Lazy) (c : Container) :
    Heeds me shun s (Attempt.leadsUp l c : Attempt ε Bool) fun _ _ => True :=
  .perform h (by simp) rfl rfl fun _ => rfl

theorem heeds_arrive (gate : String) : Heeds me shun s (Attempt.arrive gate : Attempt ε Unit) fun _ _ => True :=
  .perform h (by simp) rfl rfl fun _ => rfl

theorem heeds_await (gate : String) (count : Nat) :
    Heeds me shun s (Attempt.await gate count : Attempt ε Unit) fun _ _ => True := by
  have hafter : (Action.await gate count).after me s = s :=
    congrArg Prod.snd (Attempt.eval_await (ε := ε) gate count me s)
  refine .perform h (by simp) ?_ ?_ fun _ => ?_ <;> rw [hafter]

theorem heeds_postpone (hc : Near me bound shun 0 s c) (k : Key) :
    Heeds me shun s (Attempt.postpone c k : Attempt ε Lazy) fun l t => Leads me bound shun t l := by
  have hevolves := (h.consistent.postpone hc.hasBuilt k).evolves
  have hperform : Heeds me shun s (Attempt.postpone c k : Attempt ε Lazy) fun _ _ => True :=
    .perform h (by simp) rfl rfl fun _ => rfl
  refine ⟨hperform.turns, hperform.ended, hperform.held, hperform.shunned, ?_⟩
  rintro l ⟨⟩
  exact ⟨⟨c, k, none⟩, setAt_self _ _ _, hc.mono hevolves⟩

theorem heeds_remember (l : Lazy) :
    Heeds me shun s (Attempt.remember l : Attempt ε (Option Value)) fun _ _ => True := by
  have hafter : (Action.remember l).after me s = (s.remember l).1 := rfl
  refine .perform h (by simp) ?_ ?_ fun p => ?_ <;> rw [hafter, Store.remember] <;> split
  all_goals first | rfl | (split <;> rfl)

theorem heeds_keep (l : Lazy) (v : Value) : Heeds me shun s (Attempt.keep l v : Attempt ε Value) fun _ _ => True := by
  have hafter : (Action.keep l v).after me s = (s.keep l v).1 := rfl
  refine .perform h (by simp) ?_ ?_ fun p => ?_ <;> rw [hafter, Store.keep] <;> split <;> rfl

end Actions

/-! ### Builders -/

section Builders

variable {ε : Type}

theorem heeds_tellAll (h : Sheltered me s) (es : List Event) :
    Heeds me shun s (Attempt.tellAll es : Attempt ε Unit) fun _ _ => True := by
  induction es generalizing s with
  | nil => exact .pure trivial
  | cons e es ih =>
      exact (heeds_tell h e.level e.message).bind h (sound_tell h.consistent _ _) fun _ _ ht _ _ _ _ => ih ht

theorem heeds_make (h : Sheltered me s) (draft : Draft) :
    Heeds me shun s (draft.make : Attempt ε Binding) fun b _ => b.weight = draft.weight := by
  unfold BindingOf.make
  split
  · exact (heeds_nextSerial h).bind h (sound_nextSerial h.consistent) fun serial _ _ _ _ _ _ =>
      .pure (BindingOf.weight_realize draft serial)
  · exact .pure (BindingOf.weight_realize draft 0)

theorem Builder.weight_add {b : Builder} (hb : b.registry.keys.Nodup) (binding : Binding) :
    (b.add binding).parents = b.parents ∧ (b.add binding).registry.weight ≤ b.registry.weight + binding.weight := by
  rw [Builder.add, Builder.tryAdd]
  rcases hregister : b.registry.register binding with e | registry
  · exact ⟨rfl, Nat.le_add_right _ _⟩
  · exact ⟨rfl, Registry.weight_register hb hregister⟩

/-- Turning drafts into bindings adds no more than their weight to a registry. -/
theorem heeds_addDrafts (h : Sheltered me s) {b : Builder} (hb : b.Proper s) (drafts : List Draft) :
    Heeds me shun s (b.addDrafts drafts : Attempt ε Builder) fun b' _ =>
      b'.parents = b.parents ∧ b'.registry.weight ≤ b.registry.weight + Drafts.weight drafts := by
  induction drafts generalizing s b with
  | nil => exact .pure ⟨rfl, Nat.le_add_right _ _⟩
  | cons draft drafts ih =>
      have hdraft : Heeds me shun s (b.addDraft draft : Attempt ε Builder) fun b' _ =>
          b'.parents = b.parents ∧ b'.registry.weight ≤ b.registry.weight + draft.weight := by
        refine (heeds_make h draft).bind h (sound_make h.consistent draft) fun binding t ht _ _ hweight _ => ?_
        refine (heeds_tell? ht _).bind ht (sound_tell? ht.consistent _) fun _ _ _ _ _ _ _ => .pure ?_
        exact hweight ▸ Builder.weight_add hb.distinct binding
      refine hdraft.bind h (sound_addDraft h.consistent hb draft) fun b' t ht _ _ hadded hb' => ?_
      refine (ih ht hb').weaken fun last _ hlast => ⟨hlast.1.trans hadded.1, ?_⟩
      rw [Drafts.weight_cons]
      have := hadded.2
      have := hlast.2
      omega

theorem heeds_build (h : Sheltered me s) (b : Builder) :
    Heeds me shun s b.build fun c _ => s.identities ≤ c.id ∧ c.parents = b.parents ∧ c.registry = b.registry := by
  unfold Builder.build
  split
  · exact .fail _
  · refine (heeds_tell h _ _).bind h (sound_tell h.consistent _ _) fun _ t₁ h₁ hst₁ _ _ _ => ?_
    refine (heeds_tellAll h₁ _).bind h₁ (sound_tellAll h₁.consistent _) fun _ t₂ h₂ hst₂ _ _ _ => ?_
    split
    · exact .fail _
    · next graph hlink =>
      refine (heeds_tell h₂ _ _).bind h₂ (sound_tell h₂.consistent _ _) fun _ t₃ h₃ hst₃ _ _ _ => ?_
      have hle := ((hst₁.trans hst₂).trans hst₃).identities
      have hnumbered : Roomy me t₃.nextIdentity.1 := h₃.roomy.congr rfl rfl
      refine ⟨?_, nofun, rfl, fun p _ => ⟨rfl, ?_⟩, ?_⟩
      · exact List.forall_mem_cons.2 ⟨h₃.allowed (by simp),
          List.forall_mem_cons.2 ⟨hnumbered.allowed rfl, List.forall_mem_nil _⟩⟩
      · exact List.filter_cons_of_neg (by simp)
      · rintro c ⟨⟩
        exact ⟨hle, rfl, rfl⟩

end Builders

/-! ### Requests on the way -/

/-- Requests for keys at any container that they may come to do what they should. -/
def Lookup.Heeds (me : Thread) (bound : Option Nat) (shun : Nat → Prop) (require : Lookup) : Prop :=
  ∀ (s : Store) (c : Container) (k : Key), Here me bound shun 0 s c →
    Injection.Heeds me shun s (require c k) fun _ _ => True

/-- All lazy handles that a run has obtained lead to containers that requests may come to. -/
def Progress.Leads (me : Thread) (bound : Option Nat) (shun : Nat → Prop) (s : Store) (p : Progress) : Prop :=
  ∀ l ∈ p.lazies, Injection.Leads me bound shun s l

theorem Progress.Leads.mono {p : Progress} (h : p.Leads me bound shun s) (hevolves : Evolves me s t) :
    p.Leads me bound shun t :=
  fun l hl => (h l hl).mono hevolves

theorem heeds_pursue {request : Attempt Failure Resolved} (h : Sheltered me s)
    {brings : Resolved → Store → Prop} (hsound : Sound me s request brings)
    (hrequest : Heeds me shun s request fun r t => ∀ l ∈ r.lazy?, Leads me bound shun t l) {p : Progress}
    (hp : p.Leads me bound shun s) (catches : Bool) :
    Heeds me shun s (p.pursue catches request) fun p t => p.Leads me bound shun t := by
  refine hrequest.outcome.bind h hsound.outcome fun result t ht hst _ hresult _ => ?_
  have hp := hp.mono hst
  cases result with
  | ok r =>
      refine .pure fun l hl => ?_
      rcases List.mem_append.1 hl with hl | hl
      · exact hp l hl
      · exact hresult r rfl l (by simpa using hl)
  | error f =>
      dsimp only
      split
      · exact .pure hp
      · exact .fail _

theorem heeds_innerHandle (h : Sheltered me s) (a : Handle) (p : Progress) (value index : Nat) :
    Heeds me shun s (a.innerHandle p value index) fun _ _ => True := by
  unfold Handle.innerHandle
  split
  · exact .fail _
  · refine (heeds_leadsUp h _ _).bind h (sound_leadsUp h.consistent _ _) fun _ _ _ _ _ _ _ => ?_
    split
    · exact .pure trivial
    · exact .fail _

theorem heeds_addConfig (h : Sheltered me s) {p : Progress} (hp : p.Leads me bound shun s) (type : TypeInfo)
    (tag : String) : Heeds me shun s (p.addConfig type tag) fun p t => p.Leads me bound shun t := by
  refine (heeds_nextSerial h).bind h (sound_nextSerial h.consistent) fun _ t ht hst _ _ _ => ?_
  split
  · exact .fail _
  · exact (heeds_tell ht _ _).bind ht (sound_tell ht.consistent _ _) fun _ _ _ htu _ _ _ =>
      .pure (hp.mono (hst.trans htu))

theorem heeds_mint (h : Sheltered me s) (c : Container) (k : Key) (r : Recipe Step) (p : Progress) (serial : Nat) :
    Heeds me shun s (r.mint c k p serial) fun _ _ => True := by
  unfold Recipe.mint
  split
  · exact (heeds_numberConfigs h).bind h (sound_numberConfigs h.consistent) fun _ _ _ _ _ _ _ => .pure trivial
  · exact .pure trivial

section Lookup

variable {require : Lookup} (hsound : require.Sound me) (hheeds : require.Heeds me bound shun)
include hsound hheeds

theorem heeds_typed (h : Here me bound shun 0 s c) (k : Key) : Heeds me shun s (require.typed c k) fun _ _ => True := by
  refine (hheeds s c k h).bind h.sheltered (hsound s c k h.sheltered.consistent h.near.hasBuilt)
    fun v _ _ _ _ _ _ => ?_
  split
  · exact .pure trivial
  · exact .fail _

theorem heeds_config (h : Here me bound shun 0 s c) (type : TypeInfo) :
    Heeds me shun s (require.config c type) fun _ _ => True := by
  rw [Lookup.config_eq]
  refine (heeds_typed hsound hheeds h .configs).bind h.sheltered
    (sound_typed hsound h.sheltered.consistent h.near.hasBuilt .configs) fun _ _ _ _ _ _ _ => ?_
  split
  · exact .pure trivial
  · exact .fail _

theorem heeds_get (h : Sheltered me s) {l : Lazy}
    (hl : ∀ cell, s.cells l.id = some cell → cell.found = none → s.isAlive cell.container.id = true →
      Near me bound shun 0 s cell.container) : Heeds me shun s (l.get require) fun _ _ => True := by
  refine (heeds_remember h l).bind h (sound_remember h.consistent l) fun found t ht hst _ _ hfound => ?_
  split
  · exact .pure trivial
  obtain ⟨rfl, hnone⟩ := hfound.2 rfl
  have hperform : (Action.reclaim l).performAlone me t = ((t.reclaim l).2, (t.reclaim l).1) := rfl
  rcases hcell : t.cells l.id with _ | cell
  · have hreclaim : t.reclaim l = (t, none) := by simp [Store.reclaim, hcell]
    rw [hreclaim] at hperform
    exact .after ht (by simp) hperform (.fail _)
  by_cases halive : t.isAlive cell.container.id
  · have hreclaim : t.reclaim l = (t.hold cell.container, some cell) := by simp [Store.reclaim, hcell, halive]
    rw [hreclaim] at hperform
    have hnear := hl cell hcell (hnone cell hcell) halive
    have hhere := Here.hold ht hnear
    have hbuilt := hhere.near.hasBuilt
    have hu := hhere.sheltered
    have hlookUp := sound_lookUp hsound hu.consistent hbuilt hcell (hnone cell hcell)
    refine .holding ht hnear.hasBuilt (by simp) hperform rfl hlookUp ?_ fun _ _ h => h
    exact (heeds_typed hsound hheeds hhere cell.key).bind hu (sound_typed hsound hu.consistent hbuilt cell.key)
      fun v w hw _ _ _ _ => heeds_keep hw l v
  · have hreclaim : t.reclaim l = (t, none) := by simp [Store.reclaim, hcell, halive]
    rw [hreclaim] at hperform
    exact .after ht (by simp) hperform (.fail _)

theorem heeds_resolve (h : Here me bound shun 0 s c) (r : Resolver) :
    Heeds me shun s (r.resolve require c) fun r t => ∀ l ∈ r.lazy?, Leads me bound shun t l := by
  have hs := h.sheltered.consistent
  have hc := h.near.hasBuilt
  induction r with
  | value k =>
      exact (heeds_typed hsound hheeds h k).bind h.sheltered (sound_typed hsound hs hc k) fun _ _ _ _ _ _ _ =>
        .pure (by simp [Resolved.lazy?])
  | deferred type =>
      refine (heeds_postpone h.sheltered h.near _).bind h.sheltered (sound_postpone hs hc _) fun l t _ _ _ hl _ => ?_
      exact .pure (by simpa [Resolved.lazy?] using hl)
  | config type =>
      exact (heeds_config hsound hheeds h type).bind h.sheltered (sound_config hsound hs hc type)
        fun _ _ _ _ _ _ _ => .pure (by simp [Resolved.lazy?])
  | optional inner ih =>
      refine ih.outcome.bind h.sheltered (sound_resolve hsound hs hc inner).outcome fun result t _ _ _ hresult _ => ?_
      cases result with
      | ok r => exact .pure (hresult r rfl)
      | error f =>
          dsimp only
          split
          · exact .pure (by simp [Resolved.lazy?])
          · exact .fail _

theorem heeds_request (h : Here me bound shun 0 s c) (requester : Option Key) (r : Request) :
    Heeds me shun s (Handle.request require ⟨c, requester⟩ r) fun r t => ∀ l ∈ r.lazy?, Leads me bound shun t l := by
  cases r with
  | resolve r => exact heeds_resolve hsound hheeds h r
  | untyped k =>
      exact (hheeds s c k h).bind h.sheltered (hsound s c k h.sheltered.consistent h.near.hasBuilt)
        fun _ _ _ _ _ _ _ => .pure (by simp [Resolved.lazy?])
  | requester => exact .pure (by simp [Resolved.lazy?])

theorem heeds_constructAll (h : Here me bound shun 0 s c) (total done : Nat) (ks : List Key) :
    Heeds me shun s (constructAll require c total done ks) fun _ _ => True := by
  induction ks generalizing s done with
  | nil => exact .pure trivial
  | cons k ks ih =>
      refine (heeds_tell h.sheltered _ _).bind h.sheltered (sound_tell h.sheltered.consistent _ _)
        fun _ t ht hst hheld _ _ => ?_
      have hct := h.mono ht hst hheld
      refine (hheeds t c k hct).outcome.bind ht (hsound t c k ht.consistent hct.near.hasBuilt).outcome
        fun result u hu htu hheld _ _ => ?_
      cases result with
      | ok v => exact ih (hct.mono hu htu hheld) (done + 1)
      | error f => exact (heeds_tell hu _ _).bind hu (sound_tell hu.consistent _ _) fun _ _ _ _ _ _ _ => .fail _

theorem heeds_initiate (h : Here me bound shun 0 s c) : Heeds me shun s (c.initiate require) fun _ _ => True := by
  unfold Container.initiate
  split
  · exact .fail _
  · refine (heeds_tell h.sheltered _ _).bind h.sheltered (sound_tell h.sheltered.consistent _ _)
      fun _ t ht hst hheld _ _ => ?_
    have hct := h.mono ht hst hheld
    refine (heeds_constructAll hsound hheeds hct _ _ _).bind ht
      (sound_constructAll hsound ht.consistent hct.near.hasBuilt _ _ _) fun _ u hu _ _ _ _ => ?_
    exact heeds_tell hu _ _

theorem heeds_buildThen {ε α : Type} (h : Sheltered me s) {b : Builder} (hb : b.Proper s)
    (hborn : ∀ t d, Consistent me t → Evolves me s t → t.HasBuilt d → s.identities ≤ d.id → d.parents = b.parents →
      d.registry = b.registry → Near me bound shun 0 t d) (wrap : BuildError → ε) (eager : Bool)
    {next : Container → Attempt ε α} {post mid : α → Store → Prop}
    (hnext : ∀ t d, Here me bound shun 0 t d → Evolves me s t → Heeds me shun t (next d) post)
    (hnext' : ∀ t d, Consistent me t → t.HasBuilt d → Sound me t (next d) mid)
    (hpost : ∀ d a t, post a t → post a (t.letGo d)) : Heeds me shun s (b.buildThen require wrap eager next) post := by
  refine ((heeds_build h b).mapError wrap).bind h ((sound_build h.consistent hb).mapError wrap)
    fun d t ht hst _ hnew hd => ?_
  have hnear : Near me bound shun 0 t d := hborn t d ht.consistent hst hd hnew.1 hnew.2.1 hnew.2.2
  have hhere := Here.hold ht hnear
  have hsu : Evolves me s (t.hold d) :=
    hst.trans (Alike.evolves (s := t) ⟨rfl, rfl, rfl, rfl, rfl⟩)
  have hu := hhere.sheltered.consistent
  have hbuilt := hhere.near.hasBuilt
  refine .holding ht hd (by simp) rfl rfl (sound_goOn hsound hu hbuilt wrap eager hnext') ?_ (hpost d)
  split
  · refine ((heeds_initiate hsound hheeds hhere).mapError wrap).bind hhere.sheltered
      ((sound_initiate hsound hu hbuilt).mapError wrap) fun _ w hw huw hheld _ _ => ?_
    exact hnext w d (hhere.mono hw huw hheld) (hsu.trans huw)
  · exact hnext _ d hhere hsu

theorem heeds_nest (h : Here me bound shun weight s c) (requester : Option Key) {p : Progress}
    (hp : p.Leads me bound shun s) {drafts : List Draft} (hweight : Drafts.weight drafts ≤ weight) (eager : Bool)
    (r : Request) (catches : Bool) : Heeds me shun s (Handle.nest require ⟨c, requester⟩ p drafts eager r catches)
      fun p t => p.Leads me bound shun t := by
  have hproper : ((Builder.below c).withLabel "sub").Proper s :=
    ⟨(Builder.proper_below h.near.hasBuilt).distinct, (Builder.proper_below h.near.hasBuilt).parents⟩
  refine (heeds_addDrafts h.sheltered hproper drafts).bind h.sheltered
    (sound_addDrafts h.sheltered.consistent hproper drafts) fun b t ht hst hheld hadded hb => ?_
  have hhere := h.mono ht hst hheld
  have hpursue (u : Store) (d : Container) (hu : Consistent me u) (hd : u.HasBuilt d) :=
    sound_pursue (sound_request hsound hu hd none r) p catches
  refine heeds_buildThen hsound hheeds ht hb ?born _ eager ?heeds hpursue ?held
  case born =>
    intro u d hu htu hd hnew hparents hregistry
    refine hhere.near.below htu hu hd hnew (hparents.trans hadded.1) ?_
    rw [Container.ownWeight_eq, hregistry]
    exact (hadded.2.trans (Nat.le_of_eq (Nat.zero_add _))).trans hweight
  case heeds =>
    intro u d hd htu
    exact heeds_pursue hd.sheltered (sound_request hsound hd.sheltered.consistent hd.near.hasBuilt none r)
      (heeds_request hsound hheeds hd none r) (hp.mono (hst.trans htu)) catches
  case held => exact fun d p u hp => hp.mono (Alike.evolves ⟨rfl, rfl, rfl, rfl, rfl⟩)

theorem heeds_step (h : Here me bound shun weight s c) (requester : Option Key) (run : Nat) {p : Progress}
    (hp : p.Leads me bound shun s) {step : Step} (hweight : step.weight ≤ weight) :
    Heeds me shun s (step.perform require ⟨c, requester⟩ run p) fun p t => p.Leads me bound shun t := by
  have hs := h.sheltered.consistent
  have hhere : Here me bound shun 0 s c := h.lighten (Nat.zero_le _)
  cases step with
  | fail message runs =>
      rw [Step.perform]
      split
      · exact .fail _
      · exact .pure hp
  | panic message runs =>
      rw [Step.perform]
      split
      · exact .throw (by simp)
      · exact .pure hp
  | pause => exact .pure hp
  | meet gate count =>
      refine (heeds_arrive h.sheltered gate).bind h.sheltered (sound_arrive hs gate) fun _ t ht hst _ _ _ => ?_
      exact (heeds_await ht gate count).bind ht (sound_await ht.consistent gate count) fun _ _ _ htu _ _ _ =>
        .pure (hp.mono (hst.trans htu))
  | ask r path catches =>
      cases path with
      | none =>
          exact heeds_pursue h.sheltered (sound_request hsound hs h.near.hasBuilt requester r)
            (heeds_request hsound hheeds hhere requester r) hp catches
      | some path =>
          rw [Step.perform]
          split
          · exact .fail _
          · next a ha =>
            have ha := hhere.of_reaches (Container.reaches_of_ancestor? ha)
            exact heeds_pursue h.sheltered (sound_request hsound hs ha.near.hasBuilt none r)
              (heeds_request hsound hheeds ha none r) hp catches
  | use index catches =>
      rw [Step.perform]
      split
      · exact .fail _
      · next l hl =>
        have hleads := hp l (List.mem_of_getElem? hl)
        refine heeds_pursue h.sheltered (sound_use hsound hs l) (.map ?_) hp catches
        refine (heeds_get hsound hheeds h.sheltered fun cell hcell _ _ => hleads.near hcell).weaken ?_
        simp [Resolved.lazy?]
  | useInner value index catches =>
      refine (heeds_innerHandle h.sheltered ⟨c, requester⟩ p value index).bind h.sheltered (sound_innerHandle hs _ p _ _)
        fun l t ht hst _ _ hup => ?_
      have hnear := hhere.near.mono hst
      refine heeds_pursue ht (sound_use hsound ht.consistent l) (.map ?_) (hp.mono hst) catches
      refine (heeds_get hsound hheeds ht fun cell hcell hfound halive => hnear.of_reaches ht.consistent
        (ht.consistent.reaches_of_leadsUp hnear.hasBuilt hup hcell hfound halive)).weaken ?_
      simp [Resolved.lazy?]
  | addConfig type tag => exact heeds_addConfig h.sheltered hp type tag
  | nest drafts eager r catches => exact heeds_nest hsound hheeds h requester hp hweight eager r catches

theorem heeds_steps (h : Here me bound shun weight s c) (requester : Option Key) (run : Nat) {p : Progress}
    (hp : p.Leads me bound shun s) {steps : List Step} (hweight : Steps.weight steps ≤ weight) :
    Heeds me shun s (Steps.perform require ⟨c, requester⟩ run p steps) fun _ _ => True := by
  induction steps generalizing s p with
  | nil => exact .pure trivial
  | cons step steps ih =>
      rw [Steps.weight] at hweight
      refine (heeds_step hsound hheeds h requester run hp (by omega)).bind h.sheltered
        (sound_step hsound h.sheltered.consistent h.near.hasBuilt requester run p step) fun p t ht hst hheld hp _ => ?_
      exact ih (h.mono ht hst hheld) hp (by omega)

theorem heeds_carryOut (h : Here me bound shun weight s c) (k : Key) {r : Recipe Step}
    (hweight : Steps.weight r.steps ≤ weight) (run : Nat) :
    Heeds me shun s (r.carryOut require c k run) fun _ _ => True := by
  refine (heeds_steps hsound hheeds h (some k) run (by simp [Progress.Leads, Progress.start]) hweight).bind h.sheltered
    (sound_steps hsound h.sheltered.consistent h.near.hasBuilt (some k) run .start r.steps)
    fun p t ht hst hheld _ _ => ?_
  have hhere := h.mono ht hst hheld
  refine (heeds_nextSerial ht).bind ht (sound_nextSerial ht.consistent) fun serial u hu htu hheld _ _ => ?_
  split
  · next other hother => exact hheeds u c other ((hhere.mono hu htu hheld).lighten (Nat.zero_le _))
  · exact heeds_mint hu c k r p serial

end Lookup

end Injection
