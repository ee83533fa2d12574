import Injection.Proofs.Honesty
import Injection.Proofs.Openings

/-!
All requests are tidy. However deep constructions nest and whatever their providers do, a request closes what it opens,
goes only to containers that are kept from being dropped, keeps in a lazy handle only what was answered, and notes as an
answer only what stands for good, if anything does. A lazy handle that gave a value holds that value from then on.
-/

namespace Injection

open Attempt

variable {me : Thread} {s t : Store} {os : List Opening} {ε α : Type}

/-! ### Lazy handles -/

namespace Store

variable {l : Lazy} {v : Value} {cell : Cell}

theorem found?_keep (hcell : s.cells l.id = some cell) : (s.keep l v).1.found? l = some (s.keep l v).2 := by
  simp [keep, hcell, found?]

theorem found?_remember (h : (s.remember l).2 = some v) : (s.remember l).1.found? l = some v := by
  unfold remember at h ⊢
  split at h
  · cases h
  · next cell hcell =>
    split at h
    · next w hfound =>
      obtain rfl := Option.some.inj h
      simp [found?, note, hcell, hfound]
    · cases h

/-- A thread that is told the value of a place finds it there. -/
theorem slot_acquire {place : Address} (h : (Action.acquire place).perform me s = (t, some (.ready v))) :
    t.slots.slot place = .ready v := by
  rcases hslot : s.slots.slot place with _ | owner | w <;>
    simp only [Action.perform, Slots.acquire, hslot, Prod.map, Prod.mk.injEq] at h
  · cases h.2
  · split at h <;> cases h.2
  · obtain ⟨rfl, hgrant⟩ := h
    obtain rfl := Grant.ready.inj (Option.some.inj hgrant)
    exact hslot

theorem reclaim_of_some (h : (s.reclaim l).2 = some cell) :
    s.cells l.id = some cell ∧ (s.reclaim l).1 = s.hold cell.container := by
  unfold reclaim at h ⊢
  split at h
  · cases h
  · next cell' hcell =>
    split at h
    · next halive =>
      obtain rfl := Option.some.inj h
      simp [hcell, halive]
    · cases h

theorem reclaim_of_alive (hcell : s.cells l.id = some cell) (halive : s.isAlive cell.container.id = true) :
    s.reclaim l = (s.hold cell.container, some cell) := by
  simp [reclaim, hcell, halive]

theorem reclaim_of_not_alive (hcell : s.cells l.id = some cell) (halive : s.isAlive cell.container.id ≠ true) :
    s.reclaim l = (s, none) := by
  simp [reclaim, hcell, halive]

end Store

/-! ### Builders -/

theorem tidy_tell (level : Level) (message : String) :
    Tidy me os s (tell level message : Attempt ε Unit) fun _ _ => True := .plain (fun _ => rfl) fun _ => trivial

theorem tidy_tell? (e : Option Event) : Tidy me os s (tell? e : Attempt ε Unit) fun _ _ => True := by
  cases e with
  | none => exact .pure trivial
  | some e => exact tidy_tell _ _

theorem tidy_tellAll (es : List Event) : Tidy me os s (tellAll es : Attempt ε Unit) fun _ _ => True := by
  induction es generalizing s with
  | nil => exact .pure trivial
  | cons e es ih => exact (tidy_tell _ _).bind fun _ _ _ _ => ih

theorem tidy_nextSerial : Tidy me os s (nextSerial : Attempt ε Nat) fun _ _ => True :=
  .plain (fun _ => rfl) fun _ => trivial

theorem tidy_make (draft : Draft) : Tidy me os s (draft.make : Attempt ε Binding) fun _ _ => True := by
  unfold BindingOf.make
  split
  · exact tidy_nextSerial.bind fun _ _ _ _ => .pure trivial
  · exact .pure trivial

theorem Builder.parents_add (b : Builder) (binding : Binding) : (b.add binding).parents = b.parents := by
  rw [Builder.add, Builder.tryAdd]
  rcases b.registry.register binding with e | registry <;> rfl

theorem tidy_addDrafts (b : Builder) (drafts : List Draft) :
    Tidy me os s (b.addDrafts drafts : Attempt ε Builder) fun b' _ => b'.parents = b.parents := by
  induction drafts generalizing s b with
  | nil => exact .pure rfl
  | cons draft drafts ih =>
      have hadd : Tidy me os s (b.addDraft draft : Attempt ε Builder) fun b' _ => b'.parents = b.parents :=
        (tidy_make draft).bind fun binding _ _ _ => (tidy_tell? _).bind fun _ _ _ _ => .pure (b.parents_add binding)
      exact hadd.bind fun b' _ _ hb' => (ih b').weaken fun _ _ h => h.trans hb'

/-- A container gets a number that no other one has or will have, and is built with it. -/
theorem tidy_number {c : Nat → Container} (hid : ∀ id, (c id).id = id) (hlinked : ∀ id, (c id).Linked)
    (hparents : ∀ id, ∀ p ∈ (c id).parents, s.Knows p) :
    Tidy me os s (do
      let id ← nextIdentity
      note (.built (c id))
      pure (c id) : Attempt ε Container) fun c t => t.Knows c := by
  refine ⟨List.suffix_refl _, fun t hst ht _ => ⟨trivial, trivial, ?_⟩⟩
  rintro _ u ⟨⟩ htu _
  refine ⟨List.suffix_cons _ _, fun v huv _ _ => ⟨⟨?_, fun p hp => ?_, hlinked _⟩, trivial, ?_⟩⟩
  · exact congrArg (fun id => some (Opening.numbering id)) (hid _).symm
  · have hp := hst.hasBuilt (hparents _ p hp p (.refl p))
    rw [hid]
    exact ⟨(htu.trans huv).hasBuilt hp, ht.numbered p hp⟩
  · rintro _ w ⟨⟩ hvw _
    refine ⟨rfl, ?_⟩
    rintro _ ⟨⟩ a hreaches
    cases hreaches with
    | refl => exact List.mem_cons_self
    | up hparent hrest => exact (hst.trans ((htu.trans huv).trans hvw)).hasBuilt (hparents _ _ hparent a hrest)

theorem tidy_build {b : Builder} (hb : ∀ p ∈ b.parents, s.Knows p) : Tidy me os s b.build fun c t => t.Knows c := by
  unfold Builder.build
  split
  · exact .fail _
  · refine (tidy_tell _ _).bind fun _ t hst _ => (tidy_tellAll _).bind fun _ u htu _ => ?_
    split
    · exact .fail _
    · next graph hlink =>
      refine (tidy_tell _ _).bind fun _ v huv _ => ?_
      exact tidy_number (c := fun id => ⟨id, b.label, b.registry, b.parents, graph⟩) (fun _ => rfl) (fun _ => hlink)
        fun _ p hp => (hb p hp).mono ((hst.trans htu).trans huv)

/-- A container is kept from being dropped for as long as an attempt lasts. -/
theorem tidy_holding {c : Container} (hc : s.HasBuilt c) {x : Attempt ε α} {post : α → Store → Prop}
    (hx : ∀ t, s.Lasts t → Tidy me (.holding c :: os) t x post) (hpost : ∀ a t u, t.Lasts u → post a t → post a u) :
    Tidy me os s (do
      hold c
      closing (.letGo c) x) post := by
  refine ⟨List.suffix_refl _, fun t hst _ _ => ⟨hst.hasBuilt hc, trivial, fun _ u _ htu _ => ?_⟩⟩
  exact (hx u (hst.trans htu)).closing (List.suffix_cons _ _) (fun _ => rfl) (fun _ => rfl) hpost

/-- The container of a lazy handle is kept from being dropped, if it is still there, for as long as an attempt lasts. -/
theorem tidy_reclaiming (l : Lazy) {e : ε} {x : Cell → Attempt ε α} {post : α → Store → Prop}
    (hx : ∀ t cell, t.Coherent → t.cells l.id = some cell → Tidy me (.holding cell.container :: os) t (x cell) post)
    (hpost : ∀ a t u, t.Lasts u → post a t → post a u) :
    Tidy me os s (do
      match ← reclaim l with
      | none => fail e
      | some cell => closing (.letGo cell.container) (x cell)) post := by
  refine ⟨List.suffix_refl _, fun t _ ht _ => ⟨trivial, trivial, fun cell? u hperform htu hu => ?_⟩⟩
  rcases cell? with _ | cell
  · exact ⟨rfl, nofun⟩
  · obtain ⟨rfl, hreclaim⟩ : (t.reclaim l).1 = u ∧ some (t.reclaim l).2 = some (some cell) := Prod.mk.inj hperform
    obtain ⟨hcell, hstore⟩ := Store.reclaim_of_some (Option.some.inj hreclaim)
    rw [hstore] at hu ⊢
    exact (hx _ cell hu hcell).closing (List.suffix_cons _ _) (fun _ => rfl) (fun _ => rfl) hpost

/-! ### Requests -/

/-- A container that can be asked: it was built, and it or a container below it is kept from being dropped. -/
structure AtHand (s : Store) (os : List Opening) (c : Container) : Prop where
  held : ∃ d, .holding d ∈ os ∧ d.Reaches c
  knows : s.Knows c

namespace AtHand

variable {c a : Container}

theorem mono (h : AtHand s os c) (hst : s.Lasts t) : AtHand t os c := ⟨h.held, h.knows.mono hst⟩

theorem of_reaches (h : AtHand s os c) (hreaches : c.Reaches a) : AtHand s os a :=
  ⟨h.held.imp fun _ => And.imp_right (·.trans hreaches), h.knows.of_reaches hreaches⟩

theorem cons (h : AtHand s os c) (o : Opening) : AtHand s (o :: os) c :=
  ⟨h.held.imp fun _ => And.imp_left (List.mem_cons_of_mem o), h.knows⟩

theorem holding (h : s.Knows c) : AtHand s (.holding c :: os) c := ⟨⟨c, List.mem_cons_self, .refl c⟩, h⟩

end AtHand

/-- A request for a key was answered, and the key was not under construction. -/
structure Obtained (os : List Opening) (c : Container) (k : Key) (v : Value) (s : Store) : Prop where
  answered : .answered c k v ∈ s.history
  outside : ∀ o b, c.owner? k = some (o, b) → .within (o.place b) ∉ os

/-- Requests for keys are tidy at any container that can be asked. -/
def Lookup.Tidy (me : Thread) (require : Lookup) : Prop :=
  ∀ (os : List Opening) (s : Store) (c : Container) (k : Key), AtHand s os c →
    Attempt.Tidy me os s (require c k) (Obtained os c k)

theorem tidy_pursue {request : Attempt Failure Resolved} (h : Tidy me os s request fun _ _ => True) (p : Progress)
    (catches : Bool) : Tidy me os s (p.pursue catches request) fun _ _ => True := by
  refine h.outcome.bind fun result t _ _ => ?_
  split
  · exact .pure trivial
  · split
    · exact .pure trivial
    · exact .fail _

theorem tidy_innerHandle (h : Handle) (p : Progress) (value index : Nat) :
    Tidy me os s (h.innerHandle p value index) fun _ _ => True := by
  unfold Handle.innerHandle
  split
  · exact .fail _
  · refine .bind (.plain (a := .leadsUp _ _) (fun _ => rfl) fun _ => trivial) fun yes _ _ _ => ?_
    split
    · exact .pure trivial
    · exact .fail _

theorem tidy_addConfig (p : Progress) (type : TypeInfo) (tag : String) :
    Tidy me os s (p.addConfig type tag) fun _ _ => True := by
  refine tidy_nextSerial.bind fun serial t _ _ => ?_
  split
  · exact .fail _
  · exact (tidy_tell _ _).bind fun _ _ _ _ => .pure trivial

theorem tidy_mint (c : Container) (k : Key) (r : Recipe Step) (p : Progress) (serial : Nat) :
    Tidy me os s (r.mint c k p serial) fun _ _ => True := by
  unfold Recipe.mint
  split
  · exact .bind (.plain (a := .numberConfigs) (fun _ => rfl) fun _ => trivial) fun _ _ _ _ => .pure trivial
  · exact .pure trivial

section Lookup

variable {require : Lookup} (hrequire : require.Tidy me) {c : Container}
include hrequire

theorem tidy_typed (hc : AtHand s os c) (k : Key) : Tidy me os s (require.typed c k) (Obtained os c k) := by
  refine (hrequire os s c k hc).bind fun v t _ hv => ?_
  split
  · exact .pure hv
  · exact .fail _

theorem tidy_config (hc : AtHand s os c) (type : TypeInfo) :
    Tidy me os s (require.config c type) fun _ _ => True := by
  rw [Lookup.config_eq]
  refine (tidy_typed hrequire hc .configs).bind fun _ _ _ _ => ?_
  split
  · exact .pure trivial
  · exact .fail _

omit hrequire in
/-- What a lazy handle looks up it keeps, unless it has something already. -/
theorem tidy_keep {l : Lazy} {cell : Cell} (hcell : s.cells l.id = some cell) {v : Value}
    (hv : Obtained os cell.container cell.key v s) :
    Tidy me os s (keep l v : Attempt Failure Value) fun v t => t.found? l = some v := by
  refine .perform (fun _ => rfl) fun t hst _ _ => ?_
  obtain ⟨found, hcell', -⟩ := hst.cells l.id cell hcell
  refine ⟨fun cell'' hcell'' => ?_, ?_⟩
  · obtain rfl := Option.some.inj (hcell'.symm.trans hcell'')
    exact ⟨hst.mem hv.answered, hv.outside⟩
  · rintro _ _ ⟨⟩ _ _
    exact Store.found?_keep hcell'

/-- What a lazy handle stands for is what it holds afterwards. -/
theorem tidy_get (l : Lazy) : Tidy me os s (l.get require) fun v t => t.found? l = some v := by
  have hremember : Tidy me os s (remember l : Attempt Failure (Option Value)) fun found t =>
      ∀ v, found = some v → t.found? l = some v := by
    refine .perform (fun _ => rfl) fun t _ _ _ => ⟨trivial, ?_⟩
    rintro _ _ ⟨⟩ _ _ v hv
    exact Store.found?_remember hv
  refine hremember.bind fun found t _ hfound => ?_
  split
  · next v => exact .pure (hfound v rfl)
  refine tidy_reclaiming l (fun u cell hu hcell => ?_) fun _ _ _ htu => htu.found?
  have hknows := hu.knows (hu.cells l.id cell hcell).2.1
  refine (tidy_typed hrequire (.holding hknows) cell.key).bind fun v w huw hv => ?_
  obtain ⟨found, hcell', -⟩ := huw.cells l.id cell hcell
  exact tidy_keep hcell' hv

theorem tidy_resolve (hc : AtHand s os c) (r : Resolver) : Tidy me os s (r.resolve require c) fun _ _ => True := by
  induction r with
  | value k => exact (tidy_typed hrequire hc k).bind fun _ _ _ _ => .pure trivial
  | deferred type =>
      have hpostpone : Tidy me os s (postpone c (.ofType type) : Attempt Failure Lazy) fun _ _ => True :=
        .perform (fun _ => rfl) fun t hst _ _ => ⟨hst.hasBuilt (hc.knows c (.refl c)), fun _ _ _ _ _ => trivial⟩
      exact hpostpone.bind fun _ _ _ _ => .pure trivial
  | config type => exact (tidy_config hrequire hc type).bind fun _ _ _ _ => .pure trivial
  | optional inner ih =>
      refine ih.outcome.bind fun result t _ _ => ?_
      split
      · exact .pure trivial
      · split
        · exact .pure trivial
        · exact .fail _

theorem tidy_request (hc : AtHand s os c) (requester : Option Key) (r : Request) :
    Tidy me os s (Handle.request require ⟨c, requester⟩ r) fun _ _ => True := by
  cases r with
  | resolve r => exact tidy_resolve hrequire hc r
  | untyped k => exact (hrequire os s c k hc).bind fun _ _ _ _ => .pure trivial
  | requester => exact .pure trivial

theorem tidy_constructAll (hc : AtHand s os c) (total done : Nat) (ks : List Key) :
    Tidy me os s (constructAll require c total done ks) fun _ _ => True := by
  induction ks generalizing s done with
  | nil => exact .pure trivial
  | cons k ks ih =>
      refine (tidy_tell _ _).bind fun _ t hst _ => ?_
      refine (hrequire os t c k (hc.mono hst)).outcome.bind fun result u htu _ => ?_
      split
      · exact ih ((hc.mono hst).mono htu) (done + 1)
      · exact (tidy_tell _ _).bind fun _ _ _ _ => .fail _

theorem tidy_initiate (hc : AtHand s os c) : Tidy me os s (c.initiate require) fun _ _ => True := by
  unfold Container.initiate
  split
  · exact .fail _
  · refine (tidy_tell _ _).bind fun _ t hst _ => ?_
    exact (tidy_constructAll hrequire (hc.mono hst) _ _ _).bind fun _ _ _ _ => tidy_tell _ _

theorem tidy_buildThen {b : Builder} (hb : ∀ p ∈ b.parents, s.Knows p) (wrap : BuildError → ε) (eager : Bool)
    {next : Container → Attempt ε α} {post : α → Store → Prop}
    (hnext : ∀ t c, AtHand t (.holding c :: os) c → Tidy me (.holding c :: os) t (next c) post)
    (hpost : ∀ a t u, t.Lasts u → post a t → post a u) : Tidy me os s (b.buildThen require wrap eager next) post := by
  refine ((tidy_build hb).mapError wrap).bind fun c t _ hc => ?_
  refine tidy_holding (hc c (.refl c)) (fun u htu => ?_) hpost
  have hhand : AtHand u (.holding c :: os) c := .holding (hc.mono htu)
  split
  · exact ((tidy_initiate hrequire hhand).mapError wrap).bind fun _ v huv _ => hnext v c (hhand.mono huv)
  · exact hnext u c hhand

/-! ### Recipes -/

/-- A container that a step builds is kept from being dropped until the step is over. -/
theorem tidy_nest (hc : AtHand s os c) (requester : Option Key) (p : Progress) (drafts : List Draft) (eager : Bool)
    (r : Request) (catches : Bool) :
    Tidy me os s (Handle.nest require ⟨c, requester⟩ p drafts eager r catches) fun _ _ => True := by
  refine (tidy_addDrafts _ drafts).bind fun b t hst hb => ?_
  refine tidy_buildThen hrequire (fun q hq => ?_) _ eager (fun u d hd => ?_) fun _ _ _ _ _ => trivial
  · obtain rfl := List.mem_singleton.1 (hb ▸ hq)
    exact hc.knows.mono hst
  · exact tidy_pursue (tidy_request hrequire hd none r) p catches

theorem tidy_step (hc : AtHand s os c) (requester : Option Key) (run : Nat) (p : Progress) (step : Step) :
    Tidy me os s (step.perform require ⟨c, requester⟩ run p) fun _ _ => True := by
  cases step with
  | fail message runs =>
      rw [Step.perform]
      split
      · exact .fail _
      · exact .pure trivial
  | panic message runs =>
      rw [Step.perform]
      split
      · exact .throw _
      · exact .pure trivial
  | pause => exact .pure trivial
  | meet gate count =>
      refine .bind (.plain (a := .arrive gate) (fun _ => rfl) fun _ => trivial) fun _ t _ _ => ?_
      exact .bind (.plain (a := .await gate count) (fun _ => rfl) fun _ => trivial) fun _ _ _ _ => .pure trivial
  | ask r path catches =>
      cases path with
      | none => exact tidy_pursue (tidy_request hrequire hc requester r) p catches
      | some path =>
          rw [Step.perform]
          split
          · exact .fail _
          · next a ha =>
            have ha := hc.of_reaches (Container.reaches_of_ancestor? ha)
            exact tidy_pursue (tidy_request hrequire ha none r) p catches
  | use index catches =>
      rw [Step.perform]
      split
      · exact .fail _
      · exact tidy_pursue (.map ((tidy_get hrequire _).weaken fun _ _ _ => trivial)) p catches
  | useInner value index catches =>
      exact (tidy_innerHandle _ p value index).bind fun l t _ _ =>
        tidy_pursue (.map ((tidy_get hrequire l).weaken fun _ _ _ => trivial)) p catches
  | addConfig type tag => exact tidy_addConfig p type tag
  | nest drafts eager r catches => exact tidy_nest hrequire hc requester p drafts eager r catches

theorem tidy_steps (hc : AtHand s os c) (requester : Option Key) (run : Nat) (p : Progress) (steps : List Step) :
    Tidy me os s (Steps.perform require ⟨c, requester⟩ run p steps) fun _ _ => True := by
  induction steps generalizing s p with
  | nil => exact .pure trivial
  | cons step steps ih =>
      exact (tidy_step hrequire hc requester run p step).bind fun p t hst _ => ih (hc.mono hst) p

theorem tidy_carryOut (hc : AtHand s os c) (k : Key) (r : Recipe Step) (run : Nat) :
    Tidy me os s (r.carryOut require c k run) fun _ _ => True := by
  refine (tidy_steps hrequire hc (some k) run .start r.steps).bind fun p t hst _ => ?_
  refine tidy_nextSerial.bind fun serial u htu _ => ?_
  split
  · exact (hrequire os u c _ ((hc.mono hst).mono htu)).weaken fun _ _ _ => trivial
  · exact tidy_mint c k r p serial

/-! ### Bindings and keys -/

variable {b : Binding}

theorem tidy_construct (hc : AtHand s os c) (b : Binding) :
    Tidy me os s (c.construct require b) fun v _ => ∀ w, b.source = .given w → v = w := by
  refine (tidy_tell _ _).bind fun _ t hst _ => ?_
  split
  · next v hsource =>
    refine .pure fun w hw => ?_
    rw [hsource] at hw
    exact Source.given.inj hw
  · next r hsource =>
    have hfollow : Tidy me os t (r.follow require c b.key) fun _ _ => True :=
      .bind (.plain (a := .countRun ⟨c.id, b.key⟩ r.tag) (fun _ => rfl) fun _ => trivial) fun run u htu _ =>
        tidy_carryOut hrequire ((hc.mono hst).mono htu) b.key r run
    refine (hfollow.mapError _).bind fun v u _ _ => ?_
    refine .bind (.plain (a := .note (.succeeded (c.place b) v)) (fun _ => rfl) fun _ => trivial) fun _ _ _ _ => ?_
    refine .pure fun w hw => ?_
    rw [hsource] at hw
    cases hw

theorem tidy_obtain (hc : AtHand s os c) (hkept : b.isKept = true) :
    Tidy me os s (c.obtain require b) fun v t => t.Standing c b v := by
  have hstanding {v : Value} {t : Store} (hready : t.slots.slot (c.place b) = .ready v) : t.Standing c b v := by
    refine ⟨fun _ => hready, fun w hw => ?_⟩
    rw [BindingOf.isKept_of_isInstance (BindingOf.isInstance_of_given hw)] at hkept
    cases hkept
  have hacquire : Tidy me os s (acquire (c.place b) : Attempt Failure Grant) fun grant t =>
      ∀ v, grant = .ready v → t.slots.slot (c.place b) = .ready v := by
    refine .perform (fun _ => rfl) fun t _ _ _ => ⟨trivial, ?_⟩
    rintro _ u hperform _ _ v rfl
    exact Store.slot_acquire hperform
  refine hacquire.bind fun grant t hst hgrant => ?_
  split
  · next v => exact (tidy_tell _ _).bind fun _ u htu _ => .pure (hstanding (htu.ready _ _ (hgrant v rfl)))
  · exact (tidy_tell _ _).bind fun _ _ _ _ => .fail _
  · refine Tidy.closing ?_ (List.suffix_refl _) (fun _ => rfl) (fun _ => trivial) fun _ _ _ huv hv => huv.standing hv
    refine (tidy_construct hrequire (hc.mono hst) b).bind fun v u htu _ => ?_
    have hsettle : Tidy me os u (settle (c.place b) v : Attempt Failure Unit) fun _ t =>
        t.slots.slot (c.place b) = .ready v := by
      refine .perform (fun _ => rfl) fun t _ _ _ => ⟨trivial, ?_⟩
      rintro _ _ ⟨⟩ _ _
      exact setAt_self ..
    exact hsettle.bind fun _ _ _ hready => .pure (hstanding hready)

omit hrequire in
/-- What is given needs no construction. -/
theorem comesOut_produce (hinstance : b.isInstance = true) :
    (Attempt.closing (.leave (c.place b)) (if b.isKept then c.obtain require b else c.construct require b)).run.ComesOut
      (c.place b) := by
  obtain ⟨v, hsource⟩ := BindingOf.source_of_isInstance hinstance
  rw [if_neg (by simp [BindingOf.isKept, hinstance]), Container.construct, hsource]
  exact .tell .leave

/-- A binding is under construction while its source is at work, and its source may ask where its container may. -/
theorem tidy_produce (hc : AtHand s os c) (hlookup : c.registry.lookup b.key = some b) :
    Tidy me os s (c.produce require b) fun v t => t.Standing c b v ∧ .within (c.place b) ∉ os := by
  refine ⟨List.suffix_refl _, fun t hst ht hshows => ⟨?_, fun o b' ho hown hinstance => ?_,
    fun entered u hperform htu _ => ?_⟩⟩
  · obtain ⟨d, hd, hreaches⟩ := hc.held
    exact ⟨d, c, b, hd, hreaches, rfl, hlookup⟩
  · -- the place shows which container and which binding are meant
    obtain rfl := ht.unique o c ho (hst.hasBuilt (hc.knows c (.refl c))) hown.1
    obtain rfl := Option.some.inj (hown.2.symm.trans hlookup)
    exact comesOut_produce hinstance
  obtain ⟨-, hentered⟩ : (t.enter me (c.place b)).1 = u ∧ some (t.enter me (c.place b)).2 = some entered :=
    Prod.mk.inj hperform
  cases entered with
  | false => exact Tidy.fail _
  | true =>
    have houtside : .within (c.place b) ∉ os := by
      rw [← hshows.mem_building]
      intro hmem
      rw [Store.enter, if_pos hmem] at hentered
      cases hentered
    have hinner : AtHand u (.within (c.place b) :: os) c := ((hc.mono hst).mono htu).cons _
    refine Tidy.closing ?_ (List.suffix_cons _ _) (fun _ => rfl) (fun _ => rfl) fun _ _ _ huv => .imp_left huv.standing
    split
    · next hkept => exact (tidy_obtain hrequire hinner hkept).weaken fun _ _ hv => ⟨hv, houtside⟩
    · next hkept =>
      exact (tidy_construct hrequire hinner b).weaken fun _ _ hv => ⟨⟨fun h => absurd h hkept, hv⟩, houtside⟩

theorem tidy_requireWith (hc : AtHand s os c) (k : Key) : Tidy me os s (c.requireWith require k) (Obtained os c k) := by
  unfold Container.requireWith
  split
  · next o b howner =>
    obtain rfl := Container.key_of_owner? howner
    obtain ⟨hreaches, hlookup⟩ := Container.owner?_spec howner
    refine (tidy_produce hrequire (hc.of_reaches hreaches) hlookup).bind fun v t _ hv => ?_
    have howned {o' : Container} {b' : Binding} (h : c.owner? b.key = some (o', b')) : o' = o ∧ b' = b := by
      cases howner.symm.trans h
      exact ⟨rfl, rfl⟩
    have hnote : Tidy me os t (note (.answered c b.key v) : Attempt Failure Unit) fun _ u =>
        .answered c b.key v ∈ u.history := by
      refine .perform (fun _ => rfl) fun u htu _ _ => ⟨fun o' b' h => ?_, ?_⟩
      · obtain ⟨rfl, rfl⟩ := howned h
        exact htu.standing hv.1
      · rintro _ _ ⟨⟩ _ _
        exact List.mem_cons_self
    refine hnote.bind fun _ _ _ hmem => .pure ⟨hmem, fun o' b' h => ?_⟩
    obtain ⟨rfl, rfl⟩ := howned h
    exact hv.2
  · exact (tidy_tell _ _).bind fun _ _ _ _ => .fail _

end Lookup

theorem tidy_requireWithin (me : Thread) (depth : Nat) : Lookup.Tidy me (requireWithin depth) := by
  induction depth with
  | zero => exact fun _ _ _ _ _ => .throw _
  | succ depth ih => exact fun _ _ _ k hc => tidy_requireWith ih hc k

theorem tidy_require (me : Thread) : Lookup.Tidy me Container.require :=
  fun os s c k => tidy_requireWithin me _ os s c k

end Injection
