import Injection.Proofs.Registering
import Injection.Proofs.Returns

/-!
Requests of a thread that is alone keep its store consistent, whatever the providers do on the way: fail, panic, ask for
what they never declared, use lazy handles, or build containers of their own and let them go. Each definition passes on
what its requests promise, which includes what they bring; the depth to which constructions nest is the only thing the
induction is on.
-/

namespace Injection

open Attempt

variable {me : Thread} {s t : Store} {ε ε' α β : Type}

/-- An attempt, made when the store is consistent, leaves it so however it ends, and a value that it gives satisfies the
postcondition. -/
structure Sound (me : Thread) (s : Store) (x : Attempt ε α) (post : α → Store → Prop) : Prop where
  consistent : Consistent me (x.eval me s).2
  evolves : Evolves me s (x.eval me s).2
  result : ∀ a, (x.eval me s).1 = .ok a → post a (x.eval me s).2

namespace Sound

variable {x : Attempt ε α} {post post' : α → Store → Prop}

theorem of_eval_ok {a : α} (heval : x.eval me s = (.ok a, t)) (ht : Consistent me t) (hevolves : Evolves me s t)
    (hpost : post a t) : Sound me s x post := by
  refine ⟨?_, ?_, ?_⟩ <;> rw [heval]
  · exact ht
  · exact hevolves
  · rintro _ ⟨⟩
    exact hpost

theorem of_eval_error {e : Stop ε} (heval : x.eval me s = (.error e, t)) (ht : Consistent me t)
    (hevolves : Evolves me s t) : Sound me s x post := by
  refine ⟨?_, ?_, ?_⟩ <;> rw [heval]
  · exact ht
  · exact hevolves
  · rintro _ ⟨⟩

protected theorem pure (h : Consistent me s) {a : α} (hpost : post a s) : Sound me s (pure a : Attempt ε α) post :=
  of_eval_ok rfl h (.refl me s) hpost

protected theorem throw (h : Consistent me s) (e : Stop ε) : Sound me s (throw e : Attempt ε α) post :=
  of_eval_error rfl h (.refl me s)

protected theorem fail (h : Consistent me s) (e : ε) : Sound me s (Attempt.fail e : Attempt ε α) post :=
  .throw h (.failed e)

theorem weaken (h : Sound me s x post) (himp : ∀ a t, post a t → post' a t) : Sound me s x post' :=
  ⟨h.consistent, h.evolves, fun a ha => himp a _ (h.result a ha)⟩

theorem of_eval (h : Sound me s x post) {a : α} (heval : x.eval me s = (.ok a, t)) : post a t := by
  have hpost := h.result a (by rw [heval])
  rwa [heval] at hpost

/-- What is known of a value includes how it came out. -/
theorem evaluated (h : Sound me s x post) : Sound me s x fun a t => post a t ∧ x.eval me s = (.ok a, t) :=
  ⟨h.consistent, h.evolves, fun a ha => ⟨h.result a ha, Prod.ext ha rfl⟩⟩

protected theorem bind {f : α → Attempt ε β} {post : β → Store → Prop} {mid : α → Store → Prop} (h : Sound me s x mid)
    (hf : ∀ a t, Consistent me t → Evolves me s t → mid a t → Sound me t (f a) post) : Sound me s (x >>= f) post := by
  obtain ⟨hconsistent, hevolves, hresult⟩ := h
  rcases heval : x.eval me s with ⟨e | a, t⟩
  · rw [heval] at hconsistent hevolves
    exact of_eval_error (by rw [Attempt.eval_bind, heval]) hconsistent hevolves
  · rw [heval] at hconsistent hevolves hresult
    have hbind : (x >>= f).eval me s = (f a).eval me t := by rw [Attempt.eval_bind, heval]
    obtain ⟨hconsistent', hevolves', hresult'⟩ := hf a t hconsistent hevolves (hresult a rfl)
    rw [← hbind] at hconsistent' hevolves' hresult'
    exact ⟨hconsistent', hevolves.trans hevolves', hresult'⟩

protected theorem map {f : α → β} {post : β → Store → Prop} (h : Sound me s x fun a t => post (f a) t) :
    Sound me s (f <$> x) post := by
  rw [← bind_pure_comp]
  exact h.bind fun _ _ ht _ hpost => .pure ht hpost

protected theorem outcome (h : Sound me s x post) :
    Sound me s (Attempt.outcome x : Attempt ε' (Except ε α)) fun r t => ∀ a, r = .ok a → post a t := by
  obtain ⟨hconsistent, hevolves, hresult⟩ := h
  rcases heval : x.eval me s with ⟨(e | m | _) | a, t⟩ <;> rw [heval] at hconsistent hevolves hresult
  · exact of_eval_ok (by rw [Attempt.eval_outcome, heval]) hconsistent hevolves (by rintro _ ⟨⟩)
  · exact of_eval_error (by rw [Attempt.eval_outcome, heval]) hconsistent hevolves
  · exact of_eval_error (by rw [Attempt.eval_outcome, heval]) hconsistent hevolves
  · refine of_eval_ok (by rw [Attempt.eval_outcome, heval]) hconsistent hevolves ?_
    rintro _ ⟨⟩
    exact hresult a rfl

protected theorem mapError (f : ε → ε') (h : Sound me s x post) : Sound me s (Attempt.mapError f x) post := by
  obtain ⟨hconsistent, hevolves, hresult⟩ := h
  rcases heval : x.eval me s with ⟨e | a, t⟩ <;> rw [heval] at hconsistent hevolves hresult
  · exact of_eval_error (by rw [Attempt.eval_mapError, heval]; rfl) hconsistent hevolves
  · exact of_eval_ok (by rw [Attempt.eval_mapError, heval]; rfl) hconsistent hevolves (hresult a rfl)

theorem closing_letGo (c : Container) (h : Sound me s x post) (hpost : ∀ a t, post a t → post a (t.letGo c)) :
    Sound me s (Attempt.closing (.letGo c) x) post := by
  have halike : Alike (x.eval me s).2 ((x.eval me s).2.letGo c) := ⟨rfl, rfl, rfl, rfl, rfl⟩
  refine ⟨?_, ?_, ?_⟩ <;> rw [Attempt.eval_closing, Action.after_letGo]
  · exact halike.consistent h.consistent
  · exact h.evolves.trans halike.evolves
  · exact fun a ha => hpost a _ (h.result a ha)

/-- An action that changes nothing of what has happened or is under construction. -/
theorem of_alike (h : Consistent me s) {a : α} (heval : x.eval me s = (.ok a, t)) (halike : Alike s t) :
    Sound me s x fun _ _ => True :=
  of_eval_ok heval (halike.consistent h) halike.evolves trivial

end Sound

/-! ### Actions -/

section Actions

variable (h : Consistent me s)
include h

theorem sound_tell (level : Level) (message : String) :
    Sound me s (Attempt.tell level message : Attempt ε Unit) fun _ _ => True :=
  .of_alike h (Attempt.eval_tell level message me s) ⟨rfl, rfl, rfl, rfl, rfl⟩

theorem sound_tell? (e : Option Event) : Sound me s (Attempt.tell? e : Attempt ε Unit) fun _ _ => True := by
  cases e with
  | none => exact .pure h trivial
  | some e => exact sound_tell h e.level e.message

theorem sound_nextSerial : Sound me s (Attempt.nextSerial : Attempt ε Nat) fun _ _ => True :=
  .of_alike h (Attempt.eval_nextSerial me s) ⟨rfl, rfl, rfl, rfl, rfl⟩

theorem sound_numberConfigs : Sound me s (Attempt.numberConfigs : Attempt ε Nat) fun _ _ => True :=
  .of_eval_ok (Attempt.eval_numberConfigs me s) (h.number.consistent h) h.number.evolves trivial

theorem sound_leadsUp (l : Lazy) (c : Container) :
    Sound me s (Attempt.leadsUp l c : Attempt ε Bool) fun yes t => t.leadsUp l c = yes :=
  .of_eval_ok (Attempt.eval_leadsUp l c me s) h (.refl me s) rfl

theorem sound_hold (c : Container) : Sound me s (Attempt.hold c : Attempt ε Unit) fun _ _ => True :=
  .of_alike h (Attempt.eval_hold c me s) ⟨rfl, rfl, rfl, rfl, rfl⟩

theorem sound_arrive (gate : String) : Sound me s (Attempt.arrive gate : Attempt ε Unit) fun _ _ => True :=
  .of_alike h (Attempt.eval_arrive gate me s) ⟨rfl, rfl, rfl, rfl, rfl⟩

theorem sound_await (gate : String) (count : Nat) :
    Sound me s (Attempt.await gate count : Attempt ε Unit) fun _ _ => True :=
  .of_alike h (Attempt.eval_await gate count me s) ⟨rfl, rfl, rfl, rfl, rfl⟩

theorem sound_postpone {c : Container} (hc : s.HasBuilt c) (k : Key) :
    Sound me s (Attempt.postpone c k : Attempt ε Lazy) fun l t => l.key = k ∧ t.cells l.id = some ⟨c, k, none⟩ :=
  .of_eval_ok (Attempt.eval_postpone c k me s) ((h.postpone hc k).consistent h) (h.postpone hc k).evolves
    ⟨rfl, setAt_self _ _ _⟩

theorem sound_remember (l : Lazy) :
    Sound me s (Attempt.remember l : Attempt ε (Option Value)) fun found t => (∀ v ∈ found, l.Gives s t v) ∧
      (found = none → t = s ∧ ∀ cell, s.cells l.id = some cell → cell.found = none) := by
  have heval := Attempt.eval_remember (ε := ε) l me s
  unfold Store.remember at heval
  split at heval
  · next hcell => exact .of_eval_ok heval h (.refl me s) ⟨by simp, fun _ => ⟨rfl, by simp [hcell]⟩⟩
  · next cell hcell =>
    split at heval
    · next v hfound =>
      have haside := h.remember hcell hfound
      have hanswered := (h.cells l.id cell hcell).2.2 v hfound
      obtain ⟨o, b, howner⟩ := h.owned _ _ _ hanswered
      have hvouches := (haside.consistent h).vouches howner (haside.mem hanswered)
      refine .of_eval_ok heval (haside.consistent h) haside.evolves ⟨?_, by simp⟩
      intro w hw
      obtain rfl : v = w := by simpa using hw
      exact .remembered hcell hfound howner hvouches rfl rfl
    · next hfound =>
      refine .of_eval_ok heval h (.refl me s) ⟨by simp, fun _ => ⟨rfl, ?_⟩⟩
      rintro cell' hcell'
      obtain rfl := Option.some.inj (hcell.symm.trans hcell')
      exact hfound

theorem sound_reclaim (l : Lazy) :
    Sound me s (Attempt.reclaim l : Attempt ε (Option Cell)) fun found t => Alike s t ∧ ∀ cell ∈ found,
      t.HasBuilt cell.container ∧ t.cells l.id = some cell := by
  have heval := Attempt.eval_reclaim (ε := ε) l me s
  unfold Store.reclaim at heval
  split at heval
  · exact .of_eval_ok heval h (.refl me s) ⟨.refl s, by simp⟩
  · next cell hcell =>
    split at heval
    · have halike : Alike s (s.hold cell.container) := ⟨rfl, rfl, rfl, rfl, rfl⟩
      refine .of_eval_ok heval (halike.consistent h) halike.evolves ⟨halike, ?_⟩
      intro cell' hcell'
      obtain rfl : cell = cell' := by simpa using hcell'
      exact ⟨(h.cells l.id cell hcell).2.1, hcell⟩
    · exact .of_eval_ok heval h (.refl me s) ⟨.refl s, by simp⟩

end Actions

/-! ### Builders -/

namespace Builder

/-- A builder whose registry has each key once and whose parents were built. -/
structure Proper (s : Store) (b : Builder) : Prop where
  distinct : b.registry.keys.Nodup
  parents : ∀ p ∈ b.parents, s.HasBuilt p

theorem Proper.mono {b : Builder} (h : b.Proper s) (hevolves : Evolves me s t) : b.Proper t :=
  ⟨h.distinct, fun p hp => hevolves.hasBuilt (h.parents p hp)⟩

theorem Proper.alike {b : Builder} (h : b.Proper s) (halike : Alike s t) : b.Proper t :=
  ⟨h.distinct, fun p hp => (Store.hasBuilt_of_history_eq halike.history p).2 (h.parents p hp)⟩

theorem proper_new (s : Store) : new.Proper s := ⟨List.nodup_nil, by simp [new]⟩

theorem proper_below {c : Container} (hc : s.HasBuilt c) : (below c).Proper s :=
  ⟨List.nodup_nil, by simpa [below] using hc⟩

theorem proper_of_tryAdd {b b' : Builder} {binding : Binding} (h : b.Proper s) (hadd : b.tryAdd binding = .ok b') :
    b'.Proper s := by
  unfold tryAdd at hadd
  rcases hregister : b.registry.register binding with e | registry
  · rw [hregister] at hadd
    cases hadd
  · rw [hregister] at hadd
    obtain rfl := Except.ok.inj hadd
    exact ⟨Registry.nodup_register h.distinct hregister, h.parents⟩

theorem Proper.add {b : Builder} (h : b.Proper s) (binding : Binding) : (b.add binding).Proper s := by
  rw [Builder.add]
  split
  · next hadd => exact proper_of_tryAdd h hadd
  · exact ⟨h.distinct, h.parents⟩

end Builder

theorem sound_tellAll (h : Consistent me s) (es : List Event) :
    Sound me s (Attempt.tellAll es : Attempt ε Unit) fun _ _ => True := by
  induction es generalizing s with
  | nil => exact .pure h trivial
  | cons e es ih => exact (sound_tell h e.level e.message).bind fun _ _ ht _ _ => ih ht

theorem sound_make (h : Consistent me s) (draft : Draft) :
    Sound me s (draft.make : Attempt ε Binding) fun _ _ => True := by
  unfold BindingOf.make
  split
  · exact (sound_nextSerial h).bind fun _ _ ht _ _ => .pure ht trivial
  · exact .pure h trivial

theorem sound_addDraft (h : Consistent me s) {b : Builder} (hb : b.Proper s) (draft : Draft) :
    Sound me s (b.addDraft draft : Attempt ε Builder) fun b t => b.Proper t := by
  refine (sound_make h draft).bind fun binding t ht hst _ => ?_
  refine (sound_tell? ht _).bind fun _ u hu htu _ => ?_
  exact .pure hu (((hb.mono hst).mono htu).add binding)

theorem sound_addDrafts (h : Consistent me s) {b : Builder} (hb : b.Proper s) (drafts : List Draft) :
    Sound me s (b.addDrafts drafts : Attempt ε Builder) fun b t => b.Proper t := by
  induction drafts generalizing s b with
  | nil => exact .pure h hb
  | cons draft drafts ih => exact (sound_addDraft h hb draft).bind fun _ _ ht _ hb => ih ht hb

theorem sound_build (h : Consistent me s) {b : Builder} (hb : b.Proper s) :
    Sound me s b.build fun c t => t.HasBuilt c := by
  unfold Builder.build
  split
  · exact .fail h _
  · refine (sound_tell h _ _).bind fun _ t₁ h₁ hst₁ _ => ?_
    refine (sound_tellAll h₁ _).bind fun _ t₂ h₂ hst₂ _ => ?_
    have hb := (hb.mono hst₁).mono hst₂
    split
    · exact .fail h₂ _
    · next graph hlink =>
      refine (sound_tell h₂ _ _).bind fun _ t₃ h₃ hst₃ _ => ?_
      have hb := hb.mono hst₃
      have haside := h₃.build (c := ⟨t₃.identities, b.label, b.registry, b.parents, graph⟩) rfl hlink hb.distinct
        hb.parents
      exact .of_eval_ok rfl (haside.consistent h₃) haside.evolves List.mem_cons_self

/-! ### Requests on the way -/

/-- What it means for a request for a key, made in one store, to be answered with a value in another. -/
structure Answered (me : Thread) (s : Store) (c : Container) (k : Key) (v : Value) (t : Store) : Prop where
  returns : ∃ o b, b.key = k ∧ Returns s t c o b v
  typed : c.Typed → v.type = k.type
  closed : ∀ o b, c.owner? k = some (o, b) → o.place b ∉ t.building me
  /-- No handle on the key has found anything in the meantime. -/
  unresolved : ∀ id cell, s.cells id = some cell → cell.found = none → cell.container.owner? cell.key = c.owner? k →
    t.cells id = some cell

/-- A request that was answered without the binding being under construction. -/
theorem Answered.of_told {c o : Container} {b : Binding} {v : Value} (howner : c.owner? b.key = some (o, b))
    (hplace : o.place b ∉ s.building me) (ht : Consistent me t) (hevolves : Evolves me s t)
    (htold : .answered c b.key v ∈ t.history)
    (hmade : b.isInstance = false → b.isKept = false → t.chronicle (o.place b) = .answered c b.key v ::
      .succeeded (o.place b) v :: .began (o.place b) :: .entered (o.place b) :: s.chronicle (o.place b))
    (htyped : c.Typed → v.type = b.key.type)
    (hunresolved : ∀ id cell, s.cells id = some cell → cell.found = none →
      cell.container.owner? cell.key = some (o, b) → t.cells id = some cell) : Answered me s c b.key v t where
  returns := ⟨o, b, rfl, howner, htold, ht.vouches howner htold, hmade⟩
  typed := htyped
  closed o' b' howner' := by
    obtain ⟨rfl, rfl⟩ := Prod.mk.inj (Option.some.inj (howner.symm.trans howner'))
    exact hevolves.building ▸ hplace
  unresolved id cell hcell hfound hsame := hunresolved id cell hcell hfound (hsame.trans howner)

/-- Requests for keys at any container that was built keep the store consistent and bring what they should when they are
answered. -/
def Lookup.Sound (me : Thread) (require : Lookup) : Prop :=
  ∀ (s : Store) (c : Container) (k : Key), Consistent me s → s.HasBuilt c →
    Injection.Sound me s (require c k) fun v t => Answered me s c k v t

theorem sound_pursue {request : Attempt Failure Resolved} {post : Resolved → Store → Prop}
    (h : Sound me s request post) (p : Progress) (catches : Bool) : Sound me s (p.pursue catches request) fun _ _ => True := by
  refine h.outcome.bind fun result t ht _ _ => ?_
  split
  · exact .pure ht trivial
  · split
    · exact .pure ht trivial
    · exact .fail ht _

theorem sound_innerHandle (h : Consistent me s) (a : Handle) (p : Progress) (value index : Nat) :
    Sound me s (a.innerHandle p value index) fun l t => t.leadsUp l a.container = true := by
  unfold Handle.innerHandle
  split
  · exact .fail h _
  · refine (sound_leadsUp h _ _).bind fun yes t ht _ hyes => ?_
    split
    · next hup => exact .pure ht (hyes.trans hup)
    · exact .fail ht _

theorem sound_addConfig (h : Consistent me s) (p : Progress) (type : TypeInfo) (tag : String) :
    Sound me s (p.addConfig type tag) fun _ _ => True := by
  refine (sound_nextSerial h).bind fun serial t ht _ _ => ?_
  split
  · exact .fail ht _
  · exact (sound_tell ht _ _).bind fun _ _ hu _ _ => .pure hu trivial

theorem sound_mint (h : Consistent me s) (c : Container) (k : Key) (r : Recipe Step) (p : Progress) (serial : Nat) :
    Sound me s (r.mint c k p serial) fun v _ => v.type = r.makes := by
  unfold Recipe.mint
  split
  · next hmakes => exact (sound_numberConfigs h).bind fun _ _ ht _ _ => .pure ht hmakes.symm
  · exact .pure h rfl

section Lookup

variable {require : Lookup} (hrequire : require.Sound me) {c : Container}
include hrequire

theorem sound_typed (h : Consistent me s) (hc : s.HasBuilt c) (k : Key) :
    Sound me s (require.typed c k) fun v t => Answered me s c k v t ∧ v.type = k.type := by
  refine (hrequire s c k h hc).bind fun v t ht hst hv => ?_
  split
  · next htype => exact .pure ht ⟨hv, htype⟩
  · exact .fail ht _

theorem sound_config (h : Consistent me s) (hc : s.HasBuilt c) (type : TypeInfo) :
    Sound me s (require.config c type) fun v t => (Resolver.config type).Brings s t c (.value v) := by
  rw [Lookup.config_eq]
  refine (sound_typed hrequire h hc .configs).bind fun configs t ht _ hconfigs => ?_
  split
  · next config hconfig =>
    obtain ⟨o, b, hkey, hreturns⟩ := hconfigs.1.returns
    obtain rfl : config.type = type := by simpa using List.find?_some hconfig
    exact .pure ht (.config hkey hreturns (List.mem_of_find?_eq_some hconfig))
  · exact .fail ht _

/-- Looks up what a lazy handle is for, and keeps it: in the meantime nobody else can have found anything by it. -/
theorem sound_lookUp (h : Consistent me s) {l : Lazy} {cell : Cell} (hbuilt : s.HasBuilt cell.container)
    (hcell : s.cells l.id = some cell) (hfound : cell.found = none) : Sound me s (do
      let v ← require.typed cell.container cell.key
      keep l v) fun v t => l.Gives s t v := by
  refine (sound_typed hrequire h hbuilt cell.key).bind fun v t ht hst hv => ?_
  obtain ⟨o, b, hkey, hreturns⟩ := hv.1.returns
  have hcell' := hv.1.unresolved l.id cell hcell hfound rfl
  have haside := ht.use hcell' (hkey ▸ hreturns.told) fun _ ⟨o, b, howner, hplace⟩ => hv.1.closed o b howner hplace
  have heval := Attempt.eval_keep (ε := Failure) l v me t
  rw [Store.keep_of_unresolved hcell' hfound] at heval
  exact .of_eval_ok heval (haside.consistent ht) haside.evolves (.lookedUp hcell hfound hkey
    (hreturns.aside haside (haside.consistent ht)) (setAt_self _ _ _) List.mem_cons_self)

theorem sound_get (h : Consistent me s) (l : Lazy) : Sound me s (l.get require) fun v t => l.Gives s t v := by
  refine (sound_remember h l).bind fun found t ht _ hfound => ?_
  split
  · next v => exact .pure ht (hfound.1 v rfl)
  · obtain ⟨rfl, hnone⟩ := hfound.2 rfl
    refine (sound_reclaim ht l).bind fun cell? u hu _ hcell => ?_
    obtain ⟨halike, hcell⟩ := hcell
    split
    · exact .fail hu _
    · next cell =>
      obtain ⟨hbuilt, hcell⟩ := hcell cell rfl
      have hlookUp := sound_lookUp hrequire hu hbuilt hcell (hnone cell (halike.cells ▸ hcell))
      refine Sound.closing_letGo _ (hlookUp.weaken fun _ _ hgives => hgives.congr halike.symm (.refl _))
        fun _ _ hgives => hgives.congr (.refl _) ⟨rfl, rfl, rfl, rfl, rfl⟩

/-- What a handle gives, in the terms of requests. -/
theorem sound_use (h : Consistent me s) (l : Lazy) : Sound me s (Resolved.value <$> l.get require) fun resolved t =>
    ∃ v, resolved = .value v ∧ l.Gives s t v :=
  .map ((sound_get hrequire h l).weaken fun v _ hgives => ⟨v, rfl, hgives⟩)

theorem sound_resolve (h : Consistent me s) (hc : s.HasBuilt c) (r : Resolver) :
    Sound me s (r.resolve require c) fun resolved t => r.Brings s t c resolved := by
  induction r with
  | value k =>
      refine (sound_typed hrequire h hc k).bind fun _ _ ht _ hv => ?_
      obtain ⟨o, b, rfl, hreturns⟩ := hv.1.returns
      exact .pure ht (.value hreturns)
  | deferred type =>
      exact (sound_postpone h hc (.ofType type)).bind fun l _ ht _ hl => .pure ht (.deferred hl.1 hl.2)
  | config type => exact (sound_config hrequire h hc type).bind fun _ _ ht _ hbrings => .pure ht hbrings
  | optional inner ih =>
      refine ih.outcome.bind fun result t ht _ hresult => ?_
      split
      · next resolved => exact .pure ht (.present (hresult resolved rfl))
      · split
        · exact .pure ht .absent
        · exact .fail ht _

theorem sound_request (h : Consistent me s) (hc : s.HasBuilt c) (requester : Option Key) (r : Request) :
    Sound me s (Handle.request require ⟨c, requester⟩ r) fun resolved t => r.Brings s t c requester resolved := by
  cases r with
  | resolve r => exact (sound_resolve hrequire h hc r).weaken fun _ _ => .resolve
  | untyped k =>
      refine (hrequire s c k h hc).bind fun _ _ ht _ hv => ?_
      obtain ⟨o, b, rfl, hreturns⟩ := hv.returns
      exact .pure ht (.untyped hreturns)
  | requester => exact .pure h .requester

theorem sound_constructAll (h : Consistent me s) (hc : s.HasBuilt c) (total done : Nat) (ks : List Key) :
    Sound me s (constructAll require c total done ks) fun _ _ => True := by
  induction ks generalizing s done with
  | nil => exact .pure h trivial
  | cons k ks ih =>
      refine (sound_tell h _ _).bind fun _ t ht hst _ => ?_
      refine (hrequire t c k ht (hst.hasBuilt hc)).outcome.bind fun result u hu htu _ => ?_
      split
      · exact ih hu (htu.hasBuilt (hst.hasBuilt hc)) (done + 1)
      · exact (sound_tell hu _ _).bind fun _ _ hw _ _ => .fail hw _

theorem sound_initiate (h : Consistent me s) (hc : s.HasBuilt c) : Sound me s (c.initiate require) fun _ _ => True := by
  unfold Container.initiate
  split
  · exact .fail h _
  · refine (sound_tell h _ _).bind fun _ t ht hst _ => ?_
    refine (sound_constructAll hrequire ht (hst.hasBuilt hc) _ _ _).bind fun _ u hu _ _ => ?_
    exact sound_tell hu _ _

/-- Going on with a container that was built, once its scoped bindings are constructed if they are to be. -/
theorem sound_goOn (h : Consistent me s) (hc : s.HasBuilt c) (wrap : BuildError → ε) (eager : Bool)
    {next : Container → Attempt ε α} {post : α → Store → Prop}
    (hnext : ∀ t c, Consistent me t → t.HasBuilt c → Sound me t (next c) post) : Sound me s (do
      if eager then mapError wrap (c.initiate require)
      next c) post := by
  split
  · exact ((sound_initiate hrequire h hc).mapError wrap).bind fun _ t ht hst _ => hnext t c ht (hst.hasBuilt hc)
  · exact hnext s c h hc

theorem sound_buildThen (h : Consistent me s) {b : Builder} (hb : b.Proper s) (wrap : BuildError → ε) (eager : Bool)
    {next : Container → Attempt ε α} {post : α → Store → Prop}
    (hnext : ∀ t c, Consistent me t → t.HasBuilt c → Sound me t (next c) post)
    (hpost : ∀ c a t, post a t → post a (t.letGo c)) : Sound me s (b.buildThen require wrap eager next) post := by
  refine ((sound_build h hb).mapError wrap).bind fun c t ht _ hc => ?_
  refine (sound_hold ht c).bind fun _ u hu htu _ => ?_
  exact Sound.closing_letGo c (sound_goOn hrequire hu (htu.hasBuilt hc) wrap eager hnext) (hpost c)

theorem sound_step (h : Consistent me s) (hc : s.HasBuilt c) (requester : Option Key) (run : Nat) (p : Progress)
    (step : Step) : Sound me s (step.perform require ⟨c, requester⟩ run p) fun _ _ => True := by
  cases step with
  | fail message runs =>
      rw [Step.perform]
      split
      · exact .fail h _
      · exact .pure h trivial
  | panic message runs =>
      rw [Step.perform]
      split
      · exact .throw h _
      · exact .pure h trivial
  | pause => exact .pure h trivial
  | meet gate count =>
      refine (sound_arrive h gate).bind fun _ t ht _ _ => ?_
      exact (sound_await ht gate count).bind fun _ _ hu _ _ => .pure hu trivial
  | ask r path catches =>
      cases path with
      | none => exact sound_pursue (sound_request hrequire h hc requester r) p catches
      | some path =>
          rw [Step.perform]
          split
          · exact .fail h _
          · next a ha =>
            have ha := h.hasBuilt_of_reaches hc (Container.reaches_of_ancestor? ha)
            exact sound_pursue (sound_request hrequire h ha none r) p catches
  | use index catches =>
      rw [Step.perform]
      split
      · exact .fail h _
      · exact sound_pursue (sound_use hrequire h _) p catches
  | useInner value index catches =>
      refine (sound_innerHandle h _ p value index).bind fun l t ht _ _ => ?_
      exact sound_pursue (sound_use hrequire ht l) p catches
  | addConfig type tag => exact sound_addConfig h p type tag
  | nest drafts eager r catches =>
      have hb := (Builder.proper_below hc : (Builder.below c).Proper s)
      refine (sound_addDrafts h (b := (Builder.below c).withLabel "sub") ⟨hb.distinct, hb.parents⟩ drafts).bind
        fun b t ht _ hb => ?_
      exact sound_buildThen hrequire ht hb _ eager
        (fun u d hu hd => sound_pursue (sound_request hrequire hu hd none r) p catches) fun _ _ _ _ => trivial

theorem sound_steps (h : Consistent me s) (hc : s.HasBuilt c) (requester : Option Key) (run : Nat) (p : Progress)
    (steps : List Step) : Sound me s (Steps.perform require ⟨c, requester⟩ run p steps) fun _ _ => True := by
  induction steps generalizing s p with
  | nil => exact .pure h trivial
  | cons step steps ih =>
      exact (sound_step hrequire h hc requester run p step).bind fun p t ht hst _ => ih ht (hst.hasBuilt hc) p

/-- A run gives a value of the type that the recipe is for, as long as the types are right all over. -/
theorem sound_carryOut (h : Consistent me s) (hc : s.HasBuilt c) (k : Key) (r : Recipe Step) (run : Nat) :
    Sound me s (r.carryOut require c k run) fun v _ => c.Typed → v.type = r.product := by
  refine (sound_steps hrequire h hc (some k) run .start r.steps).bind fun p t ht hst _ => ?_
  refine (sound_nextSerial ht).bind fun serial u hu htu _ => ?_
  split
  · next other hother =>
    refine (hrequire u c other hu (htu.hasBuilt (hst.hasBuilt hc))).weaken fun v _ hv htyped => ?_
    rw [hv.typed htyped, Recipe.product, hother]
    rfl
  · next hother =>
    refine (sound_mint hu c k r p serial).weaken fun v _ hv _ => ?_
    rw [hv, Recipe.product, hother]
    rfl

omit hrequire in
/-- A request that is answered with what is there, an instance or a value that is kept. -/
theorem sound_of_found (h : Consistent me s) (hc : s.HasBuilt c) {o : Container} {b : Binding} {v : Value} {e : Event}
    (howner : c.owner? b.key = some (o, b)) (hplace : o.place b ∉ s.building me)
    (hfound : b.source = .given v ∨ s.slots.slot (o.place b) = .ready v)
    (hkept : b.isInstance = false → b.isKept = true) (htyped : c.Typed → v.type = b.key.type)
    (heval : (c.requireWith require b.key).eval me s =
      (.ok v, (s.passed me (o.place b) e).note (.answered c b.key v))) :
    Sound me s (c.requireWith require b.key) fun v t => Answered me s c b.key v t := by
  obtain ⟨hconsistent, hevolves⟩ := consistent_of_found h hc howner hplace hfound e
  refine .of_eval_ok heval hconsistent hevolves (.of_told howner hplace hconsistent hevolves List.mem_cons_self
    (fun hprovided hunkept => ?_) htyped fun _ _ hcell _ _ => ?_)
  · rw [hkept hprovided] at hunkept
    cases hunkept
  · rwa [Store.cells_note, cells_passed hplace]

/-- A request for a key that some own binding answers for, by the four ways of a construction. -/
theorem sound_answer (h : Consistent me s) (hc : s.HasBuilt c) {o : Container} {b : Binding}
    (howner : c.owner? b.key = some (o, b)) :
    Sound me s (c.requireWith require b.key) fun v t => Answered me s c b.key v t := by
  obtain ⟨hreaches, hlookup⟩ := Container.owner?_spec howner
  have ho : s.HasBuilt o := h.hasBuilt_of_reaches hc hreaches
  have hown : o.Owns (o.place b) b := ⟨rfl, hlookup⟩
  by_cases hplace : o.place b ∈ s.building me
  · exact .of_eval_error (by rw [eval_requireWith howner, eval_produce_refused hplace])
      ((h.refuse hplace).consistent h) (h.refuse hplace).evolves
  have hsettled := h.settled o (o.place b) b ho hown
  rcases hsource : b.source with v | r
  · refine sound_of_found h hc howner hplace (Or.inl hsource) (fun hprovided => ?_) (fun hall => ?_)
      (by rw [eval_requireWith howner, eval_produce_given hplace hsource])
    · rw [BindingOf.isInstance_of_given hsource] at hprovided
      cases hprovided
    have hbinding := ((hall.of_reaches hreaches).binding hown).1
    rwa [BindingOf.Typed, hsource] at hbinding
  rcases hslot : s.slots.slot (o.place b) with _ | owner | v
  · have hopenable : Openable me s o b r := ⟨ho, hlookup, hsource, hplace, hslot⟩
    have hopened : (s.opened me o b r).1.HasBuilt o := (hopenable.touches h).mem ho
    obtain ⟨ht, hrun, hresult⟩ :=
      sound_carryOut hrequire (hopenable.consistent h) hopened b.key r (s.opened me o b r).2
    have hproduce := eval_produce_recipe require hplace hsource hslot h.unwaited
    rcases heval : (r.carryOut require o b.key (s.opened me o b r).2).eval me (s.opened me o b r).1 with ⟨e | v, t⟩
    · rw [heval] at ht hrun hproduce
      obtain ⟨hconsistent, hevolves⟩ := hopenable.of_failed h ht hrun e
      exact .of_eval_error (by rw [eval_requireWith howner, hproduce]) hconsistent hevolves
    · rw [heval] at ht hrun hproduce hresult
      have htyped (hall : o.Typed) : v.type = b.key.type := by
        have hbinding := (hall.binding hown).1
        rw [BindingOf.Typed, hsource] at hbinding
        exact (hresult v rfl hall).trans hbinding
      have hct : t.HasBuilt c := hrun.hasBuilt ((hopenable.touches h).mem hc)
      obtain ⟨hconsistent, hevolves⟩ := hopenable.of_succeeded h ht hrun hct howner htyped
      exact .of_eval_ok (by rw [eval_requireWith howner, hproduce]) hconsistent hevolves
        (.of_told howner hplace hconsistent hevolves List.mem_cons_self
          (fun _ _ => hopenable.chronicle_answered h ht hrun howner) (fun hall => htyped (hall.of_reaches hreaches))
          fun _ _ => hopenable.unresolved h ht hrun (.ok v))
  · exact absurd (h.computing _ owner hslot).2 hplace
  · have hvalue := Slot.value?_eq_some.2 hslot
    have hkept := hsettled.isKept v hvalue
    have hmem : .succeeded (o.place b) v ∈ s.history := (succeeded_iff hsettled hkept).2 hvalue
    exact sound_of_found h hc howner hplace (Or.inr hslot) (fun _ => hkept)
      (fun hall => h.typed o (o.place b) b v ho hown (hall.of_reaches hreaches) hmem)
      (by rw [eval_requireWith howner, eval_produce_ready hplace hkept hslot h.unwaited])

theorem sound_requireWith (h : Consistent me s) (hc : s.HasBuilt c) (k : Key) :
    Sound me s (c.requireWith require k) fun v t => Answered me s c k v t := by
  rcases howner : c.owner? k with _ | ⟨o, b⟩
  · have halike : Alike s (s.tell ⟨.error, "Tried to require an unbound key: " ++ k.text⟩) :=
      ⟨rfl, rfl, rfl, rfl, rfl⟩
    exact .of_eval_error (eval_requireWith_missing howner) (halike.consistent h) halike.evolves
  · obtain rfl := Container.key_of_owner? howner
    exact sound_answer hrequire h hc howner

end Lookup

theorem sound_requireWithin (me : Thread) (depth : Nat) : (requireWithin depth).Sound me := by
  induction depth with
  | zero => exact fun s c k h _ => .throw h _
  | succ depth ih => exact fun s c k h hc => sound_requireWith ih h hc k

theorem sound_require (me : Thread) : Container.require.Sound me :=
  fun s c k h hc => sound_requireWithin me (c.weight + 1) s c k h hc

end Injection
