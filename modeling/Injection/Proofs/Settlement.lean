import Injection.Proofs.Pursuits

/-!
Lazy handles settle once. Whatever the providers do that a handle leads to, and whoever else uses the handle meanwhile,
everyone who gets a value from it gets the same one, and once it has been got it is there without further ado. A provider
may come upon a handle that leads to what it is constructing, in a value that keeps the handle: it gets nothing from it
then, since the handle leads it only back into that construction. So a thread that fails to get a value has not settled
the handle.
-/

namespace Injection

open Attempt Opening

/-! ### Gets -/

namespace Lazy

/-- What a lazy handle does while it has hold of its container. -/
def fetch (require : Lookup) (l : Lazy) (cell : Cell) : Attempt Failure Value := do
  let v ← require.typed cell.container cell.key
  keep l v

/-- How a lazy handle goes on that has tried to take hold of its container. -/
def lookUpIn (require : Lookup) (l : Lazy) : Option Cell → Attempt Failure Value
  | none => fail (.because (.dropped l.key))
  | some cell => closing (.letGo cell.container) (l.fetch require cell)

/-- How a lazy handle goes on that has found nothing so far. -/
def lookUp (require : Lookup) (l : Lazy) : Attempt Failure Value := do
  l.lookUpIn require (← reclaim l)

theorem run_lookUp (require : Lookup) (l : Lazy) :
    (l.lookUp require).run = .act (.reclaim l) fun cell? => (l.lookUpIn require cell?).run := rfl

theorem run_lookUpIn (require : Lookup) (l : Lazy) (cell : Cell) : (l.lookUpIn require (some cell)).run =
    (l.fetch require cell).run.bind fun result => .act (.letGo cell.container) fun _ => .done result := rfl

theorem run_get (require : Lookup) (l : Lazy) :
    (l.get require).run = .act (.remember l) fun found => found.elim (l.lookUp require).run fun v => .done (.ok v) := by
  show Process.act (.remember l) _ = _
  congr 1
  funext found
  cases found <;> rfl

end Lazy

theorem Lookup.Genuine.tidy {require : Lookup} (h : require.Genuine) (me : Thread) : require.Tidy me := by
  cases h with
  | outside => exact tidy_require me
  | within depth => exact tidy_requireWithin me depth

/-- A way to look keys up goes to the owners of the keys, or has no depth left. -/
theorem Lookup.Genuine.cases {require : Lookup} (h : require.Genuine) (me : Thread) (c : Container) (k : Key) :
    (∃ inner : Lookup, inner.Tidy me ∧ require c k = c.requireWith inner k) ∨ require c k = throw .exhausted := by
  cases h with
  | outside => exact .inl ⟨requireWithin c.weight, tidy_requireWithin me _, rfl⟩
  | within depth =>
      cases depth with
      | zero => exact .inr rfl
      | succ depth => exact .inl ⟨requireWithin depth, tidy_requireWithin me depth, rfl⟩

/-- The handle in which an action keeps something. -/
def Action.kept? : Action → Option Lazy
  | keep l _ => some l
  | _ => none

theorem Action.found?_perform {a : Action} {me : Thread} {s : Store} {l : Lazy} (hnone : s.found? l = none)
    (ha : ∀ l', a.kept? = some l' → l'.id ≠ l.id) : (a.perform me s).1.found? l = none := by
  cases a with
  | postpone c k =>
      show (setAt s.cells s.identities _ l.id).bind (·.found) = none
      by_cases hid : l.id = s.identities
      · rw [hid, setAt_self]
        rfl
      · rw [setAt_of_ne _ _ hid]
        exact hnone
  | keep l' v =>
      show (s.keep l' v).1.found? l = none
      rcases s.keep_cases l' v with ⟨-, h⟩ | ⟨cell, -, h⟩ <;> rw [h]
      · exact hnone
      · show (setAt s.cells l'.id _ l.id).bind (·.found) = none
        rw [setAt_of_ne _ _ (Ne.symm (ha l' rfl))]
        exact hnone
  | _ =>
      rw [Store.found?, leaves_perform.cells rfl]
      exact hnone

namespace Household

/-- Nobody has got a value from the handle. -/
def Unresolved (l : Lazy) (w : Household) : Prop := w.store.found? l = none

section

variable {α : Type} {w v : Household} {me : Thread} {l : Lazy} {others : Household → Household → Prop}
  (hothers : ∀ s t, others s t → Unresolved l s → Unresolved l t)

theorem Faces.unresolved_of_ne {a : Action} {next : a.Reply → Process α} (h : w.Faces me (.act a next))
    (hnone : Unresolved l w) (ha : ∀ l', a.kept? = some l' → l'.id ≠ l.id) : Unresolved l (w.turn me) := by
  have hafter : (a.perform me w.store).1.found? l = none := Action.found?_perform hnone ha
  rcases hreply : (a.perform me w.store).2 with _ | r
  · rw [Unresolved, (h.wait hreply).2]
    exact hafter
  · obtain ⟨-, -, ⟨held, hheld⟩, -⟩ := h.act hreply
    rw [Unresolved, hheld]
    exact hafter

theorem Faces.unresolved {a : Action} {next : a.Reply → Process α} (h : w.Faces me (.act a next))
    (hnone : Unresolved l w) (ha : a.kept? = none) : Unresolved l (w.turn me) :=
  h.unresolved_of_ne hnone fun _ hl => nomatch ha.symm.trans hl

include hothers

/-- An action that settles no handle. -/
theorem unresolved_act {a : Action} {next : a.Reply → Process α} (hw : w.Faces me (.act a next))
    (hnone : Unresolved l w) (ha : a.kept? = none)
    (hnext : ∀ v r, v.Faces me (next r) → w.Leads v → v.opens me = a.openings r (w.opens me) → Unresolved l v →
      Throughout (Unresolved l) me others (next r) v) : Throughout (Unresolved l) me others (.act a next) w :=
  throughout_act hothers hw hnone (fun _ hu hnone => hu.unresolved hnone ha) hnext

/-- A thread that constructs what a handle is for does not settle the handle. -/
theorem unresolved_of_within {p : Process α} (hw : w.Faces me p) (hnone : Unresolved l w) {cell : Cell}
    (hcell : ∃ found, w.store.cells l.id = some { cell with found }) {o : Container} {b : Binding}
    (howner : cell.container.owner? cell.key = some (o, b)) {floor : List Opening}
    (hplace : .within (o.place b) ∈ floor) {post : α → Store → Prop}
    (hpost : ∀ a s t, s.Lasts t → post a s → post a t) (htidy : p.Tidy me floor post (w.opens me) w.store) :
    Throughout (Unresolved l) me others p w := by
  intro q v h
  have hturn {a : Action} {next : a.Reply → Process α} {u : Household} (hu : Pursues me others p w (.act a next) u)
      (hnone : Unresolved l u) : Unresolved l (u.turn me) := by
    have hfaces := hw.pursue hu
    refine hfaces.unresolved_of_ne hnone fun l' ha hid => ?_
    cases a <;> cases ha
    obtain ⟨hfloor, hact⟩ := hu.tidy hw hpost htidy
    obtain ⟨found, hcell'⟩ := (hu.leads.lasts hw.order).exists_cell hcell
    obtain ⟨hfair, -⟩ := hact u.store (.refl _) hfaces.order.coherent (hfaces.order.shows me)
    exact (hfair { cell with found } (hid.symm ▸ hcell')).2 o b howner (hfloor.subset hplace)
  induction h with
  | start => exact hnone
  | act h _ ih => exact hturn h ih
  | wait h _ ih => exact hturn h ih
  | others _ _ _ hdid ih => exact hothers _ _ hdid ih

/-- The construction of what a handle is for does not settle the handle. -/
theorem unresolved_produce {inner : Lookup} (hinner : inner.Tidy me) {cell : Cell} {o : Container} {b : Binding}
    (howner : cell.container.owner? cell.key = some (o, b)) (hw : w.Faces me (o.produce inner b).run)
    (hnone : Unresolved l w) (hcell : ∃ found, w.store.cells l.id = some { cell with found })
    (ho : AtHand w.store (w.opens me) o) :
    Throughout (Unresolved l) me others (o.produce inner b).run w := by
  refine unresolved_act hothers hw hnone rfl fun v entered hv hleads hopens hnone => ?_
  cases entered with
  | false => exact throughout_done hothers hnone
  | true =>
      have hcell' := (hleads.lasts hw.order).exists_cell hcell
      have hhand : AtHand v.store (v.opens me) o := hopens ▸ (ho.mono (hleads.lasts hw.order)).cons _
      change v.Faces me ((if b.isKept then o.obtain inner b else o.construct inner b).run.bind fun result =>
        .act (.leave (o.place b)) fun _ => .done result) at hv
      change Throughout _ _ _ ((if b.isKept then o.obtain inner b else o.construct inner b).run.bind fun result =>
        .act (.leave (o.place b)) fun _ => .done result) v
      have htidy : Attempt.Tidy me (v.opens me) v.store (if b.isKept then o.obtain inner b else o.construct inner b)
          fun _ _ => True := by
        split
        · next hkept => exact (tidy_obtain hinner hhand hkept).weaken fun _ _ _ => trivial
        · exact (tidy_construct hinner hhand b).weaken fun _ _ _ => trivial
      have hplace : .within (o.place b) ∈ v.opens me := hopens ▸ List.mem_cons_self
      refine throughout_bind (unresolved_of_within hothers hv.left hnone hcell' howner hplace
        (fun _ _ _ _ _ _ _ => trivial) htidy) fun result u hu hnone => ?_
      exact unresolved_act hothers (hv.right hu) hnone rfl fun _ _ _ _ _ hnone => throughout_done hothers hnone

/-- A request for the key of a handle does not settle the handle. -/
theorem unresolved_requireWith {inner : Lookup} (hinner : inner.Tidy me) {cell : Cell}
    (hw : w.Faces me (cell.container.requireWith inner cell.key).run) (hnone : Unresolved l w)
    (hcell : ∃ found, w.store.cells l.id = some { cell with found })
    (hc : AtHand w.store (w.opens me) cell.container) :
    Throughout (Unresolved l) me others (cell.container.requireWith inner cell.key).run w := by
  rcases howner : cell.container.owner? cell.key with _ | ⟨o, b⟩
  · rw [Container.requireWith, howner] at hw ⊢
    exact unresolved_act hothers hw hnone rfl fun _ _ _ _ _ hnone => throughout_done hothers hnone
  · rw [Container.requireWith, howner] at hw ⊢
    have ho := hc.of_reaches (Container.owner?_spec howner).1
    refine throughout_bind (unresolved_produce hothers hinner howner hw.left hnone hcell ho) fun result u hu hnone => ?_
    have hu := hw.right hu
    cases result with
    | error e => exact throughout_done hothers hnone
    | ok x => exact unresolved_act hothers hu hnone rfl fun _ _ _ _ _ hnone => throughout_done hothers hnone

theorem unresolved_typed {require : Lookup} (hrequire : require.Genuine) {cell : Cell}
    (hw : w.Faces me (require.typed cell.container cell.key).run) (hnone : Unresolved l w)
    (hcell : ∃ found, w.store.cells l.id = some { cell with found })
    (hc : AtHand w.store (w.opens me) cell.container) :
    Throughout (Unresolved l) me others (require.typed cell.container cell.key).run w := by
  refine throughout_bind ?_ fun result u hu hnone => ?_
  · rcases hrequire.cases me cell.container cell.key with ⟨inner, hinner, heq⟩ | heq
    · have hleft := hw.left
      rw [heq] at hleft ⊢
      exact unresolved_requireWith hothers hinner hleft hnone hcell hc
    · rw [heq]
      exact throughout_done hothers hnone
  · rcases result with e | x
    · exact throughout_done hothers hnone
    · show Throughout _ _ _ (if x.type = cell.key.type then (pure x : Attempt Failure Value) else fail _).run u
      split
      · exact throughout_done hothers hnone
      · exact throughout_done hothers hnone

/-- A thread that looks up a handle in its container and fails has not settled the handle. -/
theorem unresolved_lookUpIn {require : Lookup} (hrequire : require.Genuine) {cell? : Option Cell}
    (hw : w.Faces me (l.lookUpIn require cell?).run) (hnone : Unresolved l w)
    (hcell : ∀ cell, cell? = some cell → (∃ found, w.store.cells l.id = some { cell with found }) ∧
      AtHand w.store (w.opens me) cell.container)
    {e : Stop Failure} (h : Pursues me others (l.lookUpIn require cell?).run w (.done (.error e)) v) :
    Unresolved l v := by
  rcases cell? with _ | cell
  · exact (h.of_done hothers hnone).2
  obtain ⟨hcell, hhand⟩ := hcell cell rfl
  rw [Lazy.run_lookUpIn] at hw h
  have htyped : Throughout (Unresolved l) me others (require.typed cell.container cell.key).run w :=
    unresolved_typed hothers hrequire hw.left.left hnone hcell hhand
  obtain ⟨result, m, hbody, hlast⟩ := h.of_bind_done
  have hresult : result = .error e := by
    have hend := hlast.mayEnd (.done _)
    rcases hend with _ | ⟨_, _, _, hend⟩
    cases hend
    rfl
  subst hresult
  refine unresolved_act hothers (hw.right hbody) ?_ rfl (fun _ _ _ _ _ hnone => throughout_done hothers hnone) _ v hlast
  rcases hbody.of_bind with ⟨p, hp, -⟩ | ⟨result, m', hresult, hkeep⟩
  · exact htyped p m hp
  · rcases result with e' | x
    · exact (hkeep.of_done hothers (htyped _ m' hresult)).2
    · rcases hkeep.mayEnd (.done _) with _ | ⟨_, _, _, hend⟩
      cases hend

omit hothers in
/-- What is got in the end from a handle is in the handle then. -/
theorem found?_of_got {require : Lookup} (hrequire : require.Genuine) (hw : w.Faces me (l.get require).run) {x : Value}
    (h : Pursues me others (l.get require).run w (.done (.ok x)) v) : v.store.found? l = some x := by
  have hpost (result : Except (Stop Failure) Value) (s t : Store) (hst : s.Lasts t)
      (h : ∀ x, result = .ok x → s.found? l = some x) (x) (hx : result = .ok x) : t.found? l = some x :=
    hst.found? (h x hx)
  exact (h.ended hw hpost (tidy_get (hrequire.tidy me) l)).2 x rfl

/-- A thread that constructs what a handle is for gets nothing from the handle. -/
theorem unresolved_of_reentered {require : Lookup} (hrequire : require.Genuine) (hw : w.Faces me (l.get require).run)
    (hnone : Unresolved l w) {cell : Cell} (hcell : w.store.cells l.id = some cell) {o : Container} {b : Binding}
    (howner : cell.container.owner? cell.key = some (o, b)) (hwithin : .within (o.place b) ∈ w.opens me)
    {result : Except (Stop Failure) Value} (h : Pursues me others (l.get require).run w (.done result) v) :
    (∃ e, result = .error e) ∧ Unresolved l v := by
  have htidy : Attempt.Tidy me (w.opens me) w.store (l.get require) fun _ _ => True :=
    (tidy_get (hrequire.tidy me) l).weaken fun _ _ _ => trivial
  have hend : Unresolved l v := unresolved_of_within hothers hw hnone ⟨cell.found, hcell⟩ howner hwithin
    (fun _ _ _ _ _ _ _ => trivial) htidy _ v h
  refine ⟨?_, hend⟩
  rcases result with e | x
  · exact ⟨e, rfl⟩
  · cases (found?_of_got hrequire hw h).symm.trans hend

omit hothers in
theorem unresolved_of_remember {u : Household} (hreply : ((Action.remember l).perform me u.store).2 = some none) :
    Unresolved l u := by
  obtain hreply : (u.store.remember l).2 = none := Option.some.inj hreply
  unfold Store.remember at hreply
  rw [Unresolved, Store.found?]
  split at hreply
  · next hcell => rw [hcell]; rfl
  · next cell hcell =>
    rw [hcell]
    show cell.found = none
    split at hreply
    · cases hreply
    · next hfound => exact hfound

/-- A thread that fails to get a value has not settled the handle. -/
theorem unresolved_of_failed {require : Lookup} (hrequire : require.Genuine) (hw : w.Faces me (l.get require).run)
    {e : Stop Failure} (h : Pursues me others (l.get require).run w (.done (.error e)) v) : Unresolved l v := by
  rw [Lazy.run_get] at hw h
  obtain ⟨u, found, -, hu, hreply, hrest⟩ := h.performed hw
  have hfaces := hw.pursue hu
  obtain ⟨hnext, -⟩ := hfaces.act hreply
  rcases found with _ | x
  · have hnone := hfaces.unresolved (unresolved_of_remember hreply) rfl
    rw [Option.elim_none, Lazy.run_lookUp] at hnext hrest
    rcases hrest.of_act hothers hnext hnone (fun u hu hnone _ => hu.unresolved hnone rfl) with
      ⟨-, heq⟩ | ⟨u', cell?, ⟨-, hnone'⟩, hu', hreply', hrest'⟩
    · cases heq
    have hfaces' := hnext.pursue hu'
    obtain ⟨hnext', hopens, -, hst⟩ := hfaces'.act hreply'
    refine unresolved_lookUpIn hothers hrequire hnext' (hfaces'.unresolved hnone' rfl) ?_ hrest'
    rintro cell rfl
    obtain ⟨hcell, -⟩ := Store.reclaim_of_some (Option.some.inj hreply')
    obtain ⟨found, hcell', -⟩ := hst.cells _ _ hcell
    refine ⟨⟨found, hcell'⟩, ?_⟩
    rw [hopens]
    exact .holding (hnext'.order.coherent.knows (hnext'.order.coherent.cells _ _ hcell').2.1)
  · cases hrest.eq_done

end

/-! ### Answers -/

section

variable {w v : Household} {me : Thread} {others : Household → Household → Prop} {c : Container} {k : Key} {x : Value}

theorem answered_of_requireWith {inner : Lookup} (hw : w.Faces me (c.requireWith inner k).run)
    (h : Pursues me others (c.requireWith inner k).run w (.done (.ok x)) v) : .answered c k x ∈ v.store.history := by
  rcases howner : c.owner? k with _ | ⟨o, b⟩
  · rw [Container.requireWith, howner] at h
    rcases h.mayEnd (.done _) with _ | ⟨_, _, _, hend⟩
    cases hend
  rw [Container.requireWith, howner] at hw h
  obtain ⟨result, u, hproduce, hrest⟩ := h.of_bind_done
  have hu := hw.right hproduce
  rcases result with e | y
  · cases hrest.mayEnd (.done _)
  have hnote : (do note (.answered c k y); pure y : Attempt Failure Value).run =
      .act (.note (.answered c k y)) fun _ => .done (.ok y) := rfl
  change u.Faces me (do note (.answered c k y); pure y : Attempt Failure Value).run at hu
  change Pursues me others (do note (.answered c k y); pure y : Attempt Failure Value).run u _ v at hrest
  rw [hnote] at hu hrest
  obtain ⟨m, r, -, hm, hreply, hend⟩ := hrest.performed hu
  obtain ⟨hnext, -, ⟨held, hheld⟩, -⟩ := (hu.pursue hm).act hreply
  cases hend.eq_done
  refine (hend.leads.lasts hnext.order).mem ?_
  rw [hheld]
  exact List.mem_cons_self

/-- A typed request that gives a value is on record with it. -/
theorem answered_of_typed {require : Lookup} (hrequire : require.Genuine) (hw : w.Faces me (require.typed c k).run)
    (h : Pursues me others (require.typed c k).run w (.done (.ok x)) v) : .answered c k x ∈ v.store.history := by
  obtain ⟨result, u, hrequest, hrest⟩ := h.of_bind_done
  rcases result with e | y
  · cases hrest.mayEnd (.done _)
  obtain rfl : x = y := by
    have hend : Process.MayEnd (if y.type = k.type then (pure y : Attempt Failure Value) else fail _).run (.ok x) :=
      hrest.mayEnd (.done _)
    split at hend <;> cases hend
    rfl
  have hleft := hw.left
  refine (hrest.leads.lasts (hleft.pursue hrequest).order).mem ?_
  rcases hrequire.cases me c k with ⟨inner, -, heq⟩ | heq
  · rw [heq] at hleft hrequest
    exact answered_of_requireWith hleft hrequest
  · rw [heq] at hrequest
    cases hrequest.mayEnd (.done _)

end

/-- A thread has just come to this end of an attempt. -/
def Ends {α : Type} (w : Household) (me : Thread) (x : Attempt Failure α) (result : Except (Stop Failure) α) : Prop :=
  ∃ v, v.Reached ∧ (∃ next, v.team.threads me = x.run.bind next) ∧ Pursues me Anything x.run v (.done result) w

/-- A thread has just got this from a lazy handle. -/
def HasGot (w : Household) (me : Thread) (l : Lazy) (result : Except (Stop Failure) Value) : Prop :=
  ∃ require : Lookup, require.Genuine ∧ w.Ends me (l.get require) result

/-- A thread has just been answered this when it asked a container for the value of a key. -/
def HasAsked (w : Household) (me : Thread) (c : Container) (k : Key) (result : Except (Stop Failure) Value) : Prop :=
  ∃ require : Lookup, require.Genuine ∧ w.Ends me (require.typed c k) result

variable {w v : Household} {me : Thread} {l : Lazy} {x : Value}

theorem Ends.inOrder {α : Type} {x : Attempt Failure α} {result : Except (Stop Failure) α} (h : w.Ends me x result) :
    w.InOrder := by
  obtain ⟨v, hv, -, hpursues⟩ := h
  exact hpursues.leads.inOrder hv.inOrder

theorem HasGot.found? (h : w.HasGot me l (.ok x)) : w.store.found? l = some x := by
  obtain ⟨require, hrequire, v, hv, hbefore, hpursues⟩ := h
  exact found?_of_got hrequire ⟨hv.inOrder, hbefore⟩ hpursues

theorem HasGot.answered (h : w.HasGot me l (.ok x)) {cell : Cell} (hcell : w.store.cells l.id = some cell) :
    .answered cell.container cell.key x ∈ w.store.history := by
  have hfound := h.found?
  obtain ⟨require, -, hends⟩ := h
  rw [Store.found?, hcell] at hfound
  exact (hends.inOrder.coherent.cells _ _ hcell).2.2 x hfound

theorem HasAsked.answered {c : Container} {k : Key} (h : w.HasAsked me c k (.ok x)) :
    .answered c k x ∈ w.store.history := by
  obtain ⟨require, hrequire, v, hv, hbefore, hpursues⟩ := h
  exact answered_of_typed hrequire ⟨hv.inOrder, hbefore⟩ hpursues

end Household

/-- For a scoped binding, and for an instance, there is just one value for good. -/
theorem Store.Standing.unique {s : Store} {o : Container} {b : Binding} {x y : Value} (hx : s.Standing o b x)
    (hy : s.Standing o b y) (hb : b.isScoped = true ∨ b.isInstance = true) : y = x := by
  cases hsource : b.source with
  | given v => rw [hx.given v hsource, hy.given v hsource]
  | recipe r =>
      have hprovided := BindingOf.isInstance_of_recipe hsource
      have hkept : b.isKept = true := by
        rw [hprovided] at hb
        simp [BindingOf.isKept, hprovided, hb.resolve_right Bool.false_ne_true]
      exact Slot.ready.inj ((hy.kept hkept).symm.trans (hx.kept hkept))

/-- All who get a value from a lazy handle get the same. -/
structure Lazy.SettlesOnce (l : Lazy) : Prop where
  /-- What was got from the handle once is there for good. -/
  lasting : ∀ {w v : Household} {x : Value}, w.Reached → w.Leads v → w.store.found? l = some x →
    v.store.found? l = some x
  resolved : ∀ {w : Household} {me : Thread} {x : Value}, w.HasGot me l (.ok x) → w.store.found? l = some x
  /-- Two gets, of any two threads or of the same, one of which is over before the other. -/
  agreed : ∀ {w v : Household} {me you : Thread} {x y : Value}, w.HasGot me l (.ok x) → w.Leads v →
    v.HasGot you l (.ok y) → y = x
  /-- A get that begins after the handle was resolved gives the value at once, and does nothing else. It does not matter
  whether the container is still there. -/
  settled : ∀ {w : Household} {me : Thread} {x : Value} {require : Lookup}
    {next : Except (Stop Failure) Value → Process (Option Upshot)}, w.Reached → w.store.found? l = some x →
    w.team.threads me = (l.get require).run.bind next →
    (w.turn me).team.threads me = next (.ok x) ∧ (w.turn me).store.slots = w.store.slots ∧
      (w.turn me).store.runs = w.store.runs ∧ (w.turn me).store.calls = w.store.calls
  /-- A get that fails does not resolve the handle, so the handle is unresolved afterwards unless others resolve it. -/
  unsettled : ∀ {w v : Household} {me : Thread} {require : Lookup}
    {next : Except (Stop Failure) Value → Process (Option Upshot)} {others : Household → Household → Prop}
    {e : Stop Failure}, w.Reached → require.Genuine → w.team.threads me = (l.get require).run.bind next →
    (∀ s t, others s t → s.store.found? l = none → t.store.found? l = none) →
    Household.Pursues me others (l.get require).run w (.done (.error e)) v → v.store.found? l = none
  /-- Within the construction of what an unresolved handle is for, the thread that constructs it gets nothing from the
  handle, and the handle stays unresolved unless others resolve it. -/
  reentered : ∀ {w v : Household} {me : Thread} {require : Lookup}
    {next : Except (Stop Failure) Value → Process (Option Upshot)} {others : Household → Household → Prop}
    {cell : Cell} {o : Container} {b : Binding} {result : Except (Stop Failure) Value}, w.Reached → require.Genuine →
    w.store.found? l = none → w.store.cells l.id = some cell → cell.container.owner? cell.key = some (o, b) →
    .within (o.place b) ∈ w.opens me → w.team.threads me = (l.get require).run.bind next →
    (∀ s t, others s t → s.store.found? l = none → t.store.found? l = none) →
    Household.Pursues me others (l.get require).run w (.done result) v →
    (∃ e, result = .error e) ∧ v.store.found? l = none
  /-- A get of a handle that is unresolved looks it up in the container, if that is still there. -/
  again : ∀ {w : Household} {me : Thread} {require : Lookup}
    {next : Except (Stop Failure) Value → Process (Option Upshot)} {cell : Cell}, w.Reached →
    w.store.found? l = none → w.store.cells l.id = some cell → w.Alive cell.container →
    w.team.threads me = (l.get require).run.bind next →
    ((w.turn me).turn me).team.threads me = (l.lookUpIn require (some cell)).run.bind next
  /-- What is got from a handle on a scoped binding or an instance is what requests to the container give. -/
  shared : ∀ {w v : Household} {me you : Thread} {x y : Value} {cell : Cell} {o : Container} {b : Binding},
    w.HasGot me l (.ok x) → w.store.cells l.id = some cell → cell.container.owner? cell.key = some (o, b) →
    b.isScoped = true ∨ b.isInstance = true → v.HasAsked you cell.container cell.key (.ok y) →
    w.Leads v ∨ v.Leads w → y = x

theorem Store.remember_of_found {s : Store} {l : Lazy} {x : Value} (h : s.found? l = some x) :
    ∃ c k, s.remember l = (s.note (.used c k x), some x) := by
  obtain ⟨cell, hcell, hfound⟩ := Option.bind_eq_some_iff.1 h
  exact ⟨cell.container, cell.key, by simp [remember, hcell, hfound]⟩

theorem Store.remember_of_unresolved {s : Store} {l : Lazy} (h : s.found? l = none) : s.remember l = (s, none) := by
  unfold remember
  split
  · rfl
  · next cell hcell =>
    rw [found?, hcell] at h
    split
    · next v hfound => cases hfound.symm.trans h
    · rfl

namespace Household

variable {w v : Household} {me : Thread} {l : Lazy} {x : Value} {require : Lookup}
  {next : Except (Stop Failure) Value → Process (Option Upshot)}

/-- What there was to get from a handle is got in one turn. -/
theorem turn_of_found (hfound : w.store.found? l = some x) (hp : w.team.threads me = (l.get require).run.bind next) :
    (w.turn me).team.threads me = next (.ok x) ∧ (w.turn me).store.slots = w.store.slots ∧
      (w.turn me).store.runs = w.store.runs ∧ (w.turn me).store.calls = w.store.calls := by
  obtain ⟨c, k, hremember⟩ := Store.remember_of_found hfound
  have hreply : ((Action.remember l).perform me w.store).2 = some (some x) :=
    congrArg (fun reply => some (Prod.snd reply)) hremember
  have hstore : ((Action.remember l).perform me w.store).1 = w.store.note (.used c k x) :=
    congrArg Prod.fst hremember
  rw [Lazy.run_get] at hp
  rw [turn_goes hp hreply, hstore]
  exact ⟨setAt_self .., rfl, rfl, rfl⟩

/-- A get of a handle that is unresolved goes to the container of the handle next. -/
theorem turn_of_unresolved (hnone : w.store.found? l = none)
    (hp : w.team.threads me = (l.get require).run.bind next) :
    (w.turn me).team.threads me = (l.lookUp require).run.bind next ∧ (w.turn me).store = w.store := by
  have hremember := Store.remember_of_unresolved hnone
  have hreply : ((Action.remember l).perform me w.store).2 = some none :=
    congrArg (fun reply => some (Prod.snd reply)) hremember
  have hstore : ((Action.remember l).perform me w.store).1 = w.store := congrArg Prod.fst hremember
  rw [Lazy.run_get] at hp
  rw [turn_goes hp hreply, hstore]
  exact ⟨setAt_self .., rfl⟩

theorem turn_of_lookUp {cell : Cell} (hcell : w.store.cells l.id = some cell)
    (halive : w.store.isAlive cell.container.id = true) (hp : w.team.threads me = (l.lookUp require).run.bind next) :
    (w.turn me).team.threads me = (l.lookUpIn require (some cell)).run.bind next := by
  have hreply : ((Action.reclaim l).perform me w.store).2 = some (some cell) :=
    congrArg (fun reply => some (Prod.snd reply)) (Store.reclaim_of_alive hcell halive)
  rw [Lazy.run_lookUp] at hp
  exact threads_turn_self hp hreply

end Household

theorem settlesOnce (l : Lazy) : l.SettlesOnce := by
  have hlasting {w v : Household} {x : Value} (hw : w.InOrder) (hleads : w.Leads v)
      (hfound : w.store.found? l = some x) : v.store.found? l = some x := (hleads.lasts hw).found? hfound
  constructor
  case lasting => exact fun hw hleads hfound => hlasting hw.inOrder hleads hfound
  case resolved => exact fun hgot => hgot.found?
  case agreed =>
    intro w v me you x y hx hleads hy
    obtain ⟨require, -, hends⟩ := id hx
    exact Option.some.inj (hy.found?.symm.trans (hlasting hends.inOrder hleads hx.found?))
  case settled => exact fun _ hfound hp => Household.turn_of_found hfound hp
  case unsettled =>
    intro w v me require next others e hw hrequire hp hothers hpursues
    exact Household.unresolved_of_failed hothers hrequire ⟨hw.inOrder, next, hp⟩ hpursues
  case reentered =>
    intro w v me require next others cell o b result hw hrequire hnone hcell howner hwithin hp hothers hpursues
    exact Household.unresolved_of_reentered hothers hrequire ⟨hw.inOrder, next, hp⟩ hnone hcell howner hwithin hpursues
  case again =>
    intro w me require next cell hw hnone hcell halive hp
    obtain ⟨hlookUp, hstore⟩ := Household.turn_of_unresolved hnone hp
    refine Household.turn_of_lookUp (hstore ▸ hcell) ?_ hlookUp
    rw [hstore]
    exact (hw.inOrder.isAlive_cell_iff hcell).2 halive
  case shared =>
    intro w v me you x y cell o b hx hcell howner hb hy horder
    obtain ⟨require, -, hends⟩ := id hx
    obtain ⟨require', -, hends'⟩ := id hy
    have hx := hx.answered hcell
    have hy := hy.answered
    have hboth {u : Household} (hu : u.InOrder) (hx : .answered cell.container cell.key x ∈ u.store.history)
        (hy : .answered cell.container cell.key y ∈ u.store.history) : y = x :=
      (hu.coherent.answers _ _ x hx o b howner).unique (hu.coherent.answers _ _ y hy o b howner) hb
    rcases horder with hleads | hleads
    · exact hboth hends'.inOrder ((hleads.lasts hends.inOrder).mem hx) hy
    · exact hboth hends.inOrder hx ((hleads.lasts hends'.inOrder).mem hy)

namespace House

open Household

def lamp : TypeInfo := ⟨1, "Lamp", .number⟩

def panel : TypeInfo := ⟨2, "Panel", .number⟩

/-- A panel has a switch, through which it may get to the lamp. -/
def panelBinding : Binding :=
  (BindingOf.provider ⟨panel, "", [.ask (.resolve (.deferred lamp)) none false], none⟩).keeping

/-- Each construction makes another lamp, and tries the switch of the panel meanwhile. -/
def lampBinding : Binding :=
  .provider ⟨lamp, "", [.ask (.resolve (.value (.ofType panel))) none false, .useInner 0 0 true], none⟩

def house : Container :=
  ⟨0, "house", ⟨[lampBinding, panelBinding]⟩, [], Graph.assemble ⟨[lampBinding, panelBinding]⟩ []⟩

def switch : Lazy := ⟨1, .ofType lamp⟩

def built : Household :=
  (empty.begin 0 (.build "house" [] [lampBinding, panelBinding] false)).after (List.replicate 6 0)

def wired : Household :=
  ((built.finish 0).begin 0 (.ask ⟨house, none⟩ (.resolve (.value (.ofType panel))))).after (List.replicate 11 0)

/-- Two threads use the handle at the same time. -/
def raced : Household :=
  (((wired.finish 0).begin 0 (.use switch)).begin 1 (.use switch)).after (List.replicate 21 [0, 1]).flatten

/-- Nothing is left of the house. -/
def gone : Household :=
  ((raced.finish 0).finish 1).manage (Container.release ((raced.finish 0).finish 1).store.held [house]) [] []

/-- The lamp that was made first. While it was made, the switch led back to its own construction. -/
def bulb : Value :=
  .made lamp 2 (.provided "" (.ofType lamp) "house"
    [.value (.made 1 panel), .failed (.because (.cyclic (.ofType lamp)))] [])

def used : Process (Option Upshot) := .done (some (.used switch (.ok bulb)))

theorem reached_built : built.Reached := (Leads.refl.step (.begin 0 _ rfl (List.forall_mem_nil _))).after _

set_option maxRecDepth 4000 in
theorem reached_gone : gone.Reached := by
  have hhouse : house ∈ (built.finish 0).containers := List.mem_cons_self
  have hwired : wired.Reached :=
    (reached_built.next rfl (List.forall_mem_singleton.2 (.held hhouse))).after _
  have hraced : raced.Reached :=
    ((hwired.next rfl (List.forall_mem_nil _)).step (.begin 1 _ rfl (List.forall_mem_nil _))).after _
  exact ((hraced.step (.finish 0 _ rfl)).step (.finish 1 _ rfl)).step (.drop [] house [] rfl)

end House

set_option maxRecDepth 4000 in
open House in
/-- Two threads made a lamp each and tried the switch on the way, but both got the first lamp, and it can still be got when
the house is gone. -/
theorem settlesOnce_switch : (raced.store.serial = 3 ∧ raced.team.threads 0 = used ∧ raced.team.threads 1 = used) ∧
    gone.store.isAlive house.id = false ∧ ((gone.begin 0 (.use switch)).turn 0).team.threads 0 = used := by
  have hbegun : (gone.begin 0 (.use switch)).Reached := reached_gone.step (.begin 0 _ rfl (List.forall_mem_nil _))
  have hbefore : (gone.begin 0 (.use switch)).team.threads 0 = (switch.get Container.require).run.bind fun result =>
      .done (some (.used switch result)) := rfl
  exact ⟨⟨rfl, rfl, rfl⟩, rfl, ((settlesOnce switch).settled hbegun rfl hbefore).1⟩

end Injection
