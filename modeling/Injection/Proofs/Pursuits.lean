import Injection.Proofs.Absence
import Injection.Proofs.Housekeeping

/-!
A thread pursues a part of its process, such as one request, while the others do what they like between its actions. What
becomes of the part depends on these actions alone. A tidy part stays tidy, so when it has come to its end the thread is
in the midst of the same things as before.
-/

namespace Injection

open Opening

namespace Household

variable {α β : Type} {w v u : Household} {me : Thread} {who : Option Thread}

/-! ### What the others do -/

theorem threads_turn_of_ne {t : Thread} (ht : t ≠ me) : (w.turn me).team.threads t = w.team.threads t := by
  unfold turn
  split
  · rfl
  · split
    · rfl
    · exact setAt_of_ne _ _ ht

theorem opens_turn_of_ne {t : Thread} (ht : t ≠ me) : (w.turn me).opens t = w.opens t := by
  unfold turn
  split
  · rfl
  · split
    · rfl
    · exact ofThread_reopen_of_ne _ _ _ ht

theorem Step.threads_of_ne (hstep : w.Step who v) (hwho : who ≠ some me) : v.team.threads me = w.team.threads me := by
  have hne {t : Thread} (h : some t ≠ some me) : me ≠ t := fun heq => h (congrArg some heq.symm)
  cases hstep with
  | begin t op => exact setAt_of_ne _ _ (hne hwho)
  | turn t => exact threads_turn_of_ne (hne hwho)
  | finish t => exact setAt_of_ne _ _ (hne hwho)
  | _ => rfl

theorem Step.opens_of_ne (hstep : w.Step who v) (hwho : who ≠ some me) : v.opens me = w.opens me := by
  have hne {t : Thread} (h : some t ≠ some me) : me ≠ t := fun heq => h (congrArg some heq.symm)
  cases hstep with
  | begin t op => exact ofThread_reopen_of_ne _ _ _ (hne hwho)
  | turn t => exact opens_turn_of_ne (hne hwho)
  | finish t => exact ofThread_reopen_of_ne _ _ _ (hne hwho)
  | _ => rfl

/-! ### Parts of processes -/

/-- A thread goes on with a part of its process, and others do only such things meanwhile. -/
inductive Pursues (me : Thread) (others : Household → Household → Prop) (p : Process α) (w : Household) :
    Process α → Household → Prop
  | start : Pursues me others p w p w
  | act {a : Action} {next : a.Reply → Process α} {v : Household} {r : a.Reply}
      (h : Pursues me others p w (.act a next) v) (hreply : (a.perform me v.store).2 = some r) :
      Pursues me others p w (next r) (v.turn me)
  | wait {a : Action} {next : a.Reply → Process α} {v : Household} (h : Pursues me others p w (.act a next) v)
      (hreply : (a.perform me v.store).2 = none) : Pursues me others p w (.act a next) (v.turn me)
  | others {q : Process α} {v u : Household} {who : Option Thread} (h : Pursues me others p w q v) (hstep : v.Step who u)
      (hwho : who ≠ some me) (hothers : others v u) : Pursues me others p w q u

/-- Whatever the others do. -/
def Anything (_ _ : Household) : Prop := True

namespace Pursues

variable {others : Household → Household → Prop} {p q : Process α}

theorem leads (h : Pursues me others p w q v) : w.Leads v := by
  induction h with
  | start => exact .refl
  | act _ _ ih => exact ih.step (.turn me)
  | wait _ _ ih => exact ih.step (.turn me)
  | others _ hstep _ _ ih => exact ih.step hstep

/-- What is left of the part is the part of what is left. -/
theorem threads (h : Pursues me others p w q v) {next : α → Process (Option Upshot)}
    (hp : w.team.threads me = p.bind next) : v.team.threads me = q.bind next := by
  induction h with
  | start => exact hp
  | act _ hreply ih => exact threads_turn_self ih hreply
  | wait _ hreply ih => rwa [turn_waits ih hreply]
  | others _ hstep hwho _ ih => exact (hstep.threads_of_ne hwho).trans ih

/-- A part that goes on from another one has come to the end of that one, or is still within it. -/
theorem of_bind {f : α → Process β} {q : Process β} (h : Pursues me others (p.bind f) w q v) :
    (∃ p', Pursues me others p w p' v ∧ q = p'.bind f) ∨
      ∃ a u, Pursues me others p w (.done a) u ∧ Pursues me others (f a) u q v := by
  generalize hstart : p.bind f = start at h
  induction h with
  | start => exact .inl ⟨p, .start, hstart.symm⟩
  | @act a next v r h hreply ih =>
      rcases ih with ⟨p' | ⟨a', next'⟩, hp', heq⟩ | ⟨b, u, hb, hrest⟩
      · exact .inr ⟨_, v, hp', .act (heq ▸ .start) hreply⟩
      · cases heq
        exact .inl ⟨next' r, hp'.act hreply, rfl⟩
      · exact .inr ⟨b, u, hb, hrest.act hreply⟩
  | @wait a next v h hreply ih =>
      rcases ih with ⟨p' | ⟨a', next'⟩, hp', heq⟩ | ⟨b, u, hb, hrest⟩
      · exact .inr ⟨_, v, hp', .wait (heq ▸ .start) hreply⟩
      · cases heq
        exact .inl ⟨.act a next', hp'.wait hreply, rfl⟩
      · exact .inr ⟨b, u, hb, hrest.wait hreply⟩
  | others h hstep hwho hothers ih =>
      rcases ih with ⟨p', hp', heq⟩ | ⟨b, u, hb, hrest⟩
      · exact .inl ⟨p', hp'.others hstep hwho hothers, heq⟩
      · exact .inr ⟨b, u, hb, hrest.others hstep hwho hothers⟩

theorem of_bind_done {f : α → Process β} {b : β} (h : Pursues me others (p.bind f) w (.done b) v) :
    ∃ a u, Pursues me others p w (.done a) u ∧ Pursues me others (f a) u (.done b) v := by
  rcases h.of_bind with ⟨a | ⟨a, next⟩, hp, heq⟩ | hend
  · exact ⟨a, v, hp, heq ▸ .start⟩
  · cases heq
  · exact hend

/-- What a thread may come to among others its process may come to. -/
theorem mayEnd (h : Pursues me others p w q v) {a : α} (ha : q.MayEnd a) : p.MayEnd a := by
  induction h with
  | start => exact ha
  | act _ _ ih => exact ih (.act _ _ _ ha)
  | wait _ _ ih => exact ih ha
  | others _ _ _ _ ih => exact ih ha

end Pursues

/-- A thread has a part of its process before it. -/
structure Faces (w : Household) (me : Thread) (p : Process α) : Prop where
  order : w.InOrder
  before : ∃ next, w.team.threads me = p.bind next

namespace Faces

variable {others : Household → Household → Prop} {p q : Process α} {f : α → Process β}

theorem pursue (h : w.Faces me p) (hq : Pursues me others p w q v) : v.Faces me q :=
  ⟨hq.leads.inOrder h.order, h.before.imp fun _ hp => hq.threads hp⟩

theorem left (h : w.Faces me (p.bind f)) : w.Faces me p :=
  ⟨h.order, h.before.imp' (fun next a => (f a).bind next) fun _ hp => hp.trans (Process.bind_assoc ..)⟩

theorem right (h : w.Faces me (p.bind f)) {a : α} (ha : Pursues me others p w (.done a) v) : v.Faces me (f a) := by
  obtain ⟨next, hp⟩ := h.before
  exact ⟨ha.leads.inOrder h.order, next, ha.threads (hp.trans (Process.bind_assoc ..))⟩

/-- What a thread does next is fair, and leaves the store coherent. -/
theorem perform {a : Action} {next : a.Reply → Process α} {r : a.Reply} (h : w.Faces me (.act a next))
    (hreply : (a.perform me w.store).2 = some r) :
    a.Fair w.store (w.opens me) ∧ w.store.Lasts (a.perform me w.store).1 ∧ (a.perform me w.store).1.Coherent := by
  obtain ⟨rest, hp⟩ := h.before
  have hturned := h.order.turned me
  generalize w.turn me = v at hturned
  cases hturned with
  | idle hdone => cases hdone.symm.trans hp
  | waits hp' hperform hst =>
      cases hp'.symm.trans hp
      rw [hperform] at hreply
      cases hreply
  | goes hp' hperform hfair hst hstore =>
      cases hp'.symm.trans hp
      rw [hperform]
      exact ⟨hfair, hst, hstore⟩

theorem act {a : Action} {next : a.Reply → Process α} {r : a.Reply} (h : w.Faces me (.act a next))
    (hreply : (a.perform me w.store).2 = some r) :
    (w.turn me).Faces me (next r) ∧ (w.turn me).opens me = a.openings r (w.opens me) ∧
      (∃ held, (w.turn me).store = { (a.perform me w.store).1 with held }) ∧ w.store.Lasts (w.turn me).store := by
  obtain ⟨rest, hp⟩ := h.before
  refine ⟨⟨h.order.turn me, rest, threads_turn_self hp hreply⟩, opens_turn_self hp hreply, ?_,
    (Step.turn me).lasts h.order⟩
  rw [turn_goes hp hreply]
  exact ⟨_, rfl⟩

theorem wait {a : Action} {next : a.Reply → Process α} (h : w.Faces me (.act a next))
    (hreply : (a.perform me w.store).2 = none) :
    (w.turn me).opens me = w.opens me ∧ (w.turn me).store = (a.perform me w.store).1 := by
  obtain ⟨rest, hp⟩ := h.before
  rw [turn_waits hp hreply]
  exact ⟨rfl, rfl⟩

end Faces

/-! ### Tidy parts -/

section

variable {others : Household → Household → Prop} {p q : Process α} {floor : List Opening} {post : α → Store → Prop}

theorem Pursues.tidy (h : Pursues me others p w q v) (hw : w.Faces me p)
    (hpost : ∀ a s t, s.Lasts t → post a s → post a t) (htidy : p.Tidy me floor post (w.opens me) w.store) :
    q.Tidy me floor post (v.opens me) v.store := by
  induction h with
  | start => exact htidy
  | @act a next v r h hreply ih =>
      have hv := hw.pursue h
      obtain ⟨-, hst, hstore⟩ := hv.perform hreply
      obtain ⟨-, hopens, ⟨held, hheld⟩, -⟩ := hv.act hreply
      obtain ⟨-, -, hnext⟩ := ih.2 v.store (.refl _) hv.order.coherent (hv.order.shows me)
      rw [hopens, hheld]
      exact (hnext r _ (Prod.ext rfl hreply) hst hstore).mono (fun a t => hpost a _ t) (Store.lasts_held _ _)
  | @wait a next v h hreply ih =>
      have hv := hw.pursue h
      rw [(hv.wait hreply).1]
      exact ih.mono (fun a t => hpost a _ t) ((Step.turn me).lasts hv.order)
  | others h hstep hwho _ ih =>
      rw [hstep.opens_of_ne hwho]
      exact ih.mono (fun a t => hpost a _ t) (hstep.lasts (hw.pursue h).order)

/-- In the end a tidy part has closed what it opened. -/
theorem Pursues.ended {a : α} (h : Pursues me others p w (.done a) v) (hw : w.Faces me p)
    (hpost : ∀ a s t, s.Lasts t → post a s → post a t) (htidy : p.Tidy me floor post (w.opens me) w.store) :
    v.opens me = floor ∧ post a v.store :=
  h.tidy hw hpost htidy

end

/-! ### What is true all along -/

/-- Something is true as long as a thread goes on with a part of its process. -/
def Throughout (P : Household → Prop) (me : Thread) (others : Household → Household → Prop) (p : Process α)
    (w : Household) : Prop :=
  ∀ q v, Pursues me others p w q v → P v

section

variable {P : Household → Prop} {others : Household → Household → Prop} (hothers : ∀ s t, others s t → P s → P t)
include hothers

theorem Pursues.of_done {a : α} {q : Process α} (h : Pursues me others (.done a) w q v) (hw : P w) :
    q = .done a ∧ P v := by
  induction h with
  | start => exact ⟨rfl, hw⟩
  | act _ _ ih => cases ih.1
  | wait _ _ ih => cases ih.1
  | others _ _ _ hdid ih => exact ⟨ih.1, hothers _ _ hdid ih.2⟩

/-- A thread is still before an action, or it performed the action at some moment. -/
theorem Pursues.of_act {a : Action} {next : a.Reply → Process α} {q : Process α} (hw : w.Faces me (.act a next))
    (h : Pursues me others (.act a next) w q v) (hP : P w)
    (hwait : ∀ u, u.Faces me (.act a next) → P u → (a.perform me u.store).2 = none → P (u.turn me)) :
    (v.opens me = w.opens me ∧ P v) ∧ q = .act a next ∨
      ∃ u r, (u.opens me = w.opens me ∧ P u) ∧ Pursues me others (.act a next) w (.act a next) u ∧
        (a.perform me u.store).2 = some r ∧ Pursues me others (next r) (u.turn me) q v := by
  induction h with
  | start => exact .inl ⟨⟨rfl, hP⟩, rfl⟩
  | @act b next' u r h hreply ih =>
      rcases ih with ⟨hu, heq⟩ | ⟨m, r', hm, hpursues, hr', hrest⟩
      · cases heq
        exact .inr ⟨u, r, hu, h, hreply, .start⟩
      · exact .inr ⟨m, r', hm, hpursues, hr', hrest.act hreply⟩
  | @wait b next' u h hreply ih =>
      rcases ih with ⟨hu, heq⟩ | ⟨m, r', hm, hpursues, hr', hrest⟩
      · cases heq
        have hfaces := hw.pursue h
        exact .inl ⟨⟨(hfaces.wait hreply).1.trans hu.1, hwait u hfaces hu.2 hreply⟩, rfl⟩
      · exact .inr ⟨m, r', hm, hpursues, hr', hrest.wait hreply⟩
  | others h hstep hwho hdid ih =>
      rcases ih with ⟨hu, heq⟩ | ⟨m, r', hm, hpursues, hr', hrest⟩
      · exact .inl ⟨⟨(hstep.opens_of_ne hwho).trans hu.1, hothers _ _ hdid hu.2⟩, heq⟩
      · exact .inr ⟨m, r', hm, hpursues, hr', hrest.others hstep hwho hdid⟩

omit hothers in
/-- A part that is done stays so. -/
theorem Pursues.eq_done {a : α} {q : Process α} (h : Pursues me others (.done a) w q v) : q = .done a :=
  (h.of_done (P := fun _ => True) (fun _ _ _ _ => trivial) trivial).1

omit hothers in
/-- A part is still before its first action, or it performed it at some moment. -/
theorem Pursues.acted {a : Action} {next : a.Reply → Process α} {q : Process α} (hw : w.Faces me (.act a next))
    (h : Pursues me others (.act a next) w q v) : q = .act a next ∨
      ∃ u r, u.opens me = w.opens me ∧ Pursues me others (.act a next) w (.act a next) u ∧
        (a.perform me u.store).2 = some r ∧ Pursues me others (next r) (u.turn me) q v := by
  rcases h.of_act (P := fun _ => True) (fun _ _ _ _ => trivial) hw trivial (fun _ _ _ _ => trivial) with
    ⟨-, heq⟩ | ⟨u, r, ⟨hopens, -⟩, hrest⟩
  · exact .inl heq
  · exact .inr ⟨u, r, hopens, hrest⟩

omit hothers in
/-- A part that has come to its end performed its first action. -/
theorem Pursues.performed {a : Action} {next : a.Reply → Process α} {b : α} (hw : w.Faces me (.act a next))
    (h : Pursues me others (.act a next) w (.done b) v) :
    ∃ u r, u.opens me = w.opens me ∧ Pursues me others (.act a next) w (.act a next) u ∧
      (a.perform me u.store).2 = some r ∧ Pursues me others (next r) (u.turn me) (.done b) v := by
  rcases h.acted hw with heq | hrest
  · cases heq
  · exact hrest

theorem throughout_done {a : α} (hP : P w) : Throughout P me others (.done a : Process α) w :=
  fun _ _ h => (h.of_done hothers hP).2

theorem throughout_act {a : Action} {next : a.Reply → Process α} (hw : w.Faces me (.act a next)) (hP : P w)
    (hturn : ∀ u, u.Faces me (.act a next) → P u → P (u.turn me))
    (hnext : ∀ v r, v.Faces me (next r) → w.Leads v → v.opens me = a.openings r (w.opens me) → P v →
      Throughout P me others (next r) v) : Throughout P me others (.act a next) w := by
  intro q v h
  rcases h.of_act hothers hw hP fun u hu hPu _ => hturn u hu hPu with
    ⟨⟨-, hv⟩, -⟩ | ⟨u, r, ⟨hopens, hPu⟩, hu, hreply, hrest⟩
  · exact hv
  · have hfaces := hw.pursue hu
    obtain ⟨hnextfaces, hnextopens, -⟩ := hfaces.act hreply
    exact hnext _ r hnextfaces (hu.leads.step (.turn me)) (hopens ▸ hnextopens) (hturn u hfaces hPu) q v hrest

omit hothers in
theorem throughout_bind {p : Process α} {f : α → Process β} (hp : Throughout P me others p w)
    (hf : ∀ a u, Pursues me others p w (.done a) u → P u → Throughout P me others (f a) u) :
    Throughout P me others (p.bind f) w := by
  intro q v h
  rcases h.of_bind with ⟨p', hp', -⟩ | ⟨a, u, ha, hrest⟩
  · exact hp p' v hp'
  · exact hf a u ha (hp _ u ha) q v hrest

end

end Household

end Injection
