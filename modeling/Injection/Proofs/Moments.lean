import Injection.Proofs.Requests

/-!
The moments of a run. A thread that is alone performs one action after the other, each in the store that the last one
left. What a thread has under construction are own bindings of containers that somebody holds, each once; so there is
always room for all of them among the own bindings of the containers that are alive.
-/

namespace Injection

/-! ### Turn by turn -/

namespace Process

variable {α β : Type}

/-- The actions of a process that is alone, each with the store it is performed in. -/
def turns (me : Thread) : Process α → Store → List (Action × Store)
  | done _, _ => []
  | act a next, s => (a, s) :: turns me (next (a.performAlone me s).1) (a.performAlone me s).2

theorem turns_bind (me : Thread) (p : Process α) (f : α → Process β) (s : Store) :
    (p.bind f).turns me s = p.turns me s ++ (f (p.alone me s).1).turns me (p.alone me s).2 := by
  induction p generalizing s with
  | done a => rfl
  | act a next ih => simp only [bind, turns, alone, ih, List.cons_append]

end Process

namespace Attempt

variable {ε ε' α β : Type}

def turns (x : Attempt ε α) (me : Thread) (s : Store) : List (Action × Store) := x.run.turns me s

@[simp] theorem turns_pure (a : α) (me : Thread) (s : Store) : turns (pure a : Attempt ε α) me s = [] := rfl

@[simp] theorem turns_throw (e : Stop ε) (me : Thread) (s : Store) : turns (throw e : Attempt ε α) me s = [] := rfl

@[simp] theorem turns_perform (a : Action) (me : Thread) (s : Store) :
    turns (perform a : Attempt ε a.Reply) me s = [(a, s)] := rfl

theorem turns_bind (x : Attempt ε α) (f : α → Attempt ε β) (me : Thread) (s : Store) :
    turns (x >>= f) me s = turns x me s ++
      match eval x me s with
      | (.ok a, t) => turns (f a) me t
      | (.error _, _) => [] := by
  refine (Process.turns_bind me x.run _ s).trans (congrArg _ ?_)
  change (ExceptT.bindCont f (eval x me s).1).turns me (eval x me s).2 = _
  rcases eval x me s with ⟨_ | a, t⟩ <;> rfl

theorem turns_closing (last : Action) (x : Attempt ε α) (me : Thread) (s : Store) :
    turns (closing last x) me s = turns x me s ++ [(last, (eval x me s).2)] :=
  Process.turns_bind me x.run _ s

@[simp] theorem turns_outcome (x : Attempt ε α) (me : Thread) (s : Store) :
    turns (outcome x : Attempt ε' (Except ε α)) me s = turns x me s :=
  (Process.turns_bind me x.run _ s).trans (List.append_nil _)

@[simp] theorem turns_mapError (f : ε → ε') (x : Attempt ε α) (me : Thread) (s : Store) :
    turns (mapError f x) me s = turns x me s :=
  (Process.turns_bind me x.run _ s).trans (List.append_nil _)

variable {me : Thread} {s t : Store} {turn : Action × Store} {x : Attempt ε α}

theorem mem_turns_bind_left (f : α → Attempt ε β) (h : turn ∈ x.turns me s) : turn ∈ (x >>= f).turns me s := by
  rw [turns_bind]
  exact List.mem_append_left _ h

theorem mem_turns_bind_right {f : α → Attempt ε β} {a : α} (heval : x.eval me s = (.ok a, t))
    (h : turn ∈ (f a).turns me t) : turn ∈ (x >>= f).turns me s := by
  rw [turns_bind, heval]
  exact List.mem_append_right _ h

end Attempt

/-! ### What there is room for -/

variable {me : Thread} {s t : Store}

/-- A thread has nothing under construction twice, and no more than the containers have own bindings that are alive. -/
structure Roomy (me : Thread) (s : Store) : Prop where
  nodup : (s.building me).Nodup
  length : (s.building me).length ≤ (Container.places (Container.lineage s.held)).length

/-- The store of a thread that is alone, when only what was built is held and all that is under construction belongs to
held containers or to their ancestors. -/
structure Sheltered (me : Thread) (s : Store) : Prop where
  consistent : Consistent me s
  held : ∀ c ∈ s.held, s.HasBuilt c
  building : ∀ p ∈ s.building me, ∃ c ∈ s.held, ∃ o b, c.Reaches o ∧ o.Owns p b

theorem Roomy.congr (h : Roomy me s) (hbuilding : t.building me = s.building me) (hheld : t.held = s.held) :
    Roomy me t :=
  ⟨hbuilding ▸ h.nodup, hbuilding ▸ hheld ▸ h.length⟩

/-- Different places of containers that are alive are as many as there is room for. -/
theorem roomy_of_places {P : Container → Prop} (h : Container.Family P) (hheld : ∀ c ∈ s.held, P c)
    (hnodup : (s.building me).Nodup)
    (hplaces : ∀ p ∈ s.building me, ∃ c ∈ s.held, ∃ o b, c.Reaches o ∧ o.Owns p b) : Roomy me s := by
  refine ⟨hnodup, (List.subperm_of_subset hnodup fun p hp => ?_).length_le⟩
  obtain ⟨c, hc, o, b, hreaches, hid, hlookup⟩ := hplaces p hp
  have hplace : o.place b = p := by
    rw [Container.place, hid, Registry.key_of_lookup hlookup]
  exact hplace ▸ Container.mem_places h hheld hc hreaches (List.mem_of_find?_eq_some hlookup)

namespace Sheltered

theorem roomy (h : Sheltered me s) : Roomy me s :=
  roomy_of_places h.consistent.family h.held h.consistent.nodup h.building

/-- What is under construction after going into a binding of a container that is alive. -/
theorem places (h : Sheltered me s) {o : Container} {b : Binding} (hlookup : o.registry.lookup b.key = some b)
    (halive : ∃ d ∈ s.held, d.Reaches o) (hbuilding : t.building me = s.building me ++ [o.place b])
    (hheld : t.held = s.held) : ∀ p ∈ t.building me, ∃ c ∈ t.held, ∃ o b, c.Reaches o ∧ o.Owns p b := by
  intro p hp
  rw [hbuilding] at hp
  rw [hheld]
  rcases List.mem_append.1 hp with hp | hp
  · exact h.building p hp
  · obtain ⟨d, hd, hreaches⟩ := halive
    obtain rfl := List.mem_singleton.1 hp
    exact ⟨d, hd, o, b, hreaches, rfl, hlookup⟩

theorem mono (h : Sheltered me s) (ht : Consistent me t) (hevolves : Evolves me s t) (hheld : t.held = s.held) :
    Sheltered me t where
  consistent := ht
  held c hc := hevolves.hasBuilt (h.held c (hheld ▸ hc))
  building p hp := by
    rw [hheld]
    exact h.building p (hevolves.building ▸ hp)

theorem hold (h : Sheltered me s) {c : Container} (hc : s.HasBuilt c) : Sheltered me (s.hold c) where
  consistent := Alike.consistent (s := s) ⟨rfl, rfl, rfl, rfl, rfl⟩ h.consistent
  held := List.forall_mem_cons.2 ⟨hc, h.held⟩
  building p hp := (h.building p hp).imp fun _ => And.imp_left (List.mem_cons_of_mem c)

end Sheltered

end Injection
