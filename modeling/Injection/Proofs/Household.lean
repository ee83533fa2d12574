import Injection.Proofs.Affairs
import Injection.Proofs.Agreement
import Injection.Proofs.Tidiness
import Injection.Proofs.Upkeep

/-!
Programs in full: threads that ask containers, use lazy handles and build, in any order of their actions, and a program
around them that takes hold of containers, lets them go and gathers builders as it likes. A container is alive as long as
the program holds it, a builder or a container below it does, or somebody is about something with it. In every state that
a program comes to, the store is coherent, and each thread will go on with care.
-/

namespace Injection

open Opening

/-! ### Containers that are held -/

/-- What is left of the containers that are held after some of them are let go. -/
def Container.release (held cs : List Container) : List Container :=
  cs.foldl (fun held c => held.eraseP (·.id == c.id)) held

def Store.holdAll (s : Store) (cs : List Container) : Store := { s with held := cs ++ s.held }

def Store.letGoAll (s : Store) (cs : List Container) : Store := { s with held := Container.release s.held cs }

theorem Container.mem_of_mem_release {held cs : List Container} {c : Container} (h : c ∈ release held cs) :
    c ∈ held := by
  induction cs generalizing held with
  | nil => exact h
  | cons d cs ih => exact List.mem_of_mem_eraseP (ih h)

theorem Container.release_perm {held cs : List Container} {others : List Nat}
    (h : (held.map (·.id)).Perm (cs.map (·.id) ++ others)) : ((release held cs).map (·.id)).Perm others := by
  induction cs generalizing held with
  | nil => exact h
  | cons d cs ih =>
      refine ih ?_
      have herase := h.erase d.id
      rwa [List.map_cons, List.cons_append, List.erase_cons_head, List.erase_eq_eraseP', List.eraseP_map] at herase

/-! ### Things that several threads are in the midst of -/

/-- What one of several threads is in the midst of. -/
def Opening.ofThread (opened : List (Thread × Opening)) (t : Thread) : List Opening :=
  (opened.filter (·.1 = t)).map (·.2)

/-- What all the other threads are in the midst of. -/
def Opening.ofOthers (opened : List (Thread × Opening)) (t : Thread) : List Opening :=
  (opened.filter (·.1 ≠ t)).map (·.2)

/-- One of several threads comes to be in the midst of other things. -/
def Opening.reopen (opened : List (Thread × Opening)) (t : Thread) (os : List Opening) : List (Thread × Opening) :=
  os.map (t, ·) ++ opened.filter (·.1 ≠ t)

section

variable (opened : List (Thread × Opening)) (t : Thread) (os : List Opening)

@[simp] theorem ofThread_reopen_self : ofThread (reopen opened t os) t = os := by
  simp [ofThread, reopen, List.filter_map, Function.comp_def]

@[simp] theorem ofThread_reopen_of_ne {u : Thread} (hu : u ≠ t) :
    ofThread (reopen opened t os) u = ofThread opened u := by
  have hmine : (os.map (t, ·)).filter (·.1 = u) = [] := by simpa [List.filter_eq_nil_iff] using fun _ _ => Ne.symm hu
  have hothers : (opened.filter (·.1 ≠ t)).filter (·.1 = u) = opened.filter (·.1 = u) := by
    rw [List.filter_filter]
    refine List.filter_congr fun o _ => ?_
    by_cases ho : o.1 = u <;> simp [ho, hu]
  rw [ofThread, reopen, List.filter_append, hmine, hothers]
  rfl

theorem map_reopen : (reopen opened t os).map (·.2) = os ++ ofOthers opened t := by
  simp [reopen, ofOthers, Function.comp_def]

theorem perm_ofThread : (opened.map (·.2)).Perm (ofThread opened t ++ ofOthers opened t) := by
  rw [ofThread, ofOthers, ← List.map_append]
  refine List.Perm.map _ ?_
  simpa using (List.filter_append_perm (fun o : Thread × Opening => decide (o.1 = t)) opened).symm

end

/-! ### Programs -/

/-- The containers that an operation is lent, so that they are not dropped before it is over. -/
def Operation.lent : Operation → List Container
  | ask h _ => [h.container]
  | use _ => []
  | build _ parents _ _ => parents

/-- What the program gets hold of when a process has come to its end: the container that was built, if one was. -/
def Process.yield : Process (Option Upshot) → List Container
  | done (some (.built (.ok c))) => [c]
  | _ => []

/-- A program with its threads. -/
structure Household where
  team : Team (Option Upshot)
  /-- The containers that the program holds itself. -/
  containers : List Container
  builders : List Builder
  /-- What the threads are in the midst of. The last thing of each thread comes first. -/
  opened : List (Thread × Opening)

namespace Household

abbrev store (w : Household) : Store := w.team.store

abbrev opens (w : Household) (t : Thread) : List Opening := ofThread w.opened t

def empty : Household := ⟨⟨.empty, fun _ => .done none⟩, [], [], []⟩

/-- The containers that the program holds, by themselves or in a builder. -/
def stock (w : Household) : List Container := w.containers ++ w.builders.flatMap (·.parents)

/-- The containers that are not dropped. -/
inductive Alive (w : Household) : Container → Prop
  | held {c : Container} (hc : c ∈ w.containers) : Alive w c
  | gathered {b : Builder} {p : Container} (hb : b ∈ w.builders) (hp : p ∈ b.parents) : Alive w p
  | parent {c p : Container} (hc : Alive w c) (hp : p ∈ c.parents) : Alive w p
  /-- A thread asks the container, uses a lazy handle of it, or has just built it. -/
  | busy {t : Thread} {c : Container} (hc : .holding c ∈ w.opens t) : Alive w c
  /-- A thread is constructing a binding of the container. -/
  | constructing {t : Thread} {place : Address} {o : Container} (hplace : .within place ∈ w.opens t)
      (ho : w.store.HasBuilt o) (hid : o.id = place.container) : Alive w o

/-- A thread begins an operation. -/
def begin (w : Household) (me : Thread) (op : Operation) : Household where
  team := ⟨w.store.holdAll op.lent, setAt w.team.threads me (op.process Container.require)⟩
  containers := w.containers
  builders := w.builders
  opened := reopen w.opened me (op.lent.map .holding)

/-- A thread performs its next action, or has to wait and will try again. -/
def turn (w : Household) (me : Thread) : Household :=
  match w.team.threads me with
  | .done _ => w
  | .act a next =>
    match a.perform me w.store with
    | (store, none) => { w with team := { w.team with store } }
    | (store, some r) =>
      { team := ⟨store.holdAll (next r).yield, setAt w.team.threads me (next r)⟩
        containers := (next r).yield ++ w.containers
        builders := w.builders
        opened := reopen w.opened me (a.openings r (w.opens me)) }

section

variable {w : Household} {me : Thread}

theorem turn_done {u : Option Upshot} (hp : w.team.threads me = .done u) : w.turn me = w := by
  simp only [turn, hp]

theorem turn_goes {a : Action} {next : a.Reply → Process (Option Upshot)} {r : a.Reply}
    (hp : w.team.threads me = .act a next) (hreply : (a.perform me w.store).2 = some r) :
    w.turn me = ⟨⟨(a.perform me w.store).1.holdAll (next r).yield, setAt w.team.threads me (next r)⟩,
      (next r).yield ++ w.containers, w.builders, reopen w.opened me (a.openings r (w.opens me))⟩ := by
  rcases hperform : a.perform me w.store with ⟨store, reply⟩
  rw [hperform] at hreply
  simp only [turn, hp, hperform, show reply = some r from hreply]

theorem turn_waits {a : Action} {next : a.Reply → Process (Option Upshot)}
    (hp : w.team.threads me = .act a next) (hreply : (a.perform me w.store).2 = none) :
    w.turn me = { w with team := { w.team with store := (a.perform me w.store).1 } } := by
  rcases hperform : a.perform me w.store with ⟨store, reply⟩
  rw [hperform] at hreply
  simp only [turn, hp, hperform, show reply = none from hreply]

theorem threads_turn_self {a : Action} {next : a.Reply → Process (Option Upshot)} {r : a.Reply}
    (hp : w.team.threads me = .act a next) (hreply : (a.perform me w.store).2 = some r) :
    (w.turn me).team.threads me = next r := by
  rw [turn_goes hp hreply]
  exact setAt_self ..

theorem opens_turn_self {a : Action} {next : a.Reply → Process (Option Upshot)} {r : a.Reply}
    (hp : w.team.threads me = .act a next) (hreply : (a.perform me w.store).2 = some r) :
    (w.turn me).opens me = a.openings r (w.opens me) := by
  rw [turn_goes hp hreply]
  exact ofThread_reopen_self ..

end

/-- A thread comes back from an operation and lets go of what was lent. -/
def finish (w : Household) (me : Thread) : Household where
  team := ⟨w.store.letGoAll ((w.opens me).filterMap container?), setAt w.team.threads me (.done none)⟩
  containers := w.containers
  builders := w.builders
  opened := reopen w.opened me []

/-- The program changes what it holds itself; `held` is all that is held then. -/
def manage (w : Household) (held containers : List Container) (builders : List Builder) : Household where
  team := ⟨{ w.store with held }, w.team.threads⟩
  containers
  builders
  opened := w.opened

/-- What can happen next, and which thread does it, if any. -/
inductive Step (w : Household) : Option Thread → Household → Prop
  | begin (me : Thread) (op : Operation) (hidle : w.team.threads me = .done none) (hlent : ∀ c ∈ op.lent, w.Alive c) :
      Step w (some me) (w.begin me op)
  | turn (me : Thread) : Step w (some me) (w.turn me)
  | finish (me : Thread) (u : Upshot) (hdone : w.team.threads me = .done (some u)) : Step w (some me) (w.finish me)
  | take (c : Container) (hc : w.Alive c) :
      Step w none (w.manage (c :: w.store.held) (c :: w.containers) w.builders)
  | drop (front : List Container) (c : Container) (back : List Container) (hc : w.containers = front ++ c :: back) :
      Step w none (w.manage (Container.release w.store.held [c]) (front ++ back) w.builders)
  | gather (b : Builder) (hb : ∀ p ∈ b.parents, w.Alive p) :
      Step w none (w.manage (b.parents ++ w.store.held) w.containers (b :: w.builders))
  | discard (front : List Builder) (b : Builder) (back : List Builder) (hb : w.builders = front ++ b :: back) :
      Step w none (w.manage (Container.release w.store.held b.parents) w.containers (front ++ back))

/-- One state of a program comes after another. -/
inductive Leads (w : Household) : Household → Prop
  | refl : Leads w w
  | step {v u : Household} {who : Option Thread} (h : Leads w v) (hstep : Step v who u) : Leads w u

/-- The states that a program can come to. -/
def Reached (w : Household) : Prop := empty.Leads w

theorem Leads.trans {w v u : Household} (h : w.Leads v) (h' : v.Leads u) : w.Leads u := by
  induction h' with
  | refl => exact h
  | step _ hstep ih => exact ih.step hstep

/-- A thread comes back from an operation and begins another one. -/
theorem Leads.next {w v : Household} (h : w.Leads v) {me : Thread} {u : Upshot}
    (hdone : v.team.threads me = .done (some u)) {op : Operation} (hlent : ∀ c ∈ op.lent, (v.finish me).Alive c) :
    w.Leads ((v.finish me).begin me op) :=
  (h.step (.finish me u hdone)).step (.begin me op (setAt_self ..) hlent)

/-- Threads take turns in some order. -/
def after (w : Household) (turns : List Thread) : Household := turns.foldl turn w

theorem Leads.after {w v : Household} (h : w.Leads v) (turns : List Thread) : w.Leads (v.after turns) := by
  induction turns generalizing v with
  | nil => exact h
  | cons me turns ih => exact ih (h.step (.turn me))

end Household

/-! ### Operations -/

/-- A thread that is idle has nothing open, and a container that was built can be asked. -/
structure Upshot.Due (floor : List Opening) (u : Option Upshot) (s : Store) : Prop where
  idle : u = none → floor = []
  built : ∀ c, u = some (.built (.ok c)) → s.Knows c

theorem Upshot.Due.mono {floor : List Opening} {s t : Store} (u : Option Upshot) (hst : s.Lasts t) (h : Due floor u s) :
    Due floor u t :=
  ⟨h.idle, fun c hc => (h.built c hc).mono hst⟩

theorem Builder.parents_foldl_add (b : Builder) (bindings : List Binding) :
    (bindings.foldl Builder.add b).parents = b.parents := by
  induction bindings generalizing b with
  | nil => rfl
  | cons binding bindings ih => exact (ih _).trans (b.parents_add binding)

theorem tidy_operation {me : Thread} {s : Store} {op : Operation} (hlent : ∀ c ∈ op.lent, s.Knows c) :
    (op.process Container.require).Tidy me (op.lent.map .holding) (Upshot.Due (op.lent.map .holding))
      (op.lent.map .holding) s := by
  cases op with
  | ask h r =>
      have hc : AtHand s [.holding h.container] h.container := .holding (hlent _ List.mem_cons_self)
      exact Process.Tidy.bind (tidy_request (tidy_require me) hc h.requester r) (List.suffix_refl _)
        fun result t _ _ => ⟨rfl, nofun, nofun⟩
  | use l =>
      exact Process.Tidy.bind (tidy_get (tidy_require me) l) (List.suffix_refl _) fun result t _ _ => ⟨rfl, nofun, nofun⟩
  | build label parents bindings eager =>
      have hparents := Builder.parents_foldl_add { Builder.new with label, parents } bindings
      refine Process.Tidy.bind (tidy_buildThen (tidy_require me) (hparents.symm ▸ hlent) id eager
        (fun t c hc => .pure hc.knows) fun c t u htu hc => hc.mono htu) (List.suffix_refl _) fun result t _ hresult => ?_
      refine ⟨rfl, nofun, fun c hc => hresult c ?_⟩
      exact Upshot.built.inj (Option.some.inj hc)

theorem follows_operation (op : Operation) : (op.process Container.require).Follows (fun _ _ => True) [] := by
  cases op with
  | ask h r =>
      exact bracketed_request bracketed_require h r _ _ [] (by simp [Running]) trivial fun _ => rfl
  | use l => exact bracketed_get bracketed_require l _ _ [] (by simp [Running]) trivial fun _ => rfl
  | build label parents bindings eager =>
      exact bracketed_buildThen bracketed_require id _ eager (fun _ => .pure _) _ _ [] (by simp [Running]) trivial
        fun _ => rfl

end Injection
