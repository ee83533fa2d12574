import Injection.Process

/-!
Processes side by side on one store. In each turn the first process that does not have to wait performs one action. The
turns come to an end because every one of them leaves a process with a smaller tree and the others as they were; what is
left then is done or waits for something that cannot come any more.
-/

namespace Injection

namespace Process

variable {α : Type}

/-- What an action may leave of a process. -/
inductive Next : Process α → Process α → Prop
  | intro (a : Action) (next : a.Reply → Process α) (r : a.Reply) : Next (next r) (act a next)

/-- One of several processes went on, and the others did not. -/
inductive Advance : List (Process α) → List (Process α) → Prop
  | here {q p : Process α} (ps : List (Process α)) (h : Next q p) : Advance (q :: ps) (p :: ps)
  | later {qs ps : List (Process α)} (p : Process α) (h : Advance qs ps) : Advance (p :: qs) (p :: ps)

theorem acc_next (p : Process α) : Acc Next p := by
  induction p with
  | done a => exact ⟨_, fun q h => nomatch h⟩
  | act a next ih =>
    refine ⟨_, fun q h => ?_⟩
    cases h with
    | intro _ _ r => exact ih r

theorem acc_advance_cons {p : Process α} {ps : List (Process α)} (hp : Acc Next p) (hps : Acc Advance ps) :
    Acc Advance (p :: ps) := by
  induction hp generalizing ps with
  | intro p _ ihp =>
    induction hps with
    | intro ps hps ihps =>
      refine ⟨_, fun qs h => ?_⟩
      cases h with
      | here _ h => exact ihp _ h ⟨_, hps⟩
      | later _ h => exact ihps _ h

theorem acc_advance (ps : List (Process α)) : Acc Advance ps := by
  induction ps with
  | nil => exact ⟨_, fun qs h => nomatch h⟩
  | cons p ps ih => exact acc_advance_cons (acc_next p) ih

instance : WellFoundedRelation (List (Process α)) := ⟨Advance, ⟨acc_advance⟩⟩

/-- Lets the first of several threads, numbered from `me` on, that does not have to wait perform one action. -/
def turn (me : Thread) : (ps : List (Process α)) → Store → Store × Option { qs // Advance qs ps }
  | [], s => (s, none)
  | done a :: ps, s =>
    match turn (me + 1) ps s with
    | (s, some ⟨qs, h⟩) => (s, some ⟨done a :: qs, .later _ h⟩)
    | (s, none) => (s, none)
  | act a next :: ps, s =>
    match a.perform me s with
    | (s, some r) => (s, some ⟨next r :: ps, .here ps (.intro a next r)⟩)
    | (s, none) =>
      match turn (me + 1) ps s with
      | (s, some ⟨qs, h⟩) => (s, some ⟨act a next :: qs, .later _ h⟩)
      | (s, none) => (s, none)

/-- Lets threads, numbered from `first` on, take turns until none of them can go on. -/
def together (first : Thread) (ps : List (Process α)) (s : Store) : List (Process α) × Store :=
  match turn first ps s with
  | (s, some ⟨qs, _⟩) => together first qs s
  | (s, none) => (ps, s)
termination_by ps

def results : List (Process α) → List α
  | [] => []
  | done a :: ps => a :: results ps
  | act _ _ :: ps => results ps

end Process

end Injection
