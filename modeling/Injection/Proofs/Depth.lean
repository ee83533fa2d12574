import Injection.Resolution

/-!
The depth of requests only matters where it is too small. A request that does not come to the end of its depth does the
same with any more of it: providers ask what they ask, and each answer is the same as before.
-/

namespace Injection

/-- The second attempt does the same as the first one, wherever the first does not come to the end of its depth. -/
def Attempt.Foretells {ε α : Type} (x y : Attempt ε α) : Prop :=
  ∀ me s, (x.eval me s).1 ≠ .error .exhausted → y.eval me s = x.eval me s

namespace Attempt.Foretells

variable {ε ε' α β : Type} {x y z : Attempt ε α}

protected theorem refl (x : Attempt ε α) : x.Foretells x := fun _ _ _ => rfl

protected theorem trans (h : x.Foretells y) (h' : y.Foretells z) : x.Foretells z := by
  intro me s hended
  have hy := h me s hended
  rw [h' me s (hy ▸ hended), hy]

protected theorem bind {f g : α → Attempt ε β} (h : x.Foretells y) (hf : ∀ a, (f a).Foretells (g a)) :
    (x >>= f).Foretells (y >>= g) := by
  intro me s hended
  rw [eval_bind] at hended
  have hx : (x.eval me s).1 ≠ .error .exhausted := by
    intro hx
    rcases heval : x.eval me s with ⟨e | a, t⟩ <;> rw [heval] at hx hended <;> cases hx
    exact hended rfl
  rw [eval_bind, eval_bind, h me s hx]
  rcases heval : x.eval me s with ⟨e | a, t⟩
  · rfl
  · rw [heval] at hended
    exact hf a me t hended

/-- Going on from the same attempt. -/
theorem next {f g : α → Attempt ε β} (hf : ∀ a, (f a).Foretells (g a)) : (x >>= f).Foretells (x >>= g) :=
  .bind (.refl x) hf

protected theorem map (f : α → β) (h : x.Foretells y) : (f <$> x).Foretells (f <$> y) := by
  rw [← bind_pure_comp, ← bind_pure_comp]
  exact h.bind fun _ => .refl _

protected theorem outcome (h : x.Foretells y) :
    (Attempt.outcome x : Attempt ε' (Except ε α)).Foretells (Attempt.outcome y) := by
  intro me s hended
  have hx : (x.eval me s).1 ≠ .error .exhausted := by
    intro hx
    rw [eval_outcome] at hended
    rcases heval : x.eval me s with ⟨e | a, t⟩ <;> rw [heval] at hx hended <;> cases hx
    exact hended rfl
  rw [eval_outcome, eval_outcome, h me s hx]

protected theorem mapError (f : ε → ε') (h : x.Foretells y) :
    (Attempt.mapError f x).Foretells (Attempt.mapError f y) := by
  intro me s hended
  have hx : (x.eval me s).1 ≠ .error .exhausted := by
    intro hx
    rw [eval_mapError, hx] at hended
    exact hended rfl
  rw [eval_mapError, eval_mapError, h me s hx]

protected theorem closing (last : Action) (h : x.Foretells y) :
    (Attempt.closing last x).Foretells (Attempt.closing last y) := by
  intro me s hended
  rw [eval_closing] at hended
  rw [eval_closing, eval_closing, h me s hended]

end Attempt.Foretells

/-- The second way to have values agrees with the first one, wherever that does not come to the end of its depth. -/
def Lookup.Foretells (require require' : Lookup) : Prop := ∀ c k, (require c k).Foretells (require' c k)

open Attempt

section Lookup

variable {require require' : Lookup} (h : require.Foretells require')
include h

theorem foretells_typed (c : Container) (k : Key) : (require.typed c k).Foretells (require'.typed c k) :=
  (h c k).bind fun _ => .refl _

theorem foretells_get (l : Lazy) : (l.get require).Foretells (l.get require') := by
  refine .next fun found => ?_
  split
  · exact .refl _
  · refine .next fun cell => ?_
    split
    · exact .refl _
    · exact .closing _ ((foretells_typed h _ _).bind fun _ => .refl _)

theorem foretells_resolve (c : Container) (r : Resolver) : (r.resolve require c).Foretells (r.resolve require' c) := by
  induction r with
  | value k => exact (foretells_typed h c k).bind fun _ => .refl _
  | deferred type => exact .refl _
  | config type => exact ((foretells_typed h c .configs).bind fun _ => .refl _).bind fun _ => .refl _
  | optional inner ih => exact ih.outcome.bind fun _ => .refl _

theorem foretells_request (a : Handle) (r : Request) : (a.request require r).Foretells (a.request require' r) := by
  cases r with
  | resolve r => exact foretells_resolve h a.container r
  | untyped k => exact (h a.container k).bind fun _ => .refl _
  | requester => exact .refl _

theorem foretells_constructAll (c : Container) (total done : Nat) (ks : List Key) :
    (constructAll require c total done ks).Foretells (constructAll require' c total done ks) := by
  induction ks generalizing done with
  | nil => exact .refl _
  | cons k ks ih =>
      refine .next fun _ => (h c k).outcome.bind fun result => ?_
      split
      · exact ih (done + 1)
      · exact .refl _

theorem foretells_initiate (c : Container) : (c.initiate require).Foretells (c.initiate require') := by
  unfold Container.initiate
  split
  · exact .refl _
  · exact .next fun _ => (foretells_constructAll h c _ _ _).bind fun _ => .refl _

theorem foretells_buildThen {ε α : Type} (wrap : BuildError → ε) (b : Builder) (eager : Bool)
    {next next' : Container → Attempt ε α} (hnext : ∀ c, (next c).Foretells (next' c)) :
    (b.buildThen require wrap eager next).Foretells (b.buildThen require' wrap eager next') := by
  refine .next fun c => .next fun _ => .closing _ ?_
  split
  · exact ((foretells_initiate h c).mapError wrap).bind fun _ => hnext c
  · exact hnext c

omit h in
theorem foretells_pursue {request request' : Attempt Failure Resolved} (h : request.Foretells request') (p : Progress)
    (catches : Bool) : (p.pursue catches request).Foretells (p.pursue catches request') :=
  h.outcome.bind fun _ => .refl _

theorem foretells_step (a : Handle) (run : Nat) (p : Progress) (step : Step) :
    (step.perform require a run p).Foretells (step.perform require' a run p) := by
  cases step with
  | ask r path catches =>
      cases path with
      | none => exact foretells_pursue (foretells_request h a r) p catches
      | some path =>
          simp only [Step.perform]
          split
          · exact .refl _
          · exact foretells_pursue (foretells_request h _ r) p catches
  | use index catches =>
      simp only [Step.perform]
      split
      · exact .refl _
      · exact foretells_pursue ((foretells_get h _).map _) p catches
  | useInner value index catches =>
      exact .next fun l => foretells_pursue ((foretells_get h l).map _) p catches
  | nest drafts eager r catches =>
      exact .next fun b => foretells_buildThen h _ b eager fun c => foretells_pursue (foretells_request h _ r) p catches
  | _ => exact .refl _

theorem foretells_steps (a : Handle) (run : Nat) (p : Progress) (steps : List Step) :
    (Steps.perform require a run p steps).Foretells (Steps.perform require' a run p steps) := by
  induction steps generalizing p with
  | nil => exact .refl _
  | cons step steps ih => exact (foretells_step h a run p step).bind ih

theorem foretells_construct (o : Container) (b : Binding) :
    (o.construct require b).Foretells (o.construct require' b) := by
  refine .next fun _ => ?_
  split
  · exact .refl _
  · next r _ =>
    refine .bind (.mapError _ (.next fun run => ?_)) fun _ => .refl _
    refine (foretells_steps h _ run .start r.steps).bind fun p => .next fun serial => ?_
    split
    · exact h o _
    · exact .refl _

theorem foretells_obtain (o : Container) (b : Binding) : (o.obtain require b).Foretells (o.obtain require' b) := by
  refine .next fun grant => ?_
  split
  · exact .refl _
  · exact .refl _
  · exact .closing _ ((foretells_construct h o b).bind fun _ => .refl _)

theorem foretells_produce (o : Container) (b : Binding) : (o.produce require b).Foretells (o.produce require' b) := by
  refine .next fun entered => ?_
  split
  · refine .closing _ ?_
    split
    · exact foretells_obtain h o b
    · exact foretells_construct h o b
  · exact .refl _

theorem foretells_requireWith (c : Container) (k : Key) :
    (c.requireWith require k).Foretells (c.requireWith require' k) := by
  unfold Container.requireWith
  split
  · next o b _ => exact (foretells_produce h o b).bind fun _ => .refl _
  · exact .refl _

end Lookup

theorem foretells_requireWithin_succ (depth : Nat) : (requireWithin depth).Foretells (requireWithin (depth + 1)) := by
  induction depth with
  | zero => exact fun c k me s hended => absurd rfl hended
  | succ depth ih => exact foretells_requireWith ih

theorem foretells_requireWithin {depth depth' : Nat} (hle : depth ≤ depth') :
    (requireWithin depth).Foretells (requireWithin depth') := by
  induction hle with
  | refl => exact fun c k => .refl _
  | step _ ih => exact fun c k => (ih c k).trans (foretells_requireWithin_succ _ c k)

/-- A construction that does not come to the end of its depth does the same with any other depth that it does not come
to the end of. -/
theorem eval_produce_eq {me : Thread} {s : Store} {o : Container} {b : Binding} {depth depth' : Nat}
    (h : ((o.produce (requireWithin depth) b).eval me s).1 ≠ .error .exhausted)
    (h' : ((o.produce (requireWithin depth') b).eval me s).1 ≠ .error .exhausted) :
    (o.produce (requireWithin depth) b).eval me s = (o.produce (requireWithin depth') b).eval me s :=
  (foretells_produce (foretells_requireWithin (Nat.le_max_left depth depth')) o b me s h).symm.trans
    (foretells_produce (foretells_requireWithin (Nat.le_max_right depth depth')) o b me s h')

end Injection
