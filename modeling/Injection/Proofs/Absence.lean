import Injection.Proofs.Interleaving
import Injection.Proofs.Ownership

/-!
What is absent. A request for a key that no binding answers for fails at once and in one way, and no other request fails
like that: whatever goes wrong with a provider carries the provider's key. So an optional request is answered with
nothing exactly if its key is out of sight, and otherwise it is the request itself. All this can be read off the
processes of the requests, so it holds from every store, and for every thread among others.
-/

namespace Injection

/-! ### What a process may come to -/

/-- What a process may come to, whatever it is told on the way. -/
inductive Process.MayEnd {α : Type} : Process α → α → Prop
  | done (a : α) : MayEnd (done a) a
  | act (action : Action) (next : action.Reply → Process α) (r : action.Reply) {a : α} (h : MayEnd (next r) a) :
      MayEnd (act action next) a

namespace Process

variable {α β : Type} {p : Process α}

theorem mayEnd_done {a b : α} : (done a).MayEnd b ↔ b = a := by
  constructor
  · rintro ⟨⟩
    rfl
  · rintro rfl
    exact .done _

theorem mayEnd_bind {f : α → Process β} {b : β} : (p.bind f).MayEnd b ↔ ∃ a, p.MayEnd a ∧ (f a).MayEnd b := by
  induction p with
  | done a => simp only [bind, mayEnd_done, exists_eq_left]
  | act action next ih =>
      constructor
      · rintro ⟨⟩
        next r h =>
        obtain ⟨a, ha, hb⟩ := (ih r).1 h
        exact ⟨a, .act _ _ r ha, hb⟩
      · rintro ⟨a, ⟨⟩, hb⟩
        next r ha => exact .act _ _ r ((ih r).2 ⟨a, ha, hb⟩)

/-- Processes that go on in the same way from whatever the first part may come to are the same. -/
theorem bind_congr {f g : α → Process β} (h : ∀ a, p.MayEnd a → f a = g a) : p.bind f = p.bind g := by
  induction p with
  | done a => exact h a (.done a)
  | act action next ih =>
      simp only [bind]
      congr 1
      funext r
      exact ih r fun a ha => h a (.act _ _ r ha)

theorem mayEnd_alone (me : Thread) (p : Process α) (s : Store) : p.MayEnd (p.alone me s).1 := by
  induction p generalizing s with
  | done a => exact .done a
  | act action next ih => exact .act _ _ _ (ih _ _)

end Process

/-- A thread among others only comes to what its process may come to. -/
theorem Team.mayEnd_after {α : Type} {team : Team α} {t : Thread} {turns : List Thread} {a : α}
    (h : (team.after turns).threads t = .done a) : (team.threads t).MayEnd a := by
  induction turns generalizing team with
  | nil => exact h ▸ .done a
  | cons me turns ih =>
      have hrest : ((team.turn me).threads t).MayEnd a := ih h
      by_cases ht : t = me
      · subst ht
        rcases hp : team.threads t with b | ⟨action, next⟩
        · rw [Team.turn, hp] at hrest
          exact hp ▸ hrest
        · rcases hperform : action.perform t team.store with ⟨store, _ | r⟩
          · rw [Team.turn_waits hp hperform, hp] at hrest
            exact hrest
          · rw [Team.turn_goes hp hperform] at hrest
            exact .act _ _ r (by simpa using hrest)
      · rwa [Team.threads_turn_of_ne team ht] at hrest

namespace Attempt

variable {ε ε' α β : Type} {x : Attempt ε α}

/-- An attempt comes to a result: of a thread that is alone, from some store, or of one among any others, whatever they do
and in whatever order they take their turns. -/
inductive ComesTo (x : Attempt ε α) : Except (Stop ε) α → Prop
  | alone (me : Thread) (s : Store) : ComesTo x (x.eval me s).1
  | among (team : Team (Except (Stop ε) α)) (t : Thread) (turns : List Thread) {result : Except (Stop ε) α}
      (start : team.threads t = x.run) (ended : (team.after turns).threads t = .done result) : ComesTo x result

theorem ComesTo.mayEnd {result : Except (Stop ε) α} (h : x.ComesTo result) : x.run.MayEnd result := by
  cases h with
  | alone me s => exact Process.mayEnd_alone me x.run s
  | among team t turns start ended => exact start ▸ Team.mayEnd_after ended

/-- All failures that an attempt may come to are of a kind. -/
def Fails (fine : ε → Prop) (x : Attempt ε α) : Prop := ∀ e, x.run.MayEnd (.error (.failed e)) → fine e

namespace Fails

variable {fine : ε → Prop} {fine' : ε' → Prop}

protected theorem pure (a : α) : Fails fine (pure a : Attempt ε α) := fun _ h => nomatch Process.mayEnd_done.1 h

protected theorem fail {e : ε} (h : fine e) : Fails fine (Attempt.fail e : Attempt ε α) := by
  intro e' he'
  obtain ⟨⟩ := Process.mayEnd_done.1 he'
  exact h

protected theorem perform (a : Action) : Fails fine (Attempt.perform a : Attempt ε a.Reply) := by
  rintro e ⟨⟩
  next h => cases h

protected theorem bind {f : α → Attempt ε β} (hx : Fails fine x) (hf : ∀ a, Fails fine (f a)) :
    Fails fine (x >>= f) := by
  intro e he
  obtain ⟨result, hresult, he⟩ := Process.mayEnd_bind.1 he
  rcases result with d | a
  · obtain ⟨⟩ := Process.mayEnd_done.1 he
    exact hx e hresult
  · exact hf a e he

protected theorem closing (last : Action) (hx : Fails fine x) : Fails fine (closing last x) := by
  intro e he
  obtain ⟨result, hresult, he⟩ := Process.mayEnd_bind.1 he
  rcases he with _ | ⟨_, _, _, ⟨⟩⟩
  exact hx e hresult

theorem mapError {f : ε → ε'} (hf : ∀ e, fine' (f e)) : Fails fine' (mapError f x) := by
  intro e he
  obtain ⟨result, hresult, he⟩ := Process.mayEnd_bind.1 he
  rcases result with (d | message | _) | a <;> obtain ⟨⟩ := Process.mayEnd_done.1 he
  exact hf d

end Fails

end Attempt

open Attempt

/-! ### Requests for a key -/

/-- Requests for keys go to the owners of the keys. -/
def Lookup.Direct (require : Lookup) : Prop := ∀ c k, ∃ inner : Lookup, require c k = c.requireWith inner k

theorem direct_require : Lookup.Direct Container.require := fun c _ => ⟨requireWithin c.weight, rfl⟩

theorem direct_requireWithin (depth : Nat) : (requireWithin (depth + 1)).Direct := fun _ _ => ⟨requireWithin depth, rfl⟩

/-- Somebody behind the request answers for the failure: a provider passed it on, or it is about what was found, and not
about what was not. -/
def Failure.IsFound (f : Failure) : Prop := f.trail = [] → ∀ k, f.reason ≠ .missing k

/-- A kind of failures that takes in whatever may go wrong with a key that is bound. -/
structure Failure.Broad (fine : Failure → Prop) : Prop where
  through : ∀ (f : Failure) k, fine (f.through k)
  cyclic : ∀ k, fine (.because (.cyclic k))
  mismatch : ∀ required actual, fine (.because (.mismatch required actual))

theorem Failure.broad_isFound : Broad IsFound where
  through _ _ h := nomatch h
  cyclic _ _ _ heq := nomatch heq
  mismatch _ _ _ _ heq := nomatch heq

section Require

variable {require : Lookup} {c o : Container} {b : Binding} {k : Key} {fine : Failure → Prop}

section

variable (hfine : Failure.Broad fine)
include hfine

theorem fails_construct (require : Lookup) (o : Container) (b : Binding) : Fails fine (o.construct require b) := by
  refine .bind (.perform (.tell _)) fun _ => ?_
  split
  · exact .pure _
  · exact .bind (.mapError fun f => hfine.through f b.key) fun v => .bind (.perform (.note _)) fun _ => .pure v

theorem fails_obtain (require : Lookup) (o : Container) (b : Binding) : Fails fine (o.obtain require b) := by
  refine .bind (.perform (.acquire _)) fun grant => ?_
  cases grant with
  | ready v => exact .bind (.perform (.tell _)) fun _ => .pure v
  | refused => exact .bind (.perform (.tell _)) fun _ => .fail (hfine.cyclic b.key)
  | compute =>
      refine .closing _ (.bind (fails_construct hfine require o b) fun v => ?_)
      exact .bind (.perform (.settle _ _)) fun _ => .pure v

theorem fails_produce (require : Lookup) (o : Container) (b : Binding) : Fails fine (o.produce require b) := by
  refine .bind (.perform (.enter _)) fun entered => ?_
  split
  · refine .closing _ ?_
    split
    · exact fails_obtain hfine require o b
    · exact fails_construct hfine require o b
  · exact .fail (hfine.cyclic b.key)

theorem fails_requireWith (inner : Lookup) (howner : c.owner? k = some (o, b)) :
    Fails fine (c.requireWith inner k) := by
  rw [Container.requireWith, howner]
  exact .bind (fails_produce hfine inner o b) fun v => .bind (.perform (.note _)) fun _ => .pure v

theorem fails_typed (h : Fails fine (require c k)) : Fails fine (require.typed c k) := by
  refine .bind h fun v => ?_
  split
  · exact .pure v
  · exact .fail (hfine.mismatch _ _)

end

/-- What is asked for a key that is not bound. -/
def unbound {α : Type} (k : Key) : Attempt Failure α := do
  tell .error ("Tried to require an unbound key: " ++ k.text)
  fail (.because (.missing k))

@[simp] theorem unbound_bind {α β : Type} (k : Key) (f : α → Attempt Failure β) : unbound k >>= f = unbound k := rfl

theorem Lookup.Direct.of_unowned (hrequire : require.Direct) (howner : c.owner? k = none) :
    require c k = unbound k := by
  obtain ⟨inner, hinner⟩ := hrequire c k
  rw [hinner, Container.requireWith, howner]
  rfl

theorem Lookup.Direct.of_owned (hrequire : require.Direct) (howner : c.owner? k = some (o, b)) :
    Fails Failure.IsFound (require c k) := by
  obtain ⟨inner, hinner⟩ := hrequire c k
  exact hinner ▸ fails_requireWith Failure.broad_isFound inner howner

end Require

/-! ### Typed requests -/

/-- A typed request for one key: for a value, or for a config of a type that is not the one of the sets of configs
themselves. -/
inductive Resolver.Single : Resolver → Prop
  | value (k : Key) : Single (value k)
  | config (type : TypeInfo) (apart : type ≠ .configs) : Single (config type)

/-- A request and its optional forms tell whether its key is in sight, and nothing else: the request fails as missing its
key if the key is out of sight, and otherwise only below a provider; then the optional request is the request itself. -/
structure Resolver.TellsAbsence (require : Lookup) (c : Container) (q : Resolver) : Prop where
  missing : ∀ result, (q.resolve require c).ComesTo result →
    (result = .error (.failed (.because (.missing q.dependency.key))) ↔ c.graph.contains q.dependency.key = false)
  behind : ∀ f, (q.resolve require c).ComesTo (.error (.failed f)) → c.graph.contains q.dependency.key = true →
    f.reason = .missing q.dependency.key → f.trail ≠ []
  absent : ∀ result, (q.optional.resolve require c).ComesTo result →
    (result = .ok .absent ↔ c.graph.contains q.dependency.key = false)
  present : c.graph.contains q.dependency.key = true →
    q.optional.resolve require c = Resolved.present <$> q.resolve require c
  twice : ∀ result, (q.optional.optional.resolve require c).ComesTo result →
    result ≠ .ok .absent ∧ (result = .ok (.present .absent) ↔ c.graph.contains q.dependency.key = false)

section Resolve

variable {require : Lookup} {c o : Container} {b : Binding} {q : Resolver}

/-- No failure of the request is taken for the absence of its key. -/
def Resolver.IsOwn (q : Resolver) (f : Failure) : Prop := f ≠ .because (.missing q.dependency.key)

theorem Failure.IsFound.isOwn {f : Failure} (h : f.IsFound) (q : Resolver) : q.IsOwn f := by
  rintro rfl
  exact h rfl _ rfl

theorem Resolver.Single.of_unowned (hq : q.Single) (hrequire : require.Direct)
    (howner : c.owner? q.dependency.key = none) : q.resolve require c = unbound q.dependency.key := by
  cases hq with
  | value k =>
      obtain howner : c.owner? k = none := howner
      simp only [resolve, Lookup.typed, hrequire.of_unowned howner, unbound_bind]
      rfl
  | config type apart =>
      obtain howner : c.owner? .configs = none := howner
      simp only [resolve, Lookup.config, Lookup.typed, hrequire.of_unowned howner, unbound_bind]
      rfl

theorem Resolver.Single.of_owned (hq : q.Single) (hrequire : require.Direct)
    (howner : c.owner? q.dependency.key = some (o, b)) : Fails q.IsOwn (q.resolve require c) := by
  have htyped : Fails q.IsOwn (require.typed c q.dependency.key) := fun f hf =>
    (fails_typed Failure.broad_isFound (hrequire.of_owned howner) f hf).isOwn q
  cases hq with
  | value k => exact .bind htyped fun v => .pure _
  | config type apart =>
      rw [resolve, Lookup.config_eq]
      refine .bind (.bind htyped fun v => ?_) fun v => .pure _
      split
      · exact .pure _
      · -- the set of configs is there, so it is another key that is missing
        refine .fail fun heq => apart ?_
        simpa [Failure.because, Resolver.dependency, Key.configs, Dependency.required, Key.ofType] using heq

/-- What an optional request makes of the result of the request itself. -/
def Resolver.weigh (q : Resolver) : Except (Stop Failure) Resolved → Except (Stop Failure) Resolved
  | .ok r => .ok (.present r)
  | .error (.failed f) => if f = .because (.missing q.dependency.key) then .ok .absent else .error (.failed f)
  | .error e => .error e

theorem run_optional (require : Lookup) (c : Container) (q : Resolver) :
    (q.optional.resolve require c).run = (q.resolve require c).run.bind fun result => .done (q.weigh result) := by
  refine (Process.bind_assoc _ _ _).trans (congrArg _ (funext fun result => ?_))
  rcases result with (f | message | _) | r
  · change (if f = .because (.missing q.dependency.key) then (pure .absent : Attempt Failure Resolved)
      else Attempt.fail f).run = .done (if _ then _ else _)
    split <;> rfl
  all_goals rfl

theorem run_map (x : Attempt Failure Resolved) :
    (Resolved.present <$> x).run = x.run.bind fun result => .done (result.map .present) := by
  rw [← bind_pure_comp]
  refine congrArg x.run.bind (funext fun result => ?_)
  rcases result with e | r <;> rfl

/-- Whatever an optional request comes to, the request itself may come to what this is made of. -/
theorem Attempt.ComesTo.weighed {result : Except (Stop Failure) Resolved}
    (h : (q.optional.resolve require c).ComesTo result) :
    ∃ inner, (q.resolve require c).run.MayEnd inner ∧ result = q.weigh inner := by
  have hend := h.mayEnd
  rw [run_optional] at hend
  obtain ⟨inner, hinner, hresult⟩ := Process.mayEnd_bind.1 hend
  exact ⟨inner, hinner, Process.mayEnd_done.1 hresult⟩

theorem Resolver.weigh_of_isOwn (q : Resolver) {result : Except (Stop Failure) Resolved}
    (h : ∀ f, result = .error (.failed f) → q.IsOwn f) : q.weigh result = result.map .present := by
  rcases result with (f | message | _) | r
  · exact if_neg (h f rfl)
  all_goals rfl

/-- Either the key is out of sight and the request says so, or it is in sight and the request never does. -/
theorem Resolver.Single.sight (hq : q.Single) (hrequire : require.Direct) (hc : c.Linked)
    {result : Except (Stop Failure) Resolved} (h : (q.resolve require c).run.MayEnd result) :
    (c.graph.contains q.dependency.key = false ∧
        result = .error (.failed (.because (.missing q.dependency.key)))) ∨
      (c.graph.contains q.dependency.key = true ∧ ∀ f, result = .error (.failed f) → q.IsOwn f) := by
  rcases hsight : c.graph.contains q.dependency.key
  · rw [hq.of_unowned hrequire (Container.owner?_eq_none hsight)] at h
    rcases h with _ | ⟨_, _, _, ⟨⟩⟩
    exact .inl ⟨rfl, rfl⟩
  · obtain ⟨o, b, howner⟩ := hc.owner?_isSome hsight
    refine .inr ⟨rfl, ?_⟩
    rintro f rfl
    exact hq.of_owned hrequire howner f h

theorem Resolver.Single.tellsAbsence (hq : q.Single) (hrequire : require.Direct) (hc : c.Linked) :
    q.TellsAbsence require c where
  missing result hresult := by
    rcases hq.sight hrequire hc hresult.mayEnd with ⟨hsight, rfl⟩ | ⟨hsight, hown⟩
    · simp [hsight]
    · rw [hsight]
      refine iff_of_false ?_ (by simp)
      rintro rfl
      exact hown _ rfl rfl
  behind f hf hsight hreason htrail := by
    rcases hq.sight hrequire hc hf.mayEnd with ⟨hnone, -⟩ | ⟨-, hown⟩
    · rw [hsight] at hnone
      cases hnone
    · obtain ⟨trail, reason⟩ := f
      obtain rfl : trail = [] := htrail
      obtain rfl : reason = .missing q.dependency.key := hreason
      exact hown _ rfl rfl
  absent result hresult := by
    obtain ⟨inner, hinner, rfl⟩ := hresult.weighed
    rcases hq.sight hrequire hc hinner with ⟨hsight, rfl⟩ | ⟨hsight, hown⟩
    · simp [Resolver.weigh, hsight]
    · rw [q.weigh_of_isOwn hown, hsight]
      rcases inner with e | r <;> simp [Except.map]
  present hsight := by
    refine (run_optional require c q).trans (Eq.trans ?_ (run_map _).symm)
    refine Process.bind_congr fun result hresult => congrArg Process.done ?_
    rcases hq.sight hrequire hc hresult with ⟨hnone, -⟩ | ⟨-, hown⟩
    · rw [hsight] at hnone
      cases hnone
    · exact q.weigh_of_isOwn hown
  twice result hresult := by
    obtain ⟨outer, houter, rfl⟩ := hresult.weighed
    rw [run_optional] at houter
    obtain ⟨inner, hinner, houter⟩ := Process.mayEnd_bind.1 houter
    obtain rfl := Process.mayEnd_done.1 houter
    rcases hq.sight hrequire hc hinner with ⟨hsight, rfl⟩ | ⟨hsight, hown⟩
    · simp [Resolver.weigh, hsight]
    · have hown' : ∀ f, inner.map Resolved.present = .error (.failed f) → q.optional.IsOwn f := by
        rintro f hf
        rcases inner with e | r <;> cases hf
        exact hown f rfl
      rw [q.weigh_of_isOwn hown, q.optional.weigh_of_isOwn hown', hsight]
      rcases inner with e | r <;> simp [Except.map]

end Resolve

/-- At a container that was linked, from outside and within constructions, requests for values and configs and their
optional forms tell whether their key is in sight. -/
theorem Resolver.tellsAbsence_of_linked {c : Container} (hc : c.Linked) {q : Resolver} (hq : q.Single) :
    q.TellsAbsence Container.require c ∧ ∀ depth, q.TellsAbsence (requireWithin (depth + 1)) c :=
  ⟨hq.tellsAbsence direct_require hc, fun depth => hq.tellsAbsence (direct_requireWithin depth) hc⟩

namespace Pantry

def sugar : Key := .ofType ⟨1, "Sugar", .number⟩

/-- A shop that has run out of everything. -/
def shop : Container := ⟨0, "shop", .empty, [], Graph.assemble .empty []⟩

/-- Sugar that has to be bought first. -/
def bought : Binding := .provider ⟨sugar.type, "", [.ask (.untyped sugar) (some [0]) false], none⟩

def kitchen : Container :=
  ⟨1, "kitchen", ⟨[bought]⟩, [shop], Graph.assemble ⟨[bought]⟩ (Graph.inherited ⟨[bought]⟩ [shop])⟩

end Pantry

open Pantry in
/-- In the kitchen sugar is missing below the provider of sugar, which is not the same as there being none in sight. -/
theorem Resolver.tellsAbsence_kitchen : kitchen.Linked ∧ Single (.value sugar) ∧
    ((kitchen.resolve (.resolve (.value sugar))).eval 0 .empty).1 =
      .error (.failed ⟨[sugar], .missing sugar⟩) ∧
    ((kitchen.resolve (.resolve (optional (.value sugar)))).eval 0 .empty).1 ≠ .ok .absent ∧
    ((shop.resolve (.resolve (optional (.value sugar)))).eval 0 .empty).1 = .ok .absent ∧
    ((shop.resolve (.resolve (optional (optional (.value sugar))))).eval 0 .empty).1 = .ok (.present .absent) := by
  have hkitchen := tellsAbsence_of_linked (c := kitchen) rfl (.value sugar)
  have hshop := tellsAbsence_of_linked (c := shop) rfl (.value sugar)
  refine ⟨rfl, .value sugar, rfl, fun habsent => ?_, ?_, ?_⟩
  · exact Bool.noConfusion ((hkitchen.1.absent _ (.alone 0 .empty)).1 habsent)
  · exact (hshop.1.absent _ (.alone 0 .empty)).2 rfl
  · exact (hshop.1.twice _ (.alone 0 .empty)).2.2 rfl

end Injection
