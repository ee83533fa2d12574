import Injection.Proofs.Survival

/-!
Optional requests for lazy handles. The other optional requests are answered with nothing if their key is out of sight,
and a provider may well declare that it needs a handle only if there is something for it. But a lazy handle is made
without looking anything up, so an optional request for one is answered with a handle in any case, whatever is in sight.
That nothing was there for it shows only when the handle is used: the get fails as missing the key of the handle, which
no get does for a key in sight.
-/

namespace Injection

open Attempt

namespace Resolver

/-- What there is to an optional request for a lazy handle of a type, at a container. -/
structure Promises (c : Container) (type : TypeInfo) : Prop where
  /-- The request never comes to anything but a handle. -/
  always : ∀ require result, ((deferred type).optional.resolve require c).ComesTo result →
    ∃ l, result = .ok (.present (.deferred l))
  /-- So it tells whether the key is in sight if the key is in sight, and only then. -/
  tells : ∀ require result, ((deferred type).optional.resolve require c).ComesTo result →
    ((result = .ok .absent ↔ c.graph.contains (.ofType type) = false) ↔ c.graph.contains (.ofType type) = true)
  /-- The handle is there in one turn. It belongs to the container, and there is nothing in it. -/
  atOnce : ∀ {w : Household} {me : Thread} {require : Lookup}
    {next : Except (Stop Failure) Resolved → Process (Option Upshot)},
    w.team.threads me = ((deferred type).optional.resolve require c).run.bind next →
    ∃ l, (w.turn me).team.threads me = next (.ok (.present (.deferred l))) ∧
      (w.turn me).store.cells l.id = some ⟨c, .ofType type, none⟩
  /-- If the key is in sight, no get of the handle fails as missing it. -/
  kept : ∀ {w v : Household} {me : Thread} {l : Lazy} {found : Option Value} {result : Except (Stop Failure) Value},
    w.Reached → w.store.cells l.id = some ⟨c, .ofType type, found⟩ → c.graph.contains (.ofType type) = true →
    w.Gets me l result v → result ≠ .error (.failed (.because (.missing (.ofType type))))
  /-- If it is not, a get that finds nothing in the handle, and looks for the container while that is alive, fails as
  missing it. -/
  broken : ∀ {w v : Household} {me : Thread} {l : Lazy} {found : Option Value} {require : Lookup}
    {result : Except (Stop Failure) Value}, w.Reached → require.Direct →
    w.store.cells l.id = some ⟨c, .ofType type, found⟩ → c.graph.contains (.ofType type) = false → w.Alive c →
    Household.Pursues me Household.Anything (l.lookUpIn require (w.store.reclaim l).2).run (w.turn me) (.done result) v →
    result = .error (.failed (.because (.missing (.ofType type))))
  /-- That takes four turns, from the beginning of the get. -/
  fails : ∀ {w : Household} {me : Thread} {l : Lazy} {require : Lookup}
    {next : Except (Stop Failure) Value → Process (Option Upshot)}, w.Reached → require.Direct →
    w.store.cells l.id = some ⟨c, .ofType type, none⟩ → c.graph.contains (.ofType type) = false → w.Alive c →
    w.team.threads me = (l.get require).run.bind next →
    ((((w.turn me).turn me).turn me).turn me).team.threads me =
      next (.error (.failed (.because (.missing (.ofType type)))))

variable {require : Lookup} {c : Container} {type : TypeInfo}

/-- An optional request for a lazy handle just makes a handle. -/
theorem run_optional_deferred (require : Lookup) (c : Container) (type : TypeInfo) :
    ((deferred type).optional.resolve require c).run =
      .act (.postpone c (.ofType type)) fun l => .done (.ok (.present (.deferred l))) := rfl

theorem exists_handle {result : Except (Stop Failure) Resolved}
    (h : ((deferred type).optional.resolve require c).ComesTo result) : ∃ l, result = .ok (.present (.deferred l)) := by
  rcases h.mayEnd with _ | ⟨_, _, l, hend⟩
  exact ⟨l, Process.mayEnd_done.1 hend⟩

end Resolver

/-! ### Handles on what is out of sight -/

section

variable {require : Lookup} {l : Lazy} {cell : Cell}

/-- A handle on a key in sight that has hold of its container does not fail as missing the key. -/
theorem Lookup.Genuine.fails_lookUpIn_of_owned (h : require.Genuine) {o : Container} {b : Binding}
    (howner : cell.container.owner? cell.key = some (o, b)) :
    Fails Failure.IsFound (l.lookUpIn require (some cell)) := by
  refine .closing _ (.bind (fails_typed Failure.broad_isFound ?_) fun v => .perform (.keep l v))
  rcases h.cases 0 cell.container cell.key with ⟨inner, -, heq⟩ | heq <;> rw [heq]
  · exact fails_requireWith Failure.broad_isFound inner howner
  · intro e he
    cases Process.mayEnd_done.1 he

/-- A handle on a key out of sight that has hold of its container says so and lets go of the container. -/
theorem Lookup.Direct.run_lookUpIn (h : require.Direct) (howner : cell.container.owner? cell.key = none) :
    ∃ e, (l.lookUpIn require (some cell)).run = .act (.tell e) fun _ =>
      .act (.letGo cell.container) fun _ => .done (.error (.failed (.because (.missing cell.key)))) := by
  refine ⟨⟨.error, "Tried to require an unbound key: " ++ cell.key.text⟩, ?_⟩
  rw [Lazy.run_lookUpIn, Lazy.fetch, Lookup.typed, h.of_unowned howner]
  rfl

end

namespace Household

variable {w v : Household} {me : Thread} {l : Lazy} {cell : Cell} {result : Except (Stop Failure) Value}

/-- No get of a handle on a key in sight fails as missing that key. -/
theorem Gets.ne_missing (hw : w.InOrder) (hcell : w.store.cells l.id = some cell) {o : Container} {b : Binding}
    (howner : cell.container.owner? cell.key = some (o, b)) (h : w.Gets me l result v) :
    result ≠ .error (.failed (.because (.missing cell.key))) := by
  rcases h.found_or_looks hw with ⟨u, x, -, -, rfl⟩ | ⟨u, hleads, -, require, next, hrequire, -, hrest⟩
  · nofun
  · obtain ⟨found, hcell', -⟩ := (hleads.lasts hw).cells _ _ hcell
    rintro rfl
    by_cases halive : u.store.isAlive cell.container.id = true
    · rw [Store.reclaim_of_alive hcell' halive] at hrest
      exact hrequire.fails_lookUpIn_of_owned howner _ (hrest.mayEnd (.done _)) rfl _ rfl
    · rw [Store.reclaim_of_not_alive hcell' halive] at hrest
      cases hrest.eq_done

/-- A get that has hold of the container fails as missing the key of the handle if the key is out of sight. -/
theorem missing_of_alive {require : Lookup} (hrequire : require.Direct) (hw : w.InOrder)
    (hcell : w.store.cells l.id = some cell) (halive : w.Alive cell.container)
    (howner : cell.container.owner? cell.key = none)
    (h : Pursues me Anything (l.lookUpIn require (w.store.reclaim l).2).run (w.turn me) (.done result) v) :
    result = .error (.failed (.because (.missing cell.key))) := by
  rw [Store.reclaim_of_alive hcell ((hw.isAlive_cell_iff hcell).2 halive)] at h
  obtain ⟨e, hrun⟩ := hrequire.run_lookUpIn (l := l) howner
  rw [hrun] at h
  rcases h.mayEnd (.done _) with _ | ⟨_, _, _, _ | ⟨_, _, _, hend⟩⟩
  exact Process.mayEnd_done.1 hend

/-- A get of a handle that has found nothing, on a key out of sight, remembers nothing, takes hold of the container, says
that the key is unbound, and lets go. -/
theorem turns_of_unbound {require : Lookup} {next : Except (Stop Failure) Value → Process (Option Upshot)}
    (hrequire : require.Direct) (hw : w.InOrder) (hcell : w.store.cells l.id = some cell) (hnone : cell.found = none)
    (halive : w.Alive cell.container) (howner : cell.container.owner? cell.key = none)
    (hp : w.team.threads me = (l.get require).run.bind next) :
    ((((w.turn me).turn me).turn me).turn me).team.threads me =
      next (.error (.failed (.because (.missing cell.key)))) := by
  have hfound : w.store.found? l = none := by rw [Store.found?, hcell, Option.bind_some, hnone]
  obtain ⟨hlookUp, hstore⟩ := turn_of_unresolved hfound hp
  have hlooking := turn_of_lookUp (hstore ▸ hcell) (hstore ▸ (hw.isAlive_cell_iff hcell).2 halive) hlookUp
  obtain ⟨e, hrun⟩ := hrequire.run_lookUpIn (l := l) howner
  rw [hrun] at hlooking
  have htold : (((w.turn me).turn me).turn me).team.threads me = .act (.letGo cell.container) fun _ =>
      next (.error (.failed (.because (.missing cell.key)))) := threads_turn_self hlooking rfl
  exact threads_turn_self htold rfl

end Household

/-- At a container that was linked, an optional request for a lazy handle is answered with a handle also if there is
nothing in sight for it. -/
theorem Resolver.promises_of_linked {c : Container} (hc : c.Linked) (type : TypeInfo) : Promises c type where
  always _ _ h := exists_handle h
  tells require result h := by
    obtain ⟨l, rfl⟩ := exists_handle h
    simp
  atOnce := by
    intro w me require next hp
    rw [run_optional_deferred] at hp
    refine ⟨(w.store.postpone c (.ofType type)).2, ?_⟩
    rw [Household.turn_goes hp rfl]
    exact ⟨setAt_self .., setAt_self ..⟩
  kept hw hcell hsight hgets := by
    obtain ⟨o, b, howner⟩ := hc.owner?_isSome hsight
    exact hgets.ne_missing hw.inOrder hcell howner
  broken hw hrequire hcell hsight halive hlook :=
    Household.missing_of_alive hrequire hw.inOrder hcell halive (Container.owner?_eq_none hsight) hlook
  fails hw hrequire hcell hsight halive hp :=
    Household.turns_of_unbound hrequire hw.inOrder hcell rfl halive (Container.owner?_eq_none hsight) hp


namespace Bedroom

def clock : TypeInfo := ⟨1, "Clock", .number⟩

/-- The alarm goes by a clock if there is one, and declares that. -/
def alarm : Binding :=
  (BindingOf.provider ⟨⟨2, "Alarm", .number⟩, "", [.ask (.resolve (.optional (.deferred clock))) none false], none⟩).dependingOn
    [(Resolver.optional (.deferred clock)).dependency]

/-- There is no clock here. -/
def bedroom : Container := ⟨0, "bedroom", ⟨[alarm]⟩, [], Graph.assemble ⟨[alarm]⟩ []⟩

/-- There is one in the study. -/
def study : Container :=
  let b : Binding := .provider ⟨clock, "", [], none⟩
  ⟨0, "study", ⟨[b]⟩, [], Graph.assemble ⟨[b]⟩ []⟩

def furnished : Household := (Household.empty.begin 0 (.build "bedroom" [] [alarm] false)).after (List.replicate 6 0)

/-- A handle on the clock was obtained from the bedroom. -/
def evening : Household := ((furnished.finish 0).begin 0
  (.ask ⟨bedroom, none⟩ (.resolve (.optional (.deferred clock))))).after [0]

/-- The handle is going to be used. -/
def morning : Household := (evening.finish 0).begin 0 (.use ⟨1, .ofType clock⟩)

theorem reached_morning : morning.Reached := by
  have hbedroom : bedroom ∈ (furnished.finish 0).containers := List.mem_cons_self
  have hfurnished : furnished.Reached := (Household.Leads.refl.step (.begin 0 _ rfl (List.forall_mem_nil _))).after _
  have hevening : evening.Reached := (hfurnished.next rfl (List.forall_mem_singleton.2 (.held hbedroom))).after _
  exact hevening.next rfl (List.forall_mem_nil _)

end Bedroom

open Bedroom Resolver

/-- The request tells of the clock in the study, and not that there is none in the bedroom; there the use of the handle
fails. -/
theorem Resolver.promises_bedroom : bedroom.Linked ∧ study.Linked ∧
    ¬ (((bedroom.resolve (.resolve (optional (deferred clock)))).eval 0 .empty).1 = .ok .absent ↔
      bedroom.graph.contains (.ofType clock) = false) ∧
    (((study.resolve (.resolve (optional (deferred clock)))).eval 0 .empty).1 = .ok .absent ↔
      study.graph.contains (.ofType clock) = false) ∧
    morning.Reached ∧ ((((morning.turn 0).turn 0).turn 0).turn 0).team.threads 0 =
      .done (some (.used ⟨1, .ofType clock⟩ (.error (.failed (.because (.missing (.ofType clock))))))) := by
  have hbedroom := promises_of_linked (c := bedroom) rfl clock
  have hstudy := promises_of_linked (c := study) rfl clock
  refine ⟨rfl, rfl, fun h => ?_, (hstudy.tells _ _ (.alone 0 .empty)).2 rfl, reached_morning, ?_⟩
  · exact Bool.noConfusion ((hbedroom.tells _ _ (.alone 0 .empty)).1 h)
  · have hcell : morning.store.cells 1 = some ⟨bedroom, .ofType clock, none⟩ := rfl
    have hbefore : morning.team.threads 0 = ((⟨1, .ofType clock⟩ : Lazy).get Container.require).run.bind fun result =>
        .done (some (.used ⟨1, .ofType clock⟩ result)) := rfl
    exact hbedroom.fails reached_morning direct_require hcell rfl (.held List.mem_cons_self) hbefore

/-- Without a clock in sight the bedroom is linked, though the alarm declares that it may need one. The optional requests
for the clock itself are answered with nothing, but the one for a lazy handle is not, so it does not tell that there is
no clock. The alarm has a handle, which fails when it is used. -/
theorem Resolver.not_tells_bedroom : bedroom.Linked ∧ bedroom.graph.contains (.ofType clock) = false ∧
    ((bedroom.resolve (.resolve (optional (value (.ofType clock))))).eval 0 .empty).1 = .ok .absent ∧
    ((bedroom.resolve (.resolve (optional (deferred clock)))).eval 0 .empty).1 =
      .ok (.present (.deferred ⟨0, .ofType clock⟩)) ∧
    ((bedroom.resolve (.untyped alarm.key)).eval 0 .empty).1 =
      .ok (.value (.made alarm.key.type 1 (.provided "" alarm.key "bedroom" [.present .deferred] [⟨0, .ofType clock⟩]))) ∧
    ¬ ∀ (c : Container) (type : TypeInfo) (result : Except (Stop Failure) Resolved), c.Linked →
      ((optional (deferred type)).resolve Container.require c).ComesTo result →
      (result = .ok .absent ↔ c.graph.contains (.ofType type) = false) := by
  refine ⟨rfl, rfl, rfl, rfl, rfl, fun htells => ?_⟩
  have hcomes : ((optional (deferred clock)).resolve Container.require bedroom).ComesTo
      (.ok (.present (.deferred ⟨0, .ofType clock⟩))) := .alone 0 .empty
  cases (htells bedroom clock _ rfl hcomes).2 rfl

end Injection
