import Injection.Proofs.Trails

/-!
Every failure accounts for itself. A request that fails for nothing that its own provider did passes on the failure of
another one, and each definition on the way only hands it on or catches it; where a construction fails, its key goes on
the trail. The depth to which constructions nest is again the only thing the induction is on.
-/

namespace Injection

variable {me : Thread} {s t : Store} {f : Failure}

/-! ### Requests -/

section MapError

variable {ε ε' α : Type} {g : ε → ε'} {x : Attempt ε α}

theorem eval_of_mapError_ok {a : α} (h : (Attempt.mapError g x).eval me s = (.ok a, t)) : x.eval me s = (.ok a, t) := by
  rw [Attempt.eval_mapError] at h
  rcases hx : x.eval me s with ⟨e | b, u⟩ <;> rw [hx] at h <;> cases h
  rfl

theorem eval_of_mapError_failed {e' : ε'} (h : (Attempt.mapError g x).eval me s = (.error (.failed e'), t)) :
    ∃ e, x.eval me s = (.error (.failed e), t) ∧ e' = g e := by
  rw [Attempt.eval_mapError] at h
  rcases hx : x.eval me s with ⟨(e | message | _) | b, u⟩ <;> rw [hx] at h <;> cases h
  exact ⟨e, rfl, rfl⟩

end MapError

/-- Adding drafts never fails; what is refused is only gathered. -/
theorem exists_of_addDrafts {ε : Type} (b : Builder) (drafts : List Draft) (me : Thread) (s : Store) :
    ∃ b' t, (b.addDrafts drafts : Attempt ε Builder).eval me s = (.ok b', t) := by
  induction drafts generalizing b s with
  | nil => exact ⟨b, s, rfl⟩
  | cons draft drafts ih =>
      have hmake : ∃ binding t, (draft.make : Attempt ε Binding).eval me s = (.ok binding, t) := by
        unfold BindingOf.make
        split <;> exact ⟨_, _, rfl⟩
      obtain ⟨binding, t, hmake⟩ := hmake
      have htell : ∃ u, (Attempt.tell? (b.registry.event? binding) : Attempt ε Unit).eval me t = (.ok (), u) := by
        cases b.registry.event? binding <;> exact ⟨_, rfl⟩
      obtain ⟨u, htell⟩ := htell
      have hadd : (b.addDraft draft : Attempt ε Builder).eval me s = (.ok (b.add binding), u) := by
        simp [Builder.addDraft, Attempt.eval_bind, hmake, htell, Except.map]
      rw [Builder.addDrafts, Attempt.eval_bind, hadd]
      exact ih (b.add binding) u

/-- Requests for keys at any container that was built have the trails that they should have when they fail, and end with
their answers when they are answered. -/
structure Lookup.Traces (me : Thread) (require : Lookup) : Prop where
  sound : require.Sound me
  failed : ∀ s c k, Consistent me s → s.HasBuilt c → Injection.Traces me s (require c k) fun _ => False
  answered : ∀ s c k v t, (require c k).eval me s = (.ok v, t) →
    ∃ earlier u, (require c k).turns me s = earlier ++ [(.note (.answered c k v), u)]

theorem traces_pursue {request : Attempt Failure Resolved} (h : Traces me s request fun _ => False) (p : Progress)
    (catches : Bool) : Traces me s (p.pursue catches request) fun _ => False := by
  refine h.handled fun result => ?_
  rcases result with f | r
  · cases catches
    · exact .inr ⟨f, rfl, rfl⟩
    · exact .inl ⟨_, rfl⟩
  · exact .inl ⟨_, rfl⟩

theorem traces_innerHandle (hs : Consistent me s) (a : Handle) (p : Progress) (value index : Nat) :
    Traces me s (a.innerHandle p value index) fun f =>
      (∀ l ∈ p.inner? value index, s.leadsUp l a.container = false) ∧ f = .because (.other "no such lazy") := by
  unfold Handle.innerHandle
  split
  · next hnone => exact .fail ⟨by simp [hnone], rfl⟩
  · next l hl =>
    refine .bind .perform (sound_leadsUp hs l a.container) fun yes t heval _ _ _ => ?_
    obtain rfl : s.leadsUp l a.container = yes := Except.ok.inj (congrArg Prod.fst heval)
    split
    · exact .pure
    · next hup => exact .fail ⟨by simpa [hl] using hup, rfl⟩

theorem traces_addConfig (hs : Consistent me s) (p : Progress) (type : TypeInfo) (tag : String) :
    Traces me s (p.addConfig type tag) fun f =>
      (p.configs.find? type).isSome = true ∧ f = .because (.other (ConfigError.duplicate type).message) := by
  refine .bind .perform (sound_nextSerial hs) fun serial t _ ht _ _ => ?_
  unfold Configs.add
  rcases p.configs.find? type with _ | config
  · exact .bind .perform (sound_tell ht _ _) fun _ _ _ _ _ _ => .pure
  · exact .fail ⟨rfl, rfl⟩

theorem traces_mint (hs : Consistent me s) (c : Container) (k : Key) (r : Recipe Step) (p : Progress) (serial : Nat)
    {own : Failure → Prop} : Traces me s (r.mint c k p serial) own := by
  unfold Recipe.mint
  split
  · exact .bind .perform (sound_numberConfigs hs) fun _ _ _ _ _ _ => .pure
  · exact .pure

section Lookup

variable {require : Lookup} (hrequire : require.Traces me) {c : Container}

theorem eval_of_typed {k : Key} {v : Value} (heval : (require.typed c k).eval me s = (.ok v, t)) :
    (require c k).eval me s = (.ok v, t) := by
  rw [Lookup.typed, Attempt.eval_bind] at heval
  rcases hanswer : (require c k).eval me s with ⟨e | w, u⟩ <;> rw [hanswer] at heval
  · cases heval
  · simp only at heval
    split at heval <;> cases heval
    rfl

include hrequire

theorem traces_typed (hs : Consistent me s) (hc : s.HasBuilt c) (k : Key) :
    Traces me s (require.typed c k) fun _ => False := by
  refine (hrequire.failed s c k hs hc).raising (hrequire.sound s c k hs hc) fun v t heval _ _ _ => ?_
  by_cases htype : v.type = k.type
  · rw [if_pos htype]
    exact .inl .pure
  · obtain ⟨earlier, u, hturns⟩ := hrequire.answered s c k v t heval
    exact .inr ⟨_, if_neg htype, hturns.symm ▸ .mismatch htype⟩

theorem traces_config (hs : Consistent me s) (hc : s.HasBuilt c) (type : TypeInfo) :
    Traces me s (require.config c type) fun _ => False := by
  rw [Lookup.config_eq]
  refine (traces_typed hrequire hs hc .configs).raising (sound_typed hrequire.sound hs hc .configs)
    fun v t heval _ _ _ => ?_
  split
  · exact .inl .pure
  · next hunset =>
    obtain ⟨earlier, u, hturns⟩ := hrequire.answered s c .configs v t (eval_of_typed heval)
    exact .inr ⟨_, rfl, ((turns_typed .configs).trans hturns).symm ▸ .unset hunset⟩

theorem traces_get (hs : Consistent me s) (l : Lazy) : Traces me s (l.get require) fun _ => False := by
  refine Traces.bind .perform (sound_remember hs l) fun found t _ ht _ _ => ?_
  rcases found with _ | v
  · refine Traces.raising .perform (sound_reclaim ht l) fun found u heval hu _ hfound => ?_
    rcases found with _ | cell
    · have hgone : (t.reclaim l).2 = none := Except.ok.inj (congrArg Prod.fst heval)
      have hraises : Raises me ([] ++ [(.reclaim l, t)]) (.dropped l.key) := .dropped hgone
      exact .inr ⟨_, rfl, hraises⟩
    · obtain ⟨hbuilt, -⟩ := hfound.2 cell rfl
      exact .inl (.closing (.bind (traces_typed hrequire hu hbuilt cell.key)
        (sound_typed hrequire.sound hu hbuilt cell.key) fun _ _ _ _ _ _ => .perform) rfl)
  · exact .pure

theorem traces_resolve (hs : Consistent me s) (hc : s.HasBuilt c) (q : Resolver) :
    Traces me s (q.resolve require c) fun _ => False := by
  induction q with
  | value k => exact (traces_typed hrequire hs hc k).map (sound_typed hrequire.sound hs hc k)
  | deferred type => exact Traces.map .perform (sound_postpone hs hc (.ofType type))
  | config type => exact (traces_config hrequire hs hc type).map (sound_config hrequire.sound hs hc type)
  | optional inner ih =>
      refine ih.handled fun result => ?_
      rcases result with f | r
      · by_cases hmissing : f = .because (.missing inner.dependency.key)
        · exact .inl ⟨_, if_pos hmissing⟩
        · exact .inr ⟨f, rfl, if_neg hmissing⟩
      · exact .inl ⟨_, rfl⟩

theorem traces_request (hs : Consistent me s) (hc : s.HasBuilt c) (requester : Option Key) (r : Request) :
    Traces me s (Handle.request require ⟨c, requester⟩ r) fun _ => False := by
  cases r with
  | resolve q => exact traces_resolve hrequire hs hc q
  | untyped k => exact (hrequire.failed s c k hs hc).map (hrequire.sound s c k hs hc)
  | requester => exact .pure

/-- Where a container cannot be built, that is the failure; otherwise it is that of what is done with the container. -/
theorem traces_buildThen (hs : Consistent me s) {b : Builder} (hb : b.Proper s) (eager : Bool) {α : Type}
    {next : Container → Attempt Failure α}
    (hnext : ∀ t c, Consistent me t → t.HasBuilt c → Traces me t (next c) fun _ => False) :
    Traces me s (b.buildThen require BuildError.toFailure eager next) fun f => ∃ e u,
      (b.buildThen require id eager pure).eval me s = (.error (.failed e), u) ∧ f = e.toFailure := by
  refine Traces.bind (.of_own fun f t hfailed => ?_) ((sound_build hs hb).mapError _) fun c t hbuild ht _ hbuilt => ?_
  · obtain ⟨e, he, rfl⟩ := eval_of_mapError_failed hfailed
    exact ⟨e, t, by rw [Builder.buildThen, Attempt.eval_bind, Attempt.eval_mapError_id, he], rfl⟩
  refine .bind .perform (sound_hold ht c) fun _ u hhold hu htu _ => .closing ?_ rfl
  cases hhold
  have hbuilt := htu.hasBuilt hbuilt
  cases eager
  · exact (hnext _ c hu hbuilt).mono fun _ => False.elim
  · refine .bind (.of_own fun f w hfailed => ?_) ((sound_initiate hrequire.sound hu hbuilt).mapError _)
      fun _ w _ hw huw _ => (hnext w c hw (huw.hasBuilt hbuilt)).mono fun _ => False.elim
    obtain ⟨e, he, rfl⟩ := eval_of_mapError_failed hfailed
    refine ⟨e, w.letGo c, ?_, rfl⟩
    rw [Builder.buildThen, Attempt.eval_bind, Attempt.eval_mapError_id, eval_of_mapError_ok hbuild]
    simp [Attempt.eval_bind, Attempt.eval_closing, Attempt.eval_mapError_id, he, Except.map]

theorem traces_step (hs : Consistent me s) (hc : s.HasBuilt c) (requester : Option Key) (run : Nat) (p : Progress)
    (step : Step) : Traces me s (step.perform require ⟨c, requester⟩ run p) fun f =>
      ∃ reason, step.GivesUp require me ⟨c, requester⟩ run p s reason ∧ f = .because reason := by
  cases step with
  | fail message runs =>
      rw [Step.perform]
      split
      · next hconcerns => exact .fail ⟨_, ⟨hconcerns, rfl⟩, rfl⟩
      · exact .pure
  | panic message runs =>
      rw [Step.perform]
      split
      · exact .of_own fun _ _ hfailed => by cases hfailed
      · exact .pure
  | pause => exact .pure
  | meet gate count =>
      refine Traces.bind .perform (sound_arrive hs gate) fun _ t _ ht _ _ => ?_
      exact Traces.bind .perform (sound_await ht gate count) fun _ _ _ _ _ _ => .pure
  | ask r path catches =>
      cases path with
      | none => exact (traces_pursue (traces_request hrequire hs hc requester r) p catches).mono fun _ => False.elim
      | some path =>
          rw [Step.perform]
          split
          · next hnone => exact .fail ⟨_, ⟨hnone, rfl⟩, rfl⟩
          · next a ha =>
            have ha := hs.hasBuilt_of_reaches hc (Container.reaches_of_ancestor? ha)
            exact (traces_pursue (traces_request hrequire hs ha none r) p catches).mono fun _ => False.elim
  | use index catches =>
      rw [Step.perform]
      split
      · next hnone => exact .fail ⟨_, ⟨hnone, rfl⟩, rfl⟩
      · next l _ =>
        exact (traces_pursue ((traces_get hrequire hs l).map (sound_get hrequire.sound hs l)) p catches).mono
          fun _ => False.elim
  | useInner value index catches =>
      refine .bind ((traces_innerHandle hs _ p value index).mono ?_) (sound_innerHandle hs _ p value index)
        fun l t _ ht _ _ => ?_
      · rintro f ⟨hnone, rfl⟩
        exact ⟨_, ⟨hnone, rfl⟩, rfl⟩
      · exact (traces_pursue ((traces_get hrequire ht l).map (sound_get hrequire.sound ht l)) p catches).mono
          fun _ => False.elim
  | addConfig type tag =>
      refine (traces_addConfig hs p type tag).mono ?_
      rintro f ⟨hsome, rfl⟩
      exact ⟨_, ⟨hsome, rfl⟩, rfl⟩
  | nest drafts eager r catches =>
      have hb : ((Builder.below c).withLabel "sub").Proper s :=
        ⟨(Builder.proper_below hc).distinct, (Builder.proper_below hc).parents⟩
      refine .bind (.of_own fun f t hfailed => ?_) (sound_addDrafts hs hb drafts) fun b t heval ht _ hb => ?_
      · obtain ⟨b, u, hadded⟩ := exists_of_addDrafts ((Builder.below c).withLabel "sub") drafts me s
        cases hadded.symm.trans hfailed
      · refine (traces_buildThen hrequire ht hb eager fun u d hu hd =>
          traces_pursue (traces_request hrequire hu hd none r) p catches).mono ?_
        rintro f ⟨e, u, hfailed, rfl⟩
        exact ⟨_, ⟨b, e, t, u, heval, hfailed, rfl⟩, rfl⟩

theorem traces_steps (hs : Consistent me s) (hc : s.HasBuilt c) (requester : Option Key) (run : Nat) (p : Progress)
    (steps : List Step) : Traces me s (Steps.perform require ⟨c, requester⟩ run p steps) fun f =>
      ∃ reason, Steps.GiveUp require me ⟨c, requester⟩ run reason p s steps ∧ f = .because reason := by
  induction steps generalizing s p with
  | nil => exact .pure
  | cons step steps ih =>
      refine .bind ((traces_step hrequire hs hc requester run p step).mono ?_)
        (sound_step hrequire.sound hs hc requester run p step) fun p' t heval ht hst _ => ?_
      · rintro f ⟨reason, hnow, rfl⟩
        exact ⟨reason, .here hnow, rfl⟩
      · refine (ih ht (hst.hasBuilt hc) p').mono ?_
        rintro f ⟨reason, hrest, rfl⟩
        exact ⟨reason, .later heval hrest, rfl⟩

theorem traces_carryOut (hs : Consistent me s) (hc : s.HasBuilt c) (k : Key) (r : Recipe Step) (run : Nat) :
    Traces me s (r.carryOut require c k run) fun f =>
      ∃ reason, Steps.GiveUp require me ⟨c, some k⟩ run reason .start s r.steps ∧ f = .because reason := by
  refine (traces_steps hrequire hs hc (some k) run .start r.steps).bind
    (sound_steps hrequire.sound hs hc (some k) run .start r.steps) fun p t _ ht hst _ => ?_
  refine .bind .perform (sound_nextSerial ht) fun serial u _ hu htu _ => ?_
  split
  · next other _ =>
    exact (hrequire.failed u c other hu (htu.hasBuilt (hst.hasBuilt hc))).mono fun _ => False.elim
  · exact traces_mint hu c k r p serial

end Lookup

/-! ### Constructions -/

section Constructions

variable {c o : Container} {b : Binding} {r : Recipe Step} {depth : Nat}

/-- The run that a construction comes to. -/
def Store.run (s : Store) (me : Thread) (o : Container) (b : Binding) (r : Recipe Step) (depth : Nat) : Run :=
  ⟨o, b, r, depth, (s.entered me o b).tell (constructing o b)⟩

/-- The way in ends with the beginning of the run. -/
theorem exists_of_wayIn (s : Store) (me : Thread) (o : Container) (b : Binding) (r : Recipe Step) (depth : Nat) :
    ∃ first, s.wayIn me o b r = first ++ [(s.run me o b r depth).beginning] :=
  ⟨(.enter (o.place b), s) :: ((if b.isKept then [(.acquire (o.place b), (s.enter me (o.place b)).1)] else []) ++
    [(.tell (constructing o b), s.entered me o b)]), by simp [Store.wayIn, Run.beginning, Store.run, Run.place]⟩

theorem reached_wayIn (s : Store) (me : Thread) (o : Container) (b : Binding) (r : Recipe Step) :
    s.reached me (s.wayIn me o b r) = (s.opened me o b r).1 := by
  obtain ⟨first, hfirst⟩ := exists_of_wayIn s me o b r 0
  rw [hfirst, Store.reached_append]
  rfl

theorem isWayOut_of_mem_wayOut {e : Stop Failure} {turn : Action × Store} (hturn : turn ∈ t.wayOut o b (.error e)) :
    turn.1.isWayOut = true := by
  rw [Store.wayOut] at hturn
  split at hturn <;> simp only [List.mem_cons, List.not_mem_nil, or_false] at hturn
  · rcases hturn with rfl | rfl <;> rfl
  · obtain rfl := hturn
    rfl

theorem Openable.real (h : Openable me s o b r) : (s.run me o b r depth).Real where
  hasBuilt := by
    change .built o ∈ (s.entered me o b).history
    rw [Store.history_entered h.place]
    exact List.mem_cons_of_mem _ h.hasBuilt
  lookup := h.lookup
  source := h.source

section Failed

variable (h : Openable me s o b r) {f : Failure}
  (hfailed : ((s.run me o b r depth).attempt.eval me (s.opened me o b r).1).1 = .error (.failed f))
include h hfailed

/-- The key of a construction that fails goes on the trail. -/
theorem Parts.through {turns before after last : List (Action × Store)} {opened : List Address}
    (hparts : Parts me (s.opened me o b r).1 turns f before after opened)
    (hlast : ∀ turn ∈ last, turn.1.isWayOut = true) :
    Parts me s (s.wayIn me o b r ++ turns ++ last) (f.through b.key) (s.wayIn me o b r ++ before) (after ++ last)
      (o.place b :: opened) where
  turns := by rw [hparts.turns]; simp
  building := by
    rw [Store.reached_append, reached_wayIn, hparts.building, building_opened h.place, List.append_assoc]
    rfl
  trail := congrArg (b.key :: ·) hparts.trail
  passed := by
    intro outer place inner hopened
    rcases outer with _ | ⟨p, outer⟩
    · -- the construction itself, which fails for what its run fails for
      obtain ⟨rfl, rfl⟩ := List.cons.inj hopened
      obtain ⟨first, hfirst⟩ := exists_of_wayIn s me o b r depth
      refine ⟨s.run me o b r depth, first, before, by rw [hfirst]; simp, h.real, rfl, ?_, ?_⟩
      · rw [List.append_nil]
        exact Store.building_entered h.place
      · rw [← hparts.trail]
        exact hfailed
    · obtain ⟨rfl, rfl⟩ := List.cons.inj hopened
      have hpassed := (hparts.passed outer place inner rfl).after (s.wayIn me o b r)
      rwa [building_opened h.place, List.append_assoc] at hpassed
  out := List.forall_mem_append.2 ⟨hparts.out, hlast⟩

/-- What a run fails for by itself, or passes on, its construction fails for. -/
theorem Traced.through (hs : Consistent me s) (hrun : (∃ reason, (s.run me o b r depth).GivesUp me reason ∧
      f = .because reason) ∨
      Traced me (s.opened me o b r).1 ((s.run me o b r depth).attempt.turns me (s.opened me o b r).1) f)
    {last : List (Action × Store)} (hlast : ∀ turn ∈ last, turn.1.isWayOut = true) :
    Traced me s (s.wayIn me o b r ++ (s.run me o b r depth).attempt.turns me (s.opened me o b r).1 ++ last)
      (f.through b.key) := by
  rcases hrun with ⟨reason, hgivesUp, rfl⟩ | ⟨before, after, opened, hraises, hparts⟩
  · obtain ⟨-, hevolves, -⟩ := sound_carryOut (sound_requireWithin me depth) (h.consistent hs)
      ((h.touches hs).mem h.hasBuilt) b.key r (s.run me o b r depth).number
    obtain ⟨first, hfirst⟩ := exists_of_wayIn s me o b r depth
    have hraises : Raises me (first ++ (s.run me o b r depth).beginning ::
        (s.run me o b r depth).attempt.turns me (s.opened me o b r).1) reason := .own h.real hgivesUp
    refine ⟨_, _, _, ?_, (Parts.whole (Attempt.eval_eq_reached _ me _ ▸ hevolves.building)).through h hfailed hlast⟩
    rw [hfirst, List.append_assoc]
    exact hraises
  · exact ⟨_, _, _, hraises.after _, hparts.through h hfailed hlast⟩

end Failed

end Constructions

section Lookup

variable {depth : Nat} {c o : Container} {b : Binding} {k : Key}

theorem traces_answer (hdepth : (requireWithin depth).Traces me) (hs : Consistent me s) (hc : s.HasBuilt c)
    (howner : c.owner? b.key = some (o, b)) :
    Traces me s (c.requireWith (requireWithin depth) b.key) fun _ => False := by
  obtain ⟨hreaches, hlookup⟩ := Container.owner?_spec howner
  have ho : s.HasBuilt o := hs.hasBuilt_of_reaches hc hreaches
  intro f t hfailed
  have heval := congrArg Prod.fst hfailed
  rw [eval_requireWith howner] at heval
  rw [turns_requireWith howner]
  by_cases hplace : o.place b ∈ s.building me
  · rw [eval_produce_refused hplace] at heval ⊢
    cases heval
    rw [turns_produce_refused hplace]
    have hraises : Raises me ([] ++ [(.enter (o.place b), s)]) (.cyclic (o.place b).key) := .cyclic hplace
    have hreached : s.reached me ([] ++ [(.enter (o.place b), s)]) = _ := Store.reached_refused hplace s
    exact .inr (.of_raises hraises (congrArg (fun t => t.building me) hreached))
  rcases hsource : b.source with v | r
  · rw [eval_produce_given hplace hsource] at heval
    cases heval
  rcases hs.slot_of_not_mem hplace with hslot | ⟨v, hslot⟩
  · have hopenable : Openable me s o b r := ⟨ho, hlookup, hsource, hplace, hslot⟩
    have hrun := traces_carryOut hdepth (hopenable.consistent hs) ((hopenable.touches hs).mem ho) b.key r
      (s.opened me o b r).2
    rw [eval_produce_recipe _ hplace hsource hslot hs.unwaited] at heval ⊢
    rw [turns_produce_recipe _ hplace hsource hslot hs.unwaited]
    rcases hresult : (r.carryOut (requireWithin depth) o b.key (s.opened me o b r).2).eval me (s.opened me o b r).1 with
      ⟨(e | message | _) | v, u⟩ <;> rw [hresult] at heval <;> cases heval
    simp only [hresult, List.append_nil]
    exact .inr (.through hopenable (congrArg Prod.fst hresult) hs (hrun e u hresult) fun _ => isWayOut_of_mem_wayOut)
  · have hsettled := hs.settled o (o.place b) b ho ⟨rfl, hlookup⟩
    rw [hslot] at hsettled
    rw [eval_produce_ready hplace (hsettled.isKept v rfl) hslot hs.unwaited] at heval
    cases heval

theorem traces_requireWith (hdepth : (requireWithin depth).Traces me) (hs : Consistent me s) (hc : s.HasBuilt c)
    (k : Key) : Traces me s (c.requireWith (requireWithin depth) k) fun _ => False := by
  rcases howner : c.owner? k with _ | ⟨o, b⟩
  · intro f t hfailed
    rw [eval_requireWith_missing howner] at hfailed
    cases hfailed
    have hraises : Raises me ([] ++ [(.tell ⟨.error, "Tried to require an unbound key: " ++ k.text⟩, s)]) (.missing k) :=
      .missing hc howner
    rw [turns_requireWith_missing howner]
    exact .inr (.of_raises hraises rfl)
  · obtain rfl := Container.key_of_owner? howner
    exact traces_answer hdepth hs hc howner

/-- What is given last is told of last. -/
theorem answered_requireWith {require : Lookup} {v : Value} (h : (c.requireWith require k).eval me s = (.ok v, t)) :
    ∃ earlier u, (c.requireWith require k).turns me s = earlier ++ [(.note (.answered c k v), u)] := by
  rcases howner : c.owner? k with _ | ⟨o, b⟩
  · rw [eval_requireWith_missing howner] at h
    cases h
  · obtain rfl := Container.key_of_owner? howner
    rw [eval_requireWith howner] at h
    rw [turns_requireWith howner]
    rcases hproduce : (o.produce require b).eval me s with ⟨e | w, u⟩ <;> rw [hproduce] at h <;> cases h
    exact ⟨_, u, rfl⟩

theorem traces_requireWithin (me : Thread) (depth : Nat) : (requireWithin depth).Traces me := by
  induction depth with
  | zero => exact ⟨sound_requireWithin me 0, fun _ _ _ _ _ => .of_own nofun, fun _ _ _ _ _ h => nomatch h⟩
  | succ depth ih =>
      exact ⟨sound_requireWithin me (depth + 1), fun _ _ k hs hc => traces_requireWith ih hs hc k,
        fun _ _ _ _ _ h => answered_requireWith h⟩

theorem traces_require (me : Thread) : Container.require.Traces me where
  sound := sound_require me
  failed s c := (traces_requireWithin me (c.weight + 1)).failed s c
  answered s c := (traces_requireWithin me (c.weight + 1)).answered s c

end Lookup

/-! ### Accounts of failures -/

/-- Whatever an attempt fails for, the failure has the trail that it should have. If nothing was under construction at
the beginning, what was asked for while it was being constructed is on that trail. -/
structure Accounts {α : Type} (me : Thread) (s : Store) (x : Attempt Failure α) : Prop where
  traced : ∀ f t, x.eval me s = (.error (.failed f), t) → Traced me s (x.turns me s) f
  circular : s.building me = [] → ∀ f t k, x.eval me s = (.error (.failed f), t) → f.reason = .cyclic k → k ∈ f.trail

theorem Traces.accounts {α : Type} {x : Attempt Failure α} (h : Traces me s x fun _ => False) : Accounts me s x where
  traced f t hfailed := (h f t hfailed).resolve_left id
  circular hidle f t k hfailed hcyclic := by
    simpa [hidle] using ((h f t hfailed).resolve_left id).mem_of_cyclic hcyclic

/-- Whenever requests may be made, the trail of one that fails is what it had under construction when the reason arose:
of a request from outside, of one that a provider makes, and of the use of a lazy handle. -/
theorem Session.accounts_of_moment (h : Moment s) :
    (∀ c, s.HasBuilt c → (∀ k, Accounts Task.mainThread s (c.require k)) ∧
      (∀ r, Accounts Task.mainThread s (c.resolve r)) ∧
      ∀ depth requester r, Accounts Task.mainThread s (Handle.request (requireWithin depth) ⟨c, requester⟩ r)) ∧
    ∀ l : Lazy, Accounts Task.mainThread s l.use ∧
      ∀ depth, Accounts Task.mainThread s (l.get (requireWithin depth)) := by
  have hs := h.consistent
  refine ⟨fun c hc => ⟨fun k => ?_, fun r => ?_, fun depth requester r => ?_⟩, fun l => ⟨?_, fun depth => ?_⟩⟩
  · exact ((traces_require _).failed s c k hs hc).accounts
  · exact (traces_request (traces_require _) hs hc none r).accounts
  · exact (traces_request (traces_requireWithin _ depth) hs hc requester r).accounts
  · exact (traces_get (traces_require _) hs l).accounts
  · exact (traces_get (traces_requireWithin _ depth) hs l).accounts

namespace Valley

def shout : TypeInfo := ⟨1, "Shout", .number⟩

def echo : TypeInfo := ⟨2, "Echo", .number⟩

def silence : TypeInfo := ⟨3, "Silence", .number⟩

def shoutDraft : Draft := BindingOf.provider ⟨shout, "", [.ask (.untyped (.ofType echo)) none false], none⟩

/-- An echo that bears there being no silence, but needs the shout that needs it. -/
def echoDraft : Draft :=
  BindingOf.provider ⟨echo, "",
    [.ask (.untyped (.ofType silence)) none true, .ask (.resolve (.value (.ofType shout))) none false], none⟩

def listening : List Command :=
  [.newBuilder "b" none, .add "b" shoutDraft .given, .add "b" echoDraft .given, .build "b" "c" false]

def registry : Registry := ⟨[shoutDraft.realize 0, echoDraft.realize 0]⟩

def valley : Container := ⟨0, "container", registry, [], Graph.assemble registry []⟩

def quiet : Store := { (Session.empty.execAll listening).2.store with held := [valley] }

theorem hasBuilt_valley : (Session.empty.execAll listening).2.store.HasBuilt valley := List.mem_of_getLast? rfl

theorem idle_quiet : Session.Idle quiet := .after listening (by decide) [valley] (by simpa using hasBuilt_valley)

end Valley

open Valley in
/-- The missing silence is caught and leaves no trace; then the echo asks for the shout, within the shout. -/
theorem Session.accounts_valley : ∃ t, (valley.require (.ofType shout)).eval Task.mainThread quiet =
      (.error (.failed ⟨[.ofType shout, .ofType echo], .cyclic (.ofType shout)⟩), t) ∧
    Traced Task.mainThread quiet ((valley.require (.ofType shout)).turns Task.mainThread quiet)
      ⟨[.ofType shout, .ofType echo], .cyclic (.ofType shout)⟩ ∧
    Key.ofType shout ∈ [Key.ofType shout, .ofType echo] := by
  have h := ((accounts_of_moment (.idle idle_quiet)).1 valley hasBuilt_valley).1 (.ofType shout)
  have hfailed : (valley.require (.ofType shout)).eval Task.mainThread quiet =
      (.error (.failed ⟨[.ofType shout, .ofType echo], .cyclic (.ofType shout)⟩), _) := rfl
  exact ⟨_, hfailed, h.traced _ _ hfailed, h.circular rfl _ _ _ hfailed rfl⟩

end Injection
