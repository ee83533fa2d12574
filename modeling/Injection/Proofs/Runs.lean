import Injection.Proofs.Requests
import Injection.Session

/-!
Whole runs of a session with one thread. Between commands nothing is under construction, the store is consistent, and
all that is held by name was built or can be. Each command keeps it that way, also when it goes wrong, so it holds after
any number of them. What a command replies and names is what its request or its lazy handle brought.
-/

namespace Injection

namespace Names

variable {α : Type} {n : Names α} {name : String} {a b : α}

theorem mem_items_of_get? (h : n.get? name = some a) : a ∈ n.items := by
  obtain ⟨before, after, hentries, -⟩ := List.lookup_eq_some_iff.1 h
  rw [items, hentries]
  simp

theorem mem_items_of_erase (h : a ∈ (n.erase name).items) : a ∈ n.items :=
  (List.filter_sublist.map Prod.snd).subset h

theorem get?_set? (n : Names α) {name : Option String} {x : String} (hx : x ∈ name) (a : α) :
    (n.set? name a).get? x = some a := by
  obtain rfl := Option.mem_def.1 hx
  exact get?_set_self n x a

theorem mem_items_of_set (h : a ∈ (n.set name b).items) : a = b ∨ a ∈ n.items := by
  simp only [items, set, List.map_append, List.map_cons, List.map_nil, List.mem_append, List.mem_singleton] at h
  exact h.symm.imp_right mem_items_of_erase

end Names

/-- Whether a command leaves all work to the session's own thread. -/
def Command.isSingle : Command → Bool
  | .together _ _ => false
  | _ => true

namespace Session

/-- The session between commands. -/
structure Orderly (s : Session) : Prop where
  consistent : Consistent Task.mainThread s.store
  idle : s.store.building Task.mainThread = []
  containers : ∀ c ∈ s.containers.items, s.store.HasBuilt c
  builders : ∀ b ∈ s.builders.items, b.Proper s.store

namespace Orderly

variable {s : Session}

theorem with_store (h : s.Orderly) {store : Store} (hstore : Consistent Task.mainThread store)
    (hevolves : Evolves Task.mainThread s.store store) : Orderly { s with store } where
  consistent := hstore
  idle := hevolves.building.trans h.idle
  containers c hc := hevolves.hasBuilt (h.containers c hc)
  builders b hb := (h.builders b hb).mono hevolves

theorem setBuilder (h : s.Orderly) {b : Builder} (hb : b.Proper s.store) (name : String) :
    Orderly { s with builders := s.builders.set name b } where
  consistent := h.consistent
  idle := h.idle
  containers := h.containers
  builders c hc := (Names.mem_items_of_set hc).elim (fun heq => heq ▸ hb) (h.builders c)

theorem setContainer (h : s.Orderly) {c : Container} (hc : s.store.HasBuilt c) (name : String) :
    Orderly { s with containers := s.containers.set name c } where
  consistent := h.consistent
  idle := h.idle
  containers d hd := (Names.mem_items_of_set hd).elim (fun heq => heq ▸ hc) (h.containers d)
  builders := h.builders

end Orderly

/-! ### Replies -/

/-- A command makes known what was brought: in its reply, and under a name if it was given one. -/
structure Delivers (r : Resolved) (name : Option String) (reply : Reply) (t : Session) : Prop where
  plain : r.lazy? = none → reply = .resolved r
  handle : ∀ l ∈ r.lazy?, reply = .handle (t.store.found? l).isSome
  values : ∀ v ∈ r.value?, ∀ n ∈ name, t.values.get? n = some v
  lazies : ∀ l ∈ r.lazy?, ∀ n ∈ name, t.lazies.get? n = some l

/-- What a reply to a command, given in one session and answered in another, says of requests and lazy handles. -/
def Tells (s : Session) : Command → Reply → Session → Prop
  | .ask c request name, reply, t => ∃ d r, s.containers.get? c = some d ∧
      request.Brings s.store t.store d none r ∧ Delivers r name reply t
  | .use l name, reply, t => ∃ handle v, s.lazies.get? l = some handle ∧
      handle.Gives s.store t.store v ∧ Delivers (.value v) name reply t
  | .useInner v index name, reply, t => ∃ value handle w, s.values.get? v = some value ∧
      value.lazies[index]? = some handle ∧ handle.Gives s.store t.store w ∧ Delivers (.value w) name reply t
  | _, _, _ => True

namespace Task

variable {α β ε : Type} {s t : Session}

/-- The result of a task and the session after it. -/
def result (x : Task α) (s : Session) : Except Problem α × Session := x.run.run s

/-- A task, begun in an orderly session, leaves it so however it ends, forgets nothing of its history, and its result
satisfies the postcondition. -/
structure Keeps (s : Session) (x : Task α) (post : α → Session → Prop) : Prop where
  orderly : (x.result s).2.Orderly
  history : s.store.history ⊆ (x.result s).2.store.history
  result : ∀ a, (x.result s).1 = .ok a → post a (x.result s).2

theorem result_bind (x : Task α) (f : α → Task β) (s : Session) :
    (x >>= f).result s =
      match x.result s with
      | (.ok a, s) => (f a).result s
      | (.error e, s) => (.error e, s) := by
  simp only [Task.result, ExceptT.run_bind, StateT.run_bind]
  rcases x.run.run s with ⟨_ | a, t⟩ <;> rfl

@[simp] theorem result_get (s : Session) : (get : Task Session).result s = (.ok s, s) := rfl

@[simp] theorem result_set (s t : Session) : (set t : Task PUnit).result s = (.ok (), t) := rfl

@[simp] theorem result_pure (a : α) (s : Session) : (pure a : Task α).result s = (.ok a, s) := rfl

@[simp] theorem result_throw (e : Problem) (s : Session) : (throw e : Task α).result s = (.error e, s) := rfl

@[simp] theorem result_map (f : α → β) (x : Task α) (s : Session) :
    (f <$> x).result s = ((x.result s).1.map f, (x.result s).2) := by
  rw [← bind_pure_comp, result_bind]
  rcases x.result s with ⟨_ | a, t⟩ <;> rfl

/-- What a session makes of the outcome of an attempt. -/
def report (problem : ε → Problem) : Except (Stop ε) α → Except Problem α
  | .ok a => .ok a
  | .error (.failed e) => .error (problem e)
  | .error (.panicked message) => .error (.panic message)
  | .error .exhausted => .error .exhausted

theorem result_attempt (x : Attempt ε α) (problem : ε → Problem) (s : Session) :
    (attempt x problem).result s =
      (report problem (x.eval mainThread { s.store with held := s.held }).1,
        { s with store := (x.eval mainThread { s.store with held := s.held }).2 }) := by
  rcases heval : x.eval mainThread { s.store with held := s.held } with ⟨(_ | _ | _) | _, _⟩ <;>
    simp [attempt, result_bind, heval, report, Except.map]

namespace Keeps

variable {x : Task α} {post post' : α → Session → Prop}

theorem of_ok {a : α} (h : x.result s = (.ok a, t)) (ht : t.Orderly) (hhistory : s.store.history ⊆ t.store.history)
    (hpost : post a t) : Keeps s x post := by
  refine ⟨?_, ?_, ?_⟩ <;> rw [h]
  · exact ht
  · exact hhistory
  · rintro _ ⟨⟩
    exact hpost

theorem of_error {e : Problem} (h : x.result s = (.error e, t)) (ht : t.Orderly)
    (hhistory : s.store.history ⊆ t.store.history) : Keeps s x post := by
  refine ⟨?_, ?_, ?_⟩ <;> rw [h]
  · exact ht
  · exact hhistory
  · rintro _ ⟨⟩

protected theorem pure (h : s.Orderly) {a : α} (hpost : post a s) : Keeps s (pure a : Task α) post :=
  of_ok rfl h (List.Subset.refl _) hpost

protected theorem throw (h : s.Orderly) (e : Problem) : Keeps s (throw e : Task α) post :=
  of_error rfl h (List.Subset.refl _)

protected theorem bind {f : α → Task β} {post : β → Session → Prop} {mid : α → Session → Prop} (h : Keeps s x mid)
    (hf : ∀ a t, t.Orderly → s.store.history ⊆ t.store.history → mid a t → Keeps t (f a) post) :
    Keeps s (x >>= f) post := by
  obtain ⟨horderly, hhistory, hresult⟩ := h
  rcases hx : x.result s with ⟨e | a, t⟩
  · rw [hx] at horderly hhistory
    exact of_error (by rw [result_bind, hx]) horderly hhistory
  · rw [hx] at horderly hhistory hresult
    have hbind : (x >>= f).result s = (f a).result t := by rw [result_bind, hx]
    obtain ⟨horderly', hhistory', hresult'⟩ := hf a t horderly hhistory (hresult a rfl)
    rw [← hbind] at horderly' hhistory' hresult'
    exact ⟨horderly', List.Subset.trans hhistory hhistory', hresult'⟩

protected theorem get (h : s.Orderly) : Keeps s (get : Task Session) fun a t => a = s ∧ t = s :=
  of_ok rfl h (List.Subset.refl _) ⟨rfl, rfl⟩

protected theorem set (ht : t.Orderly) (hhistory : s.store.history ⊆ t.store.history) :
    Keeps s (set t : Task PUnit) fun _ _ => True :=
  of_ok rfl ht hhistory trivial

protected theorem modify (f : Session → Session) (h : (f s).Orderly)
    (hhistory : s.store.history ⊆ (f s).store.history) : Keeps s (modify f : Task PUnit) fun _ t => t = f s :=
  of_ok rfl h hhistory rfl

theorem weaken (h : Keeps s x post) (himp : ∀ a t, post a t → post' a t) : Keeps s x post' :=
  ⟨h.orderly, h.history, fun a ha => himp a _ (h.result a ha)⟩

end Keeps

section Steps

variable (h : s.Orderly)
include h

theorem keeps_attempt {x : Attempt ε α} (post : α → Store → Prop)
    (hx : ∀ store, Consistent mainThread store → Alike s.store store → Sound mainThread store x post)
    (problem : ε → Problem) : Keeps s (attempt x problem) fun a t => post a t.store := by
  have halike : Alike s.store { s.store with held := s.held } := ⟨rfl, rfl, rfl, rfl, rfl⟩
  obtain ⟨hconsistent, hevolves, hresult⟩ := hx _ (halike.consistent h.consistent) halike
  refine ⟨?_, ?_, ?_⟩ <;> rw [result_attempt]
  · exact h.with_store hconsistent (halike.evolves.trans hevolves)
  · exact hevolves.history.subset
  · intro a ha
    refine hresult a ?_
    rcases hresult : (x.eval mainThread { s.store with held := s.held }).1 with (_ | _ | _) | b <;>
      rw [hresult] at ha <;> cases ha
    rfl

theorem keeps_named (names : Session → Names α) (kind name : String) :
    Keeps s (named names kind name) fun a t => (names s).get? name = some a ∧ t = s := by
  refine (Keeps.get h).bind fun _ t ht _ hst => ?_
  obtain ⟨rfl, rfl⟩ := hst
  split
  · next a ha => exact .pure ht ⟨ha, rfl⟩
  · exact .throw ht _

theorem keeps_container (c : String) : Keeps s (container c) fun c t => t.store.HasBuilt c := by
  refine (keeps_named h Session.containers "container" c).weaken fun d _ hd => ?_
  obtain ⟨hget, rfl⟩ := hd
  exact h.containers d (Names.mem_items_of_get? hget)

theorem keeps_builder (b : String) : Keeps s (builder b) fun b t => b.Proper t.store := by
  refine (keeps_named h Session.builders "builder" b).weaken fun d _ hd => ?_
  obtain ⟨hget, rfl⟩ := hd
  exact h.builders d (Names.mem_items_of_get? hget)

theorem keeps_setBuilder {b : Builder} (hb : b.Proper s.store) (name : String) :
    Keeps s (setBuilder name b) fun _ _ => True :=
  (Keeps.modify _ (h.setBuilder hb name) (List.Subset.refl _)).bind fun _ _ ht _ _ => .pure ht trivial

theorem keeps_setContainer {c : Container} (hc : s.store.HasBuilt c) (name : String) :
    Keeps s (setContainer name c) fun _ _ => True :=
  (Keeps.modify _ (h.setContainer hc name) (List.Subset.refl _)).weaken fun _ _ _ => trivial

theorem keeps_setValue (name : Option String) (v : Value) :
    Keeps s (setValue name v) fun _ t => t = { s with values := s.values.set? name v } :=
  .modify _ ⟨h.consistent, h.idle, h.containers, h.builders⟩ (List.Subset.refl _)

theorem keeps_setHandle (name : Option String) (l : Lazy) :
    Keeps s (setHandle name l) fun _ t => t = { s with lazies := s.lazies.set? name l } :=
  .modify _ ⟨h.consistent, h.idle, h.containers, h.builders⟩ (List.Subset.refl _)

theorem keeps_setConfigs (name : String) (p : Configs) :
    Keeps s (setConfigs name p) fun _ t => t = { s with configs := s.configs.set name p } :=
  .modify _ ⟨h.consistent, h.idle, h.containers, h.builders⟩ (List.Subset.refl _)

theorem keeps_found (l : Lazy) : Keeps s (found l) fun v t => v = t.store.found? l ∧ t = s := by
  refine (Keeps.get h).bind fun _ t ht _ hst => ?_
  obtain ⟨rfl, rfl⟩ := hst
  exact .pure ht ⟨rfl, rfl⟩

theorem keeps_constructed (c : Container) : Keeps s (constructed c) fun _ _ => True :=
  (Keeps.get h).bind fun _ _ ht _ _ => .pure ht trivial

theorem keeps_innerHandle (v : String) (index : Nat) : Keeps s (innerHandle v index) fun l t =>
    (∃ value, s.values.get? v = some value ∧ value.lazies[index]? = some l) ∧ t = s := by
  refine (keeps_named h Session.values "value" v).bind fun value t ht _ hvalue => ?_
  obtain ⟨hget, rfl⟩ := hvalue
  split
  · next l hl => exact .pure ht ⟨⟨value, hget, hl⟩, rfl⟩
  · exact .throw ht _

theorem keeps_shownHandle (l : Lazy) (name : Option String) : Keeps s (do
    setHandle name l
    pure (Reply.handle (← found l).isSome)) fun reply t =>
      reply = .handle (t.store.found? l).isSome ∧ t = { s with lazies := s.lazies.set? name l } := by
  refine (keeps_setHandle h name l).bind fun _ t ht _ hst => ?_
  refine (keeps_found ht l).bind fun v u hu _ hv => ?_
  obtain ⟨rfl, rfl⟩ := hv
  exact .pure hu ⟨rfl, hst⟩

/-- The reply to what was brought, once the value in it has its name. -/
theorem keeps_reply (r : Resolved) (name : Option String)
    (hvalues : ∀ v ∈ r.value?, ∀ n ∈ name, s.values.get? n = some v) : Keeps s (do
      match r.lazy? with
      | some l => do
        setHandle name l
        pure (.handle (← found l).isSome)
      | none => pure (.resolved r)) fun reply t => t.store = s.store ∧ Delivers r name reply t := by
  rcases hl : r.lazy? with _ | l
  · exact .pure h ⟨rfl, fun _ => rfl, by simp [hl], hvalues, by simp [hl]⟩
  · refine (keeps_shownHandle h l name).weaken fun reply t hst => ?_
    obtain ⟨hreply, rfl⟩ := hst
    refine ⟨rfl, by simp [hl], fun a ha => ?_, hvalues, fun a ha n hn => ?_⟩ <;>
      obtain rfl := Option.some.inj (hl.symm.trans ha)
    · exact hreply
    · exact Names.get?_set? _ hn l

theorem keeps_bring (r : Resolved) (name : Option String) :
    Keeps s (bring r name) fun reply t => t.store = s.store ∧ Delivers r name reply t := by
  unfold bring
  rcases hv : r.value? with _ | v
  · exact keeps_reply h r name (by simp [hv])
  · refine (keeps_setValue h name v).bind fun _ t ht _ hst => ?_
    subst hst
    refine keeps_reply ht r name fun w hw n hn => ?_
    obtain rfl := Option.some.inj (hv.symm.trans hw)
    exact Names.get?_set? _ hn v

theorem keeps_useHandle (l : Lazy) (name : Option String) : Keeps s (useHandle l name) fun reply t =>
    ∃ v, l.Gives s.store t.store v ∧ Delivers (.value v) name reply t := by
  refine (keeps_attempt h (fun v t => l.Gives s.store t v) (fun store hstore halike => ?_) .request).bind
    fun v t ht _ hv => ?_
  · exact (sound_get (sound_require mainThread) hstore l).weaken fun _ _ hgives => hgives.congr halike.symm (.refl _)
  · exact (keeps_bring ht (.value v) name).weaken fun _ _ hdelivers => ⟨v, hdelivers.1 ▸ hv, hdelivers.2⟩

theorem keeps_make (draft : Draft) : Keeps s (perform draft.make) fun _ _ => True :=
  keeps_attempt h (fun _ _ => True) (fun _ hstore _ => sound_make hstore draft) id

theorem keeps_addBinding {b : Builder} (hb : b.Proper s.store) (name : String) (binding : Binding) (tries : Bool) :
    Keeps s (addBinding name b binding tries) fun _ _ => True := by
  refine (keeps_attempt h (fun _ t => b.Proper t) (fun store hstore halike => ?_) id).bind
    fun _ t ht _ hb => ?_
  · have hb : b.Proper store := hb.alike halike
    obtain ⟨hconsistent, hevolves, -⟩ := sound_tell? hstore (ε := Problem) (b.registry.event? binding)
    exact ⟨hconsistent, hevolves, fun _ _ => hb.mono hevolves⟩
  · split
    · split
      · next hadd => exact keeps_setBuilder ht (Builder.proper_of_tryAdd hb hadd) name
      · exact .throw ht _
    · exact keeps_setBuilder ht (hb.add binding) name

theorem keeps_addDraft (name : String) (draft : Draft) (tries : Bool) :
    Keeps s (addDraft name draft tries) fun _ _ => True := by
  refine (keeps_make h draft).bind fun binding t ht _ _ => ?_
  exact (keeps_builder ht name).bind fun b u hu _ hb => keeps_addBinding hu hb name binding tries

theorem keeps_resolve {c : Container} (hc : s.store.HasBuilt c) (r : Request) :
    Keeps s (attempt (c.resolve r) .request) fun resolved t => r.Brings s.store t.store c none resolved := by
  refine keeps_attempt h (fun resolved t => r.Brings s.store t c none resolved) (fun store hstore halike => ?_) .request
  have hc : store.HasBuilt c := (Store.hasBuilt_of_history_eq halike.history c).2 hc
  exact (sound_request (sound_require mainThread) hstore hc none r).weaken fun _ _ hbrings =>
    hbrings.congr halike.symm (.refl _)

theorem keeps_finish {b : Builder} (hb : b.Proper s.store) (eager : Bool) :
    Keeps s (attempt (b.finish eager) .build) fun c t => t.store.HasBuilt c := by
  refine keeps_attempt h (fun c t => t.HasBuilt c) (fun store hstore halike => ?_) .build
  exact sound_buildThen (sound_require mainThread) hstore (hb.alike halike) id eager (fun _ _ ht hc => .pure ht hc)
    fun _ _ _ hpost => hpost

/-- Each command of a session with one thread leaves the session orderly, and replies what was brought. -/
theorem keeps_exec {c : Command} (hsingle : c.isSingle = true) :
    Keeps s (exec c) fun reply t => s.Tells c reply t := by
  cases c with
  | newBuilder b label =>
      refine keeps_setBuilder h ?_ b
      cases label with
      | none => exact Builder.proper_new s.store
      | some label => exact ⟨(Builder.proper_new s.store).distinct, (Builder.proper_new s.store).parents⟩
  | child c b =>
      refine (keeps_container h c).bind fun c t ht _ hc => ?_
      exact keeps_setBuilder ht (Builder.proper_below hc) b
  | label b label =>
      refine (keeps_builder h b).bind fun d t ht _ hd => ?_
      exact keeps_setBuilder ht (b := d.withLabel label) ⟨hd.distinct, hd.parents⟩ b
  | parent b c =>
      refine (keeps_container h c).bind fun c t ht _ hc => ?_
      refine (keeps_builder ht b).bind fun d u hu htu hd => ?_
      refine keeps_setBuilder hu (b := d.withParent c) ⟨hd.distinct, fun p hp => ?_⟩ b
      rcases List.mem_append.1 hp with hp | hp
      · exact hd.parents p hp
      · exact List.mem_singleton.1 hp ▸ htu hc
  | add b draft adding =>
      cases adding with
      | given => exact keeps_addDraft h b draft false
      | tried => exact keeps_addDraft h b draft true
      | made =>
          refine (keeps_builder h b).bind fun d t ht _ hd => ?_
          refine (keeps_make ht draft).bind fun binding u hu htu _ => ?_
          exact keeps_addBinding hu ⟨hd.distinct, fun p hp => htu (hd.parents p hp)⟩ b binding false
  | peek b k => exact (keeps_builder h b).bind fun _ _ ht _ _ => .pure ht trivial
  | build b c eager =>
      refine (keeps_builder h b).bind fun d t ht _ hd => ?_
      have horderly : Orderly { t with builders := t.builders.erase b } :=
        ⟨ht.consistent, ht.idle, ht.containers, fun d hd => ht.builders d (Names.mem_items_of_erase hd)⟩
      refine (Keeps.modify _ horderly (List.Subset.refl _)).bind fun _ u hu htu _ => ?_
      have hd : d.Proper u.store := ⟨hd.distinct, fun p hp => htu (hd.parents p hp)⟩
      refine (keeps_finish hu hd eager).bind fun built v hv _ hbuilt => ?_
      refine (keeps_setContainer hv hbuilt c).bind fun _ w hw _ _ => ?_
      exact (keeps_constructed hw built).bind fun _ _ hx _ _ => .pure hx trivial
  | ask c r name =>
      refine (keeps_named h Session.containers "container" c).bind fun d t ht _ hd => ?_
      obtain ⟨hget, rfl⟩ := hd
      refine (keeps_resolve ht (h.containers d (Names.mem_items_of_get? hget)) r).bind fun resolved u hu _ hbrings => ?_
      refine (keeps_bring hu resolved name).weaken fun reply v hv => ?_
      exact ⟨d, resolved, hget, hv.1 ▸ hbrings, hv.2⟩
  | use l name =>
      refine (keeps_named h Session.lazies "lazy" l).bind fun l t ht _ hl => ?_
      obtain ⟨hget, rfl⟩ := hl
      exact (keeps_useHandle ht l name).weaken fun _ _ ⟨v, hv⟩ => ⟨l, v, hget, hv⟩
  | inspect l name =>
      refine (keeps_named h Session.lazies "lazy" l).bind fun l t ht _ _ => ?_
      refine (keeps_setHandle ht name l).bind fun _ u hu _ _ => ?_
      exact (keeps_found hu l).bind fun _ _ hv _ _ => .pure hv trivial
  | useInner v index name =>
      refine (keeps_innerHandle h v index).bind fun l t ht _ hl => ?_
      obtain ⟨⟨value, hget, hl⟩, rfl⟩ := hl
      exact (keeps_useHandle ht l name).weaken fun _ _ ⟨w, hw⟩ => ⟨value, l, w, hget, hl, hw⟩
  | inspectInner v index name =>
      exact (keeps_innerHandle h v index).bind fun l t ht _ _ =>
        (keeps_shownHandle ht l name).weaken fun _ _ _ => trivial
  | same v w =>
      refine (Keeps.get h).bind fun t u hu _ _ => ?_
      rcases t.values.get? v with _ | v <;> rcases t.values.get? w with _ | w
      · exact .throw hu _
      · exact .throw hu _
      · exact .throw hu _
      · exact .pure hu trivial
  | cast v type => exact (keeps_named h Session.values "value" v).bind fun _ _ ht _ _ => .pure ht trivial
  | info c =>
      refine (keeps_container h c).bind fun c t ht _ _ => ?_
      exact (Keeps.get ht).bind fun _ _ hu _ _ => .pure hu trivial
  | graph c => exact (keeps_container h c).bind fun _ _ ht _ _ => .pure ht trivial
  | root c k => exact (keeps_container h c).bind fun _ _ ht _ _ => .pure ht trivial
  | find c k => exact (keeps_container h c).bind fun _ _ ht _ _ => .pure ht trivial
  | rename c name =>
      refine (keeps_container h c).bind fun c t ht _ hc => ?_
      exact (keeps_setContainer ht hc name).bind fun _ _ hu _ _ => .pure hu trivial
  | ancestor c index name =>
      refine (keeps_container h c).bind fun c t ht _ hc => ?_
      split
      · next p hp =>
        have hp := (ht.consistent.parents c p hc (List.mem_of_getElem? hp)).1
        exact (keeps_setContainer ht hp name).bind fun _ _ hu _ _ => .pure hu trivial
      · exact .throw ht _
  | identical c d =>
      refine (keeps_container h c).bind fun c t ht _ _ => ?_
      exact (keeps_container ht d).bind fun _ _ hu _ _ => .pure hu trivial
  | drop c =>
      refine (Keeps.get h).bind fun t u hu _ htu => ?_
      obtain ⟨rfl, rfl⟩ := htu
      have horderly : Orderly { u with containers := u.containers.erase c } :=
        ⟨hu.consistent, hu.idle, fun d hd => hu.containers d (Names.mem_items_of_erase hd), hu.builders⟩
      exact (Keeps.set (s := u) horderly (List.Subset.refl _)).bind fun _ _ hv _ _ => .pure hv trivial
  | newConfigs p => exact (keeps_setConfigs h p .empty).bind fun _ _ ht _ _ => .pure ht trivial
  | addConfig p type tag =>
      refine (keeps_named h Session.configs "config provider" p).bind fun configs t ht _ _ => ?_
      refine (keeps_attempt ht (fun _ _ => True) (fun _ hstore _ => sound_nextSerial hstore) id).bind
        fun serial u hu _ _ => ?_
      rcases configs.add ⟨type, serial, tag⟩ with e | configs
      · exact .throw hu _
      · refine (keeps_attempt hu (fun _ _ => True) (fun _ hstore _ => sound_tell hstore _ _) id).bind
          fun _ v hv _ _ => ?_
        exact (keeps_setConfigs hv p configs).bind fun _ _ hw _ _ => .pure hw trivial
  | skipConfig p =>
      refine (keeps_named h Session.configs "config provider" p).bind fun configs t ht _ _ => ?_
      rcases configs.maybeAdd none with e | configs
      · exact .throw ht _
      · exact (keeps_setConfigs ht p configs).bind fun _ _ hu _ _ => .pure hu trivial
  | findConfig p type =>
      refine (keeps_named h Session.configs "config provider" p).bind fun configs t ht _ _ => ?_
      rcases configs.get type with e | found
      · exact .throw ht _
      · exact .pure ht trivial
  | countConfigs p =>
      exact (keeps_named h Session.configs "config provider" p).bind fun _ _ ht _ _ => .pure ht trivial
  | installConfigs b p =>
      refine (keeps_builder h b).bind fun d t ht _ hd => ?_
      refine (keeps_named ht Session.configs "config provider" p).bind fun configs u hu htu _ => ?_
      have horderly : Orderly { u with configs := u.configs.erase p } :=
        ⟨hu.consistent, hu.idle, hu.containers, hu.builders⟩
      refine (Keeps.modify _ horderly (List.Subset.refl _)).bind fun _ v hv huv _ => ?_
      refine (keeps_attempt hv (fun _ _ => True) (fun _ hstore _ => sound_numberConfigs hstore) id).bind
        fun id w hw hvw _ => ?_
      exact keeps_addBinding hw ⟨hd.distinct, fun p hp => hvw (huv (htu (hd.parents p hp)))⟩ b _ false
  | together c requests => cases hsingle

end Steps

end Task

/-! ### Runs -/

theorem orderly_empty : empty.Orderly where
  consistent := {
    numbered := by rintro c ⟨⟩
    unique := by rintro c d ⟨⟩
    linked := by rintro c ⟨⟩
    distinct := by rintro c ⟨⟩
    parents := by rintro c p ⟨⟩
    asked := by rintro c k v ⟨⟩
    owned := by rintro c k v ⟨⟩
    used := by rintro c k v ⟨⟩
    cells := by rintro id cell ⟨⟩
    fresh := fun _ _ => ⟨rfl, rfl, by rintro ⟨⟩⟩
    nodup := List.nodup_nil
    underway := by rintro p ⟨⟩
    computing := by rintro p t ⟨⟩
    unwaited := rfl
    refused := by rintro o p b ⟨⟩
    settled := by rintro o p b ⟨⟩
    typed := by rintro o p b v ⟨⟩ }
  idle := rfl
  containers := by rintro c ⟨⟩
  builders := by rintro b ⟨⟩

/-- The session as a command finds it. -/
theorem Orderly.quiet {s : Session} (h : s.Orderly) :
    Orderly { s with store := { s.store with calls := [], events := [] } } :=
  have halike : Alike s.store { s.store with calls := [], events := [] } := ⟨rfl, rfl, rfl, rfl, rfl⟩
  h.with_store (halike.consistent h.consistent) halike.evolves

theorem orderly_exec {s : Session} (h : s.Orderly) {c : Command} (hsingle : c.isSingle = true) :
    (s.exec c).2.Orderly := (Task.keeps_exec h.quiet hsingle).orderly

theorem Tells.of_alike {s t : Session} {store : Store} {c : Command} {reply : Reply}
    (h : Tells { s with store } c reply t) (halike : Alike store s.store) : s.Tells c reply t := by
  cases c with
  | ask c request name =>
      obtain ⟨d, r, hget, hbrings, hdelivers⟩ := h
      exact ⟨d, r, hget, hbrings.congr halike (.refl _), hdelivers⟩
  | use l name =>
      obtain ⟨handle, v, hget, hgives, hdelivers⟩ := h
      exact ⟨handle, v, hget, hgives.congr halike (.refl _), hdelivers⟩
  | useInner v index name =>
      obtain ⟨value, handle, w, hget, hhandle, hgives, hdelivers⟩ := h
      exact ⟨value, handle, w, hget, hhandle, hgives.congr halike (.refl _), hdelivers⟩
  | _ => trivial

theorem tells_exec {s : Session} (h : s.Orderly) {c : Command} (hsingle : c.isSingle = true) {reply : Reply}
    (hreply : (s.exec c).1.reply = .ok reply) : s.Tells c reply (s.exec c).2 :=
  ((Task.keeps_exec h.quiet hsingle).result reply hreply).of_alike ⟨rfl, rfl, rfl, rfl, rfl⟩

theorem orderly_execAll {s : Session} (h : s.Orderly) {cmds : List Command}
    (hsingle : ∀ c ∈ cmds, c.isSingle = true) : (s.execAll cmds).2.Orderly := by
  induction cmds generalizing s with
  | nil => exact h
  | cons c cmds ih =>
      exact ih (orderly_exec h (hsingle c List.mem_cons_self)) fun d hd => hsingle d (List.mem_cons_of_mem c hd)

end Session

end Injection
